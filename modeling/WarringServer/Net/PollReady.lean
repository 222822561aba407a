import WarringServer.Net.Poller

/-!
# What a poll reports

`::poll` marks the ready entries of `mPollfds` and returns their number; `PollPoller::poll`
looks through the entries for that many. It counts every entry it passes, ready or not, so
that it reports the first ones of the table.

* `scan_eq` — the handlers reported are those of the first `readyNum` entries;
* `poll_ready_iff` — they are those of the ready entries exactly if the ready entries come
  first.
-/

namespace WarringServer.Net

/-- `mEventHandlerHash.find` -/
def HandlerHash.findFD (hash : HandlerHash) (fd : Int) : Option EventHandler := hash.lookup fd

/-- An entry of `mPollfds` as `::poll` leaves it. -/
structure PolledEntry where
  fd : Int
  revents : BitVec 16
  deriving DecidableEq, Repr

def PolledEntry.ready (entry : PolledEntry) : Bool := entry.revents ≠ 0

/-- What a handler's `mRevents` is set to: the `short` as an `int`. -/
def PolledEntry.mRevents (entry : PolledEntry) : BitVec 32 := entry.revents.signExtend 32

/-- The output parameter of `poll`, and the handlers' `mRevents`. -/
structure Reports where
  eventHandlers : List EventHandler
  mRevents : EventHandler → BitVec 32

/-- The body of the loop in `poll`. -/
def Reports.report (r : Reports) (hash : HandlerHash) (entry : PolledEntry) : Reports :=
  match hash.findFD entry.fd with
  | none => r
  | some h =>
    { eventHandlers := r.eventHandlers ++ [h]
      mRevents := Function.update r.mRevents h entry.mRevents }

namespace PollPoller

/-- The loop of `poll`. Every entry is counted. -/
def scan (hash : HandlerHash) (r : Reports) : List PolledEntry → Int → Reports
  | [], _ => r
  | entry :: entries, readyNum =>
    if readyNum > 0 then scan hash (r.report hash entry) entries (readyNum - 1) else r

/-- The table behind `::poll`. -/
def polled (p : PollPoller) (revents : Nat → BitVec 16) : List PolledEntry :=
  p.mPollfds.mapIdx fun i entry => ⟨entry.fd, revents i⟩

/-- `poll`, with the two results of `::poll`. The times it takes are left out. -/
def poll (p : PollPoller) (revents : Nat → BitVec 16) (readyNum : Int) (r : Reports) : Reports :=
  if readyNum > 0 then scan p.mEventHandlerHash r (p.polled revents) readyNum else r

/-- What `::poll` returns. -/
def readyNum (p : PollPoller) (revents : Nat → BitVec 16) : Nat :=
  (p.polled revents).countP PolledEntry.ready

/-- The handler of an entry, with what the entry has for it. -/
def addressee (hash : HandlerHash) (entry : PolledEntry) : Option (EventHandler × BitVec 32) :=
  (hash.findFD entry.fd).map fun h => (h, entry.mRevents)

/-- The handlers of the ready entries, each with its `revents`. -/
def expected (p : PollPoller) (revents : Nat → BitVec 16) : List (EventHandler × BitVec 32) :=
  ((p.polled revents).filter PolledEntry.ready).filterMap (addressee p.mEventHandlerHash)

/-- What is appended are the handlers of the ready entries, each once, and each has got the
`revents` of its entry. -/
def ReportsReady (p : PollPoller) (revents : Nat → BitVec 16) (r : Reports) : Prop :=
  ∃ appended, (p.poll revents (p.readyNum revents) r).eventHandlers = r.eventHandlers ++ appended ∧
    appended.Nodup ∧
    (appended.map fun h => (h, (p.poll revents (p.readyNum revents) r).mRevents h)).Perm
      (p.expected revents)

/-- Among the entries with a handler, the ready ones are the first `readyNum` of the table,
and no two of them have one handler. -/
structure ReadyFirst (p : PollPoller) (revents : Nat → BitVec 16) : Prop where
  first : ∀ i entry, (p.polled revents)[i]? = some entry →
    (p.mEventHandlerHash.findFD entry.fd).isSome →
    (entry.ready = true ↔ i < p.readyNum revents)
  distinct : ((p.expected revents).map Prod.fst).Nodup

-- ---------------------------------------------------------------------------
-- The loop
-- ---------------------------------------------------------------------------

section

variable {hash : HandlerHash} {r : Reports} {entries : List PolledEntry} {k : Nat}

theorem scan_eq : (scan hash r entries k).eventHandlers =
    r.eventHandlers ++ (entries.take k).filterMap fun entry => hash.findFD entry.fd := by
  induction entries generalizing r k with
  | nil => simp [scan]
  | cons entry entries ih =>
    cases k with
    | zero => simp [scan]
    | succ k =>
      have hNext : ((k + 1 : Nat) : Int) - 1 = k := by omega
      rw [scan, if_pos (by omega), hNext, ih, List.take_succ_cons, List.filterMap_cons]
      unfold Reports.report
      cases hash.findFD entry.fd with
      | none => rfl
      | some h => simp

/-- A handler that is not met keeps its `mRevents`. -/
theorem scan_mRevents_of_notMem {h : EventHandler}
    (hMem : h ∉ (entries.take k).filterMap fun entry => hash.findFD entry.fd) :
    (scan hash r entries k).mRevents h = r.mRevents h := by
  induction entries generalizing r k with
  | nil => rfl
  | cons entry entries ih =>
    cases k with
    | zero => simp [scan]
    | succ k =>
      have hNext : ((k + 1 : Nat) : Int) - 1 = k := by omega
      rw [List.take_succ_cons, List.filterMap_cons] at hMem
      rw [scan, if_pos (by omega), hNext]
      unfold Reports.report
      cases hFind : hash.findFD entry.fd with
      | none =>
        rw [hFind] at hMem
        exact ih hMem
      | some h' =>
        rw [hFind] at hMem
        obtain ⟨hOther, hRest⟩ := not_or.mp (mt List.mem_cons.mpr hMem)
        rw [ih hRest]
        dsimp only
        rw [Function.update_of_ne hOther]

/-- Handlers that are met once have the `revents` of their entry in the end. -/
theorem scan_mRevents
    (hNodup : ((entries.take k).filterMap fun entry => hash.findFD entry.fd).Nodup) :
    (((entries.take k).filterMap fun entry => hash.findFD entry.fd).map fun h =>
      (h, (scan hash r entries k).mRevents h)) = (entries.take k).filterMap (addressee hash) := by
  induction entries generalizing r k with
  | nil => simp
  | cons entry entries ih =>
    cases k with
    | zero => simp
    | succ k =>
      have hNext : ((k + 1 : Nat) : Int) - 1 = k := by omega
      rw [List.take_succ_cons, List.filterMap_cons] at hNodup ⊢
      rw [scan, if_pos (by omega), hNext, List.filterMap_cons]
      unfold Reports.report
      cases hFind : hash.findFD entry.fd with
      | none =>
        rw [hFind] at hNodup
        rw [addressee, hFind]
        exact ih hNodup
      | some h =>
        rw [hFind] at hNodup
        obtain ⟨hOnce, hRest⟩ := List.nodup_cons.mp hNodup
        rw [addressee, hFind]
        dsimp only [Option.map_some]
        rw [List.map_cons, ih hRest, scan_mRevents_of_notMem hOnce]
        dsimp only
        rw [Function.update_self]

end

-- ---------------------------------------------------------------------------
-- Ready entries
-- ---------------------------------------------------------------------------

theorem mRevents_eq_zero {entry : PolledEntry} : entry.mRevents = 0 ↔ entry.ready = false := by
  have hSame : entry.mRevents.toInt = entry.revents.toInt :=
    BitVec.toInt_signExtend_of_le (by decide)
  have hZero : entry.ready = false ↔ entry.revents = 0 := by simp [PolledEntry.ready]
  rw [hZero, ← BitVec.toInt_inj, ← BitVec.toInt_inj, hSame]
  rfl

section

variable {hash : HandlerHash} {entries : List PolledEntry} {k : Nat}

theorem isSome_addressee {entry : PolledEntry} :
    (addressee hash entry).isSome = (hash.findFD entry.fd).isSome := Option.isSome_map

/-- The entries with a handler among the first `k` are ready, and the later ones are not. -/
structure Aligned (hash : HandlerHash) (entries : List PolledEntry) (k : Nat) : Prop where
  early : ∀ entry ∈ entries.take k, (hash.findFD entry.fd).isSome → entry.ready = true
  late : ∀ entry ∈ entries.drop k, (hash.findFD entry.fd).isSome → entry.ready = false

theorem aligned_iff : Aligned hash entries k ↔ ∀ i entry, entries[i]? = some entry →
    (hash.findFD entry.fd).isSome → (entry.ready = true ↔ i < k) := by
  constructor
  · rintro ⟨hEarly, hLate⟩ i entry hEntry hSome
    rcases Nat.lt_or_ge i k with hLt | hGe
    · have hMem : entry ∈ entries.take k :=
        List.mem_of_getElem? (i := i) (by rw [List.getElem?_take_of_lt hLt, hEntry])
      exact iff_of_true (hEarly entry hMem hSome) hLt
    · have hMem : entry ∈ entries.drop k :=
        List.mem_of_getElem? (i := i - k) (by
          rw [List.getElem?_drop, Nat.add_sub_cancel' hGe, hEntry])
      exact iff_of_false (by simp [hLate entry hMem hSome]) (Nat.not_lt.mpr hGe)
  · intro hFirst
    constructor
    · intro entry hMem hSome
      obtain ⟨i, hi⟩ := List.getElem?_of_mem hMem
      have hLt : i < k := by
        have hLength := (List.getElem?_eq_some_iff.mp hi).1
        rw [List.length_take] at hLength
        omega
      rw [List.getElem?_take_of_lt hLt] at hi
      exact (hFirst i entry hi hSome).mpr hLt
    · intro entry hMem hSome
      obtain ⟨i, hi⟩ := List.getElem?_of_mem hMem
      rw [List.getElem?_drop] at hi
      by_contra hReady
      have hLt := (hFirst (k + i) entry hi hSome).mp (by simpa using hReady)
      omega

/-- Entries that are ready if they have a handler. -/
theorem filter_ready_of_all {l : List PolledEntry}
    (h : ∀ entry ∈ l, (hash.findFD entry.fd).isSome → entry.ready = true) :
    (l.filter PolledEntry.ready).filterMap (addressee hash) = l.filterMap (addressee hash) := by
  induction l with
  | nil => rfl
  | cons entry l ih =>
    have hRest := ih fun e he => h e (List.mem_cons_of_mem _ he)
    cases hAddressee : addressee hash entry with
    | none =>
      rw [List.filterMap_cons_none hAddressee, List.filter_cons]
      split
      · rw [List.filterMap_cons_none hAddressee, hRest]
      · exact hRest
    | some x =>
      have hReady : entry.ready = true :=
        h entry List.mem_cons_self (by rw [← isSome_addressee, hAddressee]; rfl)
      rw [List.filter_cons_of_pos hReady, List.filterMap_cons_some hAddressee,
        List.filterMap_cons_some hAddressee, hRest]

/-- **The scan** meets what is ready exactly if the table is aligned. -/
theorem perm_iff_aligned :
    ((entries.take k).filterMap (addressee hash)).Perm
      ((entries.filter PolledEntry.ready).filterMap (addressee hash)) ↔
    Aligned hash entries k := by
  have hSplit : (entries.filter PolledEntry.ready).filterMap (addressee hash) =
      ((entries.take k).filter PolledEntry.ready).filterMap (addressee hash) ++
        ((entries.drop k).filter PolledEntry.ready).filterMap (addressee hash) := by
    rw [← List.filterMap_append, ← List.filter_append, List.take_append_drop]
  constructor
  · intro hPerm
    -- all that is reported has some `revents`
    have hEarly : ∀ entry ∈ entries.take k, (hash.findFD entry.fd).isSome →
        entry.ready = true := by
      intro entry hMem hSome
      obtain ⟨h, hFind⟩ := Option.isSome_iff_exists.mp hSome
      have hReported : (h, entry.mRevents) ∈ (entries.take k).filterMap (addressee hash) :=
        List.mem_filterMap.mpr ⟨entry, hMem, by rw [addressee, hFind]; rfl⟩
      obtain ⟨entry', hMem', hAddressee⟩ := List.mem_filterMap.mp (hPerm.subset hReported)
      obtain ⟨h', -, hPair⟩ := Option.map_eq_some_iff.mp hAddressee
      by_contra hNot
      have hZero : entry'.mRevents = 0 :=
        (Prod.mk.inj hPair).2.trans (mRevents_eq_zero.mpr (by simpa using hNot))
      have hReady := (List.mem_filter.mp hMem').2
      rw [mRevents_eq_zero.mp hZero] at hReady
      cases hReady
    refine ⟨hEarly, fun entry hMem hSome => ?_⟩
    -- so that nothing is left for the later ones
    have hLength := hPerm.length_eq
    rw [hSplit, filter_ready_of_all hEarly, List.length_append] at hLength
    have hNil : ((entries.drop k).filter PolledEntry.ready).filterMap (addressee hash) = [] :=
      List.length_eq_zero_iff.mp (by omega)
    by_contra hReady
    have hLate := List.filterMap_eq_nil_iff.mp hNil entry
      (List.mem_filter.mpr ⟨hMem, by simpa using hReady⟩)
    rw [← isSome_addressee, hLate] at hSome
    cases hSome
  · rintro ⟨hEarly, hLate⟩
    have hNil : ((entries.drop k).filter PolledEntry.ready).filterMap (addressee hash) = [] := by
      refine List.filterMap_eq_nil_iff.mpr ?_
      intro entry hMem
      obtain ⟨hMem, hReady⟩ := List.mem_filter.mp hMem
      rw [← Option.not_isSome_iff_eq_none, isSome_addressee]
      intro hSome
      rw [hLate entry hMem hSome] at hReady
      cases hReady
    rw [hSplit, filter_ready_of_all hEarly, hNil, List.append_nil]

theorem filterMap_findFD : entries.filterMap (fun entry => hash.findFD entry.fd) =
    (entries.filterMap (addressee hash)).map Prod.fst := by
  rw [List.map_filterMap]
  refine List.filterMap_congr ?_
  intro entry _
  rw [addressee, Option.map_map]
  exact (Option.map_id' ..).symm

end

-- ---------------------------------------------------------------------------
-- Calls
-- ---------------------------------------------------------------------------

section

variable (p : PollPoller) (revents : Nat → BitVec 16)

theorem poll_eq_scan (k : Nat) (r : Reports) :
    p.poll revents k r = scan p.mEventHandlerHash r (p.polled revents) k := by
  unfold poll
  split
  · rfl
  · rename_i hZero
    cases hEntries : p.polled revents with
    | nil => rfl
    | cons entry entries => rw [scan, if_neg hZero]

/-- **Ready handlers.** A call reports the handlers of the ready entries, each once and with
its `revents`, exactly if the ready entries come first in the table. -/
theorem poll_ready_iff (r : Reports) : p.ReportsReady revents r ↔ p.ReadyFirst revents := by
  obtain ⟨k, hk⟩ : ∃ k, p.readyNum revents = k := ⟨_, rfl⟩
  obtain ⟨met, hMet⟩ : ∃ met, ((p.polled revents).take k).filterMap
    (addressee p.mEventHandlerHash) = met := ⟨_, rfl⟩
  have hAppended : ((p.polled revents).take k).filterMap
      (fun entry => p.mEventHandlerHash.findFD entry.fd) = met.map Prod.fst := by
    rw [filterMap_findFD, hMet]
  have hHandlers : (p.poll revents k r).eventHandlers = r.eventHandlers ++ met.map Prod.fst := by
    rw [poll_eq_scan, scan_eq, hAppended]
  have hRevents (hOnce : (met.map Prod.fst).Nodup) :
      ((met.map Prod.fst).map fun h => (h, (p.poll revents k r).mRevents h)) = met := by
    rw [poll_eq_scan, ← hAppended, scan_mRevents (hAppended ▸ hOnce), hMet]
  have hAligned : met.Perm (p.expected revents) ↔
      Aligned p.mEventHandlerHash (p.polled revents) k := hMet ▸ perm_iff_aligned
  unfold ReportsReady
  rw [hk]
  constructor
  · rintro ⟨appended, hAppend, hOnce, hPerm⟩
    obtain rfl := List.append_cancel_left (hHandlers.symm.trans hAppend)
    rw [hRevents hOnce] at hPerm
    exact ⟨hk ▸ aligned_iff.mp (hAligned.mp hPerm), (hPerm.map Prod.fst).nodup_iff.mp hOnce⟩
  · rintro ⟨hFirst, hDistinct⟩
    have hPerm := hAligned.mpr (aligned_iff.mpr (hk ▸ hFirst))
    have hOnce := (hPerm.map Prod.fst).nodup_iff.mpr hDistinct
    exact ⟨met.map Prod.fst, hHandlers, hOnce, (hRevents hOnce).symm ▸ hPerm⟩

end

/-- Two handlers, of which the second is ready. -/
def secondReady : PollPoller where
  mEventHandlerHash := (HandlerHash.emplace ∅ ⟨0, 3⟩).emplace ⟨1, 4⟩
  mPollfds := [⟨3, 3⟩, ⟨4, 3⟩]
  mIndex h := if h.mFD = 3 then 0 else 1

/-- The first one is reported. -/
theorem not_poll_ready : ¬ ∀ (p : PollPoller) (revents : Nat → BitVec 16) (r : Reports),
    (∀ entry ∈ p.mPollfds, 0 ≤ entry.fd → (p.mEventHandlerHash.findFD entry.fd).isSome) →
      p.ReportsReady revents r := by
  intro h
  obtain ⟨appended, hAppend, -, hPerm⟩ :=
    h secondReady (fun i => if i = 1 then 1 else 0) ⟨[], fun _ => 0⟩ (by decide)
  obtain rfl : appended = [⟨0, 3⟩] := hAppend.symm
  have hMem : (⟨1, 4⟩, 1) ∈ [((⟨0, 3⟩, 0) : EventHandler × BitVec 32)] :=
    hPerm.symm.subset List.mem_cons_self
  exact absurd hMem (by decide)

end PollPoller

end WarringServer.Net
