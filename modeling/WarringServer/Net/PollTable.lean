import WarringServer.Net.PollerRefine

/-!
# The table of a `PollPoller`

The index of a handler is the position of its entry in `mPollfds`. An entry is removed by a
swap with the last one, whose handler is found by its descriptor, negated or not, and gets
another index.

Two things come in between. The events of an entry are a `short`, so that more bits are cut
off. And a negative descriptor looks like a negated one: an entry of it is taken for another
descriptor's, which shows when it is the last one and fills a gap.

* `Tracks.registerEventHandler`, `Tracks.update`, `Tracks.remove` — each call keeps the
  handlers that are updated and the positions in step, if neither happens;
* `poll_table_iff` — so does a run, exactly if no call of it meets one of the two.
-/

namespace WarringServer.Net

/-- What has been done with a handler. -/
inductive Stage where
  | fresh
  | registered
  /-- At least once, and the last time with these events. -/
  | updated (events : BitVec 32)
  | removed
  deriving DecidableEq, Repr

namespace Stage

def isRegistered : Stage → Bool
  | .registered | .updated _ => true
  | .fresh | .removed => false

def register : Stage → Stage
  | .fresh => .registered
  | .registered => .registered
  | .updated events => .updated events
  | .removed => .removed

def update (events : BitVec 32) : Stage → Stage
  | .registered | .updated _ => .updated events
  | .fresh => .fresh
  | .removed => .removed

end Stage

/-- The entry of a handler: its descriptor, negated if it was disabled, and its events. -/
def Pollfd.Shows (entry : Pollfd) (h : EventHandler) (events : BitVec 32) : Prop :=
  entry.events.setWidth 32 = events ∧
    (entry.fd = h.mFD ∨ entry.fd = -h.mFD - 1 ∧ events = 0)

/-- The handlers that are registered and were updated. -/
def updated (stage : EventHandler → Stage) : Set EventHandler :=
  {h | ∃ events, stage h = .updated events}

inductive TableCall where
  | registerEventHandler (h : EventHandler)
  /-- `events` are those of `h`. -/
  | update (h : EventHandler) (events : BitVec 32)
  | remove (h : EventHandler)
  deriving DecidableEq, Repr

/-- No negative descriptor, and events that fit a `short`. -/
def TableCall.Usual : TableCall → Prop
  | .registerEventHandler _ | .remove _ => True
  | .update h events => 0 ≤ h.mFD ∧ (events.setWidth 16).setWidth 32 = events

instance : ∀ call : TableCall, Decidable call.Usual
  | .registerEventHandler _ | .remove _ => isTrue trivial
  | .update h events =>
    inferInstanceAs (Decidable (0 ≤ h.mFD ∧ (events.setWidth 16).setWidth 32 = events))

/-- A poller, and what its users have done. `poll` is `none` once a call has failed. -/
structure PollTable where
  poll : Option PollPoller
  stage : EventHandler → Stage

/-- The entry at the index of a handler. -/
def PollPoller.entryOf (p : PollPoller) (h : EventHandler) : Option Pollfd :=
  if p.mIndex h < 0 then none else p.mPollfds[(p.mIndex h).toNat]?

namespace PollTable

def new : PollTable where
  poll := some .new
  stage := fun _ => .fresh

def step (s : PollTable) : TableCall → PollTable
  | .registerEventHandler h =>
    { poll := s.poll.map (·.registerEventHandler h)
      stage := Function.update s.stage h (s.stage h).register }
  | .update h events =>
    { poll := s.poll.bind (·.update h events)
      stage := Function.update s.stage h ((s.stage h).update events) }
  | .remove h =>
    { poll := s.poll.bind (·.remove h)
      stage := Function.update s.stage h .removed }

/-- No call for a removed handler, no two registered handlers with one descriptor, and no
update before a handler is registered. -/
def Allowed (s : PollTable) : TableCall → Prop
  | .registerEventHandler h => s.stage h ≠ .removed ∧
    ∀ h', (s.stage h').isRegistered = true → h'.mFD = h.mFD → h' = h
  | .update h _ => (s.stage h).isRegistered = true
  | .remove h => s.stage h ≠ .removed

def entryOf (s : PollTable) (h : EventHandler) : Option Pollfd := s.poll.bind (·.entryOf h)

/-- No call has failed, the indices are the positions of the table, and the entry at an index
is that of its handler. -/
def Consistent (s : PollTable) : Prop :=
  ∃ p, s.poll = some p ∧
    Set.BijOn p.mIndex (updated s.stage) {i | 0 ≤ i ∧ i < p.mPollfds.length} ∧
    ∀ h events, s.stage h = .updated events → ∃ entry, s.entryOf h = some entry ∧
      entry.Shows h events

/-- The handler whose entry is the last one of the table. -/
def AtEnd (s : PollTable) (last : EventHandler) : Prop :=
  ∃ p, s.poll = some p ∧ last ∈ updated s.stage ∧ p.mIndex last = p.mPollfds.length - 1

/-- The events of an update fit a `short`, and the last entry of the table is not that of a
negative descriptor when it has to fill a gap. -/
def Fits (s : PollTable) : TableCall → Prop
  | .registerEventHandler _ => True
  | .update _ events => (events.setWidth 16).setWidth 32 = events
  | .remove h => h ∈ updated s.stage → ∀ last, s.AtEnd last → last = h ∨ 0 ≤ last.mFD

/-- `remove` leaves the entries of the other handlers as they are. -/
def Keeps (s : PollTable) : TableCall → Prop
  | .registerEventHandler _ | .update _ _ => True
  | .remove h => ∀ h' ∈ updated s.stage, h' ≠ h → (s.step (.remove h)).entryOf h' = s.entryOf h'

end PollTable

-- ---------------------------------------------------------------------------
-- Stages
-- ---------------------------------------------------------------------------

section

variable {stage : EventHandler → Stage} {h h' : EventHandler} {events : BitVec 32}

theorem mem_updated : h ∈ updated stage ↔ ∃ events, stage h = .updated events := Iff.rfl

theorem isRegistered_of_updated (hUpdated : h ∈ updated stage) :
    (stage h).isRegistered = true := by
  obtain ⟨events, hStage⟩ := hUpdated
  rw [hStage]
  rfl

/-- A stage that is not that of an updated handler, before and after. -/
theorem updated_update_of_notMem {new : Stage} (hOld : h ∉ updated stage)
    (hNew : ∀ events, new ≠ .updated events) :
    updated (Function.update stage h new) = updated stage := by
  ext h'
  by_cases hIs : h' = h
  · subst hIs
    refine iff_of_false (fun ⟨events, hStage⟩ => hNew events ?_) hOld
    rwa [Function.update_self] at hStage
  · rw [mem_updated, Function.update_of_ne hIs, mem_updated]

theorem updated_update_updated :
    updated (Function.update stage h (.updated events)) = insert h (updated stage) := by
  ext h'
  rw [Set.mem_insert_iff, mem_updated]
  by_cases hIs : h' = h
  · rw [hIs, Function.update_self]
    exact iff_of_true ⟨events, rfl⟩ (Or.inl rfl)
  · rw [Function.update_of_ne hIs, or_iff_right hIs, mem_updated]

theorem updated_update_removed :
    updated (Function.update stage h .removed) = updated stage \ {h} := by
  ext h'
  rw [Set.mem_sdiff, Set.mem_singleton_iff, mem_updated]
  by_cases hIs : h' = h
  · rw [hIs, Function.update_self]
    exact iff_of_false (fun ⟨events, hStage⟩ => nomatch hStage) fun hBoth => hBoth.2 rfl
  · rw [Function.update_of_ne hIs, and_iff_left hIs, mem_updated]

end

-- ---------------------------------------------------------------------------
-- Calls
-- ---------------------------------------------------------------------------

/-- The descriptor is decoded if it is one, -/
theorem Pollfd.Shows.lastFD {entry : Pollfd} {h : EventHandler} {events : BitVec 32}
    (hShows : entry.Shows h events) (hNonneg : 0 ≤ h.mFD) :
    PollPoller.lastFD entry = h.mFD := by
  unfold PollPoller.lastFD
  rcases hShows.2 with hFD | ⟨hFD, -⟩
  · rw [hFD, if_neg (by omega)]
  · rw [hFD, if_pos (by omega)]
    omega

/-- and not if it is negative, whether the entry is negated or not. -/
theorem Pollfd.Shows.lastFD_of_neg {entry : Pollfd} {h : EventHandler} {events : BitVec 32}
    (hShows : entry.Shows h events) (hNeg : h.mFD < 0) :
    PollPoller.lastFD entry = -h.mFD - 1 := by
  unfold PollPoller.lastFD
  rcases hShows.2 with hFD | ⟨hFD, -⟩
  · rw [hFD, if_pos hNeg]
  · rw [hFD, if_neg (by omega)]

namespace PollPoller

/-- The poller and what its users have done. -/
structure Tracks (p : PollPoller) (stage : EventHandler → Stage) : Prop where
  waiting : ∀ h, stage h = .fresh ∨ stage h = .registered → p.mIndex h < 0
  indexed : ∀ h ∈ updated stage, 0 ≤ p.mIndex h
  placed : SwapRemove.Placed (updated stage) (place p.mIndex) p.mPollfds
  shows : ∀ h events, stage h = .updated events → ∃ entry,
    p.mPollfds[place p.mIndex h]? = some entry ∧ entry.Shows h events
  hashed : ∀ h ∈ updated stage, p.mEventHandlerHash.lookup h.mFD = some h
  keyed : ∀ fd owner, p.mEventHandlerHash.lookup fd = some owner → owner.mFD = fd
  known : ∀ h, (stage h).isRegistered = true → ∃ owner,
    p.mEventHandlerHash.lookup h.mFD = some owner
  distinct : ∀ h h', (stage h).isRegistered = true → (stage h').isRegistered = true →
    h.mFD = h'.mFD → h = h'

variable {p : PollPoller} {stage : EventHandler → Stage} {h : EventHandler}

theorem tracks_new : new.Tracks fun _ => .fresh where
  waiting _ _ := Int.negSucc_lt_zero 0
  indexed _ hUpdated := nomatch hUpdated
  placed := by
    have hNone : updated (fun _ => .fresh) = ∅ :=
      Set.eq_empty_of_forall_notMem fun _ hUpdated => nomatch hUpdated
    rw [hNone]
    exact SwapRemove.placed_nil
  shows _ _ hStage := nomatch hStage
  hashed _ hUpdated := nomatch hUpdated
  keyed _ _ hLookup := nomatch hLookup
  known _ hRegistered := nomatch hRegistered
  distinct _ _ hRegistered := nomatch hRegistered

theorem entryOf_of_nonneg (hIndex : 0 ≤ p.mIndex h) :
    p.entryOf h = p.mPollfds[place p.mIndex h]? :=
  if_neg (Int.not_lt.mpr hIndex)

/-- The indices of the updated handlers are the positions of the table. -/
theorem Tracks.bijOn (hTracks : p.Tracks stage) :
    Set.BijOn p.mIndex (updated stage) {i | 0 ≤ i ∧ i < p.mPollfds.length} := by
  have hPlace {h : EventHandler} (hUpdated : h ∈ updated stage) :
      (place p.mIndex h : Int) = p.mIndex h := Int.toNat_of_nonneg (hTracks.indexed h hUpdated)
  refine ⟨?_, ?_, ?_⟩
  · intro h hUpdated
    have hLt := hTracks.placed.lt hUpdated
    exact ⟨hTracks.indexed h hUpdated, by rw [← hPlace hUpdated]; exact Int.ofNat_lt.mpr hLt⟩
  · intro h hUpdated h' hUpdated' hEq
    exact hTracks.placed.injOn hUpdated hUpdated' (congrArg Int.toNat hEq)
  · rintro i ⟨hNonneg, hLt⟩
    obtain ⟨h, hUpdated, hEq⟩ := hTracks.placed.surjOn (show i.toNat < p.mPollfds.length by omega)
    exact ⟨h, hUpdated, by rw [← hPlace hUpdated, hEq, Int.toNat_of_nonneg hNonneg]⟩

theorem Tracks.index_neg (hTracks : p.Tracks stage) (hStage : stage h ≠ .removed)
    (hOut : h ∉ updated stage) : p.mIndex h < 0 := by
  cases hOld : stage h with
  | fresh => exact hTracks.waiting h (Or.inl hOld)
  | registered => exact hTracks.waiting h (Or.inr hOld)
  | updated events => exact absurd ⟨events, hOld⟩ hOut
  | removed => exact absurd hOld hStage

/-- A handler without an entry gets another stage. -/
theorem Tracks.restage (hTracks : p.Tracks stage) (hStage : stage h ≠ .removed)
    (hOut : h ∉ updated stage) {new : Stage} (hNew : ∀ events, new ≠ .updated events)
    (hKnown : new.isRegistered = true → (∃ owner, p.mEventHandlerHash.lookup h.mFD = some owner) ∧
      ∀ h', (stage h').isRegistered = true → h'.mFD = h.mFD → h' = h) :
    p.Tracks (Function.update stage h new) := by
  have hSame := updated_update_of_notMem hOut hNew
  refine ⟨?_, ?_, ?_, ?_, ?_, hTracks.keyed, ?_, ?_⟩
  · intro h' hWaits
    by_cases hIs : h' = h
    · rw [hIs]
      exact hTracks.index_neg hStage hOut
    · rw [Function.update_of_ne hIs] at hWaits
      exact hTracks.waiting h' hWaits
  · rw [hSame]
    exact hTracks.indexed
  · rw [hSame]
    exact hTracks.placed
  · intro h' events hUpdated
    have hIs : h' ≠ h := by
      rintro rfl
      rw [Function.update_self] at hUpdated
      exact hNew events hUpdated
    rw [Function.update_of_ne hIs] at hUpdated
    exact hTracks.shows h' events hUpdated
  · rw [hSame]
    exact hTracks.hashed
  · intro h' hRegistered
    by_cases hIs : h' = h
    · subst hIs
      rw [Function.update_self] at hRegistered
      exact (hKnown hRegistered).1
    · rw [Function.update_of_ne hIs] at hRegistered
      exact hTracks.known h' hRegistered
  · intro h₁ h₂ hFirst hSecond hFD
    by_cases hIs₁ : h₁ = h
    · by_cases hIs₂ : h₂ = h
      · rw [hIs₁, hIs₂]
      · subst hIs₁
        rw [Function.update_self] at hFirst
        rw [Function.update_of_ne hIs₂] at hSecond
        exact ((hKnown hFirst).2 h₂ hSecond hFD.symm).symm
    · rw [Function.update_of_ne hIs₁] at hFirst
      by_cases hIs₂ : h₂ = h
      · subst hIs₂
        rw [Function.update_self] at hSecond
        exact (hKnown hSecond).2 h₁ hFirst hFD
      · rw [Function.update_of_ne hIs₂] at hSecond
        exact hTracks.distinct h₁ h₂ hFirst hSecond hFD

/-- An older owner stays. -/
theorem lookup_emplace_of_some {hash : HandlerHash} {fd : Int} {owner : EventHandler}
    (hLookup : hash.lookup fd = some owner) : (hash.emplace h).lookup fd = some owner := by
  rw [HandlerHash.lookup_emplace, hLookup, if_neg (fun hBoth => nomatch hBoth.2)]

theorem exists_lookup_emplace (hash : HandlerHash) (h : EventHandler) :
    ∃ owner, (hash.emplace h).lookup h.mFD = some owner := by
  cases hLookup : hash.lookup h.mFD with
  | none => exact ⟨h, by rw [HandlerHash.lookup_emplace, if_pos ⟨rfl, hLookup⟩]⟩
  | some owner => exact ⟨owner, lookup_emplace_of_some hLookup⟩

theorem Tracks.registerEventHandler (hTracks : p.Tracks stage) (hStage : stage h ≠ .removed)
    (hOnly : ∀ h', (stage h').isRegistered = true → h'.mFD = h.mFD → h' = h) :
    (p.registerEventHandler h).Tracks (Function.update stage h (stage h).register) := by
  have hEmplaced : (p.registerEventHandler h).Tracks stage :=
    { hTracks with
      hashed := fun h' hUpdated => lookup_emplace_of_some (hTracks.hashed h' hUpdated)
      keyed := fun fd owner hLookup => by
        rw [PollPoller.registerEventHandler, HandlerHash.lookup_emplace] at hLookup
        split at hLookup
        · rename_i hNew
          rw [← Option.some.inj hLookup, hNew.1]
        · exact hTracks.keyed fd owner hLookup
      known := fun h' hRegistered =>
        (hTracks.known h' hRegistered).imp fun _ hLookup => lookup_emplace_of_some hLookup }
  cases hOld : stage h with
  | removed => exact absurd hOld hStage
  | fresh =>
    have hOut : h ∉ updated stage := by
      rintro ⟨events, hUpdated⟩
      rw [hOld] at hUpdated
      cases hUpdated
    refine hEmplaced.restage hStage hOut (fun events hNew => ?_) fun _ =>
      ⟨exists_lookup_emplace _ h, hOnly⟩
    cases hNew
  | registered =>
    rw [show Stage.registered.register = stage h from hOld.symm, Function.update_eq_self]
    exact hEmplaced
  | updated events =>
    rw [show (Stage.updated events).register = stage h from hOld.symm, Function.update_eq_self]
    exact hEmplaced

/-- What an update with `events` leaves at the index of its handler. -/
theorem Tracks.renewed (hTracks : p.Tracks stage) (hRegistered : (stage h).isRegistered = true)
    (events : BitVec 32) {p' : PollPoller}
    (hPlaced : SwapRemove.Placed (insert h (updated stage)) (place p'.mIndex) p'.mPollfds)
    (hIndex : 0 ≤ p'.mIndex h) (hIndices : ∀ h' ≠ h, p'.mIndex h' = p.mIndex h')
    (hEntry : ∃ entry, p'.mPollfds[place p'.mIndex h]? = some entry ∧ entry.Shows h events)
    (hEntries : ∀ h' ∈ updated stage, h' ≠ h →
      p'.mPollfds[place p'.mIndex h']? = p.mPollfds[place p.mIndex h']?)
    (hHash : p'.mEventHandlerHash = p.mEventHandlerHash.insert h.mFD h) :
    p'.Tracks (Function.update stage h (.updated events)) := by
  have hOwner {h' : EventHandler} (hIs : h' ≠ h) (hRegistered' : (stage h').isRegistered = true) :
      p'.mEventHandlerHash.lookup h'.mFD = p.mEventHandlerHash.lookup h'.mFD := by
    rw [hHash, Finmap.lookup_insert_of_ne]
    exact fun hFD => hIs (hTracks.distinct h' h hRegistered' hRegistered hFD)
  have hSelf : p'.mEventHandlerHash.lookup h.mFD = some h := by
    rw [hHash, Finmap.lookup_insert]
  have hStays {h' : EventHandler}
      (hRegistered' : (Function.update stage h (.updated events) h').isRegistered = true) :
      (stage h').isRegistered = true := by
    by_cases hIs : h' = h
    · rwa [hIs]
    · rwa [Function.update_of_ne hIs] at hRegistered'
  refine ⟨?_, ?_, ?_, ?_, ?_, ?_, ?_,
    fun h₁ h₂ hFirst hSecond => hTracks.distinct h₁ h₂ (hStays hFirst) (hStays hSecond)⟩
  · intro h' hWaits
    have hIs : h' ≠ h := by
      rintro rfl
      rw [Function.update_self] at hWaits
      simp at hWaits
    rw [Function.update_of_ne hIs] at hWaits
    rw [hIndices h' hIs]
    exact hTracks.waiting h' hWaits
  · rw [updated_update_updated]
    rintro h' (rfl | hUpdated)
    · exact hIndex
    · by_cases hIs : h' = h
      · rwa [hIs]
      · rw [hIndices h' hIs]
        exact hTracks.indexed h' hUpdated
  · rw [updated_update_updated]
    exact hPlaced
  · intro h' events' hUpdated
    by_cases hIs : h' = h
    · subst hIs
      rw [Function.update_self] at hUpdated
      rw [← Stage.updated.inj hUpdated]
      exact hEntry
    · rw [Function.update_of_ne hIs] at hUpdated
      rw [hEntries h' ⟨events', hUpdated⟩ hIs]
      exact hTracks.shows h' events' hUpdated
  · rw [updated_update_updated]
    rintro h' (rfl | hUpdated)
    · exact hSelf
    · by_cases hIs : h' = h
      · rwa [hIs]
      · rw [hOwner hIs (isRegistered_of_updated hUpdated)]
        exact hTracks.hashed h' hUpdated
  · intro fd owner hLookup
    by_cases hIs : fd = h.mFD
    · rw [hIs, hSelf] at hLookup
      rw [hIs, Option.some.inj hLookup]
    · rw [hHash, Finmap.lookup_insert_of_ne _ hIs] at hLookup
      exact hTracks.keyed fd owner hLookup
  · intro h' hRegistered'
    by_cases hIs : h' = h
    · exact ⟨h, by rwa [hIs]⟩
    · rw [hOwner hIs (hStays hRegistered')]
      exact hTracks.known h' (hStays hRegistered')

theorem Tracks.update (hTracks : p.Tracks stage) (hRegistered : (stage h).isRegistered = true)
    {events : BitVec 32} (hFits : (events.setWidth 16).setWidth 32 = events) :
    ∃ p', p.update h events = some p' ∧
      p'.Tracks (Function.update stage h ((stage h).update events)) := by
  obtain ⟨owner, hLookup⟩ := hTracks.known h hRegistered
  cases hOld : stage h with
  | fresh => rw [hOld] at hRegistered; cases hRegistered
  | removed => rw [hOld] at hRegistered; cases hRegistered
  | registered =>
    have hOut : h ∉ updated stage := by
      rintro ⟨events', hUpdated⟩
      rw [hOld] at hUpdated
      cases hUpdated
    have hPlaced := hTracks.placed.append hOut (⟨h.mFD, events.setWidth 16⟩ : Pollfd)
    rw [PollPoller.update, hLookup]
    dsimp only
    rw [if_pos (hTracks.waiting h (Or.inr hOld))]
    refine ⟨_, rfl, hTracks.renewed hRegistered events ?_ ?_ ?_ ?_ ?_ rfl⟩
    · dsimp only
      rwa [place_update]
    · dsimp only
      rw [Function.update_self]
      exact Int.natCast_nonneg _
    · exact fun h' hIs => Function.update_of_ne hIs ..
    · refine ⟨⟨h.mFD, events.setWidth 16⟩, ?_, hFits, Or.inl rfl⟩
      dsimp only
      rw [place_update, Function.update_self, Int.toNat_natCast, List.getElem?_concat_length]
    · intro h' hUpdated hIs
      dsimp only
      rw [place_update]
      exact hTracks.placed.getElem?_append_of_mem hOut hUpdated
  | updated old =>
    have hIn : h ∈ updated stage := ⟨old, hOld⟩
    have hLt : (p.mIndex h).toNat < p.mPollfds.length := hTracks.placed.lt hIn
    have hIndex := hTracks.indexed h hIn
    rw [PollPoller.update, hLookup]
    dsimp only
    rw [if_neg (Int.not_lt.mpr hIndex), if_pos hLt]
    refine ⟨_, rfl, hTracks.renewed hRegistered events ?_ hIndex (fun _ _ => rfl)
      ?_ ?_ ?_⟩
    · rw [Set.insert_eq_of_mem hIn]
      exact hTracks.placed.set _ _
    · refine ⟨_, List.getElem?_set_self hLt, hFits, ?_⟩
      dsimp only
      split
      · exact Or.inr ⟨rfl, ‹_›⟩
      · exact Or.inl rfl
    · exact fun h' hUpdated hIs => hTracks.placed.getElem?_set_of_ne hIn hUpdated hIs
    · rw [HandlerHash.insert_of_lookup (hTracks.hashed h hIn)]

/-- The last place is the last index. -/
theorem Tracks.index_of_end (hTracks : p.Tracks stage) {last : EventHandler}
    (hLast : last ∈ updated stage) (hEnd : place p.mIndex last = p.mPollfds.length - 1) :
    p.mIndex last = p.mPollfds.length - 1 := by
  have hLt := hTracks.placed.lt hLast
  have hNonneg := hTracks.indexed last hLast
  rw [place] at hEnd hLt
  omega

/-- What `remove` does to a handler with an entry. -/
theorem Tracks.remove_eq (hTracks : p.Tracks stage) (hIn : h ∈ updated stage)
    (hFits : ∀ last ∈ updated stage, p.mIndex last = p.mPollfds.length - 1 →
      last = h ∨ 0 ≤ last.mFD) :
    ∃ last ∈ updated stage, place p.mIndex last = p.mPollfds.length - 1 ∧
      p.remove h = some
        { mEventHandlerHash := p.mEventHandlerHash.erase h.mFD
          mPollfds := SwapRemove.swapRemove p.mPollfds (place p.mIndex h)
          mIndex := Function.update p.mIndex last (p.mIndex h) } := by
  refine remove_eq_swapRemove hTracks.placed hTracks.hashed (fun last hLast hOther hEnd => ?_) hIn
    (hTracks.indexed h hIn)
  have hIndex := hTracks.index_of_end hLast hEnd
  have hNonneg := (hFits last hLast hIndex).resolve_left hOther
  obtain ⟨events, hStage⟩ := hLast
  obtain ⟨entry, hEntry, hShows⟩ := hTracks.shows last events hStage
  exact ⟨entry, hEntry, hShows.lastFD hNonneg⟩

/-- A negative descriptor at the end is taken for another one, and the handler of that gets
the index, if there is one. -/
theorem Tracks.remove_misled (hTracks : p.Tracks stage) (hIn : h ∈ updated stage)
    {last : EventHandler} (hLast : last ∈ updated stage) (hOther : last ≠ h)
    (hIndex : p.mIndex last = p.mPollfds.length - 1) (hNeg : last.mFD < 0) :
    p.remove h = none ∨ ∃ misled ≠ last, p.remove h = some
      { mEventHandlerHash := p.mEventHandlerHash.erase h.mFD
        mPollfds := SwapRemove.swapRemove p.mPollfds (place p.mIndex h)
        mIndex := Function.update p.mIndex misled (p.mIndex h) } := by
  have hLt : (p.mIndex h).toNat < p.mPollfds.length := hTracks.placed.lt hIn
  have hNonneg := hTracks.indexed h hIn
  have hNotEnd : (p.mIndex h).toNat ≠ p.mPollfds.length - 1 := by
    intro hEnd
    have hPlace : place p.mIndex last = p.mPollfds.length - 1 := by
      rw [place, hIndex]
      omega
    exact hOther (hTracks.placed.injOn hLast hIn (hPlace.trans hEnd.symm))
  obtain ⟨events, hStage⟩ := hLast
  obtain ⟨back, hBack, hShows⟩ := hTracks.shows last events hStage
  have hEnd : place p.mIndex last = p.mPollfds.length - 1 := by
    rw [place, hIndex]
    omega
  rw [hEnd] at hBack
  rw [PollPoller.remove, hTracks.hashed h hIn]
  dsimp only
  rw [if_neg (by omega), List.getLast?_eq_getElem?, hBack]
  dsimp only
  rw [if_neg hNotEnd, hShows.lastFD_of_neg hNeg]
  cases hLookup : (p.mEventHandlerHash.erase h.mFD).lookup (-last.mFD - 1) with
  | none => exact Or.inl rfl
  | some misled =>
    refine Or.inr ⟨misled, ?_, ?_⟩
    · -- it is found under its own descriptor
      have hKey : misled.mFD = -last.mFD - 1 := by
        by_cases hErased : -last.mFD - 1 = h.mFD
        · rw [hErased, Finmap.lookup_erase] at hLookup
          cases hLookup
        · rw [Finmap.lookup_erase_ne hErased] at hLookup
          exact hTracks.keyed _ _ hLookup
      rintro rfl
      omega
    · rw [SwapRemove.swapRemove_eq hBack]
      rfl

theorem isRegistered_update_removed {h' : EventHandler}
    (hRegistered : (Function.update stage h .removed h').isRegistered = true) :
    h' ≠ h ∧ (stage h').isRegistered = true := by
  by_cases hIs : h' = h
  · rw [hIs, Function.update_self] at hRegistered
    cases hRegistered
  · rw [Function.update_of_ne hIs] at hRegistered
    exact ⟨hIs, hRegistered⟩

section

variable {last : EventHandler} (hTracks : p.Tracks stage) (hIn : h ∈ updated stage)
  (hLast : last ∈ updated stage) (hEnd : place p.mIndex last = p.mPollfds.length - 1)
include hTracks hIn

/-- The handler of the last entry gets the index of the one that goes. -/
theorem Tracks.indexed_removed {h' : EventHandler} (hUpdated : h' ∈ updated stage) :
    0 ≤ Function.update p.mIndex last (p.mIndex h) h' := by
  by_cases hIs : h' = last
  · rw [hIs, Function.update_self]
    exact hTracks.indexed h hIn
  · rw [Function.update_of_ne hIs]
    exact hTracks.indexed h' hUpdated

include hLast hEnd

theorem Tracks.getElem?_removed {h' : EventHandler} (hUpdated : h' ∈ updated stage) (hIs : h' ≠ h) :
    (SwapRemove.swapRemove p.mPollfds (place p.mIndex h))[place
      (Function.update p.mIndex last (p.mIndex h)) h']? = p.mPollfds[place p.mIndex h']? := by
  rw [place_update]
  exact hTracks.placed.getElem?_swapRemove hIn hLast hEnd hUpdated hIs

/-- What is left without a handler. -/
theorem Tracks.removed : PollPoller.Tracks
    { mEventHandlerHash := p.mEventHandlerHash.erase h.mFD
      mPollfds := SwapRemove.swapRemove p.mPollfds (place p.mIndex h)
      mIndex := Function.update p.mIndex last (p.mIndex h) }
    (Function.update stage h .removed) := by
  have hOwner {h' : EventHandler} (hIs : h' ≠ h) (hRegistered : (stage h').isRegistered = true) :
      (p.mEventHandlerHash.erase h.mFD).lookup h'.mFD = p.mEventHandlerHash.lookup h'.mFD :=
    Finmap.lookup_erase_ne fun hFD =>
      hIs (hTracks.distinct h' h hRegistered (isRegistered_of_updated hIn) hFD)
  refine ⟨?_, ?_, ?_, ?_, ?_, ?_, ?_,
    fun h₁ h₂ hFirst hSecond => hTracks.distinct h₁ h₂ (isRegistered_update_removed hFirst).2 (isRegistered_update_removed hSecond).2⟩
  · intro h' hWaits
    have hIs : h' ≠ h := by
      rintro rfl
      rw [Function.update_self] at hWaits
      simp at hWaits
    rw [Function.update_of_ne hIs] at hWaits
    have hNotLast : h' ≠ last := by
      rintro rfl
      obtain ⟨events, hUpdated⟩ := hLast
      rw [hUpdated] at hWaits
      simp at hWaits
    dsimp only
    rw [Function.update_of_ne hNotLast]
    exact hTracks.waiting h' hWaits
  · rw [updated_update_removed]
    exact fun h' hUpdated => hTracks.indexed_removed hIn hUpdated.1
  · rw [updated_update_removed, place_update]
    exact hTracks.placed.swapRemove hIn hLast hEnd
  · intro h' events hUpdated
    have hIs : h' ≠ h := by
      rintro rfl
      rw [Function.update_self] at hUpdated
      cases hUpdated
    rw [Function.update_of_ne hIs] at hUpdated
    dsimp only
    rw [hTracks.getElem?_removed hIn hLast hEnd ⟨events, hUpdated⟩ hIs]
    exact hTracks.shows h' events hUpdated
  · rw [updated_update_removed]
    intro h' hUpdated
    dsimp only
    rw [hOwner hUpdated.2 (isRegistered_of_updated hUpdated.1)]
    exact hTracks.hashed h' hUpdated.1
  · intro fd owner hLookup
    dsimp only at hLookup
    by_cases hIs : fd = h.mFD
    · rw [hIs, Finmap.lookup_erase] at hLookup
      cases hLookup
    · rw [Finmap.lookup_erase_ne hIs] at hLookup
      exact hTracks.keyed fd owner hLookup
  · intro h' hRegistered
    obtain ⟨hIs, hRegistered⟩ := isRegistered_update_removed hRegistered
    dsimp only
    rw [hOwner hIs hRegistered]
    exact hTracks.known h' hRegistered

end

/-- `remove` keeps the table in step, and the entries of the others. -/
theorem Tracks.remove (hTracks : p.Tracks stage) (hStage : stage h ≠ .removed)
    (hFits : h ∈ updated stage → ∀ last ∈ updated stage,
      p.mIndex last = p.mPollfds.length - 1 → last = h ∨ 0 ≤ last.mFD) :
    ∃ p', p.remove h = some p' ∧ p'.Tracks (Function.update stage h .removed) ∧
      ∀ h' ∈ updated stage, h' ≠ h → p'.entryOf h' = p.entryOf h' := by
  by_cases hIn : h ∈ updated stage
  · obtain ⟨last, hLast, hEnd, hRemove⟩ := hTracks.remove_eq hIn (hFits hIn)
    refine ⟨_, hRemove, hTracks.removed hIn hLast hEnd, fun h' hUpdated hIs => ?_⟩
    rw [entryOf_of_nonneg (hTracks.indexed h' hUpdated),
      entryOf_of_nonneg (hTracks.indexed_removed hIn hUpdated)]
    exact hTracks.getElem?_removed hIn hLast hEnd hUpdated hIs
  · -- `remove` returns early, and a registered handler stays in the hash
    have hSame : p.remove h = some p := by
      unfold PollPoller.remove
      cases p.mEventHandlerHash.lookup h.mFD with
      | none => rfl
      | some owner => exact if_pos (Or.inl (hTracks.index_neg hStage hIn))
    refine ⟨p, hSame, ?_, fun _ _ _ => rfl⟩
    exact hTracks.restage hStage hIn (fun events hNew => nomatch hNew) fun hNew => nomatch hNew

end PollPoller

-- ---------------------------------------------------------------------------
-- Runs
-- ---------------------------------------------------------------------------

namespace PollTable

/-- The poller has not failed, and is in step. -/
def Tracked (s : PollTable) : Prop := ∃ p, s.poll = some p ∧ p.Tracks s.stage

variable {s : PollTable} {call : TableCall}

theorem Tracked.consistent (hTracked : s.Tracked) : s.Consistent := by
  obtain ⟨p, hPoll, hTracks⟩ := hTracked
  refine ⟨p, hPoll, hTracks.bijOn, fun h events hUpdated => ?_⟩
  obtain ⟨entry, hEntry, hShows⟩ := hTracks.shows h events hUpdated
  refine ⟨entry, ?_, hShows⟩
  rw [entryOf, hPoll, Option.bind_some,
    PollPoller.entryOf_of_nonneg (hTracks.indexed h ⟨events, hUpdated⟩), hEntry]

/-- What the condition says of the last entry. -/
theorem Fits.remove {h : EventHandler} {p : PollPoller} (hPoll : s.poll = some p)
    (hFits : s.Fits (.remove h)) : h ∈ updated s.stage → ∀ last ∈ updated s.stage,
      p.mIndex last = p.mPollfds.length - 1 → last = h ∨ 0 ≤ last.mFD :=
  fun hIn last hLast hIndex => hFits hIn last ⟨p, hPoll, hLast, hIndex⟩

theorem Tracked.step (hTracked : s.Tracked) (hAllowed : s.Allowed call) (hFits : s.Fits call) :
    (s.step call).Tracked := by
  obtain ⟨p, hPoll, hTracks⟩ := hTracked
  cases call with
  | registerEventHandler h =>
    refine ⟨p.registerEventHandler h, ?_, hTracks.registerEventHandler hAllowed.1 hAllowed.2⟩
    rw [PollTable.step, hPoll]
    rfl
  | update h events =>
    obtain ⟨p', hUpdate, hTracks'⟩ := hTracks.update hAllowed hFits
    refine ⟨p', ?_, hTracks'⟩
    rw [PollTable.step, hPoll]
    exact hUpdate
  | remove h =>
    obtain ⟨p', hRemove, hTracks', -⟩ := hTracks.remove hAllowed (hFits.remove hPoll)
    refine ⟨p', ?_, hTracks'⟩
    rw [PollTable.step, hPoll]
    exact hRemove

theorem Tracked.keeps (hTracked : s.Tracked) (hAllowed : s.Allowed call) (hFits : s.Fits call) :
    s.Keeps call := by
  obtain ⟨p, hPoll, hTracks⟩ := hTracked
  cases call with
  | registerEventHandler h => trivial
  | update h events => trivial
  | remove h =>
    intro h' hUpdated hIs
    obtain ⟨p', hRemove, -, hEntries⟩ := hTracks.remove hAllowed (hFits.remove hPoll)
    rw [entryOf, entryOf, PollTable.step, hPoll]
    dsimp only
    rw [Option.bind_some, Option.bind_some, hRemove, Option.bind_some]
    exact hEntries h' hUpdated hIs

/-- An update whose events are cut off leaves an entry that does not show them, and a misled
`remove` leaves the handler of the last entry with an index beyond the table. -/
theorem Tracked.fits_of_consistent (hTracked : s.Tracked) (hAllowed : s.Allowed call)
    (hConsistent : (s.step call).Consistent) : s.Fits call := by
  obtain ⟨p, hPoll, hTracks⟩ := hTracked
  obtain ⟨p', hPoll', hBijOn, hShows⟩ := hConsistent
  cases call with
  | registerEventHandler h => trivial
  | update h events =>
    have hStage : (s.step (.update h events)).stage h = .updated events := by
      have hRegistered : (s.stage h).isRegistered = true := hAllowed
      rw [PollTable.step]
      dsimp only
      rw [Function.update_self]
      cases hOld : s.stage h with
      | registered => rfl
      | updated old => rfl
      | fresh => rw [hOld] at hRegistered; cases hRegistered
      | removed => rw [hOld] at hRegistered; cases hRegistered
    obtain ⟨entry, -, hEvents, -⟩ := hShows h events hStage
    show (events.setWidth 16).setWidth 32 = events
    have hWhole : (entry.events.setWidth 32).setWidth 16 = entry.events := by
      rw [BitVec.setWidth_setWidth_of_le _ (by decide), BitVec.setWidth_eq]
    rw [← hEvents, hWhole]
  | remove h =>
    rintro hIn last ⟨p₀, hPoll₀, hLast, hIndex⟩
    obtain rfl : p = p₀ := Option.some.inj (hPoll.symm.trans hPoll₀)
    by_contra hNot
    obtain ⟨hOther, hNeg⟩ := not_or.mp hNot
    have hStep : (s.step (.remove h)).poll = p.remove h := by
      rw [PollTable.step, hPoll]
      rfl
    rcases hTracks.remove_misled hIn hLast hOther hIndex (Int.not_le.mp hNeg) with
      hFails | ⟨misled, hMisled, hRemove⟩
    · rw [hStep, hFails] at hPoll'
      cases hPoll'
    · rw [hStep, hRemove] at hPoll'
      obtain rfl := Option.some.inj hPoll'
      have hStill : last ∈ updated (s.step (.remove h)).stage := by
        rw [PollTable.step]
        dsimp only
        rw [updated_update_removed]
        exact ⟨hLast, hOther⟩
      have hSome := hTracks.placed.lt hIn
      obtain ⟨-, hLt⟩ := hBijOn.mapsTo hStill
      dsimp only at hLt
      rw [Function.update_of_ne hMisled.symm, SwapRemove.length_swapRemove, hIndex] at hLt
      omega

/-- **The table** stays in step with its handlers, and no call fails, exactly if every call
fits. -/
theorem poll_table_iff {calls : List TableCall} (h : Run.Each step Allowed new calls) :
    (Run.Always step Consistent new calls ∧ Run.Each step Keeps new calls) ↔
      Run.Each step Fits new calls := by
  have hNew : new.Tracked := ⟨.new, rfl, PollPoller.tracks_new⟩
  have hIff : Run.Always step Consistent new calls ↔ Run.Each step Fits new calls := by
    refine Run.always_iff_each (fun s calls => Run.Each step Allowed s calls ∧ s.Tracked)
      (fun s call calls hRun _ hFits => ⟨hRun.1.2, hRun.2.step hRun.1.1 hFits⟩)
      (fun s call calls hRun _ => ⟨hRun.2.fits_of_consistent hRun.1.1, fun hFits => ?_⟩)
      hNew.consistent ⟨h, hNew⟩
    exact (hRun.2.step hRun.1.1 hFits).consistent
  refine ⟨fun hBoth => hIff.mp hBoth.1, fun hFits => ⟨hIff.mpr hFits, ?_⟩⟩
  have hBoth : Run.Each step (fun s call => s.Allowed call ∧ s.Fits call) new calls :=
    h.and hFits
  have hTracked : Run.Always step Tracked new calls :=
    Run.always_of_each (fun _ _ => True) (fun _ _ _ _ _ _ => trivial)
      (fun s call _ _ hTracked hCall => hTracked.step hCall.1 hCall.2) hNew trivial hBoth
  exact hBoth.imp_of_always hTracked fun s call hTracked hCall => hTracked.keeps hCall.1 hCall.2

/-- No negative descriptor among the updated handlers. -/
theorem nonneg_step (hUsual : call.Usual) (hNonneg : ∀ h ∈ updated s.stage, 0 ≤ h.mFD) :
    ∀ h ∈ updated (s.step call).stage, 0 ≤ h.mFD := by
  rintro h' ⟨events', hStage⟩
  cases call with
  | registerEventHandler h =>
    change Function.update s.stage h (s.stage h).register h' = .updated events' at hStage
    by_cases hIs : h' = h
    · subst hIs
      rw [Function.update_self] at hStage
      cases hOld : s.stage h' with
      | updated old => exact hNonneg h' ⟨old, hOld⟩
      | fresh => rw [hOld] at hStage; cases hStage
      | registered => rw [hOld] at hStage; cases hStage
      | removed => rw [hOld] at hStage; cases hStage
    · rw [Function.update_of_ne hIs] at hStage
      exact hNonneg h' ⟨events', hStage⟩
  | update h events =>
    change Function.update s.stage h ((s.stage h).update events) h' = .updated events' at hStage
    by_cases hIs : h' = h
    · rw [hIs]
      exact hUsual.1
    · rw [Function.update_of_ne hIs] at hStage
      exact hNonneg h' ⟨events', hStage⟩
  | remove h =>
    have hStill : h' ∈ updated (Function.update s.stage h .removed) := ⟨events', hStage⟩
    rw [updated_update_removed] at hStill
    exact hNonneg h' hStill.1

/-- Descriptors that are not negative and events that fit a `short` are enough. -/
theorem fits_of_usual {calls : List TableCall} (hUsual : ∀ call ∈ calls, call.Usual) :
    Run.Each step Fits new calls := by
  have hEach : Run.Each step (fun _ call => call.Usual) new calls := Run.each_of_forall hUsual
  have hNonneg : Run.Always step (fun s => ∀ h ∈ updated s.stage, 0 ≤ h.mFD) new calls :=
    Run.always_of_each (fun _ _ => True) (fun _ _ _ _ _ _ => trivial)
      (fun s call _ _ hNonneg hCall => nonneg_step hCall hNonneg)
      (fun h hUpdated => nomatch hUpdated) trivial hEach
  refine hEach.imp_of_always hNonneg ?_
  intro s call hNonneg hCall
  cases call with
  | registerEventHandler h => trivial
  | update h events => exact hCall.2
  | remove h => exact fun _ last ⟨_, _, hLast, _⟩ => Or.inr (hNonneg last hLast)

/-- Two new handlers with two descriptors. -/
theorem allowed_two {a b : EventHandler} (hFD : a.mFD ≠ b.mFD) :
    new.Allowed (.registerEventHandler a) ∧
      (new.step (.registerEventHandler a)).Allowed (.registerEventHandler b) := by
  have hOther : b ≠ a := by
    rintro rfl
    exact hFD rfl
  refine ⟨⟨by simp [new], fun h' hRegistered => nomatch hRegistered⟩, ?_, ?_⟩
  · change Function.update (fun _ => Stage.fresh) a Stage.registered b ≠ .removed
    rw [Function.update_of_ne hOther]
    simp
  · intro h' hRegistered hSame
    change (Function.update (fun _ => Stage.fresh) a Stage.registered h').isRegistered = true
      at hRegistered
    by_cases hIs : h' = a
    · rw [hIs] at hSame
      exact absurd hSame hFD
    · rw [Function.update_of_ne hIs] at hRegistered
      cases hRegistered

/-- The first of two entries is removed, and the second one was disabled. -/
theorem poll_table_iff_two :
    let calls : List TableCall := [.registerEventHandler ⟨0, 3⟩, .registerEventHandler ⟨1, 4⟩,
      .update ⟨0, 3⟩ 3, .update ⟨1, 4⟩ 3, .update ⟨1, 4⟩ 0, .remove ⟨0, 3⟩]
    Run.Always step Consistent new calls ∧ Run.Each step Keeps new calls := by
  intro calls
  have hAllowed : Run.Each step Allowed new calls := by
    obtain ⟨hFirst, hSecond⟩ := allowed_two (a := ⟨0, 3⟩) (b := ⟨1, 4⟩) (by decide)
    refine ⟨hFirst, hSecond, rfl, rfl, rfl, ?_, trivial⟩
    change Stage.updated 3 ≠ .removed
    simp
  exact (poll_table_iff hAllowed).mpr (fits_of_usual (by decide))

/-- Events with `EPOLLET`, the highest bit, are cut off. And a negative descriptor is decoded
as that of the handler that has just been erased. -/
theorem not_poll_table :
    let edge : List TableCall := [.registerEventHandler ⟨0, 3⟩, .registerEventHandler ⟨1, 4⟩,
      .update ⟨0, 3⟩ 0x80000001]
    let negative : List TableCall := [.registerEventHandler ⟨0, 3⟩,
      .registerEventHandler ⟨1, -4⟩, .update ⟨0, 3⟩ 1, .update ⟨1, -4⟩ 1, .remove ⟨0, 3⟩]
    (Run.Each step Allowed new edge ∧ ¬ Run.Always step Consistent new edge) ∧
      Run.Each step Allowed new negative ∧ ¬ Run.Always step Consistent new negative := by
  refine ⟨⟨?_, fun hAlways => ?_⟩, ?_, ?_⟩
  · obtain ⟨hFirst, hSecond⟩ := allowed_two (a := ⟨0, 3⟩) (b := ⟨1, 4⟩) (by decide)
    exact ⟨hFirst, hSecond, rfl, trivial⟩
  · obtain ⟨p, hPoll, -, hShows⟩ := hAlways.final
    obtain ⟨entry, -, hEvents, -⟩ := hShows ⟨0, 3⟩ 0x80000001 rfl
    -- an entry has no bit there
    have hBit := congrArg (BitVec.getLsbD · 31) hEvents
    simp at hBit
  · obtain ⟨hFirst, hSecond⟩ := allowed_two (a := ⟨0, 3⟩) (b := ⟨1, -4⟩) (by decide)
    refine ⟨hFirst, hSecond, rfl, rfl, ?_, trivial⟩
    change Stage.updated 1 ≠ .removed
    simp
  · intro hAlways
    obtain ⟨p, hPoll, -⟩ := hAlways.final
    cases hPoll

end PollTable

end WarringServer.Net
