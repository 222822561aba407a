import WarringServer.Lib.SwapRemove
import WarringServer.Net.Poller

/-!
# Both pollers refine one interest

`Interest` says which handler each descriptor belongs to and which events it is watched
for. As long as the calls are the allowed ones, each poller stands for it in its own way:

* `EpollPoller.Refines` — the kernel's set is the interest, and the index of a handler is
  negative unless it is watched;
* `PollPoller.Refines` — the index of a present handler is the position of an entry that
  shows it, and every entry is at the index of a present handler.

One lemma for each of the two and each call; `pollers_interchangeable` puts them together.
-/

namespace WarringServer.Net

/-- Binding a descriptor to the handler it has. -/
theorem HandlerHash.insert_of_lookup {hash : HandlerHash} {fd : Int} {h : EventHandler}
    (hLookup : hash.lookup fd = some h) : hash.insert fd h = hash := by
  refine Finmap.ext_lookup ?_
  intro fd'
  by_cases hEq : fd' = fd
  · rw [hEq, Finmap.lookup_insert, hLookup]
  · exact Finmap.lookup_insert_of_ne _ hEq

theorem HandlerHash.lookup_emplace (hash : HandlerHash) (h : EventHandler) (fd : Int) :
    (hash.emplace h).lookup fd =
      if fd = h.mFD ∧ hash.lookup fd = none then some h else hash.lookup fd := by
  unfold emplace
  by_cases hMem : h.mFD ∈ hash
  · rw [if_pos hMem, if_neg]
    rintro ⟨rfl, hNone⟩
    exact Finmap.lookup_eq_none.mp hNone hMem
  · rw [if_neg hMem]
    by_cases hEq : fd = h.mFD
    · rw [hEq, Finmap.lookup_insert, if_pos ⟨rfl, Finmap.lookup_eq_none.mpr hMem⟩]
    · rw [Finmap.lookup_insert_of_ne _ hEq, if_neg fun hBoth => hEq hBoth.1]

-- ---------------------------------------------------------------------------
-- The interest
-- ---------------------------------------------------------------------------

namespace Status

variable {status : Status} {events : BitVec 32}

theorem watched_of_events (hEvents : status.events = some events) : status = .watched events := by
  cases status with
  | watched old => rw [Option.some.inj hEvents]
  | idle => cases hEvents
  | disabled => cases hEvents
  | removed => cases hEvents

theorem present_cases (hPresent : status.present = true) :
    (∃ old, status = .watched old) ∨ status = .disabled := by
  cases status with
  | watched old => exact Or.inl ⟨old, rfl⟩
  | disabled => exact Or.inr rfl
  | idle => cases hPresent
  | removed => cases hPresent

theorem absent_cases (hAbsent : ¬ status.present = true) : status = .idle ∨ status = .removed := by
  cases status with
  | idle => exact Or.inl rfl
  | removed => exact Or.inr rfl
  | watched old => exact absurd rfl hAbsent
  | disabled => exact absurd rfl hAbsent

theorem events_of_absent (hAbsent : ¬ status.present = true) : status.events = none := by
  rcases absent_cases hAbsent with rfl | rfl
  · rfl
  · rfl

theorem update_of_present (hPresent : status.present = true) :
    status.update events = if events = 0 then .disabled else .watched events := by
  rcases present_cases hPresent with ⟨old, rfl⟩ | rfl
  · rfl
  · rfl

/-- An update keeps the place of a handler. -/
theorem present_update (hPresent : status.present = true) :
    (status.update events).present = true := by
  rw [update_of_present hPresent]
  split
  · rfl
  · rfl

/-- A handler that is not watched is watched from now on. -/
theorem update_of_unwatched (hEvents : status.events = none)
    (hDisabled : status = .disabled → events ≠ 0) : status.update events = .watched events := by
  cases status with
  | idle => rfl
  | removed => rfl
  | disabled => exact if_neg (hDisabled rfl)
  | watched old => cases hEvents

end Status

/-- A handler with a place owns its descriptor. -/
structure Interest.Wf (t : Interest) : Prop where
  keyed : ∀ fd h, t.owner.lookup fd = some h → h.mFD = fd
  owned : ∀ h, (t.status h).present = true → t.owner.lookup h.mFD = some h
  fits : ∀ h events, t.status h = .watched events →
    (events.setWidth 16).setWidth 32 = events
  nonneg : ∀ h, (t.status h).present = true → 0 ≤ h.mFD

namespace Interest

variable {t : Interest} {h : EventHandler}

theorem events_of_owner (hOwner : t.owner.lookup h.mFD = some h) :
    t.events h.mFD = (t.status h).events := by
  rw [events, hOwner, Option.bind_some]

@[simp] theorem setStatus_owner {status : Status} : (t.setStatus h status).owner = t.owner := rfl

@[simp] theorem setStatus_status_self {status : Status} :
    (t.setStatus h status).status h = status := by
  simp [setStatus]

theorem setStatus_status_of_ne {status : Status} {h' : EventHandler} (hOther : h' ≠ h) :
    (t.setStatus h status).status h' = t.status h' := by
  simp [setStatus, hOther]

/-- A handler that does not have the status set is another one. -/
theorem ne_of_status {status : Status} {h' : EventHandler}
    (hStatus : (t.setStatus h status).status h' ≠ status) : h' ≠ h := by
  rintro rfl
  exact hStatus setStatus_status_self

/-- Once a handler is removed, one with a place is another one. -/
theorem ne_of_present_removed {h' : EventHandler}
    (hPresent : ((t.setStatus h .removed).status h').present = true) : h' ≠ h :=
  ne_of_status fun hRemoved => by
    rw [hRemoved] at hPresent
    cases hPresent

/-- Handlers of different descriptors are different. -/
theorem Wf.ne_of_lookup (hWf : t.Wf) {fd : Int} {h' : EventHandler}
    (hLookup : t.owner.lookup fd = some h') (hFD : fd ≠ h.mFD) : h' ≠ h := by
  rintro rfl
  exact hFD (hWf.keyed fd h' hLookup).symm

/-- A change of one owner's status. -/
theorem events_setStatus (hWf : t.Wf) (hOwner : t.owner.lookup h.mFD = some h)
    (status : Status) :
    (t.setStatus h status).events = Function.update t.events h.mFD status.events := by
  funext fd
  by_cases hEq : fd = h.mFD
  · subst hEq
    rw [Function.update_self, events, setStatus_owner, hOwner, Option.bind_some,
      setStatus_status_self]
  · rw [Function.update_of_ne hEq]
    refine Option.bind_congr ?_
    intro h' hLookup
    rw [setStatus_status_of_ne (hWf.ne_of_lookup hLookup hEq)]

theorem wf_new : new.Wf where
  keyed _ _ hLookup := by cases hLookup
  owned _ hPresent := by cases hPresent
  fits _ _ hStatus := by cases hStatus
  nonneg _ hPresent := by cases hPresent

theorem Wf.registerEventHandler (hWf : t.Wf) (h : EventHandler) :
    (t.registerEventHandler h).Wf where
  keyed fd h' hLookup := by
    rw [Interest.registerEventHandler, HandlerHash.lookup_emplace] at hLookup
    split at hLookup
    · rename_i hNew
      rw [← Option.some.inj hLookup, hNew.1]
    · exact hWf.keyed fd h' hLookup
  owned h' hPresent := by
    have hOld := hWf.owned h' hPresent
    rw [Interest.registerEventHandler, HandlerHash.lookup_emplace, if_neg]
    · exact hOld
    · rw [hOld]
      exact fun hNone => (nomatch hNone.2)
  fits := hWf.fits
  nonneg := hWf.nonneg

theorem watched_of_update {status : Status} {events events' : BitVec 32}
    (hStatus : status.update events = .watched events') : events' = events := by
  unfold Status.update at hStatus
  split at hStatus
  all_goals grind

theorem Wf.update (hWf : t.Wf) {events : BitVec 32}
    (hFits : t.owner.lookup h.mFD = some h →
      0 ≤ h.mFD ∧ (events.setWidth 16).setWidth 32 = events) :
    (t.update h events).Wf := by
  unfold Interest.update
  split
  · rename_i hOwner
    refine ⟨hWf.keyed, ?_, ?_, ?_⟩
    · intro h' hPresent
      by_cases hEq : h' = h
      · rw [hEq]
        exact hOwner
      · rw [setStatus_status_of_ne hEq] at hPresent
        exact hWf.owned h' hPresent
    · intro h' events' hStatus
      by_cases hEq : h' = h
      · rw [hEq, setStatus_status_self] at hStatus
        rw [watched_of_update hStatus]
        exact (hFits hOwner).2
      · rw [setStatus_status_of_ne hEq] at hStatus
        exact hWf.fits h' events' hStatus
    · intro h' hPresent
      by_cases hEq : h' = h
      · rw [hEq]
        exact (hFits hOwner).1
      · rw [setStatus_status_of_ne hEq] at hPresent
        exact hWf.nonneg h' hPresent
  · exact hWf

theorem Wf.remove (hWf : t.Wf) (h : EventHandler) : (t.remove h).Wf := by
  unfold Interest.remove
  split
  · rename_i hOwner
    refine ⟨?_, ?_, ?_, ?_⟩
    · intro fd h' hLookup
      dsimp only at hLookup
      by_cases hEq : fd = h.mFD
      · rw [hEq, Finmap.lookup_erase] at hLookup
        cases hLookup
      · rw [Finmap.lookup_erase_ne hEq] at hLookup
        exact hWf.keyed fd h' hLookup
    · intro h' hPresent
      dsimp only at hPresent ⊢
      have hOther := ne_of_present_removed hPresent
      rw [setStatus_status_of_ne hOther] at hPresent
      have hOwned := hWf.owned h' hPresent
      rw [Finmap.lookup_erase_ne, hOwned]
      intro hFD
      rw [hFD, hOwner.1] at hOwned
      exact hOther (Option.some.inj hOwned).symm
    · intro h' events' hStatus
      dsimp only at hStatus
      have hOther : h' ≠ h := ne_of_status (by rw [hStatus]; simp)
      rw [setStatus_status_of_ne hOther] at hStatus
      exact hWf.fits h' events' hStatus
    · intro h' hPresent
      dsimp only at hPresent
      rw [setStatus_status_of_ne (ne_of_present_removed hPresent)] at hPresent
      exact hWf.nonneg h' hPresent
  · exact hWf

/-- The removed handler's descriptor is watched no more. -/
theorem events_remove (hWf : t.Wf) (hOwner : t.owner.lookup h.mFD = some h)
    (hPresent : (t.status h).present = true) :
    (t.remove h).events = Function.update t.events h.mFD none := by
  rw [remove, if_pos ⟨hOwner, hPresent⟩]
  funext fd
  show ((t.owner.erase h.mFD).lookup fd).bind _ = _
  by_cases hEq : fd = h.mFD
  · rw [hEq, Finmap.lookup_erase, Function.update_self, Option.bind_none]
  · rw [Finmap.lookup_erase_ne hEq, Function.update_of_ne hEq]
    refine Option.bind_congr ?_
    intro h' hLookup
    show ((t.setStatus h .removed).status h').events = _
    rw [setStatus_status_of_ne (hWf.ne_of_lookup hLookup hEq)]

end Interest

-- ---------------------------------------------------------------------------
-- EpollPoller
-- ---------------------------------------------------------------------------

section

variable {interest : InterestSet} {fd : Int} {events : BitVec 32}

theorem InterestSet.epollCtl_add (hFD : 0 ≤ fd) (hKernel : interest fd = none) :
    interest.epollCtl .add fd events = some (Function.update interest fd (some events)) := by
  simp only [epollCtl, hKernel, if_neg (Int.not_lt.mpr hFD)]

theorem InterestSet.epollCtl_mod {old : BitVec 32} (hFD : 0 ≤ fd)
    (hKernel : interest fd = some old) :
    interest.epollCtl .mod fd events = some (Function.update interest fd (some events)) := by
  simp only [epollCtl, hKernel, if_neg (Int.not_lt.mpr hFD)]

theorem InterestSet.epollCtl_del {old : BitVec 32} (hFD : 0 ≤ fd)
    (hKernel : interest fd = some old) :
    interest.epollCtl .del fd events = some (Function.update interest fd none) := by
  simp only [epollCtl, hKernel, if_neg (Int.not_lt.mpr hFD)]

/-- `ENOENT`, or `EBADF` -/
theorem InterestSet.epollCtl_del_none (hKernel : interest fd = none) :
    interest.epollCtl .del fd events = none := by
  simp only [epollCtl, hKernel, ite_self]

end

namespace EpollPoller

structure Refines (p : EpollPoller) (t : Interest) : Prop where
  hash : p.mEventHandlerHash = t.owner
  interest : p.interest = t.events
  index : ∀ h, p.mIndex h < 0 ↔ (t.status h).events = none

variable {p : EpollPoller} {t : Interest} {h : EventHandler}

theorem refines_new : new.Refines .new where
  hash := rfl
  interest := rfl
  index _ := iff_of_true (Int.negSucc_lt_zero 0) rfl

/-- A handler that has just been registered is idle or has been removed, and so is not
watched. -/
theorem Refines.registerEventHandler (hWf : t.Wf) (hRefines : p.Refines t) (h : EventHandler) :
    (p.registerEventHandler h).Refines (t.registerEventHandler h) where
  hash := by rw [EpollPoller.registerEventHandler, Interest.registerEventHandler, hRefines.hash]
  interest := by
    show p.interest = _
    rw [hRefines.interest]
    funext fd
    show (t.owner.lookup fd).bind _ = ((t.owner.emplace h).lookup fd).bind _
    rw [HandlerHash.lookup_emplace]
    split
    · rename_i hNew
      rw [hNew.2, Option.bind_none, Option.bind_some]
      show none = (t.status h).events
      rcases hStatus : t.status h with _ | events | _ | _
      · rfl
      · have hOwned := hWf.owned h (by rw [hStatus]; rfl)
        rw [← hNew.1, hNew.2] at hOwned
        cases hOwned
      · rfl
      · rfl
    · rfl
  index := hRefines.index

/-- The index of one handler, set as its status is. -/
theorem Refines.index_setStatus (hRefines : p.Refines t) {status : Status} {index : Int}
    (hIndex : index < 0 ↔ status.events = none) (h' : EventHandler) :
    Function.update p.mIndex h index h' < 0 ↔ ((t.setStatus h status).status h').events = none := by
  by_cases hEq : h' = h
  · rw [hEq, Function.update_self, Interest.setStatus_status_self]
    exact hIndex
  · rw [Function.update_of_ne hEq, Interest.setStatus_status_of_ne hEq]
    exact hRefines.index h'

theorem Refines.update (hWf : t.Wf) (hRefines : p.Refines t) {events : BitVec 32}
    (hAllowed : ∀ owner, t.owner.lookup h.mFD = some owner →
      owner = h ∧ 0 ≤ h.mFD ∧ (t.status h = .disabled → events ≠ 0)) :
    (p.update h events).Refines (t.update h events) := by
  unfold EpollPoller.update Interest.update
  rw [hRefines.hash]
  rcases hLookup : t.owner.lookup h.mFD with _ | owner
  · exact hRefines
  obtain ⟨rfl, hFD, hDisabled⟩ := hAllowed owner hLookup
  have hKernel : p.interest owner.mFD = (t.status owner).events := by
    rw [hRefines.interest, Interest.events_of_owner hLookup]
  have hEvents := Interest.events_setStatus hWf hLookup ((t.status owner).update events)
  rw [if_pos rfl]
  dsimp only
  rw [HandlerHash.insert_of_lookup hLookup]
  -- the index tells whether the handler is watched, and so does the kernel
  by_cases hWatched : (t.status owner).events = none
  · have hNext := Status.update_of_unwatched hWatched hDisabled
    rw [if_pos ((hRefines.index owner).mpr hWatched),
      InterestSet.epollCtl_add hFD (hKernel.trans hWatched)]
    dsimp only
    rw [hNext] at hEvents ⊢
    refine ⟨rfl, ?_, hRefines.index_setStatus (by simp [Status.events])⟩
    rw [hEvents, hRefines.interest]
    rfl
  · obtain ⟨old, hSome⟩ := Option.ne_none_iff_exists'.mp hWatched
    have hOld := Status.watched_of_events hSome
    have hWatch : p.interest owner.mFD = some old := hKernel.trans hSome
    rw [hOld] at hEvents ⊢
    rw [if_neg fun hIndex => hWatched ((hRefines.index owner).mp hIndex)]
    by_cases hNone : events = 0
    · have hNext : Status.update events (.watched old) = .disabled := if_pos hNone
      rw [if_pos hNone, InterestSet.epollCtl_del hFD hWatch]
      dsimp only
      rw [hNext] at hEvents ⊢
      refine ⟨rfl, ?_, hRefines.index_setStatus (by simp [Status.events])⟩
      rw [hEvents, hRefines.interest]
      rfl
    · have hNext : Status.update events (.watched old) = .watched events := if_neg hNone
      rw [if_neg hNone, InterestSet.epollCtl_mod hFD hWatch]
      dsimp only
      rw [hNext] at hEvents ⊢
      refine ⟨rfl, ?_, ?_⟩
      · rw [hEvents, hRefines.interest]
        rfl
      · intro h'
        -- the index stays, and so does that the handler is watched
        rw [hRefines.index h']
        by_cases hEq : h' = owner
        · rw [hEq, Interest.setStatus_status_self, hOld]
          simp [Status.events]
        · rw [Interest.setStatus_status_of_ne hEq]

theorem Refines.remove (hWf : t.Wf) (hRefines : p.Refines t)
    (hAllowed : ∀ owner, t.owner.lookup h.mFD = some owner →
      owner = h ∧ t.status h ≠ .disabled) :
    (p.remove h).Refines (t.remove h) := by
  unfold EpollPoller.remove
  rw [hRefines.hash]
  rcases hLookup : t.owner.lookup h.mFD with _ | owner
  · rw [Interest.remove, if_neg fun hBoth => (nomatch hLookup ▸ hBoth.1)]
    exact hRefines
  obtain ⟨rfl, hDisabled⟩ := hAllowed owner hLookup
  dsimp only
  have hKernel : p.interest owner.mFD = (t.status owner).events := by
    rw [hRefines.interest, Interest.events_of_owner hLookup]
  by_cases hPresent : (t.status owner).present = true
  · obtain ⟨old, hOld⟩ := (Status.present_cases hPresent).resolve_right hDisabled
    have hWatch : p.interest owner.mFD = some old := by
      rw [hKernel, hOld]
      rfl
    have hEvents := Interest.events_remove hWf hLookup hPresent
    rw [InterestSet.epollCtl_del (hWf.nonneg owner hPresent) hWatch]
    rw [Interest.remove, if_pos ⟨hLookup, hPresent⟩] at hEvents ⊢
    refine ⟨rfl, ?_, hRefines.index_setStatus (by simp [Status.events])⟩
    rw [hEvents, hRefines.interest]
  · -- a handler that never was updated stays registered
    have hNone := Status.events_of_absent hPresent
    rw [InterestSet.epollCtl_del_none (hKernel.trans hNone), Interest.remove,
      if_neg fun hBoth => hPresent hBoth.2]
    exact hRefines

theorem Refines.watched (hRefines : p.Refines t) :
    p.watched = {w | t.events w.1 = some w.2} := by
  rw [EpollPoller.watched, hRefines.interest]

end EpollPoller

-- ---------------------------------------------------------------------------
-- PollPoller
-- ---------------------------------------------------------------------------

/-- The index as a position. -/
def place (mIndex : EventHandler → Int) (h : EventHandler) : Nat := (mIndex h).toNat

theorem place_update {mIndex : EventHandler → Int} {h : EventHandler} {i : Int} :
    place (Function.update mIndex h i) = Function.update (place mIndex) h i.toNat :=
  Function.comp_update Int.toNat mIndex h i

namespace PollPoller

/-- The entry of a handler, by its status. -/
def Shows (h : EventHandler) : Status → Pollfd → Prop
  | .watched events, entry => entry = ⟨h.mFD, events.setWidth 16⟩
  | .disabled, entry => entry.fd = -h.mFD - 1
  | .idle, _ | .removed, _ => False

theorem Shows.lastFD {h : EventHandler} {status : Status} {entry : Pollfd} (hFD : 0 ≤ h.mFD)
    (hShows : Shows h status entry) : lastFD entry = h.mFD := by
  unfold PollPoller.lastFD
  rcases status with _ | events | _ | _
  · exact hShows.elim
  · rw [show entry = ⟨h.mFD, _⟩ from hShows]
    dsimp only
    split
    · omega
    · rfl
  · rw [show entry.fd = -h.mFD - 1 from hShows]
    split
    · omega
    · omega
  · exact hShows.elim

/-- The entry `update` writes, for a handler that has one. -/
theorem shows_update {h : EventHandler} {status : Status} {events : BitVec 32}
    (hPresent : status.present = true) :
    Shows h (status.update events)
      ⟨if events = 0 then -h.mFD - 1 else h.mFD, events.setWidth 16⟩ := by
  rw [Status.update_of_present hPresent]
  by_cases hNone : events = 0
  · rw [if_pos hNone, if_pos hNone]
    rfl
  · rw [if_neg hNone, if_neg hNone]
    rfl

/-- What `remove` does to a handler with an entry, whether that is the last one or not. -/
theorem remove_eq_swapRemove {p : PollPoller} {keys : Set EventHandler} {h : EventHandler}
    (hPlaced : SwapRemove.Placed keys (place p.mIndex) p.mPollfds)
    (hHashed : ∀ h ∈ keys, p.mEventHandlerHash.lookup h.mFD = some h)
    (hEntries : ∀ last ∈ keys, last ≠ h → place p.mIndex last = p.mPollfds.length - 1 →
      ∃ entry, p.mPollfds[place p.mIndex last]? = some entry ∧ lastFD entry = last.mFD)
    (hIn : h ∈ keys) (hIndex : 0 ≤ p.mIndex h) :
    ∃ last ∈ keys, place p.mIndex last = p.mPollfds.length - 1 ∧
      p.remove h = some
        { mEventHandlerHash := p.mEventHandlerHash.erase h.mFD
          mPollfds := SwapRemove.swapRemove p.mPollfds (place p.mIndex h)
          mIndex := Function.update p.mIndex last (p.mIndex h) } := by
  obtain ⟨last, hLast, hEnd⟩ := hPlaced.back hIn
  obtain ⟨back, hBack⟩ := hPlaced.getElem? hLast
  have hLt : (p.mIndex h).toNat < p.mPollfds.length := hPlaced.lt hIn
  rw [hEnd] at hBack
  refine ⟨last, hLast, hEnd, ?_⟩
  rw [PollPoller.remove, hHashed h hIn]
  dsimp only
  rw [if_neg (by omega), List.getLast?_eq_getElem?, hBack]
  dsimp only
  by_cases hIs : (p.mIndex h).toNat = p.mPollfds.length - 1
  · -- the last entry is that of the handler itself
    obtain rfl : h = last := hPlaced.injOn hIn hLast (hIs.trans hEnd.symm)
    rw [if_pos hIs, hEnd, SwapRemove.swapRemove_last, Function.update_eq_self]
  · -- it is that of another handler, which is still in the hash
    have hOther : last ≠ h := by
      rintro rfl
      exact hIs hEnd
    obtain ⟨entry, hEntry, hBackFD⟩ := hEntries last hLast hOther hEnd
    rw [hEnd] at hEntry
    obtain rfl : back = entry := Option.some.inj (hBack.symm.trans hEntry)
    have hFD : last.mFD ≠ h.mFD := by
      intro hFD
      have hOwner := hHashed last hLast
      rw [hFD, hHashed h hIn] at hOwner
      exact hOther (Option.some.inj hOwner).symm
    rw [if_neg hIs, hBackFD, Finmap.lookup_erase_ne hFD, hHashed last hLast,
      SwapRemove.swapRemove_eq hBack]
    rfl

structure Refines (p : PollPoller) (t : Interest) : Prop where
  hash : p.mEventHandlerHash = t.owner
  idle : ∀ h, t.status h = .idle → p.mIndex h < 0
  entry : ∀ h, (t.status h).present = true →
    ∃ i : Nat, p.mIndex h = i ∧ ∃ e, p.mPollfds[i]? = some e ∧ Shows h (t.status h) e
  back : ∀ (i : Nat) e, p.mPollfds[i]? = some e →
    ∃ h, (t.status h).present = true ∧ p.mIndex h = i

variable {p : PollPoller} {t : Interest} {h : EventHandler}

theorem refines_new : new.Refines .new where
  hash := rfl
  idle _ _ := Int.negSucc_lt_zero 0
  entry _ hPresent := by cases hPresent
  back _ _ hEntry := by cases hEntry

/-- Two handlers of one index are one handler. -/
theorem Refines.index_inj (hWf : t.Wf) (hRefines : p.Refines t) {h' : EventHandler}
    (hPresent : (t.status h).present = true) (hPresent' : (t.status h').present = true)
    (hIndex : p.mIndex h = p.mIndex h') : h = h' := by
  obtain ⟨i, hi, e, hEntry, hShows⟩ := hRefines.entry h hPresent
  obtain ⟨i', hi', e', hEntry', hShows'⟩ := hRefines.entry h' hPresent'
  obtain rfl : i = i' := by
    rw [hi, hi'] at hIndex
    exact Int.ofNat_inj.mp hIndex
  obtain rfl : e = e' := Option.some.inj (hEntry.symm.trans hEntry')
  have hFD : h.mFD = h'.mFD :=
    (hShows.lastFD (hWf.nonneg h hPresent)).symm.trans (hShows'.lastFD (hWf.nonneg h' hPresent'))
  have hOwned := hWf.owned h hPresent
  rw [hFD, hWf.owned h' hPresent'] at hOwned
  exact (Option.some.inj hOwned).symm

theorem Refines.registerEventHandler (hRefines : p.Refines t) (h : EventHandler) :
    (p.registerEventHandler h).Refines (t.registerEventHandler h) where
  hash := by rw [PollPoller.registerEventHandler, Interest.registerEventHandler, hRefines.hash]
  idle := hRefines.idle
  entry := hRefines.entry
  back := hRefines.back

/-- A handler without an entry gets one at the end. -/
theorem Refines.push (hRefines : p.Refines t) {events : BitVec 32}
    (hAbsent : (t.status h).present = false) :
    Refines
      { p with
        mPollfds := p.mPollfds ++ [⟨h.mFD, events.setWidth 16⟩],
        mIndex := Function.update p.mIndex h p.mPollfds.length }
      (t.setStatus h (.watched events)) where
  hash := hRefines.hash
  idle h' hIdle := by
    have hOther : h' ≠ h := Interest.ne_of_status (by rw [hIdle]; simp)
    rw [Interest.setStatus_status_of_ne hOther] at hIdle
    dsimp only
    rw [Function.update_of_ne hOther]
    exact hRefines.idle h' hIdle
  entry h' hPresent := by
    dsimp only
    by_cases hEq : h' = h
    · subst hEq
      refine ⟨p.mPollfds.length, Function.update_self .., _, List.getElem?_concat_length, ?_⟩
      rw [Interest.setStatus_status_self]
      rfl
    · rw [Interest.setStatus_status_of_ne hEq] at hPresent ⊢
      rw [Function.update_of_ne hEq]
      obtain ⟨i, hi, e, hEntry, hShows⟩ := hRefines.entry h' hPresent
      refine ⟨i, hi, e, ?_, hShows⟩
      rw [List.getElem?_append_left (List.getElem?_eq_some_iff.mp hEntry).1, hEntry]
  back i e hEntry := by
    dsimp only at hEntry ⊢
    rcases Nat.lt_or_ge i p.mPollfds.length with hi | hi
    · rw [List.getElem?_append_left hi] at hEntry
      obtain ⟨h', hPresent, hIndex⟩ := hRefines.back i e hEntry
      have hOther : h' ≠ h := by
        rintro rfl
        rw [hAbsent] at hPresent
        cases hPresent
      refine ⟨h', ?_, ?_⟩
      · rw [Interest.setStatus_status_of_ne hOther]
        exact hPresent
      · rw [Function.update_of_ne hOther]
        exact hIndex
    · have hLast : i = p.mPollfds.length := by
        have hLt := (List.getElem?_eq_some_iff.mp hEntry).1
        rw [List.length_append, List.length_singleton] at hLt
        omega
      refine ⟨h, ?_, ?_⟩
      · rw [Interest.setStatus_status_self]
        rfl
      · rw [Function.update_self, hLast]

/-- A handler with an entry has it overwritten. -/
theorem Refines.overwrite (hWf : t.Wf) (hRefines : p.Refines t) {status : Status} {i : Nat}
    {e : Pollfd} (hPresent : (t.status h).present = true) (hi : p.mIndex h = i)
    (hNext : status.present = true) (hShows : Shows h status e) :
    Refines { p with mPollfds := p.mPollfds.set i e } (t.setStatus h status) where
  hash := hRefines.hash
  idle h' hIdle := by
    have hOther : h' ≠ h := by
      apply Interest.ne_of_status
      rw [hIdle]
      rintro rfl
      cases hNext
    rw [Interest.setStatus_status_of_ne hOther] at hIdle
    exact hRefines.idle h' hIdle
  entry h' hPresent' := by
    dsimp only
    obtain ⟨i₀, hi₀, e₀, hEntry₀, -⟩ := hRefines.entry h hPresent
    obtain rfl : i = i₀ := Int.ofNat_inj.mp (hi.symm.trans hi₀)
    have hLt := (List.getElem?_eq_some_iff.mp hEntry₀).1
    by_cases hEq : h' = h
    · refine ⟨i, hEq ▸ hi, e, List.getElem?_set_self hLt, ?_⟩
      rw [hEq, Interest.setStatus_status_self]
      exact hShows
    · rw [Interest.setStatus_status_of_ne hEq] at hPresent' ⊢
      obtain ⟨j, hj, e', hEntry, hShows'⟩ := hRefines.entry h' hPresent'
      have hApart : i ≠ j := by
        rintro rfl
        exact hEq (hRefines.index_inj hWf hPresent' hPresent (hj.trans hi.symm))
      exact ⟨j, hj, e', by rw [List.getElem?_set_ne hApart, hEntry], hShows'⟩
  back j e' hEntry := by
    dsimp only at hEntry ⊢
    have hOld : ∃ e₀, p.mPollfds[j]? = some e₀ := by
      have hLt := (List.getElem?_eq_some_iff.mp hEntry).1
      rw [List.length_set] at hLt
      exact ⟨_, List.getElem?_eq_getElem hLt⟩
    obtain ⟨e₀, he₀⟩ := hOld
    obtain ⟨h', hPresent', hIndex⟩ := hRefines.back j e₀ he₀
    refine ⟨h', ?_, hIndex⟩
    by_cases hEq : h' = h
    · rw [hEq, Interest.setStatus_status_self]
      exact hNext
    · rw [Interest.setStatus_status_of_ne hEq]
      exact hPresent'

/-- What remains of a handler once it is removed. -/
theorem status_remove (hOwner : t.owner.lookup h.mFD = some h)
    (hPresent : (t.status h).present = true) :
    t.remove h = { t.setStatus h .removed with owner := t.owner.erase h.mFD } :=
  if_pos ⟨hOwner, hPresent⟩

/-- The indices of the present handlers are the positions of the table. -/
theorem Refines.placed (hWf : t.Wf) (hRefines : p.Refines t) :
    SwapRemove.Placed {h | (t.status h).present = true} (place p.mIndex) p.mPollfds := by
  refine ⟨?_, ?_, ?_⟩
  · intro h hPresent
    obtain ⟨i, hi, e, hEntry, -⟩ := hRefines.entry h hPresent
    rw [Set.mem_Iio, place, hi, Int.toNat_natCast]
    exact (List.getElem?_eq_some_iff.mp hEntry).1
  · intro h hPresent h' hPresent' hEq
    obtain ⟨i, hi, -⟩ := hRefines.entry h hPresent
    obtain ⟨i', hi', -⟩ := hRefines.entry h' hPresent'
    rw [place, place, hi, hi', Int.toNat_natCast, Int.toNat_natCast] at hEq
    exact hRefines.index_inj hWf hPresent hPresent' (by rw [hi, hi', hEq])
  · intro i hi
    obtain ⟨h, hPresent, hIndex⟩ := hRefines.back i _ (List.getElem?_eq_getElem hi)
    exact ⟨h, hPresent, by rw [place, hIndex, Int.toNat_natCast]⟩

/-- The entry of a present handler. -/
theorem Refines.shows (hRefines : p.Refines t) (hPresent : (t.status h).present = true) :
    0 ≤ p.mIndex h ∧ ∃ e, p.mPollfds[place p.mIndex h]? = some e ∧ Shows h (t.status h) e := by
  obtain ⟨i, hi, e, hEntry, hShows⟩ := hRefines.entry h hPresent
  rw [place, hi, Int.toNat_natCast]
  exact ⟨Int.natCast_nonneg i, e, hEntry, hShows⟩

/-- An entry is removed: the last one takes its place, and its handler the index. -/
theorem Refines.swapRemove (hWf : t.Wf) (hRefines : p.Refines t) {last : EventHandler}
    (hPresent : (t.status h).present = true) (hLastPresent : (t.status last).present = true)
    (hEnd : place p.mIndex last = p.mPollfds.length - 1) :
    Refines
      { mEventHandlerHash := p.mEventHandlerHash.erase h.mFD
        mPollfds := SwapRemove.swapRemove p.mPollfds (place p.mIndex h)
        mIndex := Function.update p.mIndex last (p.mIndex h) }
      (t.remove h) := by
  have hPlaced := hRefines.placed hWf
  have hRest := hPlaced.swapRemove hPresent hLastPresent hEnd
  have hIndexed {h' : EventHandler} (hPresent' : (t.status h').present = true) :
      0 ≤ Function.update p.mIndex last (p.mIndex h) h' := by
    by_cases hIs : h' = last
    · rw [hIs, Function.update_self]
      exact (hRefines.shows hPresent).1
    · rw [Function.update_of_ne hIs]
      exact (hRefines.shows hPresent').1
  have hIndex {h' : EventHandler} (hPresent' : (t.status h').present = true) :
      Function.update p.mIndex last (p.mIndex h) h' =
        Function.update (place p.mIndex) last (place p.mIndex h) h' := by
    rw [← Int.toNat_of_nonneg (hIndexed hPresent')]
    exact congrArg Int.ofNat (congrFun place_update h')
  rw [status_remove (hWf.owned h hPresent) hPresent]
  refine ⟨by dsimp only; rw [hRefines.hash], ?_, ?_, ?_⟩
  · intro h' hIdle
    have hOther : h' ≠ h := Interest.ne_of_status (by rw [hIdle]; simp)
    rw [Interest.setStatus_status_of_ne hOther] at hIdle
    have hNotLast : h' ≠ last := by
      rintro rfl
      rw [hIdle] at hLastPresent
      cases hLastPresent
    dsimp only
    rw [Function.update_of_ne hNotLast]
    exact hRefines.idle h' hIdle
  · intro h' hPresent'
    have hOther := Interest.ne_of_present_removed hPresent'
    dsimp only
    rw [Interest.setStatus_status_of_ne hOther] at hPresent' ⊢
    obtain ⟨-, e, hEntry, hShows⟩ := hRefines.shows hPresent'
    refine ⟨_, hIndex hPresent', e, ?_, hShows⟩
    rw [hPlaced.getElem?_swapRemove hPresent hLastPresent hEnd hPresent' hOther, hEntry]
  · intro i e hEntry
    obtain ⟨h', ⟨hPresent', hOther⟩, hPlace⟩ :=
      hRest.surjOn (Set.mem_Iio.mpr (List.getElem?_eq_some_iff.mp hEntry).1)
    refine ⟨h', ?_, ?_⟩
    · dsimp only
      rw [Interest.setStatus_status_of_ne hOther]
      exact hPresent'
    · dsimp only
      rw [hIndex hPresent', hPlace]

theorem Refines.update (hWf : t.Wf) (hRefines : p.Refines t) {events : BitVec 32}
    (hAllowed : ∀ owner, t.owner.lookup h.mFD = some owner →
      owner = h ∧ t.status h ≠ .removed) :
    ∃ p', p.update h events = some p' ∧ p'.Refines (t.update h events) := by
  unfold PollPoller.update Interest.update
  rw [hRefines.hash]
  rcases hLookup : t.owner.lookup h.mFD with _ | owner
  · exact ⟨p, rfl, hRefines⟩
  obtain ⟨rfl, hRemoved⟩ := hAllowed owner hLookup
  rw [if_pos rfl]
  dsimp only
  by_cases hPresent : (t.status owner).present = true
  · obtain ⟨i, hi, e, hEntry, -⟩ := hRefines.entry owner hPresent
    have hLt := (List.getElem?_eq_some_iff.mp hEntry).1
    have hNext : ((t.status owner).update events).present = true := Status.present_update hPresent
    rw [if_neg (by omega), hi, Int.toNat_natCast, if_pos hLt]
    rw [← hRefines.hash]
    exact ⟨_, rfl, hRefines.overwrite hWf hPresent hi hNext (shows_update hPresent)⟩
  · have hIdle := (Status.absent_cases hPresent).resolve_right hRemoved
    rw [if_pos (hRefines.idle owner hIdle), HandlerHash.insert_of_lookup hLookup, hIdle,
      ← hRefines.hash]
    exact ⟨_, rfl, hRefines.push (by rw [hIdle]; rfl)⟩

theorem Refines.remove (hWf : t.Wf) (hRefines : p.Refines t)
    (hAllowed : ∀ owner, t.owner.lookup h.mFD = some owner →
      owner = h ∧ (t.status h = .removed → p.mPollfds.length ≤ (p.mIndex h).toNat)) :
    ∃ p', p.remove h = some p' ∧ p'.Refines (t.remove h) := by
  by_cases hPresent : (t.status h).present = true
  · have hHashed : ∀ h' ∈ {h | (t.status h).present = true},
        p.mEventHandlerHash.lookup h'.mFD = some h' := by
      intro h' hPresent'
      rw [hRefines.hash]
      exact hWf.owned h' hPresent'
    obtain ⟨last, hLastPresent, hEnd, hRemove⟩ := remove_eq_swapRemove (hRefines.placed hWf) hHashed
      (fun h' hPresent' _ _ => by
        obtain ⟨-, e, hEntry, hShows⟩ := hRefines.shows hPresent'
        exact ⟨e, hEntry, hShows.lastFD (hWf.nonneg h' hPresent')⟩) hPresent (hRefines.shows hPresent).1
    exact ⟨_, hRemove, hRefines.swapRemove hWf hPresent hLastPresent hEnd⟩
  · have hSame : p.remove h = some p := by
      rw [PollPoller.remove, hRefines.hash]
      rcases hLookup : t.owner.lookup h.mFD with _ | owner
      · rfl
      · obtain ⟨rfl, hRemoved⟩ := hAllowed owner hLookup
        rcases Status.absent_cases hPresent with hIdle | hStatus
        · exact if_pos (Or.inl (hRefines.idle owner hIdle))
        · exact if_pos (Or.inr (hRemoved hStatus))
    rw [Interest.remove, if_neg fun hBoth => hPresent hBoth.2]
    exact ⟨p, hSame, hRefines⟩

/-- The entries that are not negated are those of the watched handlers. -/
theorem Refines.watched (hWf : t.Wf) (hRefines : p.Refines t) :
    p.watched = {w | t.events w.1 = some w.2} := by
  ext ⟨fd, events⟩
  constructor
  · rintro ⟨e, hMem, hNonneg, hFD, hEvents⟩
    obtain ⟨i, hEntry⟩ := List.getElem?_of_mem hMem
    obtain ⟨h, hPresent, hIndex⟩ := hRefines.back i e hEntry
    obtain ⟨j, hj, e', hEntry', hShows⟩ := hRefines.entry h hPresent
    obtain rfl : i = j := Int.ofNat_inj.mp (hIndex.symm.trans hj)
    obtain rfl : e = e' := Option.some.inj (hEntry.symm.trans hEntry')
    rcases Status.present_cases hPresent with ⟨old, hStatus⟩ | hStatus
    · rw [hStatus] at hShows
      obtain rfl : e = ⟨h.mFD, old.setWidth 16⟩ := hShows
      obtain rfl : h.mFD = fd := hFD
      obtain rfl : old = events := (hWf.fits h old hStatus).symm.trans hEvents
      show t.events h.mFD = some old
      rw [Interest.events_of_owner (hWf.owned h hPresent), hStatus]
      rfl
    · rw [hStatus] at hShows
      have hNeg : e.fd = -h.mFD - 1 := hShows
      have hPositive := hWf.nonneg h hPresent
      omega
  · intro hWatched
    obtain ⟨h, hLookup, hEvents⟩ := Option.bind_eq_some_iff.mp hWatched
    dsimp only at hLookup hEvents
    have hStatus := Status.watched_of_events hEvents
    have hPresent : (t.status h).present = true := by rw [hStatus]; rfl
    obtain ⟨i, -, e, hEntry, hShows⟩ := hRefines.entry h hPresent
    rw [hStatus] at hShows
    obtain rfl : e = ⟨h.mFD, events.setWidth 16⟩ := hShows
    refine ⟨_, List.mem_of_getElem? hEntry, hWf.nonneg h hPresent, ?_, hWf.fits h events hStatus⟩
    dsimp only
    rw [hWf.keyed fd h hLookup]

end PollPoller

-- ---------------------------------------------------------------------------
-- Runs
-- ---------------------------------------------------------------------------

namespace Pollers

/-- Both pollers stand for the interest. -/
structure Refines (s : Pollers) (poll : PollPoller) : Prop where
  running : s.poll = some poll
  wf : s.interest.Wf
  epoll : s.epoll.Refines s.interest
  poll : poll.Refines s.interest

theorem Refines.interchangeable {s : Pollers} {poll : PollPoller} (h : s.Refines poll) :
    s.Interchangeable := by
  refine ⟨poll, h.running, ?_, ?_⟩
  · rw [h.epoll.watched, h.poll.watched h.wf]
  · rw [EpollPoller.eventSize, PollPoller.eventSize, h.epoll.hash, h.poll.hash]

/-- **One call.** -/
theorem Refines.step {s : Pollers} {poll : PollPoller} (h : s.Refines poll) {call : PollerCall}
    (hAllowed : s.Allowed call) : ∃ poll', (s.step call).Refines poll' := by
  rcases call with h' | ⟨h', events⟩ | h' | h'
  · refine ⟨poll.registerEventHandler h', ?_, h.wf.registerEventHandler h',
      h.epoll.registerEventHandler h.wf h', h.poll.registerEventHandler h'⟩
    rw [Pollers.step, h.running]
    rfl
  · exact ⟨poll, h.running, h.wf, h.epoll, h.poll⟩
  · have hWf : (s.interest.update h' (s.mEvents h')).Wf :=
      h.wf.update fun hLookup => ⟨(hAllowed h' hLookup).2.1, (hAllowed h' hLookup).2.2.1⟩
    have hEpoll := h.epoll.update h.wf fun owner hLookup => by
      obtain ⟨hOwner, hFD, -, hDisabled, -⟩ := hAllowed owner hLookup
      exact ⟨hOwner, hFD, hDisabled⟩
    obtain ⟨poll', hPoll', hRefines⟩ := h.poll.update h.wf fun owner hLookup =>
      ⟨(hAllowed owner hLookup).1, (hAllowed owner hLookup).2.2.2.2⟩
    refine ⟨poll', ?_, hWf, hEpoll, hRefines⟩
    rw [Pollers.step, h.running]
    exact hPoll'
  · have hEpoll := h.epoll.remove h.wf fun owner hLookup =>
      ⟨(hAllowed owner hLookup).1, (hAllowed owner hLookup).2.1⟩
    obtain ⟨poll', hPoll', hRefines⟩ := h.poll.remove h.wf fun owner hLookup =>
      ⟨(hAllowed owner hLookup).1, fun hRemoved =>
        (hAllowed owner hLookup).2.2 hRemoved poll h.running⟩
    refine ⟨poll', ?_, h.wf.remove h', hEpoll, hRefines⟩
    rw [Pollers.step, h.running]
    exact hPoll'

/-- **The two pollers are interchangeable** in every run of allowed calls. -/
theorem pollers_interchangeable {calls : List PollerCall} (h : Run.Each step Allowed new calls) :
    Run.Always step Interchangeable new calls := by
  have hNew : ∃ poll, new.Refines poll :=
    ⟨.new, rfl, Interest.wf_new, EpollPoller.refines_new, PollPoller.refines_new⟩
  have hRefines : Run.Always step (fun s => ∃ poll, s.Refines poll) new calls := by
    refine Run.always_of_each (fun _ _ => True) (fun _ _ _ _ _ _ => trivial) ?_ hNew trivial h
    rintro s call _ - ⟨poll, hPoll⟩ hAllowed
    exact hPoll.step hAllowed
  exact hRefines.imp fun s ⟨poll, hPoll⟩ => hPoll.interchangeable

/-- A handler that is registered, updated and removed. -/
theorem pollers_interchangeable_once : Run.Always step Interchangeable new
    [.registerEventHandler ⟨1, 5⟩, .setEvents ⟨1, 5⟩ 3, .update ⟨1, 5⟩, .remove ⟨1, 5⟩] := by
  refine pollers_interchangeable ⟨trivial, trivial, ?_, ?_, trivial⟩
  · rintro owner hLookup
    obtain rfl : owner = ⟨1, 5⟩ := (Option.some.inj hLookup).symm
    exact ⟨rfl, by decide, by decide, by decide, by decide⟩
  · rintro owner hLookup
    obtain rfl : owner = ⟨1, 5⟩ := (Option.some.inj hLookup).symm
    exact ⟨rfl, by decide, by decide⟩

/-- A disabled handler is removed: `epoll_ctl` fails, and it stays in the hash. And a removed
handler is registered and updated again: its index is beyond the array. -/
theorem not_interchangeable :
    ¬ Run.Always step Interchangeable new
      [.registerEventHandler ⟨1, 5⟩, .setEvents ⟨1, 5⟩ 3, .update ⟨1, 5⟩, .setEvents ⟨1, 5⟩ 0,
        .update ⟨1, 5⟩, .remove ⟨1, 5⟩] ∧
    ¬ Run.Always step Interchangeable new
      [.registerEventHandler ⟨1, 5⟩, .setEvents ⟨1, 5⟩ 3, .update ⟨1, 5⟩, .remove ⟨1, 5⟩,
        .registerEventHandler ⟨1, 5⟩, .update ⟨1, 5⟩] := by
  constructor
  · intro h
    obtain ⟨poll, hPoll, -, hSize⟩ := h.final
    obtain rfl := Option.some.inj hPoll
    exact absurd hSize (by decide)
  · intro h
    obtain ⟨poll, hPoll, -, -⟩ := h.final
    cases hPoll

end Pollers

end WarringServer.Net
