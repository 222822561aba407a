import WarringServer.Net.PollerRefine

/-!
# An `EpollPoller` whose system calls may fail

The index of a handler is all that an `EpollPoller` knows about the interest set of the
kernel. Any call of `epoll_ctl` may fail, and then it changes nothing.

* `Knows.registerEventHandler`, `Knows.update`, `Knows.remove` — each call keeps the
  indices in step with the kernel;
* `epoll_in_step` — so does every run with one handler object for a descriptor.
-/

namespace WarringServer.Net

/-- `epoll_ctl`, which may also fail for another reason. -/
def InterestSet.epollCtlIf (interest : InterestSet) (succeeds : Bool) (op : CtlOp) (fd : Int)
    (events : BitVec 32) : Option InterestSet :=
  if succeeds then interest.epollCtl op fd events else none

namespace EpollPoller

/-- `update`, and the request that `epoll_ctl` has carried out. -/
def updateIf (p : EpollPoller) (h : EventHandler) (events : BitVec 32) (succeeds : Bool) :
    EpollPoller × Option CtlOp :=
  match p.mEventHandlerHash.lookup h.mFD with
  | none => (p, none)
  | some registered =>
    if p.mIndex h < 0 then
      match p.interest.epollCtlIf succeeds .add h.mFD events with
      | none => (p, none)
      | some interest =>
        ({ mEventHandlerHash := p.mEventHandlerHash.insert h.mFD h, interest,
           mIndex := Function.update p.mIndex h 1 }, some .add)
    else if events = 0 then
      match p.interest.epollCtlIf succeeds .del h.mFD events with
      | none => (p, none)
      | some interest =>
        ({ p with interest, mIndex := Function.update p.mIndex registered (-1) }, some .del)
    else
      match p.interest.epollCtlIf succeeds .mod h.mFD events with
      | none => (p, none)
      | some interest =>
        ({ p with mEventHandlerHash := p.mEventHandlerHash.insert h.mFD h, interest }, some .mod)

def removeIf (p : EpollPoller) (h : EventHandler) (succeeds : Bool) : EpollPoller :=
  match p.mEventHandlerHash.lookup h.mFD with
  | none => p
  | some _ =>
    match p.interest.epollCtlIf succeeds .del h.mFD 0 with
    | none => p
    | some interest =>
      { mEventHandlerHash := p.mEventHandlerHash.erase h.mFD, interest,
        mIndex := Function.update p.mIndex h (-1) }

end EpollPoller

inductive EpollCall where
  | registerEventHandler (h : EventHandler)
  /-- `events` are those of `h`. -/
  | update (h : EventHandler) (events : BitVec 32) (succeeds : Bool)
  | remove (h : EventHandler) (succeeds : Bool)
  deriving DecidableEq, Repr

def EpollCall.handler : EpollCall → EventHandler
  | .registerEventHandler h => h
  | .update h _ _ => h
  | .remove h _ => h

/-- A poller, the handlers passed to `update`, and the events of each at its last successful
`EPOLL_CTL_ADD` or `EPOLL_CTL_MOD`. -/
structure EpollKernel where
  poller : EpollPoller
  passed : List EventHandler
  sent : EventHandler → Option (BitVec 32)

namespace EpollKernel

def new : EpollKernel where
  poller := .new
  passed := []
  sent := fun _ => none

def step (s : EpollKernel) : EpollCall → EpollKernel
  | .registerEventHandler h => { s with poller := s.poller.registerEventHandler h }
  | .update h events succeeds =>
    { poller := (s.poller.updateIf h events succeeds).1
      passed := h :: s.passed
      sent :=
        match (s.poller.updateIf h events succeeds).2 with
        | some .add | some .mod => Function.update s.sent h (some events)
        | some .del | none => s.sent }
  | .remove h succeeds => { s with poller := s.poller.removeIf h succeeds }

/-- An index is not negative exactly if the descriptor is in the interest set, and the events
there are those that were sent last. -/
def InStep (s : EpollKernel) : Prop :=
  ∀ h ∈ s.passed, (0 ≤ s.poller.mIndex h ↔ (s.poller.interest h.mFD).isSome) ∧
    ∀ events, s.poller.interest h.mFD = some events → s.sent h = some events

end EpollKernel

-- ---------------------------------------------------------------------------
-- System calls
-- ---------------------------------------------------------------------------

section

variable {interest interest' : InterestSet} {succeeds : Bool} {fd : Int} {events : BitVec 32}

/-- What a successful request leaves. -/
theorem InterestSet.epollCtlIf_some {op : CtlOp}
    (h : interest.epollCtlIf succeeds op fd events = some interest') :
    interest' = Function.update interest fd (match op with
      | .add | .mod => some events
      | .del => none) := by
  unfold epollCtlIf at h
  split at h
  · unfold epollCtl at h
    split at h
    · cases h
    · cases op with
      | add => split at h <;> simp_all
      | mod => split at h <;> simp_all
      | del => split at h <;> simp_all
  · cases h

theorem InterestSet.epollCtlIf_true {op : CtlOp} :
    interest.epollCtlIf true op fd events = interest.epollCtl op fd events := rfl

end

namespace EpollPoller

variable {p : EpollPoller} {h : EventHandler} {events : BitVec 32} {succeeds : Bool}

/-- Without failures, these are the calls of `EpollPoller`. -/
theorem updateIf_true : (p.updateIf h events true).1 = p.update h events := by
  unfold updateIf update
  simp only [InterestSet.epollCtlIf_true]
  cases p.mEventHandlerHash.lookup h.mFD with
  | none => rfl
  | some registered =>
    dsimp only
    split
    · cases p.interest.epollCtl .add h.mFD events <;> rfl
    · split
      · cases p.interest.epollCtl .del h.mFD events <;> rfl
      · cases p.interest.epollCtl .mod h.mFD events <;> rfl

theorem removeIf_true : p.removeIf h true = p.remove h := rfl

end EpollPoller

-- ---------------------------------------------------------------------------
-- Calls
-- ---------------------------------------------------------------------------

namespace EpollKernel

/-- `InStep` for all the handler objects there are, and what the hash has of them. -/
structure Knows (s : EpollKernel) (objects : Set EventHandler) : Prop where
  hashed : ∀ fd h, s.poller.mEventHandlerHash.lookup fd = some h → h ∈ objects ∧ h.mFD = fd
  index : ∀ h ∈ objects, 0 ≤ s.poller.mIndex h ↔ (s.poller.interest h.mFD).isSome
  sent : ∀ h ∈ objects, ∀ events, s.poller.interest h.mFD = some events → s.sent h = some events
  passed : ∀ h ∈ s.passed, h ∈ objects

variable {s : EpollKernel} {objects : Set EventHandler} {h : EventHandler}

theorem knows_new : new.Knows objects where
  hashed _ _ hLookup := nomatch hLookup
  index _ _ := iff_of_false (Int.not_le.mpr (Int.negSucc_lt_zero 0)) fun hSome => nomatch hSome
  sent _ _ _ hInterest := nomatch hInterest
  passed _ hMem := nomatch hMem

theorem Knows.inStep (hKnows : s.Knows objects) : s.InStep := fun h hMem =>
  ⟨hKnows.index h (hKnows.passed h hMem), hKnows.sent h (hKnows.passed h hMem)⟩

/-- A request for the descriptor of `h` was carried out. -/
theorem Knows.requested (hKnows : s.Knows objects) (hOne : Set.InjOn EventHandler.mFD objects)
    (hMem : h ∈ objects) {s' : EpollKernel} {watched : Option (BitVec 32)}
    (hHashed : ∀ fd h', s'.poller.mEventHandlerHash.lookup fd = some h' →
      h' ∈ objects ∧ h'.mFD = fd)
    (hInterest : s'.poller.interest = Function.update s.poller.interest h.mFD watched)
    (hIndex : 0 ≤ s'.poller.mIndex h ↔ watched.isSome)
    (hIndices : ∀ h' ≠ h, s'.poller.mIndex h' = s.poller.mIndex h')
    (hSent : ∀ events, watched = some events → s'.sent h = some events)
    (hOthers : ∀ h' ≠ h, s'.sent h' = s.sent h') (hPassed : ∀ h' ∈ s'.passed, h' ∈ objects) :
    s'.Knows objects := by
  have hApart {h' : EventHandler} (hMem' : h' ∈ objects) (hNe : h' ≠ h) :
      s'.poller.interest h'.mFD = s.poller.interest h'.mFD := by
    rw [hInterest, Function.update_of_ne]
    exact fun hFD => hNe (hOne hMem' hMem hFD)
  have hSelf : s'.poller.interest h.mFD = watched := by
    rw [hInterest, Function.update_self]
  refine ⟨hHashed, ?_, ?_, hPassed⟩
  · intro h' hMem'
    by_cases hIs : h' = h
    · rw [hIs, hSelf]
      exact hIndex
    · rw [hApart hMem' hIs, hIndices h' hIs]
      exact hKnows.index h' hMem'
  · intro h' hMem' events hWatched
    by_cases hIs : h' = h
    · rw [hIs, hSelf] at hWatched
      rw [hIs]
      exact hSent events hWatched
    · rw [hApart hMem' hIs] at hWatched
      rw [hOthers h' hIs]
      exact hKnows.sent h' hMem' events hWatched

theorem Knows.hashed_insert (hKnows : s.Knows objects) (hMem : h ∈ objects) :
    ∀ fd h', (s.poller.mEventHandlerHash.insert h.mFD h).lookup fd = some h' →
      h' ∈ objects ∧ h'.mFD = fd := by
  intro fd h' hLookup
  by_cases hIs : fd = h.mFD
  · rw [hIs, Finmap.lookup_insert] at hLookup
    rw [← Option.some.inj hLookup]
    exact ⟨hMem, hIs.symm⟩
  · rw [Finmap.lookup_insert_of_ne _ hIs] at hLookup
    exact hKnows.hashed fd h' hLookup

theorem Knows.registerEventHandler (hKnows : s.Knows objects) (hMem : h ∈ objects) :
    (s.step (.registerEventHandler h)).Knows objects := by
  refine ⟨fun fd h' hLookup => ?_, hKnows.index, hKnows.sent, hKnows.passed⟩
  change (s.poller.mEventHandlerHash.emplace h).lookup fd = some h' at hLookup
  rw [HandlerHash.lookup_emplace] at hLookup
  split at hLookup
  · rename_i hNew
    rw [← Option.some.inj hLookup]
    exact ⟨hMem, hNew.1.symm⟩
  · exact hKnows.hashed fd h' hLookup

/-- What `update` has done: nothing, or what it asked of `epoll_ctl`. -/
theorem updateIf_cases (hKnows : s.Knows objects) (hOne : Set.InjOn EventHandler.mFD objects)
    (hMem : h ∈ objects) (events : BitVec 32) (succeeds : Bool) :
    s.poller.updateIf h events succeeds = (s.poller, none) ∨
    s.poller.updateIf h events succeeds =
      ({ mEventHandlerHash := s.poller.mEventHandlerHash.insert h.mFD h
         interest := Function.update s.poller.interest h.mFD (some events)
         mIndex := Function.update s.poller.mIndex h 1 }, some .add) ∨
    s.poller.updateIf h events succeeds =
      ({ s.poller with
         interest := Function.update s.poller.interest h.mFD none
         mIndex := Function.update s.poller.mIndex h (-1) }, some .del) ∨
    0 ≤ s.poller.mIndex h ∧ s.poller.updateIf h events succeeds =
      ({ s.poller with
         mEventHandlerHash := s.poller.mEventHandlerHash.insert h.mFD h
         interest := Function.update s.poller.interest h.mFD (some events) }, some .mod) := by
  unfold EpollPoller.updateIf
  cases hLookup : s.poller.mEventHandlerHash.lookup h.mFD with
  | none => exact Or.inl rfl
  | some registered =>
    -- the one object for the descriptor
    obtain ⟨hRegistered, hFD⟩ := hKnows.hashed h.mFD registered hLookup
    obtain rfl := hOne hRegistered hMem hFD
    dsimp only
    split
    · cases hCtl : s.poller.interest.epollCtlIf succeeds .add registered.mFD events with
      | none => exact Or.inl rfl
      | some interest =>
        rw [InterestSet.epollCtlIf_some hCtl]
        exact Or.inr (Or.inl rfl)
    · rename_i hIndex
      split
      · cases hCtl : s.poller.interest.epollCtlIf succeeds .del registered.mFD events with
        | none => exact Or.inl rfl
        | some interest =>
          rw [InterestSet.epollCtlIf_some hCtl]
          exact Or.inr (Or.inr (Or.inl rfl))
      · cases hCtl : s.poller.interest.epollCtlIf succeeds .mod registered.mFD events with
        | none => exact Or.inl rfl
        | some interest =>
          rw [InterestSet.epollCtlIf_some hCtl]
          exact Or.inr (Or.inr (Or.inr ⟨Int.not_lt.mp hIndex, rfl⟩))

theorem Knows.update (hKnows : s.Knows objects) (hOne : Set.InjOn EventHandler.mFD objects)
    (hMem : h ∈ objects) (events : BitVec 32) (succeeds : Bool) :
    (s.step (.update h events succeeds)).Knows objects := by
  have hPassed : ∀ h' ∈ h :: s.passed, h' ∈ objects := by
    intro h' hMem'
    rcases List.mem_cons.mp hMem' with rfl | hOld
    · exact hMem
    · exact hKnows.passed h' hOld
  rw [step]
  rcases updateIf_cases hKnows hOne hMem events succeeds with
    hUpdate | hUpdate | hUpdate | ⟨hIndex, hUpdate⟩
  · rw [hUpdate]
    exact ⟨hKnows.hashed, hKnows.index, hKnows.sent, hPassed⟩
  · rw [hUpdate]
    refine hKnows.requested hOne hMem (hKnows.hashed_insert hMem) rfl ?_
      (fun h' hNe => Function.update_of_ne hNe ..) (fun events' hEvents => ?_)
      (fun h' hNe => Function.update_of_ne hNe ..) hPassed
    · dsimp only
      rw [Function.update_self]
      exact iff_of_true (by decide) rfl
    · dsimp only
      rw [Function.update_self, hEvents]
  · rw [hUpdate]
    refine hKnows.requested hOne hMem hKnows.hashed rfl ?_
      (fun h' hNe => Function.update_of_ne hNe ..) (fun events' hEvents => nomatch hEvents)
      (fun h' hNe => rfl) hPassed
    dsimp only
    rw [Function.update_self]
    exact iff_of_false (by decide) (fun hSome => nomatch hSome)
  · rw [hUpdate]
    refine hKnows.requested hOne hMem (hKnows.hashed_insert hMem) rfl (iff_of_true hIndex rfl)
      (fun h' hNe => rfl) (fun events' hEvents => ?_)
      (fun h' hNe => Function.update_of_ne hNe ..) hPassed
    dsimp only
    rw [Function.update_self, hEvents]

theorem Knows.remove (hKnows : s.Knows objects) (hOne : Set.InjOn EventHandler.mFD objects)
    (hMem : h ∈ objects) (succeeds : Bool) : (s.step (.remove h succeeds)).Knows objects := by
  rw [step]
  unfold EpollPoller.removeIf
  cases s.poller.mEventHandlerHash.lookup h.mFD with
  | none => exact hKnows
  | some registered =>
    dsimp only
    cases hCtl : s.poller.interest.epollCtlIf succeeds .del h.mFD 0 with
    | none => exact hKnows
    | some interest =>
      refine hKnows.requested hOne hMem (fun fd h' hLookup => ?_)
        (InterestSet.epollCtlIf_some hCtl) ?_ (fun h' hNe => Function.update_of_ne hNe ..)
        (fun events hEvents => nomatch hEvents) (fun _ _ => rfl) hKnows.passed
      · dsimp only at hLookup
        by_cases hIs : fd = h.mFD
        · rw [hIs, Finmap.lookup_erase] at hLookup
          cases hLookup
        · rw [Finmap.lookup_erase_ne hIs] at hLookup
          exact hKnows.hashed fd h' hLookup
      · dsimp only
        rw [Function.update_self]
        exact iff_of_false (by decide) (fun hSome => nomatch hSome)

theorem Knows.step (hKnows : s.Knows objects) (hOne : Set.InjOn EventHandler.mFD objects)
    {call : EpollCall} (hMem : call.handler ∈ objects) : (s.step call).Knows objects := by
  cases call with
  | registerEventHandler h => exact hKnows.registerEventHandler hMem
  | update h events succeeds => exact hKnows.update hOne hMem events succeeds
  | remove h succeeds => exact hKnows.remove hOne hMem succeeds

-- ---------------------------------------------------------------------------
-- Runs
-- ---------------------------------------------------------------------------

/-- **The poller and the kernel** stay in step, whichever system calls fail. -/
theorem epoll_in_step {calls : List EpollCall}
    (hOne : ∀ c ∈ calls, ∀ c' ∈ calls, c.handler.mFD = c'.handler.mFD → c.handler = c'.handler) :
    Run.Always step InStep new calls := by
  let objects : Set EventHandler := {h | ∃ c ∈ calls, c.handler = h}
  have hInj : Set.InjOn EventHandler.mFD objects := by
    rintro _ ⟨c, hMem, rfl⟩ _ ⟨c', hMem', rfl⟩ hFD
    exact hOne c hMem c' hMem' hFD
  have hEach : Run.Each step (fun _ c => c.handler ∈ objects) new calls :=
    Run.each_of_forall fun c hMem => ⟨c, hMem, rfl⟩
  have hKnows : Run.Always step (fun s => s.Knows objects) new calls :=
    Run.always_of_each (fun _ _ => True) (fun _ _ _ _ _ _ => trivial)
      (fun s call _ _ hKnows hMem => hKnows.step hInj hMem) knows_new trivial hEach
  exact hKnows.imp fun s hKnows => hKnows.inStep

/-- The kernel refuses to add a descriptor, to disable it and to remove it. -/
theorem epoll_in_step_failures : Run.Always step InStep new
    [.registerEventHandler ⟨0, 3⟩, .update ⟨0, 3⟩ 1 false, .update ⟨0, 3⟩ 1 true,
      .update ⟨0, 3⟩ 0 false, .remove ⟨0, 3⟩ false, .update ⟨0, 3⟩ 0 true,
      .remove ⟨0, 3⟩ true] :=
  epoll_in_step (by decide)

end EpollKernel

end WarringServer.Net
