import Mathlib.Logic.Function.Iterate
import WarringServer.Lib.Run

/-!
# Closing an accepted connection

The loop thread passes a mask to `EventHandler::doEvnet`, which tests four flags in a row
and runs the callback of each that is set; other threads may call `activeClose` on a
connection they hold, between any two tests. `TcpServer::newConnectionFunc` binds a pointer
to the connection in the connection's own close function: `removeConnection` uses it and
then resets it. The handler is with its poller until the last pointer is gone.

* `finish` — the rest of the tests, with a read that fails; what is certain to come;
* `finish_iff` — whether what has happened and what is certain to come closes once;
* `closes_once_iff` — the condition on masks, read results and closes from outside under
  which a connection closes once.

Nothing in the code remembers that the connection is closed: `doEvnet` goes on to the
next test, and a second close dereferences the pointer that the first one has reset.
-/

namespace WarringServer.Net

-- ---------------------------------------------------------------------------
-- Callbacks of a handler
-- ---------------------------------------------------------------------------

inductive Callback where
  | close
  | error
  | read
  | write
  deriving DecidableEq, Repr

/-- The tests of `doEvnet`, in order. -/
def doEvnet : List Callback := [.close, .error, .read, .write]

def pollIn : BitVec 32 := 0x001
def pollPri : BitVec 32 := 0x002
def pollOut : BitVec 32 := 0x004
def pollErr : BitVec 32 := 0x008
def pollHup : BitVec 32 := 0x010
def pollNval : BitVec 32 := 0x020
def pollRdhup : BitVec 32 := 0x2000

/-- The test of `doEvnet` before the callback. -/
def Callback.flagged (revents : BitVec 32) : Callback → Bool
  | .close => revents &&& pollHup ≠ 0 ∧ ¬ revents &&& pollIn ≠ 0
  | .error => revents &&& (pollNval ||| pollErr) ≠ 0
  | .read => revents &&& (pollIn ||| pollPri ||| pollRdhup) ≠ 0
  | .write => revents &&& pollOut ≠ 0

/-- None of the callbacks is flagged. -/
def Quiet (revents : BitVec 32) (tests : List Callback) : Prop :=
  ∀ c ∈ tests, c.flagged revents = false

/-- What the input buffer's `read` returns: `n > 0`, with the number of times the message
function then calls `activeClose`; `n = 0`; `n < 0`. -/
inductive ReadResult where
  | data (closes : Nat)
  | eof
  | error
  deriving DecidableEq, Repr

/-- A close is only ever the first test. -/
theorem close_notMem_of_order {c : Callback} {tests : List Callback}
    (h : c :: tests <:+ doEvnet) : Callback.close ∉ tests := by
  intro hMem
  obtain ⟨before, hOrder⟩ := h
  have hRest : Callback.close ∈ [Callback.error, .read, .write] := by
    rcases before with _ | ⟨c', before⟩
    · exact (List.cons.inj hOrder).2 ▸ hMem
    · exact (List.cons.inj hOrder).2 ▸ List.mem_append_right before (List.mem_cons_of_mem c hMem)
  simp at hRest

-- ---------------------------------------------------------------------------
-- What is observed
-- ---------------------------------------------------------------------------

/-- `removeConnection` is entered with the pointer that is bound to it, or with a null one. -/
inductive Entry where
  | callback (c : Callback)
  | removeConnection (valid : Bool)
  deriving DecidableEq, Repr

def Entry.isRemoval : Entry → Bool
  | .callback _ => false
  | .removeConnection _ => true

/-- The property: `removeConnection` is entered once at most, never with the pointer it has
reset, and no callback is run after it. -/
structure ClosesOnce (log : List Entry) : Prop where
  once : log.countP Entry.isRemoval ≤ 1
  valid : Entry.removeConnection false ∉ log
  last : ∀ earlier valid later, log = earlier ++ .removeConnection valid :: later →
    ∀ c, Entry.callback c ∉ later

/-- No removal yet. -/
def Clean (log : List Entry) : Prop := ∀ valid, Entry.removeConnection valid ∉ log

section

variable {log : List Entry}

theorem Clean.countP (h : Clean log) : log.countP Entry.isRemoval = 0 := by
  rw [List.countP_eq_zero]
  rintro (c | valid) hMem
  · simp [Entry.isRemoval]
  · exact absurd hMem (h valid)

theorem Clean.closesOnce (h : Clean log) : ClosesOnce log where
  once := by
    rw [h.countP]
    omega
  valid := h false
  last := by
    rintro earlier valid later rfl
    exact absurd (by simp) (h valid)

theorem clean_append_callback {c : Callback} : Clean (log ++ [.callback c]) ↔ Clean log := by
  simp [Clean]

/-- A callback may be run as long as nothing is removed. -/
theorem closesOnce_callback_iff {c : Callback} :
    ClosesOnce (log ++ [.callback c]) ↔ Clean log := by
  constructor
  · intro h valid hMem
    obtain ⟨earlier, later, rfl⟩ := List.append_of_mem hMem
    refine h.last earlier valid (later ++ [.callback c]) ?_ c (by simp)
    rw [List.append_assoc, List.cons_append]
  · exact fun h => (clean_append_callback.mpr h).closesOnce

/-- The connection may be removed as long as it is not. -/
theorem closesOnce_removal_iff {valid : Bool} :
    ClosesOnce (log ++ [.removeConnection valid]) ↔ Clean log ∧ valid = true := by
  constructor
  · intro h
    constructor
    · intro valid' hMem
      have hOld : 0 < log.countP Entry.isRemoval := List.countP_pos_iff.mpr ⟨_, hMem, rfl⟩
      have hOnce := h.once
      rw [List.countP_append, List.countP_singleton, Entry.isRemoval, if_pos rfl] at hOnce
      omega
    · by_contra hValid
      rw [Bool.not_eq_true] at hValid
      subst hValid
      exact h.valid (by simp)
  · rintro ⟨hClean, rfl⟩
    refine ⟨?_, ?_, ?_⟩
    · rw [List.countP_append, hClean.countP, List.countP_singleton]
      split
      · omega
      · omega
    · simpa using hClean false
    · intro earlier valid later hSplit c hMem
      -- the removal of the split is the last entry, so nothing is later
      rcases List.eq_nil_or_concat later with rfl | ⟨later, e, rfl⟩
      · exact absurd hMem List.not_mem_nil
      · rw [List.concat_eq_append, ← List.cons_append, ← List.append_assoc] at hSplit
        have hEq : log = earlier ++ .removeConnection valid :: later :=
          (List.append_inj' hSplit rfl).1
        exact absurd (by simp [hEq]) (hClean valid)

/-- What a longer log meets, its beginning does. -/
theorem ClosesOnce.of_append {log' : List Entry} (h : ClosesOnce (log ++ log')) :
    ClosesOnce log where
  once := by
    have hOnce := h.once
    rw [List.countP_append] at hOnce
    omega
  valid hMem := h.valid (List.mem_append_left _ hMem)
  last := by
    rintro earlier valid later rfl c hMem
    refine h.last earlier valid (later ++ log') ?_ c (List.mem_append_left _ hMem)
    rw [List.append_assoc, List.cons_append]

end

-- ---------------------------------------------------------------------------
-- An accepted connection
-- ---------------------------------------------------------------------------

/-- A connection of `TcpServer`. -/
structure Accepted where
  /-- The pointer bound in `mCloseFunc` is not reset. -/
  connPtr : Bool
  /-- `mTcpConnections` has the connection. -/
  stored : Bool
  /-- Pointers of other owners. -/
  holders : Nat
  mRevents : BitVec 32
  /-- The tests still to come of the `doEvnet` in progress. -/
  tests : List Callback
  log : List Entry
  deriving DecidableEq, Repr

namespace Accepted

/-- After `newConnectionFunc`. -/
def newConnectionFunc : Accepted where
  connPtr := true
  stored := true
  holders := 0
  mRevents := 0
  tests := []
  log := []

/-- The last pointer is gone: the destructor has run, and taken the handler from its poller. -/
def destroyed (s : Accepted) : Bool := !s.connPtr && !s.stored && s.holders = 0

def removeConnection (s : Accepted) : Accepted :=
  if s.connPtr then
    { s with log := s.log ++ [.removeConnection true], stored := false, connPtr := false }
  else
    -- `connPtr->getName()`
    { s with log := s.log ++ [.removeConnection false] }

/-- `activeClose` and `closeFunc`: `mCloseFunc` is set, to `removeConnection`. -/
def closeFunc (s : Accepted) : Accepted := s.removeConnection

/-- `readFunc`, after the input buffer's `read`. -/
def readFunc (s : Accepted) : ReadResult → Accepted
  | .data closes => closeFunc^[closes] s
  | .eof => s.closeFunc
  | .error => s

/-- A callback of the handler; it is bound to `this`, whether the connection is there or not. -/
def invoke (s : Accepted) (r : ReadResult) (c : Callback) : Accepted :=
  let s := { s with log := s.log ++ [.callback c] }
  if s.destroyed then s
  else match c with
    | .close => s.closeFunc
    | .error => s
    | .read => s.readFunc r
    | .write => s

end Accepted

inductive ConnEvent where
  /-- The poller reports the mask, and `doEvnet` begins. -/
  | poll (revents : BitVec 32)
  /-- The next test of `doEvnet`, with what a read would return. -/
  | test (r : ReadResult)
  /-- `getConnPtrRef`, or a copy of a pointer. -/
  | hold
  | drop
  /-- `activeClose`, called by a holder. -/
  | activeClose
  deriving DecidableEq, Repr

namespace Accepted

/-- An event that cannot happen leaves the state as it is. -/
def step (s : Accepted) : ConnEvent → Accepted
  | .poll revents =>
    if s.tests = [] ∧ s.destroyed = false then { s with mRevents := revents, tests := doEvnet }
    else s
  | .test r =>
    match s.tests with
    | [] => s
    | c :: tests =>
      let s := { s with tests := tests }
      if c.flagged s.mRevents then s.invoke r c else s
  | .hold => if s.stored || 0 < s.holders then { s with holders := s.holders + 1 } else s
  | .drop => { s with holders := s.holders - 1 }
  | .activeClose => if 0 < s.holders then s.closeFunc else s

/-- The `doEvnet` in progress run to its end, with a read that fails. -/
def finish (s : Accepted) : Accepted :=
  Run.final step s (List.replicate s.tests.length (.test .error))

/-- The pointer is bound exactly as long as nothing is removed, and `doEvnet` is somewhere in
its tests. -/
structure Tied (s : Accepted) : Prop where
  bound : s.connPtr = true ↔ Clean s.log
  order : s.tests <:+ doEvnet

-- ---------------------------------------------------------------------------
-- One step
-- ---------------------------------------------------------------------------

section

variable {s : Accepted}

theorem step_test_nil {r : ReadResult} (h : s.tests = []) : s.step (.test r) = s := by
  rw [step, h]

theorem step_test_cons {r : ReadResult} {c : Callback} {tests : List Callback}
    (h : s.tests = c :: tests) : s.step (.test r) =
      if c.flagged s.mRevents then { s with tests := tests }.invoke r c
      else { s with tests := tests } := by
  rw [step, h]

/-- On an open connection a callback does what it is for. -/
theorem invoke_of_open (h : s.connPtr = true) (r : ReadResult) (c : Callback) : s.invoke r c =
    let s := { s with log := s.log ++ [.callback c] }
    match c with
    | .close => s.removeConnection
    | .read => s.readFunc r
    | .error | .write => s := by
  unfold invoke
  rw [if_neg (by simp [destroyed, h])]
  rcases c with _ | _ | _ | _
  all_goals rfl

theorem removeConnection_of_connPtr (h : s.connPtr = true) : s.removeConnection =
    { s with log := s.log ++ [.removeConnection true], stored := false, connPtr := false } :=
  if_pos h

theorem removeConnection_of_reset (h : s.connPtr = false) : s.removeConnection =
    { s with log := s.log ++ [.removeConnection false] } :=
  if_neg (by simp [h])

@[simp] theorem removeConnection_connPtr : s.removeConnection.connPtr = false := by
  rcases hPtr : s.connPtr with _ | _
  · rw [removeConnection_of_reset hPtr, hPtr]
  · rw [removeConnection_of_connPtr hPtr]

@[simp] theorem removeConnection_tests : s.removeConnection.tests = s.tests := by
  rcases hPtr : s.connPtr with _ | _
  · rw [removeConnection_of_reset hPtr]
  · rw [removeConnection_of_connPtr hPtr]

@[simp] theorem removeConnection_mRevents : s.removeConnection.mRevents = s.mRevents := by
  rcases hPtr : s.connPtr with _ | _
  · rw [removeConnection_of_reset hPtr]
  · rw [removeConnection_of_connPtr hPtr]

theorem removeConnection_log : s.removeConnection.log = s.log ++ [.removeConnection s.connPtr] := by
  rcases hPtr : s.connPtr with _ | _
  · rw [removeConnection_of_reset hPtr]
  · rw [removeConnection_of_connPtr hPtr]

theorem Tied.removeConnection (h : s.Tied) : s.removeConnection.Tied where
  bound := by
    rw [removeConnection_connPtr, removeConnection_log]
    exact ⟨fun hPtr => (nomatch hPtr), fun hClean => absurd (by simp) (hClean s.connPtr)⟩
  order := by
    rw [removeConnection_tests]
    exact h.order

/-- **A removal closes once** if the pointer is bound, since then it is the first. -/
theorem closesOnce_removeConnection_iff (h : s.Tied) :
    ClosesOnce s.removeConnection.log ↔ s.connPtr = true := by
  rw [removeConnection_log, closesOnce_removal_iff, ← h.bound, and_self_iff]

/-- Nothing but the log of a state changes. -/
theorem Tied.emit (h : s.Tied) (c : Callback) : Tied { s with log := s.log ++ [.callback c] } where
  bound := by
    rw [clean_append_callback]
    exact h.bound
  order := h.order

theorem Tied.readFunc (h : s.Tied) (r : ReadResult) : (s.readFunc r).Tied := by
  rcases r with closes | _ | _
  · rw [Accepted.readFunc]
    induction closes with
    | zero => exact h
    | succ closes ih =>
      rw [Function.iterate_succ_apply']
      exact ih.removeConnection
  · exact h.removeConnection
  · exact h

theorem Tied.invoke (h : s.Tied) (r : ReadResult) (c : Callback) : (s.invoke r c).Tied := by
  have hEmit := h.emit c
  unfold Accepted.invoke
  dsimp only
  split
  · exact hEmit
  · rcases c with _ | _ | _ | _
    · exact hEmit.removeConnection
    · exact hEmit
    · exact hEmit.readFunc r
    · exact hEmit

theorem Tied.step (h : s.Tied) (e : ConnEvent) : (s.step e).Tied := by
  rcases e with m | r | _ | _ | _
  · rw [Accepted.step]
    split
    · exact ⟨h.bound, List.suffix_rfl⟩
    · exact h
  · rcases hTests : s.tests with _ | ⟨c, tests⟩
    · rw [step_test_nil hTests]
      exact h
    · have hRest : Tied { s with tests := tests } :=
        ⟨h.bound, (List.suffix_cons c tests).trans (hTests ▸ h.order)⟩
      rw [step_test_cons hTests]
      split
      · exact hRest.invoke r c
      · exact hRest
  · rw [Accepted.step]
    split
    · exact ⟨h.bound, h.order⟩
    · exact h
  · exact ⟨h.bound, h.order⟩
  · rw [Accepted.step]
    split
    · exact h.removeConnection
    · exact h

-- ---------------------------------------------------------------------------
-- The log grows
-- ---------------------------------------------------------------------------

theorem removeConnection_log_grows : s.log <+: s.removeConnection.log := by
  rw [removeConnection_log]
  exact List.prefix_append _ _

theorem readFunc_log_grows (r : ReadResult) : s.log <+: (s.readFunc r).log := by
  rcases r with closes | _ | _
  · rw [readFunc]
    induction closes with
    | zero => exact List.prefix_rfl
    | succ closes ih =>
      rw [Function.iterate_succ_apply']
      exact ih.trans removeConnection_log_grows
  · exact removeConnection_log_grows
  · exact List.prefix_rfl

/-- A callback is logged before anything it does. -/
theorem invoke_log_grows (r : ReadResult) (c : Callback) :
    s.log ++ [.callback c] <+: (s.invoke r c).log := by
  unfold invoke
  dsimp only
  split
  · exact List.prefix_rfl
  · rcases c with _ | _ | _ | _
    · exact removeConnection_log_grows (s := { s with log := s.log ++ [.callback .close] })
    · exact List.prefix_rfl
    · exact readFunc_log_grows (s := { s with log := s.log ++ [.callback .read] }) r
    · exact List.prefix_rfl

@[simp] theorem readFunc_tests (r : ReadResult) : (s.readFunc r).tests = s.tests := by
  rcases r with closes | _ | _
  · rw [readFunc]
    induction closes with
    | zero => rfl
    | succ closes ih =>
      rw [Function.iterate_succ_apply', closeFunc, removeConnection_tests, ih]
  · exact removeConnection_tests
  · rfl

@[simp] theorem invoke_tests (r : ReadResult) (c : Callback) : (s.invoke r c).tests = s.tests := by
  unfold invoke
  dsimp only
  split
  · rfl
  · rcases c with _ | _ | _ | _
    · exact removeConnection_tests
    · rfl
    · exact readFunc_tests r
    · rfl

-- ---------------------------------------------------------------------------
-- The rest of the tests
-- ---------------------------------------------------------------------------

theorem finish_nil (h : s.tests = []) : s.finish = s := by
  rw [finish, h]
  rfl

theorem finish_cons {c : Callback} {tests : List Callback} (h : s.tests = c :: tests) :
    s.finish = (s.step (.test .error)).finish := by
  have hTests : (s.step (.test .error)).tests = tests := by
    rw [step_test_cons h]
    split
    · exact invoke_tests _ _
    · rfl
  rw [finish, h, finish, hTests, List.length_cons, List.replicate_succ, Run.final_cons]

theorem finish_log_grows (s : Accepted) : s.log <+: s.finish.log := by
  induction hTests : s.tests generalizing s with
  | nil =>
    have hSame : s.finish.log = s.log := by rw [finish_nil hTests]
    exact hSame ▸ List.prefix_rfl
  | cons c tests ih =>
    rw [finish_cons hTests, step_test_cons hTests]
    split
    · have hInvoke := invoke_log_grows ReadResult.error c (s := { s with tests := tests })
      exact ((List.prefix_append _ _).trans hInvoke).trans (ih _ (invoke_tests _ _))
    · exact ih { s with tests := tests } rfl

/-- After a removal the rest of the tests must find nothing. -/
theorem finish_of_reset (h : s.Tied) (hPtr : s.connPtr = false) :
    ClosesOnce s.finish.log ↔ ClosesOnce s.log ∧ Quiet s.mRevents s.tests := by
  have hRemoved : ¬ Clean s.log := by
    rw [← h.bound, hPtr]
    exact Bool.false_ne_true
  induction hTests : s.tests generalizing s with
  | nil =>
    rw [finish_nil hTests]
    exact ⟨fun hLog => ⟨hLog, fun _ hMem => absurd hMem List.not_mem_nil⟩, And.left⟩
  | cons c tests ih =>
    have hTied := h.step (.test .error)
    rw [finish_cons hTests]
    rw [step_test_cons hTests] at hTied ⊢
    by_cases hFlag : c.flagged s.mRevents = true
    · rw [if_pos hFlag]
      constructor
      · intro hLog
        obtain ⟨later, hLater⟩ := (invoke_log_grows ReadResult.error c
          (s := { s with tests := tests })).trans (finish_log_grows _)
        rw [← hLater] at hLog
        exact absurd (closesOnce_callback_iff.mp hLog.of_append) hRemoved
      · rintro ⟨-, hQuiet⟩
        rw [hQuiet c List.mem_cons_self] at hFlag
        exact absurd hFlag Bool.false_ne_true
    · rw [if_neg hFlag] at hTied ⊢
      have hRest : ClosesOnce (finish { s with tests := tests }).log ↔
          ClosesOnce s.log ∧ Quiet s.mRevents tests := ih hTied hPtr hRemoved rfl
      rw [hRest]
      refine and_congr_right ?_
      intro _
      simp [Quiet, hFlag]

/-- Before one, tests that do not close leave the pointer bound. -/
theorem finish_of_open (h : s.Tied) (hPtr : s.connPtr = true)
    (hOpen : Callback.close ∈ s.tests → Callback.close.flagged s.mRevents = false) :
    ClosesOnce s.finish.log := by
  induction hTests : s.tests generalizing s with
  | nil =>
    rw [finish_nil hTests]
    exact (h.bound.mp hPtr).closesOnce
  | cons c tests ih =>
    have hTied := h.step (.test .error)
    rw [finish_cons hTests]
    rw [step_test_cons hTests] at hTied ⊢
    rw [hTests] at hOpen
    by_cases hFlag : c.flagged s.mRevents = true
    · rw [if_pos hFlag] at hTied ⊢
      have hInvoke : { s with tests := tests }.invoke .error c =
          { s with tests := tests, log := s.log ++ [.callback c] } := by
        rw [invoke_of_open (s := { s with tests := tests }) hPtr]
        rcases c with _ | _ | _ | _
        · rw [hOpen List.mem_cons_self] at hFlag
          exact absurd hFlag Bool.false_ne_true
        all_goals rfl
      rw [hInvoke] at hTied ⊢
      exact ih hTied hPtr (fun hMem => hOpen (List.mem_cons_of_mem c hMem)) rfl
    · rw [if_neg hFlag] at hTied ⊢
      exact ih hTied hPtr (fun hMem => hOpen (List.mem_cons_of_mem c hMem)) rfl

/-- What has happened closes once, and so does what is certain to come. -/
def Settled (s : Accepted) : Prop :=
  if s.connPtr then
    Callback.close ∈ s.tests → Callback.close.flagged s.mRevents = true →
      Quiet s.mRevents s.tests.tail
  else ClosesOnce s.log ∧ Quiet s.mRevents s.tests

/-- **The property of a state with its `doEvnet` run to the end.** -/
theorem finish_iff (h : s.Tied) : ClosesOnce s.finish.log ↔ s.Settled := by
  unfold Settled
  by_cases hPtr : s.connPtr = true
  · rw [if_pos hPtr]
    by_cases hClose : Callback.close ∈ s.tests ∧ Callback.close.flagged s.mRevents = true
    · obtain ⟨hMem, hFlag⟩ := hClose
      -- the close callback is the next one
      obtain ⟨tests, hTests⟩ : ∃ tests, s.tests = .close :: tests := by
        have hOrder := h.order
        rcases hTests : s.tests with _ | ⟨c, tests⟩
        · rw [hTests] at hMem
          exact absurd hMem List.not_mem_nil
        · rw [hTests] at hMem hOrder
          rcases List.mem_cons.mp hMem with rfl | hMem
          · exact ⟨tests, rfl⟩
          · exact absurd hMem (close_notMem_of_order hOrder)
      have hEmit : Tied { s with tests := tests, log := s.log ++ [.callback .close] } := by
        refine Tied.emit (s := { s with tests := tests }) ⟨h.bound, ?_⟩ .close
        exact (List.suffix_cons _ tests).trans (hTests ▸ h.order)
      rw [finish_cons hTests, step_test_cons hTests, if_pos hFlag]
      rw [invoke_of_open (s := { s with tests := tests }) hPtr]
      dsimp only
      rw [finish_of_reset hEmit.removeConnection removeConnection_connPtr,
        closesOnce_removeConnection_iff hEmit, removeConnection_tests, removeConnection_mRevents,
        hTests]
      exact ⟨fun hQuiet _ _ => hQuiet.2, fun hQuiet => ⟨hPtr, hQuiet List.mem_cons_self hFlag⟩⟩
    · refine ⟨fun _ hMem hFlag => absurd ⟨hMem, hFlag⟩ hClose, fun _ => ?_⟩
      refine finish_of_open h hPtr ?_
      intro hMem
      rw [← Bool.not_eq_true]
      exact fun hFlag => hClose ⟨hMem, hFlag⟩
  · rw [if_neg hPtr]
    exact finish_of_reset h (by simpa using hPtr)

-- ---------------------------------------------------------------------------
-- The condition
-- ---------------------------------------------------------------------------

/-- What an event must be for the connection to close once.

A mask reported while the connection is open must not ask for another callback next to a
close; one reported after the removal, to a connection that a holder keeps alive, must ask
for none. A read that closes, through its result or through the message function, must do
so once and leave nothing flagged after it; so must a close by a holder, which must not
come after another one. -/
def Allowed (s : Accepted) : ConnEvent → Prop
  | .poll revents => s.tests = [] → s.destroyed = false →
    if s.connPtr then
      Callback.close.flagged revents = true → Quiet revents [.error, .read, .write]
    else Quiet revents doEvnet
  | .test r => ∀ tests, s.tests = .read :: tests → Callback.read.flagged s.mRevents = true →
    match r with
    | .data closes => closes = 0 ∨ closes = 1 ∧ Quiet s.mRevents tests
    | .eof => Quiet s.mRevents tests
    | .error => True
  | .activeClose => 0 < s.holders → s.connPtr = true ∧ Quiet s.mRevents s.tests
  | .hold | .drop => True

theorem settled_poll_iff (h : s.Settled) (revents : BitVec 32) :
    (s.step (.poll revents)).Settled ↔ s.Allowed (.poll revents) := by
  rw [step, Allowed]
  by_cases hOn : s.tests = [] ∧ s.destroyed = false
  · rw [if_pos hOn]
    simp only [hOn.1, hOn.2, Settled, true_imp_iff] at h ⊢
    by_cases hPtr : s.connPtr = true
    · simp [hPtr, doEvnet]
    · simp only [hPtr] at h ⊢
      exact and_iff_right h.1
  · rw [if_neg hOn]
    exact ⟨fun _ hTests hAlive => absurd ⟨hTests, hAlive⟩ hOn, fun _ => h⟩

theorem settled_of_reset (h : s.connPtr = false) :
    s.Settled ↔ ClosesOnce s.log ∧ Quiet s.mRevents s.tests := by
  rw [Settled, if_neg (by simp [h])]

theorem settled_of_open (h : s.connPtr = true) (hTests : Callback.close ∉ s.tests) : s.Settled := by
  rw [Settled, if_pos h]
  exact fun hMem => absurd hMem hTests

theorem settled_removeConnection_iff (h : s.Tied) :
    s.removeConnection.Settled ↔ s.connPtr = true ∧ Quiet s.mRevents s.tests := by
  rw [settled_of_reset removeConnection_connPtr, closesOnce_removeConnection_iff h,
    removeConnection_tests, removeConnection_mRevents]

/-- The second of two closes is always one too many. -/
theorem not_settled_of_twice (h : s.Tied) (closes : Nat) :
    ¬ (s.readFunc (.data (closes + 2))).Settled := by
  intro hSettled
  have hTwice : s.readFunc (.data (closes + 2)) =
      s.removeConnection.removeConnection.readFunc (.data closes) := rfl
  obtain ⟨later, hLater⟩ :=
    readFunc_log_grows (s := s.removeConnection.removeConnection) (.data closes)
  have hPtr : (s.readFunc (.data (closes + 2))).connPtr = false := by
    rw [readFunc, Function.iterate_succ_apply']
    exact removeConnection_connPtr
  have hLog := ((settled_of_reset hPtr).mp hSettled).1
  rw [hTwice, ← hLater] at hLog
  have hOpen := (closesOnce_removeConnection_iff h.removeConnection).mp hLog.of_append
  rw [removeConnection_connPtr] at hOpen
  exact Bool.false_ne_true hOpen

theorem settled_readFunc_iff (h : s.Tied) (hPtr : s.connPtr = true)
    (hTests : Callback.close ∉ s.tests) (r : ReadResult) : (s.readFunc r).Settled ↔
      match r with
      | .data closes => closes = 0 ∨ closes = 1 ∧ Quiet s.mRevents s.tests
      | .eof => Quiet s.mRevents s.tests
      | .error => True := by
  have hOnce : s.removeConnection.Settled ↔ Quiet s.mRevents s.tests := by
    rw [settled_removeConnection_iff h, and_iff_right hPtr]
  rcases r with (_ | _ | closes) | _ | _
  · exact iff_of_true (settled_of_open hPtr hTests) (Or.inl rfl)
  · have hFirst : s.readFunc (.data (0 + 1)) = s.removeConnection := rfl
    rw [hFirst, hOnce]
    simp
  · simpa using not_settled_of_twice h closes
  · exact hOnce
  · exact iff_true_intro (settled_of_open hPtr hTests)

theorem settled_test_iff (hTied : s.Tied) (h : s.Settled) (r : ReadResult) :
    (s.step (.test r)).Settled ↔ s.Allowed (.test r) := by
  rw [Allowed]
  rcases hTests : s.tests with _ | ⟨c, tests⟩
  · rw [step_test_nil hTests]
    exact iff_of_true h fun _ hNil => (nomatch hNil)
  rw [step_test_cons hTests]
  have hOrder : c :: tests <:+ doEvnet := hTests ▸ hTied.order
  have hRest : Tied { s with tests := tests } :=
    ⟨hTied.bound, (List.suffix_cons c tests).trans hOrder⟩
  have hClose := close_notMem_of_order hOrder
  by_cases hPtr : s.connPtr = true
  · by_cases hFlag : c.flagged s.mRevents = true
    · rw [if_pos hFlag, invoke_of_open (s := { s with tests := tests }) hPtr]
      rcases c with _ | _ | _ | _
      · -- the mask was asked for nothing else when it was reported
        have hQuiet : Quiet s.mRevents tests := by
          rw [Settled, if_pos hPtr, hTests] at h
          exact h List.mem_cons_self hFlag
        exact iff_of_true ((settled_removeConnection_iff (hRest.emit .close)).mpr ⟨hPtr, hQuiet⟩)
          fun _ hHead => (nomatch hHead)
      · exact iff_of_true (settled_of_open hPtr hClose) fun _ hHead => (nomatch hHead)
      · refine (settled_readFunc_iff (hRest.emit .read) hPtr hClose r).trans ⟨?_, ?_⟩
        · rintro hRead _ ⟨⟩ -
          exact hRead
        · exact fun hRead => hRead tests rfl hFlag
      · exact iff_of_true (settled_of_open hPtr hClose) fun _ hHead => (nomatch hHead)
    · rw [if_neg hFlag]
      refine iff_of_true (settled_of_open hPtr hClose) ?_
      rintro _ ⟨⟩ hRead
      exact absurd hRead hFlag
  · -- after a removal, none of the tests finds anything
    have hReset : s.connPtr = false := by simpa using hPtr
    obtain ⟨hLog, hQuiet⟩ := (settled_of_reset hReset).mp h
    rw [hTests] at hQuiet
    have hFlag := hQuiet c List.mem_cons_self
    rw [if_neg (by simp [hFlag])]
    have hNext : Settled { s with tests := tests } :=
      (settled_of_reset (s := { s with tests := tests }) hReset).mpr
        ⟨hLog, fun c' hMem => hQuiet c' (List.mem_cons_of_mem c hMem)⟩
    refine iff_of_true hNext ?_
    rintro _ ⟨⟩ hRead
    rw [hFlag] at hRead
    exact absurd hRead Bool.false_ne_true

/-- **One event.** It keeps a settled state settled exactly if it is allowed. -/
theorem settled_step_iff (hTied : s.Tied) (h : s.Settled) (e : ConnEvent) :
    (s.step e).Settled ↔ s.Allowed e := by
  rcases e with revents | r | _ | _ | _
  · exact settled_poll_iff h revents
  · exact settled_test_iff hTied h r
  · rw [step, Allowed, iff_true]
    split
    · exact h
    · exact h
  · exact iff_true_intro h
  · rw [step, Allowed]
    by_cases hHolders : 0 < s.holders
    · rw [if_pos hHolders, closeFunc, settled_removeConnection_iff hTied]
      exact ⟨fun hOpen _ => hOpen, fun hOpen => hOpen hHolders⟩
    · rw [if_neg hHolders]
      exact iff_of_true h fun hPos => absurd hPos hHolders

/-- **A connection closes once** in a run, each `doEvnet` to its end, exactly if every event
of the run is allowed. -/
theorem closes_once_iff (es : List ConnEvent) :
    Run.Always step (fun s => ClosesOnce s.finish.log) newConnectionFunc es ↔
      Run.Each step Allowed newConnectionFunc es := by
  have hNew : newConnectionFunc.Tied := ⟨by simp [newConnectionFunc, Clean], List.nil_suffix⟩
  refine Run.always_iff_each (fun s _ => s.Tied) ?_ ?_ ?_ hNew
  · exact fun s e _ hTied _ _ => hTied.step e
  · intro s e _ hTied hOnce
    rw [finish_iff (hTied.step e)]
    exact settled_step_iff hTied ((finish_iff hTied).mp hOnce) e
  · exact (finish_iff hNew).mpr (settled_of_open rfl List.not_mem_nil)

/-- A holder closes a connection whose peer has closed it: the pointer is null. And a mask
with `POLLHUP` and `POLLOUT`: a write follows the close. -/
theorem not_closes_once :
    ¬ Run.Always step (fun s => ClosesOnce s.log) newConnectionFunc
      [.hold, .poll pollIn, .test .error, .test .error, .test .eof, .test .error, .activeClose] ∧
    ¬ Run.Always step (fun s => ClosesOnce s.log) newConnectionFunc
      [.poll (pollHup ||| pollOut), .test .error, .test .error, .test .error, .test .error] := by
  constructor
  · intro h
    exact h.final.valid (by decide)
  · intro h
    exact h.final.last [.callback .close] true [.callback .write] (by decide) .write (by decide)

end

end Accepted

end WarringServer.Net
