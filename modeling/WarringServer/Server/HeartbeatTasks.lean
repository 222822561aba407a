import WarringServer.Server.CheckHeartbeat
import WarringServer.Utility.Timer
import WarringServer.Utility.TimerID

/-!
# The tasks behind the heartbeat checks

For every connection it accepts, a server registers a periodic task: a check of the
connection of that name goes into `mTimerTasks` under a new id, and a task that puts the id
into `mTimeoutTaskIDQueue` into the timer. Closing a connection takes its name out of
`mTcpConnections`, but touches none of the two. The checks of closed connections stay for
ever, and go for any later connection that gets the same descriptor from the same port.

* `Consistent` — the tables of the server agree in every run (`step_consistent`);
* `tasks_end_iff` — no task outlives its connection exactly if no connection with a task
  is ever closed.
-/

namespace WarringServer.Server

open Run Utility

-- ---------------------------------------------------------------------------
-- The server
-- ---------------------------------------------------------------------------

/-- An entry of `mTimerTasks`: the object that `checkHeartbeat` is bound to, and the number
of the connection it was made for. -/
structure HeartbeatTask where
  op : HeartbeatOp
  registeredFor : Nat
  deriving DecidableEq, Repr

/-- A connection, by its socket. It keeps in mind whether it has been closed, and the id
under which its check was registered. -/
structure AcceptedConnection where
  connfd : Nat
  hostAndService : String
  mCommunicationTimestamp : BitVec 64
  isOpen : Bool
  taskID : Option String
  deriving DecidableEq, Repr

/-- A `TcpServer` whose `connNameFunc` registers a check, and the timer it is linked to.
Connections are numbered as they are accepted; `mTcpConnections` holds their numbers. -/
structure TaskServer where
  kind : ServerKind
  mServName : String
  HEARTBEAT_TIMEOUT_IN_SECONDS : BitVec 64
  /-- `mTimerWeak` is a timer. -/
  linked : Bool
  connections : List AcceptedConnection
  mTcpConnections : String → Option Nat
  mTimerTasks : List (String × HeartbeatTask)
  mTimeoutTaskIDQueue : List String
  clock : TimerClock
  mTaskEntry : List TimerTask
  timer : TimeWheelTimer
  /-- The closes by a check: the connection that it was registered for, and the one that it
  closed. -/
  closes : List (Nat × Nat)

inductive TaskEvent where
  /-- `newConnectionFunc`, for a descriptor that the kernel has just made. -/
  | accept (connfd : Nat) (hostAndService : String)
  /-- `setCurrentTimestamp` -/
  | stamp (conn : Nat) (timestamp : BitVec 64)
  /-- `mCloseFunc` of a connection, called by anything but a check. -/
  | close (conn : Nat)
  /-- The wall clock moves on. -/
  | advance (seconds : Nat)
  | tick
  /-- The thread of `registerTask` takes a task. -/
  | registerTask
  /-- The thread of `timerWork` takes an id and runs its check. -/
  | timerWork (now : BitVec 64)
  deriving DecidableEq, Repr

namespace TaskServer

def init (kind : ServerKind) (mServName : String) (timeout : BitVec 64) (linked : Bool)
    (secondsSinceEpoch : Int) : TaskServer where
  kind := kind
  mServName := mServName
  HEARTBEAT_TIMEOUT_IN_SECONDS := timeout
  linked := linked
  connections := []
  mTcpConnections _ := none
  mTimerTasks := []
  mTimeoutTaskIDQueue := []
  clock := .init secondsSinceEpoch
  mTaskEntry := []
  timer := .create
  closes := []

def generateConnID (s : TaskServer) (connfd : Nat) (hostAndService : String) : String :=
  s.mServName ++ "_fd" ++ toString connfd ++ "_" ++ hostAndService

/-- The name of a connection. -/
def getName (s : TaskServer) (c : AcceptedConnection) : String :=
  s.generateConnID c.connfd c.hostAndService

/-- `registerTimerTask`, as `connNameFunc` calls it for connection `conn`, with the id under
which it has registered the check. -/
def registerTimerTask (s : TaskServer) (conn : Nat) (connName : String) :
    Option String × TaskServer :=
  if s.linked then
    let (id, clock) := s.clock.generateID
    match s.mTimerTasks.lookup id with
    | some _ => (none, { s with clock := clock })
    | none =>
        let seconds := s.HEARTBEAT_TIMEOUT_IN_SECONDS
        (some id, { s with
          clock := clock
          mTimerTasks := s.mTimerTasks ++ [(id, ⟨⟨seconds, connName⟩, conn⟩)]
          -- the function is `pushTaskID`, bound to the id
          mTaskEntry := s.mTaskEntry ++ [TimerTask.make 0 0 seconds.toNat (-1) id (some 0)] })
  else (none, s)

/-- `mTcpConnections.insert`, which keeps an entry that is there. -/
def insertConnection (s : TaskServer) (connName : String) (conn : Nat) : TaskServer :=
  match s.mTcpConnections connName with
  | some _ => s
  | none => { s with mTcpConnections := Function.update s.mTcpConnections connName (some conn) }

/-- The kernel does not give out a descriptor that is open. -/
def InUse (s : TaskServer) (connfd : Nat) : Prop :=
  ∃ c ∈ s.connections, c.isOpen = true ∧ c.connfd = connfd

instance (s : TaskServer) (connfd : Nat) : Decidable (s.InUse connfd) :=
  inferInstanceAs (Decidable (∃ c ∈ s.connections, _))

/-- The statements from the construction of the connection to its callbacks, in one step: no other
thread is to come upon the connection before they are done. -/
def newConnectionFunc (s : TaskServer) (connfd : Nat) (hostAndService : String) : TaskServer :=
  let conn := s.connections.length
  let connName := s.generateConnID connfd hostAndService
  let (taskID, s) := (s.insertConnection connName conn).registerTimerTask conn connName
  { s with connections := s.connections ++ [⟨connfd, hostAndService, 0, true, taskID⟩] }

/-- `removeConnection`. A connection is closed once. -/
def removeConnection (s : TaskServer) (conn : Nat) : TaskServer :=
  match s.connections[conn]? with
  | none => s
  | some c =>
      if c.isOpen then
        { s with
          mTcpConnections := Function.update s.mTcpConnections (s.getName c) none
          connections := s.connections.modify conn fun c => { c with isOpen := false } }
      else s

/-- `getConnPtrRef`, with what a check reads of the connection. -/
def getConnPtrRef (s : TaskServer) (connID : String) : Option HeartbeatConnection :=
  (s.mTcpConnections connID).bind fun conn => s.connections[conn]?.map fun c =>
    ⟨Message.literal c.hostAndService, c.mCommunicationTimestamp⟩

/-- The check that `timerWork` runs next, and the connection that it closes. -/
def closing (s : TaskServer) (now : BitVec 64) : Option (HeartbeatTask × Nat) := do
  let id ← s.mTimeoutTaskIDQueue.head?
  let task ← s.mTimerTasks.lookup id
  let conn ← s.mTcpConnections task.op.mConnID
  if .activeClose task.op.mConnID false ∈ s.kind.checkHeartbeat task.op s.getConnPtrRef now then
    some (task, conn)
  else none

/-- One turn of the loop in `timerWork`: `runTimerTask` of the id it has popped. -/
def timerWork (s : TaskServer) (now : BitVec 64) : TaskServer :=
  let popped := { s with mTimeoutTaskIDQueue := s.mTimeoutTaskIDQueue.tail }
  match s.closing now with
  | none => popped
  | some (task, conn) =>
      { popped.removeConnection conn with closes := (task.registeredFor, conn) :: s.closes }

def step (s : TaskServer) : TaskEvent → TaskServer
  | .accept connfd hostAndService =>
      if s.InUse connfd then s else s.newConnectionFunc connfd hostAndService
  | .stamp conn timestamp =>
      { s with connections :=
          s.connections.modify conn fun c => { c with mCommunicationTimestamp := timestamp } }
  | .close conn => s.removeConnection conn
  | .advance seconds => { s with clock := s.clock.step (.advance seconds) }
  | .tick =>
      let (runs, timer) := s.timer.tick
      { s with
        timer := timer
        clock := s.clock.step .tick
        -- every task of the timer is a `pushTaskID`
        mTimeoutTaskIDQueue := s.mTimeoutTaskIDQueue ++ runs.map Firing.id }
  | .registerTask =>
      match s.mTaskEntry with
      | [] => s
      | timerTask :: rest =>
          { s with mTaskEntry := rest, timer := s.timer.registerTask timerTask }
  | .timerWork now => s.timerWork now

-- ---------------------------------------------------------------------------
-- What is to hold
-- ---------------------------------------------------------------------------

/-- No task outlives its connection: behind the close of a connection neither table has an
entry of its task, so that there are no more tasks than open connections, and no check
closes a connection that came later than its own. -/
structure TasksEnd (s : TaskServer) : Prop where
  removed : ∀ c ∈ s.connections, c.isOpen = false → ∀ id, c.taskID = some id →
    s.mTimerTasks.lookup id = none ∧ s.timer.mRegisteredTasks id = none
  bounded : s.mTimerTasks.length ≤ s.connections.countP (·.isOpen)
  own : ∀ p ∈ s.closes, ¬ p.1 < p.2

/-- The connection has no task, if it is still open. -/
def Unchecked (s : TaskServer) (conn : Nat) : Prop :=
  ∀ c, s.connections[conn]? = some c → c.isOpen = true → c.taskID = none

/-- What is closed has no task. -/
def ClosesUnchecked (s : TaskServer) : TaskEvent → Prop
  | .close conn => s.Unchecked conn
  | .timerWork now => ∀ task conn, s.closing now = some (task, conn) → s.Unchecked conn
  | _ => True

-- ---------------------------------------------------------------------------
-- Names
-- ---------------------------------------------------------------------------

/-- The part before the first separator and the part behind it. -/
theorem separator_append_inj {α : Type*} {a : α} {x₁ x₂ z₁ z₂ : List α} (h₁ : a ∉ x₁) (h₂ : a ∉ x₂)
    (h : x₁ ++ a :: z₁ = x₂ ++ a :: z₂) : x₁ = x₂ ∧ z₁ = z₂ := by
  have hReverse := congrArg List.reverse h
  simp only [List.reverse_append, List.reverse_cons, List.append_assoc,
    List.singleton_append] at hReverse
  obtain ⟨hz, hx⟩ := append_separator_inj (by simpa using h₁) (by simpa using h₂) hReverse
  exact ⟨List.reverse_injective hx, List.reverse_injective hz⟩

/-- The name of a connection shows its descriptor. -/
theorem generateConnID_inj {s : TaskServer} {fd fd' : Nat} {address address' : String}
    (h : s.generateConnID fd address = s.generateConnID fd' address') : fd = fd' := by
  have hChars : (Nat.repr fd).toList ++ '_' :: address.toList =
      (Nat.repr fd').toList ++ '_' :: address'.toList := by
    have hList := congrArg String.toList h
    simp only [generateConnID, String.toList_append, List.append_assoc] at hList
    exact List.append_cancel_left (List.append_cancel_left hList)
  obtain ⟨hDigits, -⟩ :=
    separator_append_inj (notMem_repr (by decide) fd) (notMem_repr (by decide) fd') hChars
  exact counter_injective hDigits

-- ---------------------------------------------------------------------------
-- Tables
-- ---------------------------------------------------------------------------

section

variable {α β : Type*} {f : α → α} {l : List α} {i j : Nat}

theorem getElem?_of_modify {b : α} (h : (l.modify i f)[j]? = some b) :
    ∃ a, l[j]? = some a ∧ b = if i = j then f a else a := by
  rw [List.getElem?_modify] at h
  obtain ⟨a, ha, hb⟩ := Option.map_eq_some_iff.mp h
  exact ⟨a, ha, hb.symm⟩

theorem filterMap_modify {g : α → Option β} (hf : ∀ a, g (f a) = g a) (l : List α) (i : Nat) :
    (l.modify i f).filterMap g = l.filterMap g := by
  induction l generalizing i with
  | nil => simp
  | cons a l ih =>
    cases i with
    | zero => rw [List.modify_zero_cons, List.filterMap_cons, List.filterMap_cons, hf]
    | succ i => rw [List.modify_succ_cons, List.filterMap_cons, List.filterMap_cons, ih]

end

/-- Every task is that of an accepted connection, and the open connections are those that
can be found under their names. -/
structure Consistent (s : TaskServer) : Prop where
  keys : s.mTimerTasks.map Prod.fst = s.connections.filterMap (·.taskID)
  tasks : ∀ p ∈ s.mTimerTasks, ∃ c, s.connections[p.2.registeredFor]? = some c ∧
    c.taskID = some p.1 ∧ p.2.op.mConnID = s.getName c
  found : ∀ conn c, s.connections[conn]? = some c → c.isOpen = true →
    s.mTcpConnections (s.getName c) = some conn
  named : ∀ connName conn, s.mTcpConnections connName = some conn →
    ∃ c, s.connections[conn]? = some c ∧ c.isOpen = true ∧ s.getName c = connName

section

variable {s : TaskServer}

theorem init_consistent (kind : ServerKind) (mServName : String) (timeout : BitVec 64)
    (linked : Bool) (seconds : Int) :
    (init kind mServName timeout linked seconds).Consistent where
  keys := rfl
  tasks _ hMem := absurd hMem List.not_mem_nil
  found _ _ hc := nomatch hc
  named _ _ hConn := nomatch hConn

theorem getName_congr {s' : TaskServer} (hServer : s'.mServName = s.mServName) :
    s'.getName = s.getName := by
  funext c
  rw [getName, generateConnID, hServer]
  rfl

/-- What `registerTimerTask` does: it makes an entry under the id it returns, or none. -/
theorem registerTimerTask_cases (s : TaskServer) (conn : Nat) (connName : String) :
    (s.registerTimerTask conn connName).1 = none ∧
        (s.registerTimerTask conn connName).2.mTimerTasks = s.mTimerTasks ∨
      ∃ id timeout, (s.registerTimerTask conn connName).1 = some id ∧
        (s.registerTimerTask conn connName).2.mTimerTasks =
          s.mTimerTasks ++ [(id, ⟨⟨timeout, connName⟩, conn⟩)] := by
  unfold registerTimerTask
  split
  · dsimp only
    split
    · exact Or.inl ⟨rfl, rfl⟩
    · exact Or.inr ⟨_, _, rfl, rfl⟩
  · exact Or.inl ⟨rfl, rfl⟩

/-- It leaves the connections alone. -/
theorem registerTimerTask_frame (s : TaskServer) (conn : Nat) (connName : String) :
    (s.registerTimerTask conn connName).2.connections = s.connections ∧
      (s.registerTimerTask conn connName).2.mTcpConnections = s.mTcpConnections ∧
      (s.registerTimerTask conn connName).2.mServName = s.mServName ∧
      (s.registerTimerTask conn connName).2.closes = s.closes := by
  unfold registerTimerTask
  split
  · dsimp only
    split <;> exact ⟨rfl, rfl, rfl, rfl⟩
  · exact ⟨rfl, rfl, rfl, rfl⟩

/-- A new descriptor makes a new name. -/
theorem Consistent.new_name (h : s.Consistent) {connfd : Nat} (hNew : ¬ s.InUse connfd)
    (hostAndService : String) : s.mTcpConnections (s.generateConnID connfd hostAndService) = none := by
  cases hConn : s.mTcpConnections (s.generateConnID connfd hostAndService) with
  | none => rfl
  | some conn =>
    obtain ⟨c, hc, hOpen, hName⟩ := h.named _ conn hConn
    exact absurd ⟨c, List.mem_of_getElem? hc, hOpen, generateConnID_inj hName⟩ hNew

/-- A connection is accepted, perhaps with a task. -/
structure Accepts (s s' : TaskServer) (c : AcceptedConnection) : Prop where
  isOpen : c.isOpen = true
  connections : s'.connections = s.connections ++ [c]
  mTcpConnections : s'.mTcpConnections =
    Function.update s.mTcpConnections (s.getName c) (some s.connections.length)
  mServName : s'.mServName = s.mServName
  closes : s'.closes = s.closes
  mTimerTasks : c.taskID = none ∧ s'.mTimerTasks = s.mTimerTasks ∨
    ∃ id timeout, c.taskID = some id ∧ s'.mTimerTasks =
      s.mTimerTasks ++ [(id, ⟨⟨timeout, s.getName c⟩, s.connections.length⟩)]

theorem newConnectionFunc_accepts (h : s.Consistent) {connfd : Nat} (hNew : ¬ s.InUse connfd)
    (hostAndService : String) : ∃ c, s.mTcpConnections (s.getName c) = none ∧
      Accepts s (s.newConnectionFunc connfd hostAndService) c := by
  obtain ⟨connName, hName⟩ : ∃ connName, s.generateConnID connfd hostAndService = connName :=
    ⟨_, rfl⟩
  have hNone : s.mTcpConnections connName = none := hName ▸ h.new_name hNew hostAndService
  have hInsert : s.insertConnection connName s.connections.length =
      { s with mTcpConnections :=
          Function.update s.mTcpConnections connName (some s.connections.length) } := by
    rw [insertConnection, hNone]
  -- the server and the id that `connNameFunc` leaves
  obtain ⟨⟨taskID, s₁⟩, hRegister⟩ : ∃ r, (s.insertConnection connName
      s.connections.length).registerTimerTask s.connections.length connName = r := ⟨_, rfl⟩
  obtain ⟨hConnections, hNames, hServer, hCloses⟩ := registerTimerTask_frame
    (s.insertConnection connName s.connections.length) s.connections.length connName
  have hTasks := registerTimerTask_cases (s.insertConnection connName s.connections.length)
    s.connections.length connName
  rw [hRegister, hInsert] at hConnections hNames hServer hCloses hTasks
  have hAfter : s.newConnectionFunc connfd hostAndService = { s₁ with
      connections := s₁.connections ++ [⟨connfd, hostAndService, 0, true, taskID⟩] } := by
    rw [newConnectionFunc, hName, hRegister]
  refine ⟨⟨connfd, hostAndService, 0, true, taskID⟩, ?_, rfl, ?_, ?_, ?_, ?_, ?_⟩
  · rw [getName, hName, hNone]
  · rw [hAfter, hConnections]
  · rw [hAfter, getName, hName]
    exact hNames
  · rw [hAfter]
    exact hServer
  · rw [hAfter]
    exact hCloses
  · rw [hAfter, getName, hName]
    exact hTasks

section

variable {s' : TaskServer} {c c₀ : AcceptedConnection} {conn : Nat}

theorem Accepts.old (hAccept : Accepts s s' c) (hc : s.connections[conn]? = some c₀) :
    s'.connections[conn]? = some c₀ := by
  rw [hAccept.connections, List.getElem?_append_left (List.getElem?_eq_some_iff.mp hc).1, hc]

theorem Accepts.new (hAccept : Accepts s s' c) :
    s'.connections[s.connections.length]? = some c := by
  rw [hAccept.connections, List.getElem?_concat_length]

/-- A connection of the new list is an old one or the new one. -/
theorem Accepts.old_or_new (hAccept : Accepts s s' c) (hc : s'.connections[conn]? = some c₀) :
    s.connections[conn]? = some c₀ ∨ conn = s.connections.length ∧ c₀ = c := by
  rw [hAccept.connections] at hc
  rcases Nat.lt_or_ge conn s.connections.length with hLt | hGe
  · rw [List.getElem?_append_left hLt] at hc
    exact Or.inl hc
  · rw [List.getElem?_append_right hGe] at hc
    obtain ⟨hZero, hEq⟩ := List.getElem?_eq_some_iff.mp hc
    rw [List.length_singleton] at hZero
    have hLast : conn = s.connections.length := by omega
    subst hLast
    simp only [Nat.sub_self, List.getElem_singleton] at hEq
    exact Or.inr ⟨rfl, hEq.symm⟩

/-- Every task, old or new, is found under the number of its connection. -/
theorem Accepts.tasks (hAccept : Accepts s s' c) (h : s.Consistent) {p : String × HeartbeatTask}
    (hp : p ∈ s'.mTimerTasks) : ∃ c, s'.connections[p.2.registeredFor]? = some c ∧
      c.taskID = some p.1 ∧ p.2.op.mConnID = s'.getName c := by
  rw [getName_congr hAccept.mServName]
  have hOldTask : p ∈ s.mTimerTasks → ∃ c, s'.connections[p.2.registeredFor]? = some c ∧
      c.taskID = some p.1 ∧ p.2.op.mConnID = s.getName c := by
    intro hMem
    obtain ⟨c₀, hc, hID, hName⟩ := h.tasks p hMem
    exact ⟨c₀, hAccept.old hc, hID, hName⟩
  rcases hAccept.mTimerTasks with ⟨-, hTasks⟩ | ⟨id, timeout, hSome, hTasks⟩
  · rw [hTasks] at hp
    exact hOldTask hp
  · rw [hTasks] at hp
    rcases List.mem_append.mp hp with hp | hp
    · exact hOldTask hp
    · obtain rfl := List.mem_singleton.mp hp
      exact ⟨c, hAccept.new, hSome, rfl⟩

/-- The new connection is found under its name. -/
theorem Accepts.consistent (hAccept : Accepts s s' c) (h : s.Consistent)
    (hNew : s.mTcpConnections (s.getName c) = none) : s'.Consistent := by
  have hNames : s'.getName = s.getName := getName_congr hAccept.mServName
  constructor
  · rw [hAccept.connections, List.filterMap_append, ← h.keys]
    rcases hAccept.mTimerTasks with ⟨hNone, hTasks⟩ | ⟨id, timeout, hSome, hTasks⟩
    · rw [hTasks, List.filterMap_cons_none hNone, List.filterMap_nil, List.append_nil]
    · rw [hTasks, List.map_append, List.filterMap_cons_some hSome, List.filterMap_nil]
      rfl
  · exact fun p hp => hAccept.tasks h hp
  · intro conn c₀ hc hOpen
    rw [hNames, hAccept.mTcpConnections]
    rcases hAccept.old_or_new hc with hc | ⟨rfl, rfl⟩
    · have hFound := h.found conn c₀ hc hOpen
      have hOther : s.getName c₀ ≠ s.getName c := by
        intro hEq
        rw [hEq, hNew] at hFound
        cases hFound
      rw [Function.update_of_ne hOther, hFound]
    · exact Function.update_self ..
  · intro connName conn hConn
    rw [hNames]
    rw [hAccept.mTcpConnections] at hConn
    by_cases hName : connName = s.getName c
    · rw [hName, Function.update_self, Option.some.injEq] at hConn
      subst hConn
      exact ⟨c, hAccept.new, hAccept.isOpen, hName.symm⟩
    · rw [Function.update_of_ne hName] at hConn
      obtain ⟨c₀, hc, hOpen, hName₀⟩ := h.named connName conn hConn
      exact ⟨c₀, hAccept.old hc, hOpen, hName₀⟩

end

/-- A connection that changes keeps its task, as long as it keeps its name and its id. -/
theorem Consistent.modify (h : s.Consistent) (s' : TaskServer) (conn : Nat)
    (f : AcceptedConnection → AcceptedConnection) (hID : ∀ c, (f c).taskID = c.taskID)
    (hName : ∀ c, s.getName (f c) = s.getName c)
    (hConnections : s'.connections = s.connections.modify conn f)
    (hTasks : s'.mTimerTasks = s.mTimerTasks) (hServer : s'.mServName = s.mServName) :
    s'.mTimerTasks.map Prod.fst = s'.connections.filterMap (·.taskID) ∧
      ∀ p ∈ s'.mTimerTasks, ∃ c, s'.connections[p.2.registeredFor]? = some c ∧
        c.taskID = some p.1 ∧ p.2.op.mConnID = s'.getName c := by
  rw [hConnections, hTasks, getName_congr hServer]
  constructor
  · rw [filterMap_modify hID, h.keys]
  · intro p hp
    obtain ⟨c, hc, hTaskID, hConnID⟩ := h.tasks p hp
    refine ⟨if conn = p.2.registeredFor then f c else c, ?_, ?_, ?_⟩
    · rw [List.getElem?_modify, hc]
      rfl
    · split
      · rw [hID, hTaskID]
      · exact hTaskID
    · split
      · rw [hName, hConnID]
      · exact hConnID

/-- Closing a connection takes its name away, and no other. -/
theorem Consistent.removeConnection (h : s.Consistent) (conn : Nat) :
    (s.removeConnection conn).Consistent := by
  unfold TaskServer.removeConnection
  split
  · exact h
  next c hc =>
    split
    next hOpen =>
      have hFound := h.found conn c hc hOpen
      obtain ⟨hKeys, hTasks⟩ := h.modify { s with
          mTcpConnections := Function.update s.mTcpConnections (s.getName c) none
          connections := s.connections.modify conn fun c => { c with isOpen := false } }
        conn (fun c => { c with isOpen := false }) (fun _ => rfl) (fun _ => rfl) rfl rfl rfl
      refine ⟨hKeys, hTasks, ?_, ?_⟩
      · intro conn' c' hc' hOpen'
        obtain ⟨c₀, hc₀, rfl⟩ := getElem?_of_modify hc'
        by_cases hSame : conn = conn'
        · rw [if_pos hSame] at hOpen'
          cases hOpen'
        · rw [if_neg hSame] at hOpen' ⊢
          have hFound' := h.found conn' c₀ hc₀ hOpen'
          -- one name leads to one connection
          have hOther : s.getName c₀ ≠ s.getName c := by
            intro hEq
            rw [hEq, hFound, Option.some.injEq] at hFound'
            exact hSame hFound'
          exact (Function.update_of_ne hOther ..).trans hFound'
      · intro connName conn' hConn
        dsimp only at hConn
        by_cases hName : connName = s.getName c
        · rw [hName, Function.update_self] at hConn
          cases hConn
        · rw [Function.update_of_ne hName] at hConn
          obtain ⟨c₀, hc₀, hOpen₀, hName₀⟩ := h.named connName conn' hConn
          have hOther : conn ≠ conn' := by
            rintro rfl
            rw [hc, Option.some.injEq] at hc₀
            exact hName (hName₀.symm.trans (congrArg s.getName hc₀.symm))
          refine ⟨c₀, ?_, hOpen₀, hName₀⟩
          dsimp only
          rw [List.getElem?_modify_ne _ _ hOther, hc₀]
    next => exact h

/-- What has the same tables is as consistent. -/
theorem Consistent.congr {s' : TaskServer} (h : s.Consistent)
    (hConnections : s'.connections = s.connections)
    (hNames : s'.mTcpConnections = s.mTcpConnections) (hTasks : s'.mTimerTasks = s.mTimerTasks)
    (hServer : s'.mServName = s.mServName) : s'.Consistent := by
  have hName : s'.getName = s.getName := getName_congr hServer
  constructor
  · rw [hTasks, hConnections, h.keys]
  · rw [hTasks, hConnections, hName]
    exact h.tasks
  · rw [hNames, hConnections, hName]
    exact h.found
  · rw [hNames, hConnections, hName]
    exact h.named

theorem Consistent.stamp (h : s.Consistent) (conn : Nat) (timestamp : BitVec 64) :
    (s.step (.stamp conn timestamp)).Consistent := by
  obtain ⟨hKeys, hTasks⟩ := h.modify (s.step (.stamp conn timestamp)) conn
    (fun c => { c with mCommunicationTimestamp := timestamp }) (fun _ => rfl) (fun _ => rfl)
    rfl rfl rfl
  refine ⟨hKeys, hTasks, ?_, ?_⟩
  · intro conn' c' hc' hOpen'
    obtain ⟨c₀, hc₀, rfl⟩ := getElem?_of_modify hc'
    by_cases hSame : conn = conn'
    · rw [if_pos hSame] at hOpen' ⊢
      exact h.found conn' c₀ hc₀ hOpen'
    · rw [if_neg hSame] at hOpen' ⊢
      exact h.found conn' c₀ hc₀ hOpen'
  · intro connName conn' hConn
    obtain ⟨c₀, hc₀, hOpen₀, hName₀⟩ := h.named connName conn' hConn
    refine ⟨if conn = conn' then { c₀ with mCommunicationTimestamp := timestamp } else c₀,
      ?_, ?_, ?_⟩
    · show (s.connections.modify conn _)[conn']? = _
      rw [List.getElem?_modify, hc₀]
      rfl
    · split <;> exact hOpen₀
    · split <;> exact hName₀

/-- **A step** keeps the tables consistent. -/
theorem Consistent.step (h : s.Consistent) (e : TaskEvent) : (s.step e).Consistent := by
  cases e with
  | accept connfd hostAndService =>
    show (if _ then _ else _ : TaskServer).Consistent
    split
    · exact h
    next hNew =>
      obtain ⟨c, hNone, hAccept⟩ := newConnectionFunc_accepts h hNew hostAndService
      exact hAccept.consistent h hNone
  | stamp conn timestamp => exact h.stamp conn timestamp
  | close conn => exact h.removeConnection conn
  | advance seconds => exact h.congr rfl rfl rfl rfl
  | tick => exact h.congr rfl rfl rfl rfl
  | registerTask =>
    rw [TaskServer.step]
    split
    · exact h
    · exact h.congr rfl rfl rfl rfl
  | timerWork now =>
    show (s.timerWork now).Consistent
    have hPopped : ({ s with mTimeoutTaskIDQueue := s.mTimeoutTaskIDQueue.tail } :
        TaskServer).Consistent := h.congr rfl rfl rfl rfl
    unfold timerWork
    dsimp only
    split
    · exact hPopped
    next task conn _ => exact (hPopped.removeConnection conn).congr rfl rfl rfl rfl

-- ---------------------------------------------------------------------------
-- Closed connections
-- ---------------------------------------------------------------------------

/-- No closed connection has a task. -/
def AllUnchecked (s : TaskServer) : Prop :=
  ∀ c ∈ s.connections, c.isOpen = false → c.taskID = none

/-- Nothing is ever taken out of `mTimerTasks`, so that the tasks end with their
connections only where the closed ones have none. -/
theorem tasksEnd_of_consistent (h : s.Consistent) :
    s.TasksEnd ↔ s.AllUnchecked ∧ ∀ p ∈ s.closes, ¬ p.1 < p.2 := by
  constructor
  · intro hEnd
    refine ⟨fun c hc hClosed => ?_, hEnd.own⟩
    rw [Option.eq_none_iff_forall_ne_some]
    intro id hID
    -- the entry is still there
    have hKey : id ∈ s.mTimerTasks.map Prod.fst := by
      rw [h.keys]
      exact List.mem_filterMap.mpr ⟨c, hc, hID⟩
    obtain ⟨p, hp, rfl⟩ := List.mem_map.mp hKey
    have hNone := List.lookup_eq_none_iff.mp (hEnd.removed c hc hClosed p.1 hID).1 p hp
    exact absurd hNone (by simp)
  · rintro ⟨hUnchecked, hOwn⟩
    refine ⟨?_, ?_, hOwn⟩
    · intro c hc hClosed id hID
      rw [hUnchecked c hc hClosed] at hID
      cases hID
    · have hLength := congrArg List.length h.keys
      rw [List.length_map, List.length_filterMap_eq_countP] at hLength
      rw [hLength]
      refine List.countP_mono_left ?_
      intro c hc hTask
      cases hOpen : c.isOpen with
      | true => rfl
      | false =>
        rw [hUnchecked c hc hOpen] at hTask
        exact hTask

/-- One close. -/
theorem allUnchecked_removeConnection (h : s.AllUnchecked) (conn : Nat) :
    (s.removeConnection conn).AllUnchecked ↔ s.Unchecked conn := by
  unfold TaskServer.removeConnection Unchecked
  split
  next hNone =>
    refine iff_of_true h ?_
    intro c hc
    rw [hNone] at hc
    cases hc
  next c hc =>
    rw [hc]
    split
    next hOpen =>
      constructor
      · intro hAfter c' hc' _
        obtain rfl := Option.some.inj hc'
        refine hAfter { c with isOpen := false } (List.mem_of_getElem? (i := conn) ?_) rfl
        dsimp only
        rw [List.getElem?_modify_eq, hc]
        rfl
      · intro hTask c' hc' hClosed
        obtain ⟨conn', hGet⟩ := List.getElem?_of_mem hc'
        obtain ⟨c₀, hc₀, rfl⟩ := getElem?_of_modify hGet
        by_cases hSame : conn = conn'
        · subst hSame
          rw [if_pos rfl]
          rw [hc, Option.some.injEq] at hc₀
          exact hTask c₀ (hc₀ ▸ rfl) (hc₀ ▸ hOpen)
        · rw [if_neg hSame] at hClosed ⊢
          exact h c₀ (List.mem_of_getElem? hc₀) hClosed
    next hClosed =>
      refine iff_of_true h ?_
      intro c' hc' hOpen
      obtain rfl := Option.some.inj hc'
      exact absurd hOpen hClosed

/-- The check of an open connection finds no other. -/
theorem closing_own (h : s.Consistent) (hUnchecked : s.AllUnchecked) {now : BitVec 64}
    {task : HeartbeatTask} {conn : Nat} (hClosing : s.closing now = some (task, conn)) :
    task.registeredFor = conn := by
  unfold closing at hClosing
  simp only [Option.bind_eq_bind, Option.bind_eq_some_iff] at hClosing
  obtain ⟨id, -, task', hTask, conn', hConn, hCall⟩ := hClosing
  split at hCall
  · obtain ⟨rfl, rfl⟩ := Prod.mk.inj (Option.some.inj hCall)
    obtain ⟨l₁, l₂, hTasks, -⟩ := List.lookup_eq_some_iff.mp hTask
    have hMem : (id, task') ∈ s.mTimerTasks := by
      rw [hTasks]
      exact List.mem_append_right _ List.mem_cons_self
    obtain ⟨c, hc, hID, hName⟩ := h.tasks _ hMem
    have hOpen : c.isOpen = true := by
      by_contra hClosed
      rw [hUnchecked c (List.mem_of_getElem? hc) (by simpa using hClosed)] at hID
      cases hID
    have hFound := h.found _ c hc hOpen
    dsimp only at hName hFound
    rw [← hName, hConn, Option.some.injEq] at hFound
    exact hFound.symm
  · cases hCall

/-- A new connection is open. -/
theorem Accepts.allUnchecked {s' : TaskServer} {c : AcceptedConnection} (hAccept : Accepts s s' c)
    (h : s.AllUnchecked) : s'.AllUnchecked := by
  intro c' hc' hClosed
  rw [hAccept.connections] at hc'
  rcases List.mem_append.mp hc' with hc' | hc'
  · exact h c' hc' hClosed
  · rw [List.mem_singleton.mp hc', hAccept.isOpen] at hClosed
    cases hClosed

theorem allUnchecked_stamp (h : s.AllUnchecked) (conn : Nat) (timestamp : BitVec 64) :
    (s.step (.stamp conn timestamp)).AllUnchecked := by
  intro c hc hClosed
  obtain ⟨conn', hGet⟩ := List.getElem?_of_mem hc
  obtain ⟨c₀, hc₀, rfl⟩ := getElem?_of_modify hGet
  split at hClosed
  next hSame =>
    rw [if_pos hSame]
    exact h c₀ (List.mem_of_getElem? hc₀) hClosed
  next hOther =>
    rw [if_neg hOther]
    exact h c₀ (List.mem_of_getElem? hc₀) hClosed

@[simp] theorem removeConnection_closes (s : TaskServer) (conn : Nat) :
    (s.removeConnection conn).closes = s.closes := by
  unfold TaskServer.removeConnection
  split
  · rfl
  · split <;> rfl

/-- A check that closes a connection closes its own. -/
theorem timerWork_unchecked_iff (h : s.Consistent) (hUnchecked : s.AllUnchecked)
    (hOwn : ∀ p ∈ s.closes, ¬ p.1 < p.2) (now : BitVec 64) :
    (s.timerWork now).AllUnchecked ∧ (∀ p ∈ (s.timerWork now).closes, ¬ p.1 < p.2) ↔
      ∀ task conn, s.closing now = some (task, conn) → s.Unchecked conn := by
  unfold timerWork
  dsimp only
  cases hClosing : s.closing now with
  | none =>
    refine iff_of_true ⟨hUnchecked, hOwn⟩ ?_
    intro task conn hSome
    cases hSome
  | some closed =>
    obtain ⟨task, conn⟩ := closed
    have hSame := closing_own h hUnchecked hClosing
    have hOne : (∀ task' conn', some (task, conn) = some (task', conn') → s.Unchecked conn') ↔
        s.Unchecked conn := by
      refine ⟨fun hAll => hAll task conn rfl, fun hConn task' conn' hEq => ?_⟩
      obtain ⟨-, rfl⟩ := Prod.mk.inj (Option.some.inj hEq)
      exact hConn
    rw [hOne]
    refine (and_iff_left ?_).trans (allUnchecked_removeConnection
      (s := { s with mTimeoutTaskIDQueue := s.mTimeoutTaskIDQueue.tail }) hUnchecked conn)
    intro p hp
    rcases List.mem_cons.mp hp with rfl | hp
    · dsimp only
      omega
    · exact hOwn p hp

/-- **One step** lets a task outlive its connection exactly if it closes one that has a
task. -/
theorem step_tasksEnd_iff (h : s.Consistent) (hEnd : s.TasksEnd) (e : TaskEvent) :
    (s.step e).TasksEnd ↔ s.ClosesUnchecked e := by
  obtain ⟨hUnchecked, hOwn⟩ := (tasksEnd_of_consistent h).mp hEnd
  rw [tasksEnd_of_consistent (h.step e)]
  cases e with
  | accept connfd hostAndService =>
    refine iff_of_true ?_ trivial
    by_cases hNew : s.InUse connfd
    · rw [TaskServer.step, if_pos hNew]
      exact ⟨hUnchecked, hOwn⟩
    · rw [TaskServer.step, if_neg hNew]
      obtain ⟨c, -, hAccept⟩ := newConnectionFunc_accepts h hNew hostAndService
      rw [hAccept.closes]
      exact ⟨hAccept.allUnchecked hUnchecked, hOwn⟩
  | stamp conn timestamp =>
    exact iff_of_true ⟨allUnchecked_stamp hUnchecked conn timestamp, hOwn⟩ trivial
  | close conn =>
    show AllUnchecked (s.removeConnection conn) ∧
      (∀ p ∈ (s.removeConnection conn).closes, _) ↔ s.Unchecked conn
    rw [allUnchecked_removeConnection hUnchecked, removeConnection_closes]
    exact and_iff_left hOwn
  | advance seconds => exact iff_of_true ⟨hUnchecked, hOwn⟩ trivial
  | tick => exact iff_of_true ⟨hUnchecked, hOwn⟩ trivial
  | registerTask =>
    refine iff_of_true ?_ trivial
    rw [TaskServer.step]
    split <;> exact ⟨hUnchecked, hOwn⟩
  | timerWork now => exact timerWork_unchecked_iff h hUnchecked hOwn now

end

/-- **Timer tasks.** In every run of a server, from its start on, no task outlives its
connection exactly if no connection with a task is ever closed. -/
theorem tasks_end_iff (kind : ServerKind) (mServName : String) (timeout : BitVec 64)
    (linked : Bool) (seconds : Int) (es : List TaskEvent) :
    Always step TasksEnd (init kind mServName timeout linked seconds) es ↔
      Each step ClosesUnchecked (init kind mServName timeout linked seconds) es :=
  always_iff_each (fun s _ => s.Consistent) (fun _ e _ hJ _ _ => hJ.step e)
    (fun _ e _ hJ hEnd => step_tasksEnd_iff hJ hEnd e)
    ((tasksEnd_of_consistent (init_consistent kind mServName timeout linked seconds)).mpr
      ⟨fun _ hc => absurd hc List.not_mem_nil, fun _ hp => absurd hp List.not_mem_nil⟩)
    (init_consistent kind mServName timeout linked seconds)

/-- A client that comes back with the same port, after the descriptor of its first
connection has become free again. -/
def reconnect : List TaskEvent :=
  [.accept 7 "10.0.0.1:4000", .registerTask, .close 0, .accept 7 "10.0.0.1:4000",
    .stamp 1 5000#64, .tick, .tick, .timerWork 6000#64]

/-- The check of the first connection closes the second one. -/
theorem not_tasks_end :
    ¬ ∀ (kind : ServerKind) (mServName : String) (timeout : BitVec 64) (linked : Bool)
      (seconds : Int) (es : List TaskEvent),
      Always step TasksEnd (init kind mServName timeout linked seconds) es := by
  intro h
  have hEnd := (h .loginServer "login" 1#64 true 0 reconnect).final
  exact hEnd.own (0, 1) (by decide +kernel) (by decide)

end TaskServer

end WarringServer.Server
