import Mathlib.Data.List.Perm.Basic
import WarringServer.Net.EventLoopThreadpool
import WarringServer.Server.LoginPath

/-!
# Accepting connections

The acceptor's thread takes a connection, asks the filter of the server, picks an event loop,
and makes a `TcpConnection`. The constructor registers the descriptor with the loop, whose thread
may handle its events from then on; only afterwards the acceptor enters the connection into
`mTcpConnections` and sets its callbacks, one statement after the other. A connection without a
close function closes its socket itself, and stays in the map.

* `Accounted` — every descriptor accepted is refused, with a connection, or lost, and it is
  lost only when no loop runs (`accepted_accounted`);
* `Served` — nothing that a client does is missed, and `mTcpConnections` has the open
  connections;
* `served_iff` — this is so throughout a run exactly if no loop handles an event of
  a connection before the callback for it is set.

The kernel gives out descriptors that are not in use.
-/

namespace WarringServer.Server

open Run Message Net

-- ---------------------------------------------------------------------------
-- The server
-- ---------------------------------------------------------------------------

/-- `SocketAddr`: `getIP` and `getHostAndServiceNUM`. -/
structure PeerAddr where
  ip : Bytes
  hostAndService : Bytes
  deriving DecidableEq, Repr

/-- A `TcpConnection`, with the index of its loop. It keeps in mind how often its buffer has been
read, how often the message function has been called, and which loops ran when its
loop was picked. -/
structure AcceptedConn where
  connfd : Nat
  peer : PeerAddr
  loop : Nat
  state : ConnectionState
  mMessageFunc : Bool
  mCloseFunc : Bool
  reads : Nat
  calls : Nat
  running : List Nat
  deriving DecidableEq, Repr

/-- The statement of `newConnectionFunc` that is next. -/
inductive AcceptPoint where
  /-- The acceptor polls. -/
  | idle
  /-- `getDesiredIndex`, `getEventLoop` and the construction -/
  | construct (connfd : Nat) (peer : PeerAddr)
  /-- `mTcpConnections.insert` -/
  | insert (conn : Nat)
  | setMessageFunc (conn : Nat)
  | setCloseFunc (conn : Nat)
  deriving DecidableEq, Repr

structure AcceptServer where
  mServName : Bytes
  mConnBlacklist : List Bytes
  mEventLoopThreadpool : EventLoopThreadpool
  /-- Names, with the number of the connection. -/
  mTcpConnections : List (Bytes × Nat)
  connections : List AcceptedConn
  acceptor : AcceptPoint
  /-- What `accept` has returned, in order. -/
  accepted : List (Nat × PeerAddr)
  /-- Closed by the filter. -/
  refused : List (Nat × PeerAddr)
  /-- Neither closed nor with a connection; the loops that ran then. -/
  lost : List ((Nat × PeerAddr) × List Nat)

inductive AcceptEvent where
  /-- `accept` returns a descriptor. -/
  | accept (connfd : Nat) (peer : PeerAddr)
  /-- The acceptor's next statement. -/
  | acceptor
  /-- The loop of a connection reads from it. -/
  | read (conn : Nat)
  /-- The loop of a connection handles its end. -/
  | hangup (conn : Nat)
  /-- Another thread finds a connection by its name, and closes it. -/
  | activeClose (conn : Nat)
  /-- The loop of a thread begins or ends. -/
  | setThread (i : Nat) (thd : Option EventLoopThread)
  deriving DecidableEq, Repr

/-- `connFilterFunc` of the servers: `isInBlacklist` refuses. -/
def connFilterFunc (mConnBlacklist : List Bytes) (addr : PeerAddr) : Bool :=
  !mConnBlacklist.contains addr.ip

namespace AcceptServer

def start (mServName : Bytes) (mConnBlacklist : List Bytes) (num hardwareNum : Nat) :
    AcceptServer where
  mServName := mServName
  mConnBlacklist := mConnBlacklist
  mEventLoopThreadpool := .new num hardwareNum
  mTcpConnections := []
  connections := []
  acceptor := .idle
  accepted := []
  refused := []
  lost := []

def connID (s : AcceptServer) (c : AcceptedConn) : Bytes :=
  generateConnID s.mServName c.connfd c.peer.hostAndService

/-- `EventLoopThreadpool::getEventLoop`, by the index of the loop. -/
def getEventLoop (t : EventLoopThreadpool) (index : Int) : Option Nat :=
  if index < 0 ∨ (t.mThreadNum : Int) ≤ index then none else some index.toNat

/-- The descriptor has been accepted, and nobody has closed it. -/
def inUse (s : AcceptServer) (connfd : Nat) : Bool :=
  s.connections.any (fun c => c.state = .connected ∧ c.connfd = connfd) ||
    s.lost.any (·.1.1 = connfd)

/-- `getConnPtrRef` finds the connection, under some name. -/
def isListed (s : AcceptServer) (conn : Nat) : Bool := s.mTcpConnections.any (·.2 = conn)

/-- `Acceptor::connFunc`, with the acceptor polling and a descriptor that is free. -/
def connFunc (s : AcceptServer) (connfd : Nat) (peer : PeerAddr) : AcceptServer :=
  let s := { s with accepted := s.accepted ++ [(connfd, peer)] }
  if connfd > 0 then
    if connFilterFunc s.mConnBlacklist peer then { s with acceptor := .construct connfd peer }
    else { s with refused := s.refused ++ [(connfd, peer)] }
  else { s with lost := s.lost ++ [((connfd, peer), s.mEventLoopThreadpool.active)] }

def setConn (s : AcceptServer) (conn : Nat) (f : AcceptedConn → AcceptedConn) : AcceptServer :=
  { s with connections := s.connections.modify conn f }

/-- The statements of `newConnectionFunc`. -/
def newConnectionFunc (s : AcceptServer) : AcceptServer :=
  match s.acceptor with
  | .idle => s
  | .construct connfd peer =>
    let running := s.mEventLoopThreadpool.active
    let (index, pool) := s.mEventLoopThreadpool.roundRobinIndex
    match getEventLoop pool index with
    | none =>
      { s with
        mEventLoopThreadpool := pool
        acceptor := .idle
        lost := s.lost ++ [((connfd, peer), running)] }
    | some loop =>
      { s with
        mEventLoopThreadpool := pool
        acceptor := .insert s.connections.length
        connections := s.connections ++
          [⟨connfd, peer, loop, .connected, false, false, 0, 0, running⟩] }
  | .insert conn =>
    match s.connections[conn]? with
    | none => s
    | some c =>
      { s with
        acceptor := .setMessageFunc conn
        mTcpConnections :=
          if s.mTcpConnections.any (·.1 = s.connID c) then s.mTcpConnections
          else s.mTcpConnections ++ [(s.connID c, conn)] }
  | .setMessageFunc conn =>
    { s.setConn conn ({ · with mMessageFunc := true }) with acceptor := .setCloseFunc conn }
  | .setCloseFunc conn =>
    { s.setConn conn ({ · with mCloseFunc := true }) with acceptor := .idle }

/-- `TcpConnection::readFunc`, when there is data. -/
def readFunc (c : AcceptedConn) : AcceptedConn :=
  { c with reads := c.reads + 1, calls := if c.mMessageFunc then c.calls + 1 else c.calls }

/-- `TcpConnection::closeFunc` and `activeClose`: `TcpServer::removeConnection` erases the name. -/
def closeFunc (s : AcceptServer) (conn : Nat) (c : AcceptedConn) : AcceptServer :=
  if c.mCloseFunc then
    { s.setConn conn ({ · with state := .removed }) with
      mTcpConnections := s.mTcpConnections.filter (·.1 ≠ s.connID c) }
  else s.setConn conn ({ · with state := .closed })

def step (s : AcceptServer) : AcceptEvent → AcceptServer
  | .accept connfd peer =>
    if s.acceptor = .idle ∧ s.inUse connfd = false then s.connFunc connfd peer else s
  | .acceptor => s.newConnectionFunc
  | .read conn =>
    match s.connections[conn]? with
    | some c => if c.state = .connected then s.setConn conn readFunc else s
    | none => s
  | .hangup conn =>
    match s.connections[conn]? with
    | some c => if c.state = .connected then s.closeFunc conn c else s
    | none => s
  | .activeClose conn =>
    match s.connections[conn]? with
    | some c =>
      if s.isListed conn ∧ c.state ≠ .removed then s.closeFunc conn c else s
    | none => s
  | .setThread i thd =>
    { s with mEventLoopThreadpool := s.mEventLoopThreadpool.step (.setThread i thd) }

-- ---------------------------------------------------------------------------
-- Every descriptor accounted for
-- ---------------------------------------------------------------------------

/-- The descriptor the acceptor has in its hand. -/
def inHand (s : AcceptServer) : List (Nat × PeerAddr) :=
  match s.acceptor with
  | .construct connfd peer => [(connfd, peer)]
  | .idle | .insert _ | .setMessageFunc _ | .setCloseFunc _ => []

/-- Every descriptor that `accept` has returned is in one place; only peers that the filter lets in
get a connection, on a loop that runs; and a descriptor is lost only while no loop runs, or if it
is 0. -/
structure Accounted (s : AcceptServer) : Prop where
  places : (s.refused ++ s.lost.map Prod.fst ++ s.inHand ++
    s.connections.map fun c => (c.connfd, c.peer)).Perm s.accepted
  admitted : ∀ c ∈ s.connections, connFilterFunc s.mConnBlacklist c.peer = true
  refusals : ∀ r ∈ s.refused, connFilterFunc s.mConnBlacklist r.2 = false
  served : ∀ c ∈ s.connections, c.loop ∈ c.running
  losses : ∀ l ∈ s.lost, l.1.1 = 0 ∨ l.2 = []

structure AccountedInv (s : AcceptServer) : Prop extends s.Accounted where
  next_lt : s.mEventLoopThreadpool.mNextIndex < s.mEventLoopThreadpool.mThreadNum
  hand : ∀ a ∈ s.inHand, connFilterFunc s.mConnBlacklist a.2 = true

section

variable {s : AcceptServer} {connfd conn : Nat} {peer : PeerAddr} {c : AcceptedConn}

/-- The index of a running loop, or none if no loop runs. -/
theorem getEventLoop_cases {t : EventLoopThreadpool} (h : t.mNextIndex < t.mThreadNum) :
    t.roundRobinIndex.2.mNextIndex < t.roundRobinIndex.2.mThreadNum ∧
      ((t.active = [] ∧ getEventLoop t.roundRobinIndex.2 t.roundRobinIndex.1 = none) ∨
        ∃ loop ∈ t.active, getEventLoop t.roundRobinIndex.2 t.roundRobinIndex.1 = some loop) := by
  refine ⟨EventLoopThreadpool.step_next_lt t .roundRobinIndex h, ?_⟩
  cases hNext : RoundRobin.next t.active t.mNextIndex with
  | none =>
    have hNone := RoundRobin.next_eq_none hNext
    obtain ⟨m, hCall, -⟩ := EventLoopThreadpool.roundRobinIndex_none h hNone
    rw [hCall]
    exact Or.inl ⟨hNone, if_pos (Or.inl (by simp))⟩
  | some loop =>
    have hMem := RoundRobin.next_mem hNext
    have hLt := (EventLoopThreadpool.mem_active.mp hMem).1
    rw [EventLoopThreadpool.roundRobinIndex_some h hNext]
    refine Or.inr ⟨loop, hMem, ?_⟩
    rw [getEventLoop]
    dsimp only
    rw [if_neg (by omega)]
    rfl

/-- A change of one connection that keeps its descriptor, its peer and its loop. -/
theorem AccountedInv.setConn (h : s.AccountedInv) (conn : Nat) {f : AcceptedConn → AcceptedConn}
    (hf : ∀ c, (f c).connfd = c.connfd ∧ (f c).peer = c.peer ∧ (f c).loop = c.loop ∧
      (f c).running = c.running) : (s.setConn conn f).AccountedInv := by
  have hMem : ∀ c ∈ s.connections.modify conn f, ∃ c₀ ∈ s.connections, c = c₀ ∨ c = f c₀ := by
    intro c hc
    obtain ⟨i, hi⟩ := List.mem_iff_getElem?.mp hc
    rw [List.getElem?_modify] at hi
    obtain ⟨c₀, hc₀, rfl⟩ := Option.map_eq_some_iff.mp hi
    refine ⟨c₀, List.mem_of_getElem? hc₀, ?_⟩
    split
    · exact Or.inr rfl
    · exact Or.inl rfl
  have hKey : (s.connections.modify conn f).map (fun c => (c.connfd, c.peer)) =
      s.connections.map fun c => (c.connfd, c.peer) := by
    refine List.ext_getElem? ?_
    intro i
    rw [List.getElem?_map, List.getElem?_map, List.getElem?_modify]
    rcases s.connections[i]? with _ | c
    · rfl
    · by_cases hi : conn = i
      · simp [hi, hf c]
      · simp [hi]
  refine ⟨⟨?_, fun c hc => ?_, h.refusals, fun c hc => ?_, h.losses⟩, h.next_lt, h.hand⟩
  · have hPlaces := h.places
    rw [← hKey] at hPlaces
    exact hPlaces
  · obtain ⟨c₀, hc₀, rfl | rfl⟩ := hMem c hc
    · exact h.admitted c hc₀
    · rw [(hf c₀).2.1]
      exact h.admitted c₀ hc₀
  · obtain ⟨c₀, hc₀, rfl | rfl⟩ := hMem c hc
    · exact h.served c hc₀
    · rw [(hf c₀).2.2.1, (hf c₀).2.2.2]
      exact h.served c₀ hc₀

/-- The map and the acceptor's point, as long as nothing is in its hand. -/
theorem AccountedInv.of_eq (h : s.AccountedInv) {s' : AcceptServer}
    (hConnections : s'.connections = s.connections) (hAccepted : s'.accepted = s.accepted)
    (hRefused : s'.refused = s.refused) (hLost : s'.lost = s.lost)
    (hBlacklist : s'.mConnBlacklist = s.mConnBlacklist) (hHand : s'.inHand = s.inHand)
    (hNext : s'.mEventLoopThreadpool.mNextIndex < s'.mEventLoopThreadpool.mThreadNum) :
    s'.AccountedInv := by
  refine ⟨⟨?_, ?_, ?_, ?_, ?_⟩, hNext, ?_⟩
  · rw [hConnections, hAccepted, hRefused, hLost, hHand]
    exact h.places
  · rw [hConnections, hBlacklist]
    exact h.admitted
  · rw [hRefused, hBlacklist]
    exact h.refusals
  · rw [hConnections]
    exact h.served
  · rw [hLost]
    exact h.losses
  · rw [hHand, hBlacklist]
    exact h.hand

/-- The descriptors, counted. -/
theorem AccountedInv.count (h : s.AccountedInv) (a : Nat × PeerAddr) :
    s.refused.count a + (s.lost.map Prod.fst).count a + s.inHand.count a +
      (s.connections.map fun c => (c.connfd, c.peer)).count a = s.accepted.count a := by
  have hCount := h.places.count_eq a
  rw [List.count_append, List.count_append, List.count_append] at hCount
  exact hCount

theorem places_of_count (h : ∀ a, s.refused.count a + (s.lost.map Prod.fst).count a +
    s.inHand.count a + (s.connections.map fun c => (c.connfd, c.peer)).count a =
      s.accepted.count a) :
    (s.refused ++ s.lost.map Prod.fst ++ s.inHand ++
      s.connections.map fun c => (c.connfd, c.peer)).Perm s.accepted := by
  rw [List.perm_iff_count]
  intro a
  rw [List.count_append, List.count_append, List.count_append]
  exact h a

theorem AccountedInv.connFunc (h : s.AccountedInv) (hIdle : s.acceptor = .idle) :
    (s.connFunc connfd peer).AccountedInv := by
  have hHand : s.inHand = [] := by rw [inHand, hIdle]
  have hCount := h.count
  simp only [hHand, List.count_nil] at hCount
  unfold AcceptServer.connFunc
  dsimp only
  split
  · split
    · rename_i hFilter
      refine ⟨⟨places_of_count fun a => ?_, h.admitted, h.refusals, h.served, h.losses⟩, h.next_lt,
        ?_⟩
      · simp only [inHand, List.count_append]
        have hOld := hCount a
        omega
      · intro a ha
        rw [List.mem_singleton.mp ha]
        exact hFilter
    · rename_i hFilter
      refine ⟨⟨places_of_count fun a => ?_, h.admitted, fun r hr => ?_, h.served, h.losses⟩,
        h.next_lt, h.hand⟩
      · simp only [inHand, hIdle, List.count_append, List.count_nil]
        have hOld := hCount a
        omega
      · rcases List.mem_append.mp hr with hr | hr
        · exact h.refusals r hr
        · rw [List.mem_singleton.mp hr]
          simpa using hFilter
  · rename_i hZero
    refine ⟨⟨places_of_count fun a => ?_, h.admitted, h.refusals, h.served, fun l hl => ?_⟩,
      h.next_lt, h.hand⟩
    · simp only [inHand, hIdle, List.count_append, List.count_nil, List.map_append, List.map_cons,
        List.map_nil]
      have hOld := hCount a
      omega
    · rcases List.mem_append.mp hl with hl | hl
      · exact h.losses l hl
      · rw [List.mem_singleton.mp hl]
        exact Or.inl (by dsimp only; omega)

theorem AccountedInv.newConnectionFunc (h : s.AccountedInv) :
    s.newConnectionFunc.AccountedInv := by
  unfold AcceptServer.newConnectionFunc
  rcases hAt : s.acceptor with _ | ⟨connfd, peer⟩ | conn | conn | conn
  case idle => exact h
  case construct =>
    have hHand : s.inHand = [(connfd, peer)] := by rw [inHand, hAt]
    have hCount := h.count
    simp only [hHand] at hCount
    obtain ⟨hNext, ⟨hNone, hIndex⟩ | ⟨loop, hLoop, hIndex⟩⟩ := getEventLoop_cases h.next_lt
    · dsimp only
      rw [hIndex]
      refine ⟨⟨places_of_count fun a => ?_, h.admitted, h.refusals, h.served, fun l hl => ?_⟩,
        hNext, fun a ha => absurd ha List.not_mem_nil⟩
      · simp only [inHand, List.count_append, List.count_nil, List.map_append, List.map_cons,
          List.map_nil]
        have hOld := hCount a
        omega
      · rcases List.mem_append.mp hl with hl | hl
        · exact h.losses l hl
        · rw [List.mem_singleton.mp hl]
          exact Or.inr hNone
    · dsimp only
      rw [hIndex]
      refine ⟨⟨places_of_count fun a => ?_, fun c hc => ?_, h.refusals, fun c hc => ?_, h.losses⟩,
        hNext, fun a ha => absurd ha List.not_mem_nil⟩
      · simp only [inHand, List.count_append, List.count_nil, List.map_append, List.map_cons,
          List.map_nil]
        have hOld := hCount a
        omega
      · rcases List.mem_append.mp hc with hc | hc
        · exact h.admitted c hc
        · rw [List.mem_singleton.mp hc]
          exact h.hand (connfd, peer) (by simp [hHand])
      · rcases List.mem_append.mp hc with hc | hc
        · exact h.served c hc
        · rw [List.mem_singleton.mp hc]
          exact hLoop
  case insert =>
    dsimp only
    split
    · exact h
    · exact h.of_eq rfl rfl rfl rfl rfl (by simp [inHand, hAt]) h.next_lt
  case setMessageFunc =>
    refine AccountedInv.of_eq (h.setConn conn (f := ({ · with mMessageFunc := true }))
      fun c => ⟨rfl, rfl, rfl, rfl⟩) rfl rfl rfl rfl rfl ?_ h.next_lt
    simp [inHand, AcceptServer.setConn, hAt]
  case setCloseFunc =>
    refine AccountedInv.of_eq (h.setConn conn (f := ({ · with mCloseFunc := true }))
      fun c => ⟨rfl, rfl, rfl, rfl⟩) rfl rfl rfl rfl rfl ?_ h.next_lt
    simp [inHand, AcceptServer.setConn, hAt]

theorem AccountedInv.closeFunc (h : s.AccountedInv) : (s.closeFunc conn c).AccountedInv := by
  unfold AcceptServer.closeFunc
  split
  · exact AccountedInv.of_eq (h.setConn conn (f := ({ · with state := .removed }))
      fun c => ⟨rfl, rfl, rfl, rfl⟩) rfl rfl rfl rfl rfl rfl h.next_lt
  · exact h.setConn _ fun c => ⟨rfl, rfl, rfl, rfl⟩

theorem AccountedInv.step (h : s.AccountedInv) (e : AcceptEvent) : (s.step e).AccountedInv := by
  rcases e with ⟨connfd, peer⟩ | _ | conn | conn | conn | ⟨i, thd⟩
  · rw [AcceptServer.step]
    split
    · rename_i hFree
      exact h.connFunc hFree.1
    · exact h
  · exact h.newConnectionFunc
  · rw [AcceptServer.step]
    split
    · split
      · exact h.setConn _ fun c => ⟨rfl, rfl, rfl, rfl⟩
      · exact h
    · exact h
  · rw [AcceptServer.step]
    split
    · split
      · exact h.closeFunc
      · exact h
    · exact h
  · rw [AcceptServer.step]
    split
    · split
      · exact h.closeFunc
      · exact h
    · exact h
  · exact h.of_eq rfl rfl rfl rfl rfl rfl
      (EventLoopThreadpool.step_next_lt s.mEventLoopThreadpool (.setThread i thd) h.next_lt)

/-- **Accepted descriptors.** In every run of a server with a loop in use, every descriptor that has
been accepted is closed by the filter, with a connection, in the acceptor's hand, or lost; the
filter has refused those in the blacklist; a connection's loop ran when it was picked; and a
descriptor is lost only while no loop runs, or if it is 0. -/
theorem accepted_accounted (mServName : Bytes) (mConnBlacklist : List Bytes) (num hardwareNum : Nat)
    (hThreads : 1 ≤ (EventLoopThreadpool.new num hardwareNum).mThreadNum)
    (es : List AcceptEvent) :
    Always AcceptServer.step Accounted (start mServName mConnBlacklist num hardwareNum) es := by
  have hStart : (start mServName mConnBlacklist num hardwareNum).AccountedInv :=
    ⟨⟨List.Perm.refl [], fun c hc => absurd hc List.not_mem_nil,
      fun r hr => absurd hr List.not_mem_nil, fun c hc => absurd hc List.not_mem_nil,
      fun l hl => absurd hl List.not_mem_nil⟩, hThreads, fun a ha => absurd ha List.not_mem_nil⟩
  exact (always_of_step (fun _ e h => h.step e) hStart).imp fun _ h => h.toAccounted

/-- Two loops, one of which has begun; the second peer is in the blacklist. -/
theorem accepted_accounted_two :
    Always AcceptServer.step Accounted (start (literal "GameServ") [literal "10.0.0.2"] 2 8)
      [.setThread 1 (some ⟨true⟩), .accept 7 ⟨literal "10.0.0.1", literal "10.0.0.1:40000"⟩,
        .acceptor, .acceptor, .acceptor, .acceptor,
        .accept 8 ⟨literal "10.0.0.2", literal "10.0.0.2:40000"⟩] :=
  accepted_accounted _ _ 2 8 (by decide) _

end

-- ---------------------------------------------------------------------------
-- Events that come too early
-- ---------------------------------------------------------------------------

/-- Nothing is missed: what has been read has been handed to the message function, no connection
has closed its socket itself, and `mTcpConnections` has the connected ones under their names,
except for one that the acceptor is about to enter. -/
structure Served (s : AcceptServer) : Prop where
  handed : ∀ c ∈ s.connections, c.calls = c.reads
  kept : ∀ c ∈ s.connections, c.state ≠ .closed
  listed : ∀ (i : Nat) c, s.connections[i]? = some c → c.state = .connected →
    s.acceptor ≠ .insert i → (s.connID c, i) ∈ s.mTcpConnections
  found : ∀ name (i : Nat), (name, i) ∈ s.mTcpConnections →
    ∃ c, s.connections[i]? = some c ∧ c.state = .connected ∧ name = s.connID c

/-- A loop, or a thread that closes a connection, finds the callback set. -/
def AfterSetup (s : AcceptServer) : AcceptEvent → Prop
  | .read conn =>
    ∀ c, s.connections[conn]? = some c → c.state = .connected → c.mMessageFunc = true
  | .hangup conn =>
    ∀ c, s.connections[conn]? = some c → c.state = .connected → c.mCloseFunc = true
  | .activeClose conn =>
    ∀ c, s.connections[conn]? = some c → s.isListed conn = true → c.mCloseFunc = true
  | .accept _ _ | .acceptor | .setThread _ _ => True

/-- What holds whatever comes early: descriptors of connected sockets are distinct, and the
acceptor is at work on the last connection. -/
structure Setup (s : AcceptServer) : Prop where
  distinct : ∀ (i j : Nat) (c c' : AcceptedConn), s.connections[i]? = some c →
    s.connections[j]? = some c' → c.state = .connected → c'.state = .connected →
    c.connfd = c'.connfd → i = j
  fresh : ∀ connfd peer, s.acceptor = .construct connfd peer → ∀ c ∈ s.connections,
    c.state = .connected → c.connfd ≠ connfd
  entries : ∀ name i, (name, i) ∈ s.mTcpConnections → i < s.connections.length
  pending : ∀ (i : Nat), s.acceptor = .insert i → i < s.connections.length ∧
    (∀ name, (name, i) ∉ s.mTcpConnections) ∧
    ∀ c, s.connections[i]? = some c → c.mCloseFunc = false ∧ c.state ≠ .removed

section

variable {s : AcceptServer} {connfd conn : Nat} {peer : PeerAddr} {c : AcceptedConn}
  {f : AcceptedConn → AcceptedConn}

theorem setConn_self (hc : s.connections[conn]? = some c) :
    (s.setConn conn f).connections[conn]? = some (f c) := by
  rw [setConn, List.getElem?_modify_eq, hc]
  rfl

theorem setConn_ne {i : Nat} (h : conn ≠ i) :
    (s.setConn conn f).connections[i]? = s.connections[i]? :=
  List.getElem?_modify_ne _ _ h

theorem getElem?_setConn {i : Nat} {b : AcceptedConn}
    (h : (s.setConn conn f).connections[i]? = some b) :
    ∃ a, s.connections[i]? = some a ∧ b = if conn = i then f a else a := by
  rw [setConn, List.getElem?_modify] at h
  obtain ⟨a, ha, hb⟩ := Option.map_eq_some_iff.mp h
  exact ⟨a, ha, hb.symm⟩

/-- A change of one connection that does not connect it, keeps `Setup`. -/
theorem Setup.setConn (h : s.Setup) (conn : Nat)
    (hf : ∀ c, (f c).connfd = c.connfd ∧ ((f c).state = .connected → c.state = .connected))
    (hPending : s.acceptor = .insert conn → ∀ c, s.connections[conn]? = some c →
      c.mCloseFunc = false → c.state ≠ .removed →
      (f c).mCloseFunc = false ∧ (f c).state ≠ .removed) :
    (s.setConn conn f).Setup := by
  have hOld : ∀ (i : Nat) b, (s.setConn conn f).connections[i]? = some b → ∃ a,
      s.connections[i]? = some a ∧ b.connfd = a.connfd ∧
        (b.state = .connected → a.state = .connected) := by
    intro i b hb
    obtain ⟨a, ha, rfl⟩ := getElem?_setConn hb
    refine ⟨a, ha, ?_⟩
    split
    · exact hf a
    · exact ⟨rfl, id⟩
  have hLength : (s.setConn conn f).connections.length = s.connections.length :=
    List.length_modify _ _ _
  refine ⟨?_, ?_, ?_, ?_⟩
  · intro i j c c' hc hc' hState hState' hFd
    obtain ⟨a, ha, hFd₁, hState₁⟩ := hOld i c hc
    obtain ⟨a', ha', hFd₂, hState₂⟩ := hOld j c' hc'
    exact h.distinct i j a a' ha ha' (hState₁ hState) (hState₂ hState')
      (hFd₁.symm.trans (hFd.trans hFd₂))
  · intro fd peer hAt c hc hState
    obtain ⟨i, hi⟩ := List.mem_iff_getElem?.mp hc
    obtain ⟨a, ha, hFd, hOpen⟩ := hOld i c hi
    rw [hFd]
    exact h.fresh fd peer hAt a (List.mem_of_getElem? ha) (hOpen hState)
  · intro name i hMem
    rw [hLength]
    exact h.entries name i hMem
  · intro i hAt
    obtain ⟨hLt, hNone, hSet⟩ := h.pending i hAt
    refine ⟨hLength.symm ▸ hLt, hNone, fun b hb => ?_⟩
    obtain ⟨a, ha, rfl⟩ := getElem?_setConn hb
    obtain ⟨hUnset, hState⟩ := hSet a ha
    split
    · rename_i hi
      exact hPending (hi ▸ hAt) a (hi ▸ ha) hUnset hState
    · exact ⟨hUnset, hState⟩

theorem Setup.connFunc (h : s.Setup) (hFree : s.inUse connfd = false) :
    (s.connFunc connfd peer).Setup := by
  unfold AcceptServer.connFunc
  dsimp only
  split
  · split
    · refine ⟨h.distinct, ?_, h.entries, ?_⟩
      · intro fd peer' hAt c hc hState hFd
        obtain ⟨rfl, -⟩ := AcceptPoint.construct.inj hAt
        rw [inUse, Bool.or_eq_false_iff, List.any_eq_false] at hFree
        exact hFree.1 c hc (by simpa using ⟨hState, hFd⟩)
      · intro i hAt
        cases hAt
    · exact ⟨h.distinct, h.fresh, h.entries, h.pending⟩
  · exact ⟨h.distinct, h.fresh, h.entries, h.pending⟩

/-- The last element of a list, or another. -/
theorem getElem?_snoc {α : Type*} {l : List α} {a b : α} {i : Nat} (h : (l ++ [a])[i]? = some b) :
    l[i]? = some b ∨ i = l.length ∧ b = a := by
  rcases Nat.lt_or_ge i l.length with hLt | hGe
  · rw [List.getElem?_append_left hLt] at h
    exact Or.inl h
  · rw [List.getElem?_append_right hGe, List.getElem?_singleton] at h
    split at h
    · exact Or.inr ⟨by omega, (Option.some.inj h).symm⟩
    · cases h

theorem Setup.newConnectionFunc (h : s.Setup) : s.newConnectionFunc.Setup := by
  unfold AcceptServer.newConnectionFunc
  rcases hAt : s.acceptor with _ | ⟨connfd, peer⟩ | conn | conn | conn
  case idle => exact h
  case construct =>
    dsimp only
    split
    · exact ⟨h.distinct, by simp, h.entries, by simp⟩
    · rename_i loop hLoop
      refine ⟨?_, by simp, ?_, ?_⟩
      · intro i j c c' hc hc' hState hState' hFd
        rcases getElem?_snoc hc with hc | ⟨rfl, rfl⟩
        · rcases getElem?_snoc hc' with hc' | ⟨rfl, rfl⟩
          · exact h.distinct i j c c' hc hc' hState hState' hFd
          · exact absurd hFd (h.fresh connfd peer hAt c (List.mem_of_getElem? hc) hState)
        · rcases getElem?_snoc hc' with hc' | ⟨rfl, rfl⟩
          · exact absurd hFd.symm (h.fresh connfd peer hAt c' (List.mem_of_getElem? hc') hState')
          · rfl
      · intro name i hMem
        have hLt := h.entries name i hMem
        simp only [List.length_append]
        omega
      · intro i hInsert
        obtain rfl : s.connections.length = i := AcceptPoint.insert.inj hInsert
        refine ⟨by simp, ?_, ?_⟩
        · intro name hMem
          exact absurd (h.entries name _ hMem) (Nat.lt_irrefl _)
        · intro c hc
          rcases getElem?_snoc hc with hc | ⟨-, rfl⟩
          · exact absurd (List.getElem?_eq_some_iff.mp hc).1 (Nat.lt_irrefl _)
          · exact ⟨rfl, by simp⟩
  case insert =>
    dsimp only
    split
    · exact h
    · rename_i c hc
      refine ⟨h.distinct, by simp, fun name i hMem => ?_, by simp⟩
      dsimp only at hMem ⊢
      split at hMem
      · exact h.entries name i hMem
      · rcases List.mem_append.mp hMem with hMem | hMem
        · exact h.entries name i hMem
        · obtain ⟨-, rfl⟩ := Prod.mk.inj (List.mem_singleton.mp hMem)
          exact (h.pending i hAt).1
  case setMessageFunc =>
    have hSet := h.setConn conn (f := ({ · with mMessageFunc := true }))
      (fun c => ⟨rfl, id⟩) (by simp [hAt])
    exact ⟨hSet.distinct, by simp, hSet.entries, by simp⟩
  case setCloseFunc =>
    have hSet := h.setConn conn (f := ({ · with mCloseFunc := true }))
      (fun c => ⟨rfl, id⟩) (by simp [hAt])
    exact ⟨hSet.distinct, by simp, hSet.entries, by simp⟩

theorem Setup.closeFunc (h : s.Setup) (hc : s.connections[conn]? = some c) :
    (s.closeFunc conn c).Setup := by
  unfold AcceptServer.closeFunc
  split
  · rename_i hSet
    have hRemoved := h.setConn conn (f := ({ · with state := .removed }))
      (fun c => ⟨rfl, by simp⟩) fun _ a ha hUnset _ => by
        obtain rfl : c = a := Option.some.inj (hc.symm.trans ha)
        exact absurd hSet (by simp [hUnset])
    refine ⟨hRemoved.distinct, hRemoved.fresh, ?_, ?_⟩
    · intro name i hMem
      exact hRemoved.entries name i (List.mem_of_mem_filter hMem)
    · intro i hAt
      obtain ⟨hLt, hNone, hUnset⟩ := hRemoved.pending i hAt
      exact ⟨hLt, fun name hMem => hNone name (List.mem_of_mem_filter hMem), hUnset⟩
  · exact h.setConn _ (fun c => ⟨rfl, by simp⟩) fun _ a _ hUnset _ => ⟨hUnset, by simp⟩

theorem Setup.step (h : s.Setup) (e : AcceptEvent) : (s.step e).Setup := by
  rcases e with ⟨connfd, peer⟩ | _ | conn | conn | conn | ⟨i, thd⟩
  · rw [AcceptServer.step]
    split
    · rename_i hFree
      exact h.connFunc hFree.2
    · exact h
  · exact h.newConnectionFunc
  · rw [AcceptServer.step]
    split
    · split
      · exact h.setConn _ (fun c => ⟨rfl, id⟩) fun _ c _ hUnset hState => ⟨hUnset, hState⟩
      · exact h
    · exact h
  · rw [AcceptServer.step]
    split
    · rename_i hc
      split
      · exact h.closeFunc hc
      · exact h
    · exact h
  · rw [AcceptServer.step]
    split
    · rename_i hc
      split
      · exact h.closeFunc hc
      · exact h
    · exact h
  · exact ⟨h.distinct, h.fresh, h.entries, h.pending⟩

-- ---------------------------------------------------------------------------
-- What each event misses
-- ---------------------------------------------------------------------------

theorem connID_inj {c' : AcceptedConn} (h : s.connID c = s.connID c') : c.connfd = c'.connfd :=
  (generateConnID_inj h).1

/-- One name, one connection. -/
theorem same_of_name (hSetup : s.Setup) (h : s.Served) {i j : Nat}
    (hc : s.connections[i]? = some c) (hState : c.state = .connected)
    (hMem : (s.connID c, j) ∈ s.mTcpConnections) : j = i := by
  obtain ⟨c', hc', hState', hName⟩ := h.found _ j hMem
  exact hSetup.distinct j i c' c hc' hc hState' hState (connID_inj hName.symm)

theorem served_read_iff (h : s.Served) (hc : s.connections[conn]? = some c) :
    (s.setConn conn readFunc).Served ↔ c.mMessageFunc = true := by
  have hNew : (s.setConn conn readFunc).connections[conn]? = some (readFunc c) := setConn_self hc
  constructor
  · intro hNext
    have hHanded := hNext.handed _ (List.mem_of_getElem? hNew)
    have hOld := h.handed c (List.mem_of_getElem? hc)
    by_contra hNone
    rw [readFunc] at hHanded
    dsimp only at hHanded
    rw [if_neg hNone] at hHanded
    omega
  · intro hSet
    have hOld : ∀ (i : Nat) b, (s.setConn conn readFunc).connections[i]? = some b → ∃ a,
        s.connections[i]? = some a ∧ b.state = a.state ∧ s.connID b = s.connID a ∧
          b.calls = b.reads := by
      intro i b hb
      obtain ⟨a, ha, rfl⟩ := getElem?_setConn hb
      have hHanded := h.handed a (List.mem_of_getElem? ha)
      refine ⟨a, ha, ?_⟩
      split
      · rename_i hi
        obtain rfl : c = a := Option.some.inj (hc.symm.trans (hi ▸ ha))
        rw [readFunc]
        dsimp only
        rw [if_pos hSet]
        exact ⟨rfl, rfl, by omega⟩
      · exact ⟨rfl, rfl, hHanded⟩
    refine ⟨?_, ?_, ?_, ?_⟩
    · intro b hb
      obtain ⟨i, hi⟩ := List.mem_iff_getElem?.mp hb
      obtain ⟨-, -, -, -, hHanded⟩ := hOld i b hi
      exact hHanded
    · intro b hb
      obtain ⟨i, hi⟩ := List.mem_iff_getElem?.mp hb
      obtain ⟨a, ha, hSame, -⟩ := hOld i b hi
      rw [hSame]
      exact h.kept a (List.mem_of_getElem? ha)
    · intro i b hb hConnected hAt
      obtain ⟨a, ha, hSame, hName, -⟩ := hOld i b hb
      change (s.connID b, i) ∈ s.mTcpConnections
      rw [hName]
      exact h.listed i a ha (hSame ▸ hConnected) hAt
    · intro name i hMem
      obtain ⟨a, ha, hConnected, hName⟩ := h.found name i hMem
      by_cases hi : conn = i
      · subst hi
        obtain rfl : c = a := Option.some.inj (hc.symm.trans ha)
        exact ⟨readFunc c, hNew, hConnected, hName⟩
      · exact ⟨a, (setConn_ne hi).trans ha, hConnected, hName⟩

theorem served_close_iff (hSetup : s.Setup) (h : s.Served) (hc : s.connections[conn]? = some c)
    (hState : c.state = .connected) : (s.closeFunc conn c).Served ↔ c.mCloseFunc = true := by
  unfold AcceptServer.closeFunc
  constructor
  · intro hNext
    by_contra hNone
    rw [if_neg hNone] at hNext
    exact hNext.kept { c with state := .closed } (List.mem_of_getElem? (setConn_self hc)) rfl
  · intro hSet
    rw [if_pos hSet]
    have hOld : ∀ (i : Nat) b,
        (s.setConn conn ({ · with state := .removed })).connections[i]? = some b → ∃ a,
          s.connections[i]? = some a ∧ (b.state = .connected → conn ≠ i ∧ b = a) ∧
          b.state ≠ .closed ∧ b.calls = b.reads := by
      intro i b hb
      obtain ⟨a, ha, rfl⟩ := getElem?_setConn hb
      have hHanded := h.handed a (List.mem_of_getElem? ha)
      have hKept := h.kept a (List.mem_of_getElem? ha)
      refine ⟨a, ha, ?_⟩
      split
      · exact ⟨by simp, by simp, hHanded⟩
      · rename_i hi
        exact ⟨fun _ => ⟨hi, rfl⟩, hKept, hHanded⟩
    refine ⟨?_, ?_, ?_, ?_⟩
    · intro b hb
      obtain ⟨i, hi⟩ := List.mem_iff_getElem?.mp hb
      obtain ⟨-, -, -, -, hHanded⟩ := hOld i b hi
      exact hHanded
    · intro b hb
      obtain ⟨i, hi⟩ := List.mem_iff_getElem?.mp hb
      obtain ⟨-, -, -, hKept, -⟩ := hOld i b hi
      exact hKept
    · intro i b hb hConnected hAt
      obtain ⟨a, ha, hSame, -, -⟩ := hOld i b hb
      obtain ⟨hNe, rfl⟩ := hSame hConnected
      have hListed := h.listed i b ha hConnected hAt
      refine List.mem_filter.mpr ⟨hListed, ?_⟩
      -- another connection has another name
      rw [decide_eq_true_eq]
      intro hName
      have hMem : (s.connID c, i) ∈ s.mTcpConnections := hName ▸ hListed
      exact hNe (same_of_name hSetup h hc hState hMem).symm
    · intro name i hMem
      obtain ⟨hMem, hName⟩ := List.mem_filter.mp hMem
      obtain ⟨a, ha, hConnected, hEq⟩ := h.found name i hMem
      have hNe : conn ≠ i := by
        rintro rfl
        obtain rfl : c = a := Option.some.inj (hc.symm.trans ha)
        exact absurd hEq (by simpa using hName)
      exact ⟨a, (setConn_ne hNe).trans ha, hConnected, hEq⟩

/-- A change of one connection that leaves what has been read and whether it is connected. -/
theorem Served.setConn (h : s.Served) (hf : ∀ c, (f c).connfd = c.connfd ∧ (f c).peer = c.peer ∧
    (f c).state = c.state ∧ (f c).calls = c.calls ∧ (f c).reads = c.reads) {acceptor : AcceptPoint}
    (hAt : ∀ i, s.acceptor ≠ .insert i) :
    Served { s.setConn conn f with acceptor := acceptor } := by
  have hOld : ∀ (i : Nat) b, (s.setConn conn f).connections[i]? = some b → ∃ a,
      s.connections[i]? = some a ∧ b.state = a.state ∧ s.connID b = s.connID a ∧
        b.calls = a.calls ∧ b.reads = a.reads := by
    intro i b hb
    obtain ⟨a, ha, rfl⟩ := getElem?_setConn hb
    refine ⟨a, ha, ?_⟩
    split
    · obtain ⟨hFd, hPeer, hState, hCalls, hReads⟩ := hf a
      exact ⟨hState, by rw [connID, connID, hFd, hPeer], hCalls, hReads⟩
    · exact ⟨rfl, rfl, rfl, rfl⟩
  refine ⟨?_, ?_, ?_, ?_⟩
  · intro b hb
    obtain ⟨i, hi⟩ := List.mem_iff_getElem?.mp hb
    obtain ⟨a, ha, -, -, hCalls, hReads⟩ := hOld i b hi
    rw [hCalls, hReads]
    exact h.handed a (List.mem_of_getElem? ha)
  · intro b hb
    obtain ⟨i, hi⟩ := List.mem_iff_getElem?.mp hb
    obtain ⟨a, ha, hState, -⟩ := hOld i b hi
    rw [hState]
    exact h.kept a (List.mem_of_getElem? ha)
  · intro i b hb hConnected _
    obtain ⟨a, ha, hState, hName, -⟩ := hOld i b hb
    change (s.connID b, i) ∈ s.mTcpConnections
    rw [hName]
    exact h.listed i a ha (hState ▸ hConnected) (hAt i)
  · intro name i hMem
    obtain ⟨a, ha, hConnected, hName⟩ := h.found name i hMem
    by_cases hi : conn = i
    · subst hi
      obtain ⟨hFd, hPeer, hState, -, -⟩ := hf a
      refine ⟨f a, setConn_self ha, hState.trans hConnected, hName.trans ?_⟩
      change s.connID a = s.connID (f a)
      rw [connID, connID, hFd, hPeer]
    · exact ⟨a, (setConn_ne hi).trans ha, hConnected, hName⟩

/-- **The acceptor** misses nothing. -/
theorem Served.newConnectionFunc (h : s.Served) (hSetup : s.Setup) :
    s.newConnectionFunc.Served := by
  unfold AcceptServer.newConnectionFunc
  rcases hAt : s.acceptor with _ | ⟨connfd, peer⟩ | conn | conn | conn
  case idle => exact h
  case construct =>
    dsimp only
    split
    · exact ⟨h.handed, h.kept, fun i c hc hState _ => h.listed i c hc hState (by simp [hAt]),
        h.found⟩
    · refine ⟨?_, ?_, ?_, ?_⟩
      · intro c hc
        rcases List.mem_append.mp hc with hc | hc
        · exact h.handed c hc
        · rw [List.mem_singleton.mp hc]
      · intro c hc
        rcases List.mem_append.mp hc with hc | hc
        · exact h.kept c hc
        · rw [List.mem_singleton.mp hc]
          simp
      · intro i c hc hState hInsert
        rcases getElem?_snoc hc with hc | ⟨rfl, -⟩
        · exact h.listed i c hc hState (by simp [hAt])
        · exact absurd rfl hInsert
      · intro name i hMem
        obtain ⟨c, hc, hConnected, hName⟩ := h.found name i hMem
        have hLt : i < s.connections.length := (List.getElem?_eq_some_iff.mp hc).1
        exact ⟨c, (List.getElem?_append_left hLt).trans hc, hConnected, hName⟩
  case insert =>
    dsimp only
    split
    · exact h
    · rename_i c hc
      obtain ⟨-, hNone, hUnset⟩ := hSetup.pending conn hAt
      have hConnected : c.state = .connected := by
        have hKept := h.kept c (List.mem_of_getElem? hc)
        have hLeft := (hUnset c hc).2
        rcases hState : c.state with _ | _ | _
        · rfl
        · exact absurd hState hKept
        · exact absurd hState hLeft
      -- its name is new
      have hNew : s.mTcpConnections.any (·.1 = s.connID c) = false := by
        rw [List.any_eq_false]
        rintro ⟨name, j⟩ hMem hName
        obtain rfl : name = s.connID c := by simpa using hName
        obtain rfl := same_of_name hSetup h hc hConnected hMem
        exact hNone _ hMem
      rw [hNew, if_neg (by simp)]
      refine ⟨h.handed, h.kept, ?_, ?_⟩
      · intro i b hb hState _
        by_cases hi : conn = i
        · subst hi
          obtain rfl : c = b := Option.some.inj (hc.symm.trans hb)
          exact List.mem_append_right _ List.mem_cons_self
        · exact List.mem_append_left _ (h.listed i b hb hState (by simpa [hAt] using hi))
      · intro name i hMem
        rcases List.mem_append.mp hMem with hMem | hMem
        · exact h.found name i hMem
        · obtain ⟨rfl, rfl⟩ := Prod.mk.inj (List.mem_singleton.mp hMem)
          exact ⟨c, hc, hConnected, rfl⟩
  case setMessageFunc =>
    exact h.setConn (f := ({ · with mMessageFunc := true }))
      (fun c => ⟨rfl, rfl, rfl, rfl, rfl⟩) (by simp [hAt])
  case setCloseFunc =>
    exact h.setConn (f := ({ · with mCloseFunc := true }))
      (fun c => ⟨rfl, rfl, rfl, rfl, rfl⟩) (by simp [hAt])

theorem Served.connFunc (h : s.Served) (hIdle : s.acceptor = .idle) :
    (s.connFunc connfd peer).Served := by
  unfold AcceptServer.connFunc
  dsimp only
  split
  · split
    · exact ⟨h.handed, h.kept, fun i c hc hState _ => h.listed i c hc hState (by simp [hIdle]),
        h.found⟩
    · exact ⟨h.handed, h.kept, h.listed, h.found⟩
  · exact ⟨h.handed, h.kept, h.listed, h.found⟩

/-- **One event** misses nothing if and only if it comes after the callback has been set. -/
theorem served_step_iff (hSetup : s.Setup) (h : s.Served) (e : AcceptEvent) :
    (s.step e).Served ↔ s.AfterSetup e := by
  rcases e with ⟨connfd, peer⟩ | _ | conn | conn | conn | ⟨i, thd⟩
  · rw [AcceptServer.step]
    split
    · rename_i hFree
      exact iff_of_true (h.connFunc hFree.1) trivial
    · exact iff_of_true h trivial
  · exact iff_of_true (h.newConnectionFunc hSetup) trivial
  · rw [AcceptServer.step, AfterSetup]
    rcases hc : s.connections[conn]? with _ | c
    · exact iff_of_true h (by simp)
    · dsimp only
      by_cases hState : c.state = .connected
      · rw [if_pos hState, served_read_iff h hc]
        simp [hState]
      · rw [if_neg hState]
        exact iff_of_true h (by simp [hState])
  · rw [AcceptServer.step, AfterSetup]
    rcases hc : s.connections[conn]? with _ | c
    · exact iff_of_true h (by simp)
    · dsimp only
      by_cases hState : c.state = .connected
      · rw [if_pos hState, served_close_iff hSetup h hc hState]
        simp [hState]
      · rw [if_neg hState]
        exact iff_of_true h (by simp [hState])
  · rw [AcceptServer.step, AfterSetup]
    rcases hc : s.connections[conn]? with _ | c
    · exact iff_of_true h (by simp)
    · dsimp only
      by_cases hListed : s.isListed conn = true
      · have hState : c.state = .connected := by
          obtain ⟨⟨name, i⟩, hMem, hi⟩ := List.any_eq_true.mp hListed
          obtain rfl : i = conn := by simpa using hi
          obtain ⟨a, ha, hConnected, -⟩ := h.found name i hMem
          obtain rfl : c = a := Option.some.inj (hc.symm.trans ha)
          exact hConnected
        rw [if_pos ⟨hListed, by simp [hState]⟩, served_close_iff hSetup h hc hState]
        simp [hListed]
      · rw [if_neg fun hBoth => hListed hBoth.1]
        exact iff_of_true h (by simp [hListed])
  · exact iff_of_true ⟨h.handed, h.kept, h.listed, h.found⟩ trivial

/-- **Nothing is missed** in a run, and `mTcpConnections` has the connected connections, if and
only if no loop and no other thread comes to a connection before its callback is set. -/
theorem served_iff (mServName : Bytes) (mConnBlacklist : List Bytes) (num hardwareNum : Nat)
    (es : List AcceptEvent) :
    Always AcceptServer.step Served (start mServName mConnBlacklist num hardwareNum) es ↔
      Each AcceptServer.step AfterSetup (start mServName mConnBlacklist num hardwareNum) es := by
  refine always_iff_each (fun s _ => s.Setup) (fun s e es hSetup _ _ => hSetup.step e)
    (fun s e es hSetup h => served_step_iff hSetup h e) ?_ ?_
  · exact ⟨fun c hc => absurd hc List.not_mem_nil, fun c hc => absurd hc List.not_mem_nil,
      fun i c hc => by simp [start] at hc, fun name i hMem => absurd hMem List.not_mem_nil⟩
  · exact ⟨fun i j c c' hc => by simp [start] at hc, fun fd peer hAt => by simp [start] at hAt,
      fun name i hMem => absurd hMem List.not_mem_nil, fun i hAt => by simp [start] at hAt⟩

/-- A client that is gone before the close function is set stays in the map. -/
example :
    let s := final AcceptServer.step (start (literal "GameServ") [] 1 1)
      [.setThread 0 (some ⟨true⟩), .accept 7 ⟨literal "10.0.0.1", literal "10.0.0.1:40000"⟩,
        .acceptor, .hangup 0, .acceptor, .acceptor, .acceptor]
    s.connections.map AcceptedConn.state = [.closed] ∧
      s.mTcpConnections = [(literal "GameServ_fd7_10.0.0.1:40000", 0)] := by
  decide +kernel

end

end AcceptServer

end WarringServer.Server
