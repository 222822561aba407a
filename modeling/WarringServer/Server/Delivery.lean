import WarringServer.DBServer.Gateman
import WarringServer.Lib.ConsumerGroup
import WarringServer.Server.Dispatch

/-!
# Answers on their way to the clients

The database server pushes its answers onto the stream that the request names. A thread of the
server that has asked pulls them, looks up the connection under CLIENT_ID, and puts
MESSAGE into its output buffer. If there is no such connection the answer is lost. The login
servers share one stream, one group and one consumer name; a game server and a gateway have
a stream each. Meanwhile the acceptor of each server constructs connections, enters them and
gives them their close function, one statement after the other.

The three functions differ in what they do behind that: the login server acknowledges what it
has put and deletes what it has lost; the game server does neither; the loop of the gateway is
commented out, so it handles one entry and returns.

* `run_cases` — what a statement of a consumer does to the entry in its hand;
* `Handled` — no entry has two fates, and each server handles its entries in order;
* `pending_iff` — which entries stay pending: with the login server those that are lost, with
  the others all of them.
-/

namespace WarringServer.Server

open ConsumerGroup DBServer Message Run

-- ---------------------------------------------------------------------------
-- The consumers
-- ---------------------------------------------------------------------------

/-- `closed` is a socket closed by the connection itself; after `removed` the server has let the
connection go. -/
inductive ConnectionState where
  | connected
  | closed
  | removed
  deriving DecidableEq, Repr

/-- A connection, with what `putToBuffer` has appended to its output. -/
structure ClientConnection where
  name : Bytes
  state : ConnectionState
  /-- `setCloseFunc` has been called. -/
  mCloseFunc : Bool
  buffer : List Bytes
  deriving DecidableEq, Repr

/-- The statement of `newConnectionFunc` that is next; the construction has been made. -/
inductive SetupPoint where
  /-- The acceptor polls. -/
  | idle
  /-- `mTcpConnections.insert` -/
  | insert (conn : Nat)
  | setCloseFunc (conn : Nat)
  deriving DecidableEq, Repr

/-- Where a consumer stands: before the statement of that name. -/
inductive ConsumerPc where
  | pull
  | fill2This (id : Nat) (entry : StreamEntry)
  | getConnPtrRef (id : Nat) (carrier : Carrier)
  | putToBuffer (id : Nat) (carrier : Carrier) (conn : Nat)
  | ack (id : Nat)
  | del (id : Nat)
  | returned
  /-- `FILL_2_THIS` has thrown, and the task has ended. -/
  | thrown (id : Nat)
  deriving DecidableEq, Repr

/-- What the three functions differ in. -/
structure ConsumerFunc where
  fill2This : StreamEntry → Except Fault Carrier
  consumer : Bytes
  /-- The body is that of a `while (true)`. -/
  loops : Bool
  /-- The entry is acknowledged if its message has been put, and deleted if it is lost. -/
  settles : Bool

def loginStreamConsumerFunc : ConsumerFunc :=
  ⟨Gateman.login.fill2This, literal "LoginStreamConsumer", true, true⟩

def gameStreamConsumerFunc : ConsumerFunc :=
  ⟨Gateman.game.fill2This, literal "GameStreamConsumer", true, false⟩

/-- `FILL_2_THIS` of `GatewayMessage` is that of `LoginMessage`. -/
def gatewayStreamConsumerFunc : ConsumerFunc :=
  ⟨Gateman.login.fill2This, literal "GatewayStreamConsumer", false, false⟩

def ConsumerFunc.next (f : ConsumerFunc) : ConsumerPc := if f.loops then .pull else .returned

/-- A server: its connections, in the order in which they were accepted, the table of the
names, the thread of the acceptor, and that of the consumer. -/
structure StreamServer where
  connections : List ClientConnection
  mTcpConnections : Bytes → Option Nat
  acceptor : SetupPoint
  pc : ConsumerPc

/-- What has become of an entry: its message was put into the buffer of a connection, or the
connection has been lost. -/
structure Fate where
  id : Nat
  carrier : Carrier
  server : Nat
  conn : Option Nat
  deriving DecidableEq, Repr

namespace StreamServer

def new : StreamServer := ⟨[], fun _ => none, .idle, .pull⟩

/-- A connection is accepted, and constructed. The name tells the descriptor, and the kernel gives
out none that is open, so the name is that of no connected socket. -/
def construct (s : StreamServer) (name : Bytes) : StreamServer :=
  if s.acceptor = .idle ∧ ∀ c ∈ s.connections, c.state = .connected → c.name ≠ name then
    { s with
      connections := s.connections ++ [⟨name, .connected, false, []⟩]
      acceptor := .insert s.connections.length }
  else s

/-- The statements of `newConnectionFunc` behind the construction. What `insert` finds under the
name stays there. -/
def newConnectionFunc (s : StreamServer) : StreamServer :=
  match s.acceptor with
  | .idle => s
  | .insert conn =>
    match s.connections[conn]? with
    | none => s
    | some c =>
      { s with
        acceptor := .setCloseFunc conn
        mTcpConnections :=
          if (s.mTcpConnections c.name).isSome then s.mTcpConnections
          else Function.update s.mTcpConnections c.name (some conn) }
  | .setCloseFunc conn =>
    { s with
      acceptor := .idle
      connections := s.connections.modify conn ({ · with mCloseFunc := true }) }

/-- `TcpConnection::closeFunc` and `activeClose`, at the end of a connection or through a pointer
to it: `TcpServer::removeConnection` erases the name. Without a close function the connection
closes its socket itself, and stays in the map. -/
def closeFunc (s : StreamServer) (conn : Nat) : StreamServer :=
  match s.connections[conn]? with
  | none => s
  | some c =>
    if c.state = .removed then s
    else if c.mCloseFunc then
      { s with
        connections := s.connections.modify conn ({ · with state := .removed })
        mTcpConnections := Function.update s.mTcpConnections c.name none }
    else { s with connections := s.connections.modify conn ({ · with state := .closed }) }

/-- `putToBuffer`, on a pointer that the thread holds. -/
def putToBuffer (s : StreamServer) (conn : Nat) (message : Bytes) : StreamServer :=
  { s with
    connections := s.connections.modify conn fun c => { c with buffer := c.buffer ++ [message] } }

/-- The next statement of the consumer: the server and the stream behind it, and what has become
of the entry with it. -/
def run (f : ConsumerFunc) (now : Nat) (s : StreamServer) (g : Group StreamEntry Bytes) :
    StreamServer × Group StreamEntry Bytes × Option (Nat × Carrier × Option Nat) :=
  match s.pc with
  | .pull =>
    match (g.read f.consumer now).2 with
    | none => ({ s with pc := f.next }, (g.read f.consumer now).1, none)
    | some (id, entry) => ({ s with pc := .fill2This id entry }, (g.read f.consumer now).1, none)
  | .fill2This id entry =>
    match f.fill2This entry with
    | .error _ => ({ s with pc := .thrown id }, g, none)
    | .ok carrier => ({ s with pc := .getConnPtrRef id carrier }, g, none)
  | .getConnPtrRef id carrier =>
    match s.mTcpConnections carrier.clientId with
    | some conn => ({ s with pc := .putToBuffer id carrier conn }, g, none)
    | none =>
      ({ s with pc := if f.settles then .del id else f.next }, g, some (id, carrier, none))
  | .putToBuffer id carrier conn =>
    ({ s.putToBuffer conn carrier.message with pc := if f.settles then .ack id else f.next }, g,
      some (id, carrier, some conn))
  | .ack id => ({ s with pc := f.next }, (g.ack id).1, none)
  | .del id => ({ s with pc := f.next }, g.delete id, none)
  | .returned | .thrown _ => (s, g, none)

end StreamServer

-- ---------------------------------------------------------------------------
-- The system
-- ---------------------------------------------------------------------------

/-- The servers that read one stream. -/
structure Delivery where
  now : Nat
  group : Group StreamEntry Bytes
  servers : List StreamServer
  /-- The entries that have been pushed, in order; their ids count from 1. -/
  added : List StreamEntry
  fates : List Fate

inductive DeliveryEvent where
  | tick (milliseconds : Nat)
  /-- An answer is pushed onto the stream. -/
  | add (entry : StreamEntry)
  /-- What an XADD with MAXLEN deletes. -/
  | trim (n : Nat)
  | accept (server : Nat) (name : Bytes)
  /-- The next statement of the acceptor of a server. -/
  | setup (server : Nat)
  | close (server conn : Nat)
  /-- The next statement of the consumer of a server. -/
  | consume (server : Nat)
  deriving DecidableEq, Repr

namespace Delivery

/-- The group has been created, and `n` servers have been started. -/
def start (n : Nat) : Delivery := ⟨0, .empty, List.replicate n .new, [], []⟩

/-- Something happens at a server that is no statement of its consumer. -/
def atServer (s : Delivery) (i : Nat) (change : StreamServer → StreamServer) : Delivery :=
  match s.servers[i]? with
  | none => s
  | some server => { s with servers := s.servers.set i (change server) }

def step (f : ConsumerFunc) (s : Delivery) : DeliveryEvent → Delivery
  | .tick milliseconds => { s with now := s.now + milliseconds }
  | .add entry => { s with group := s.group.add entry, added := s.added ++ [entry] }
  | .trim n => { s with group := s.group.trim n }
  | .accept i name => s.atServer i (·.construct name)
  | .setup i => s.atServer i (·.newConnectionFunc)
  | .close i conn => s.atServer i (·.closeFunc conn)
  | .consume i =>
    match s.servers[i]? with
    | none => s
    | some server =>
      let r := server.run f s.now s.group
      { s with
        servers := s.servers.set i r.1
        group := r.2.1
        fates := s.fates ++ r.2.2.toList.map fun (id, carrier, conn) => ⟨id, carrier, i, conn⟩ }

end Delivery

-- ---------------------------------------------------------------------------
-- What is to hold
-- ---------------------------------------------------------------------------

/-- The entry that has been pulled, and whose fate is not decided. -/
def ConsumerPc.inHand : ConsumerPc → Option Nat
  | .fill2This id _ | .getConnPtrRef id _ | .putToBuffer id _ _ | .thrown id => some id
  | .pull | .ack _ | .del _ | .returned => none

/-- The entry that has been pulled, and not been acknowledged or given up for lost. -/
def ConsumerPc.unsettled : ConsumerPc → Option Nat
  | .fill2This id _ | .getConnPtrRef id _ | .putToBuffer id _ _ | .thrown id | .ack id => some id
  | .pull | .del _ | .returned => none

namespace Delivery

/-- What the consumers have in hand, server by server. -/
def hands (s : Delivery) : List (Option Nat) := s.servers.map fun server => server.pc.inHand

/-- What they have not settled yet. -/
def unsettled (s : Delivery) : List (Option Nat) := s.servers.map fun server => server.pc.unsettled

/-- Which entries are pending: those in the hands of a consumer, and of the others those that it
does not settle. -/
def PendingExactly (f : ConsumerFunc) (s : Delivery) : Prop :=
  ∀ id, id ∈ s.group.ids ↔
    some id ∈ s.unsettled ∨ ∃ r ∈ s.fates, r.id = id ∧ (f.settles = true → r.conn = none)

end Delivery

-- ---------------------------------------------------------------------------
-- One statement of a consumer
-- ---------------------------------------------------------------------------

namespace StreamServer

/-- The entry is in the same hands as before, and pending if it was. -/
structure Quiet (s s' : StreamServer) (g g' : Group StreamEntry Bytes) : Prop where
  inHand : s'.pc.inHand = s.pc.inHand
  unsettled : s'.pc.unsettled = s.pc.unsettled
  ack : ∀ id, s'.pc ≠ .ack id
  pending : g'.pending = g.pending
  lastDelivered : g'.lastDelivered = g.lastDelivered

/-- The fate of the entry in hand is decided. -/
structure Decides (f : ConsumerFunc) (s s' : StreamServer) (id : Nat) (conn : Option Nat) :
    Prop where
  before : s.pc.inHand = some id
  pending : s.pc.unsettled = some id
  after : s'.pc.inHand = none
  put : f.settles = true → conn ≠ none → s'.pc = .ack id
  unsettled : (f.settles = true → conn = none) → s'.pc.unsettled = none
  ack : ∀ id', s'.pc = .ack id' → f.settles = true ∧ conn ≠ none ∧ id' = id

variable {f : ConsumerFunc} {now : Nat} {s : StreamServer} {g : Group StreamEntry Bytes}

theorem next_inHand : f.next.inHand = none := by
  unfold ConsumerFunc.next
  split <;> rfl

theorem next_unsettled : f.next.unsettled = none := by
  unfold ConsumerFunc.next
  split <;> rfl

theorem next_ne_ack {id : Nat} : f.next ≠ .ack id := by
  unfold ConsumerFunc.next
  split
  · exact ConsumerPc.noConfusion
  · exact ConsumerPc.noConfusion

/-- **What a statement does** to the entry in hand: it pulls one, or decides its fate, or
acknowledges one, or leaves everything as it is. -/
theorem run_cases (f : ConsumerFunc) (now : Nat) (s : StreamServer)
    (g : Group StreamEntry Bytes) :
    let r := s.run f now g
    (Quiet s r.1 g r.2.1 ∧ r.2.2 = none) ∨
      (∃ id entry, s.pc = .pull ∧ (g.read f.consumer now).2 = some (id, entry) ∧
        r = ({ s with pc := .fill2This id entry }, (g.read f.consumer now).1, none)) ∨
      (∃ id carrier conn, Decides f s r.1 id conn ∧ r.2.1 = g ∧
        r.2.2 = some (id, carrier, conn)) ∨
      (∃ id, s.pc = .ack id ∧ r = ({ s with pc := f.next }, (g.ack id).1, none)) := by
  obtain ⟨connections, table, acceptor, pc⟩ := s
  rcases pc with _ | ⟨id, entry⟩ | ⟨id, carrier⟩ | ⟨id, carrier, conn⟩ | id | id | _ | id
  case pull =>
    rcases hRead : (g.read f.consumer now).2 with _ | ⟨id, entry⟩
    · obtain ⟨hLast, hPending⟩ := Group.read_none hRead
      dsimp only [run]
      rw [hRead]
      exact Or.inl ⟨⟨next_inHand, next_unsettled, fun _ => next_ne_ack, hPending, hLast⟩, rfl⟩
    · dsimp only [run]
      rw [hRead]
      exact Or.inr (Or.inl ⟨id, entry, rfl, rfl, rfl⟩)
  case fill2This =>
    left
    rcases hFill : f.fill2This entry with fault | carrier
    · dsimp only [run]
      rw [hFill]
      exact ⟨⟨rfl, rfl, fun _ => ConsumerPc.noConfusion, rfl, rfl⟩, rfl⟩
    · dsimp only [run]
      rw [hFill]
      exact ⟨⟨rfl, rfl, fun _ => ConsumerPc.noConfusion, rfl, rfl⟩, rfl⟩
  case getConnPtrRef =>
    rcases hFound : table carrier.clientId with _ | conn
    · dsimp only [run]
      rw [hFound]
      dsimp only
      refine Or.inr (Or.inr (Or.inl ⟨id, carrier, none, ⟨rfl, rfl, ?_, ?_, ?_, ?_⟩, rfl, rfl⟩))
      · split
        · rfl
        · exact next_inHand
      · exact fun _ hNe => absurd rfl hNe
      · intro _
        split
        · rfl
        · exact next_unsettled
      · intro id' hAck
        split at hAck
        · cases hAck
        · exact absurd hAck next_ne_ack
    · dsimp only [run]
      rw [hFound]
      exact Or.inl ⟨⟨rfl, rfl, fun _ => ConsumerPc.noConfusion, rfl, rfl⟩, rfl⟩
  case putToBuffer =>
    dsimp only [run]
    refine Or.inr (Or.inr (Or.inl ⟨id, carrier, some conn, ⟨rfl, rfl, ?_, ?_, ?_, ?_⟩, rfl, rfl⟩))
    · split
      · rfl
      · exact next_inHand
    · exact fun hSettles _ => if_pos hSettles
    · intro hNone
      rw [if_neg (fun hSettles => Option.some_ne_none conn (hNone hSettles))]
      exact next_unsettled
    · intro id' hAck
      split at hAck
      · rename_i hSettles
        cases hAck
        exact ⟨hSettles, Option.some_ne_none conn, rfl⟩
      · exact absurd hAck next_ne_ack
  case ack => exact Or.inr (Or.inr (Or.inr ⟨id, rfl, rfl⟩))
  case del =>
    exact Or.inl ⟨⟨next_inHand, next_unsettled, fun _ => next_ne_ack, rfl, rfl⟩, rfl⟩
  all_goals exact Or.inl ⟨⟨rfl, rfl, fun _ => ConsumerPc.noConfusion, rfl, rfl⟩, rfl⟩

end StreamServer

-- ---------------------------------------------------------------------------
-- One fate for an entry
-- ---------------------------------------------------------------------------

theorem getElem?_set_cases {α : Type*} {l : List α} {i j : Nat} {a b : α}
    (h : (l.set i a)[j]? = some b) : j = i ∧ b = a ∨ j ≠ i ∧ l[j]? = some b := by
  rw [List.getElem?_set] at h
  split at h
  · rename_i hEq
    split at h
    · exact Or.inl ⟨hEq.symm, (Option.some.inj h).symm⟩
    · cases h
  · rename_i hNe
    exact Or.inr ⟨fun hEq => hNe hEq.symm, h⟩

theorem map_set_of_eq {α β : Type*} {F : α → β} {l : List α} {i : Nat} {a b : α}
    (h : l[i]? = some a) (hF : F b = F a) : (l.set i b).map F = l.map F := by
  obtain ⟨hi, rfl⟩ := List.getElem?_eq_some_iff.mp h
  rw [List.map_set, hF, ← List.getElem_map F (h := by simpa using hi), List.set_getElem_self]

namespace Delivery

variable {f : ConsumerFunc} {s s' : Delivery} {i : Nat} {server : StreamServer}

/-- No entry is in two hands, and none that is in hand has a fate already. -/
structure Once (s : Delivery) : Prop where
  nodup : (s.fates.map Fate.id).Nodup
  handed : ∀ r ∈ s.fates, some r.id ∉ s.hands
  apart : ∀ (i j id : Nat), s.hands[i]? = some (some id) → s.hands[j]? = some (some id) → i = j
  fates_le : ∀ r ∈ s.fates, r.id ≤ s.group.lastDelivered
  handed_le : ∀ id, some id ∈ s.hands → id ≤ s.group.lastDelivered

/-- A server handles the entries in the order of the stream. -/
structure Ordered (s : Delivery) : Prop where
  fates : s.fates.Pairwise fun r r' => r.server = r'.server → r.id < r'.id
  handed : ∀ r ∈ s.fates, ∀ id, s.hands[r.server]? = some (some id) → r.id < id

/-- An entry that is about to be acknowledged has been put, by that server. -/
def Acking (f : ConsumerFunc) (s : Delivery) : Prop :=
  ∀ (i : Nat) (server : StreamServer) (id : Nat), s.servers[i]? = some server →
    server.pc = .ack id →
      f.settles = true ∧ ∃ r ∈ s.fates, r.id = id ∧ r.server = i ∧ r.conn ≠ none

structure Handled (f : ConsumerFunc) (s : Delivery) : Prop where
  once : s.Once
  ordered : s.Ordered
  acking : s.Acking f
  pending : s.PendingExactly f

/-- An event that leaves every entry where it is. -/
theorem Handled.frame (h : s.Handled f) (hHands : s'.hands = s.hands)
    (hUnsettled : s'.unsettled = s.unsettled) (hFates : s'.fates = s.fates)
    (hAck : ∀ (i : Nat) (server : StreamServer) (id : Nat), s'.servers[i]? = some server →
      server.pc = .ack id → ∃ server', s.servers[i]? = some server' ∧ server'.pc = .ack id)
    (hPending : s'.group.pending = s.group.pending)
    (hLast : s'.group.lastDelivered = s.group.lastDelivered) : s'.Handled f := by
  obtain ⟨⟨hNodup, hHanded, hApart, hFatesLe, hHandedLe⟩, ⟨hSorted, hLater⟩, hAcking, hExactly⟩ := h
  have hIds : s'.group.ids = s.group.ids := by rw [Group.ids, hPending, Group.ids]
  refine ⟨⟨?_, ?_, ?_, ?_, ?_⟩, ⟨?_, ?_⟩, ?_, ?_⟩
  · rw [hFates]
    exact hNodup
  · rw [hFates, hHands]
    exact hHanded
  · rw [hHands]
    exact hApart
  · rw [hFates, hLast]
    exact hFatesLe
  · rw [hHands, hLast]
    exact hHandedLe
  · rw [hFates]
    exact hSorted
  · rw [hFates, hHands]
    exact hLater
  · intro i server id hServer hPc
    obtain ⟨server', hServer', hPc'⟩ := hAck i server id hServer hPc
    rw [hFates]
    exact hAcking i server' id hServer' hPc'
  · rw [PendingExactly, hIds, hUnsettled, hFates]
    exact hExactly

/-- The other consumers stay where they are. -/
theorem ack_of_set {server' : StreamServer} (hAck : ∀ id, server'.pc ≠ .ack id) :
    ∀ j x id, (s.servers.set i server')[j]? = some x → x.pc = .ack id →
      j ≠ i ∧ s.servers[j]? = some x := by
  intro j x id hj hPc
  rcases getElem?_set_cases hj with ⟨-, rfl⟩ | hOther
  · exact absurd hPc (hAck id)
  · exact hOther

theorem Handled.quiet (h : s.Handled f) (hServer : s.servers[i]? = some server)
    {server' : StreamServer} {g : Group StreamEntry Bytes}
    (hQuiet : server.Quiet server' s.group g) :
    Handled f { s with servers := s.servers.set i server', group := g } :=
  h.frame (map_set_of_eq hServer hQuiet.inHand) (map_set_of_eq hServer hQuiet.unsettled) rfl
    (fun j x id hj hPc => ⟨x, (ack_of_set hQuiet.ack j x id hj hPc).2, hPc⟩) hQuiet.pending
    hQuiet.lastDelivered

theorem hands_getElem? (hServer : s.servers[i]? = some server) :
    s.hands[i]? = some server.pc.inHand := by
  rw [hands, List.getElem?_map, hServer]
  rfl

theorem hands_set {server' : StreamServer} {g : Group StreamEntry Bytes} {fates : List Fate} :
    hands { s with servers := s.servers.set i server', group := g, fates := fates } =
      s.hands.set i server'.pc.inHand := List.map_set

theorem unsettled_set {server' : StreamServer} {g : Group StreamEntry Bytes}
    {fates : List Fate} :
    unsettled { s with servers := s.servers.set i server', group := g, fates := fates } =
      s.unsettled.set i server'.pc.unsettled := List.map_set

/-- Whether another place has an entry, before and behind the move of one consumer. -/
theorem some_mem_set_iff {l : List (Option Nat)} {a b : Option Nat} (h : l[i]? = some a) (id : Nat)
    (hNot : a ≠ some id) : some id ∈ l.set i b ↔ some id ∈ l ∨ b = some id := by
  constructor
  · intro hMem
    obtain ⟨j, hj⟩ := List.mem_iff_getElem?.mp hMem
    rcases getElem?_set_cases hj with ⟨-, hb⟩ | ⟨-, hj⟩
    · exact Or.inr hb.symm
    · exact Or.inl (List.mem_of_getElem? hj)
  · rintro (hMem | rfl)
    · obtain ⟨j, hj⟩ := List.mem_iff_getElem?.mp hMem
      have hNe : i ≠ j := by
        rintro rfl
        exact hNot (Option.some.inj (h.symm.trans hj))
      refine List.mem_of_getElem? (i := j) ?_
      rw [List.getElem?_set_ne hNe]
      exact hj
    · obtain ⟨hLt, -⟩ := List.getElem?_eq_some_iff.mp h
      exact List.mem_set hLt _

/-- A pull: the entry is new. -/
theorem Handled.pull (h : s.Handled f) (hServer : s.servers[i]? = some server)
    (hPc : server.pc = .pull) {consumer : Bytes} {id : Nat} {entry : StreamEntry}
    (hRead : (s.group.read consumer s.now).2 = some (id, entry)) :
    Handled f { s with
      servers := s.servers.set i { server with pc := .fill2This id entry }
      group := (s.group.read consumer s.now).1 } := by
  obtain ⟨⟨hNodup, hHanded, hApart, hFatesLe, hHandedLe⟩, ⟨hSorted, hLater⟩, hAcking, hExactly⟩ := h
  obtain ⟨hNew, hLast, hPending⟩ := Group.read_spec hRead
  have hHand : s.hands[i]? = some none := by rw [hands_getElem? hServer, hPc]; rfl
  have hUnsettled : s.unsettled[i]? = some none := by
    rw [unsettled, List.getElem?_map, hServer, Option.map_some, hPc]
    rfl
  have hIds : (s.group.read consumer s.now).1.ids = s.group.ids ++ [id] := by
    rw [Group.ids, hPending, List.map_append]
    rfl
  refine ⟨⟨hNodup, ?_, ?_, ?_, ?_⟩, ⟨hSorted, ?_⟩, ?_, ?_⟩
  · intro r hr hMem
    rw [hands_set] at hMem
    rcases (some_mem_set_iff hHand r.id (by simp)).mp hMem with hOld | hSame
    · exact hHanded r hr hOld
    · have hLe := hFatesLe r hr
      obtain rfl : id = r.id := Option.some.inj hSame
      exact absurd hNew (Nat.not_lt.mpr hLe)
  · intro j k id' hj hk
    rw [hands_set] at hj hk
    rcases getElem?_set_cases hj with ⟨hji, hSame⟩ | ⟨-, hjOld⟩
    · rcases getElem?_set_cases hk with ⟨hki, -⟩ | ⟨-, hkOld⟩
      · exact hji.trans hki.symm
      · have hLe := hHandedLe id' (List.mem_of_getElem? hkOld)
        obtain rfl : id' = id := Option.some.inj hSame
        exact absurd hNew (Nat.not_lt.mpr hLe)
    · rcases getElem?_set_cases hk with ⟨-, hSame⟩ | ⟨-, hkOld⟩
      · have hLe := hHandedLe id' (List.mem_of_getElem? hjOld)
        obtain rfl : id' = id := Option.some.inj hSame
        exact absurd hNew (Nat.not_lt.mpr hLe)
      · exact hApart j k id' hjOld hkOld
  · intro r hr
    rw [hLast]
    exact (hFatesLe r hr).trans hNew.le
  · intro id' hMem
    rw [hLast]
    rw [hands_set] at hMem
    rcases (some_mem_set_iff hHand id' (by simp)).mp hMem with hOld | hSame
    · exact (hHandedLe id' hOld).trans hNew.le
    · exact (Option.some.inj hSame).symm.le
  · intro r hr id' hj
    rw [hands_set] at hj
    rcases getElem?_set_cases hj with ⟨-, hSame⟩ | ⟨-, hj⟩
    · obtain rfl : id' = id := Option.some.inj hSame
      exact (hFatesLe r hr).trans_lt hNew
    · exact hLater r hr id' hj
  · intro j x id' hj hAck
    obtain ⟨-, hj⟩ := ack_of_set (fun _ => ConsumerPc.noConfusion) j x id' hj hAck
    exact hAcking j x id' hj hAck
  · intro id'
    change id' ∈ (s.group.read consumer s.now).1.ids ↔ _
    rw [hIds, List.mem_append, List.mem_singleton, unsettled_set,
      some_mem_set_iff hUnsettled id' (by simp), hExactly id']
    change _ ↔ (_ ∨ some id = some id') ∨ _
    rw [Option.some_inj, or_right_comm, eq_comm (a := id')]

theorem unsettled_getElem? (hServer : s.servers[i]? = some server) :
    s.unsettled[i]? = some server.pc.unsettled := by
  rw [unsettled, List.getElem?_map, hServer]
  rfl

/-- Who is left when one consumer lets its entry go. -/
theorem some_mem_set_none {l : List (Option Nat)} {id id' : Nat}
    (h : l[i]? = some (some id)) :
    some id' ∈ l ↔ some id' ∈ l.set i none ∨ id = id' := by
  constructor
  · intro hMem
    obtain ⟨j, hj⟩ := List.mem_iff_getElem?.mp hMem
    by_cases hSame : j = i
    · subst hSame
      exact Or.inr (Option.some.inj (Option.some.inj (h.symm.trans hj)))
    · refine Or.inl (List.mem_of_getElem? (i := j) ?_)
      rw [List.getElem?_set_ne (fun hEq => hSame hEq.symm)]
      exact hj
  · rintro (hMem | rfl)
    · obtain ⟨j, hj⟩ := List.mem_iff_getElem?.mp hMem
      rcases getElem?_set_cases hj with ⟨-, hNone⟩ | ⟨-, hOld⟩
      · cases hNone
      · exact List.mem_of_getElem? hOld
    · exact List.mem_of_getElem? h

/-- A fate is decided. -/
theorem Handled.decide (h : s.Handled f) (hServer : s.servers[i]? = some server)
    {server' : StreamServer} {id : Nat} {carrier : Carrier} {conn : Option Nat}
    (hDecides : server.Decides f server' id conn) :
    Handled f { s with
      servers := s.servers.set i server'
      fates := s.fates ++ [⟨id, carrier, i, conn⟩] } := by
  obtain ⟨⟨hNodup, hHanded, hApart, hFatesLe, hHandedLe⟩, ⟨hSorted, hLater⟩, hAcking, hExactly⟩ := h
  have hHand : s.hands[i]? = some (some id) := by rw [hands_getElem? hServer, hDecides.before]
  have hWas : s.unsettled[i]? = some (some id) := by
    rw [unsettled_getElem? hServer, hDecides.pending]
  have hSet : hands { s with
      servers := s.servers.set i server'
      fates := s.fates ++ [⟨id, carrier, i, conn⟩] } = s.hands.set i none := by
    rw [← hDecides.after]
    exact hands_set (g := s.group)
  have hMine := List.mem_of_getElem? hHand
  -- whoever has an entry in hand behind the step had it before
  have hOld : ∀ {j id'}, (s.hands.set i none)[j]? = some (some id') →
      j ≠ i ∧ s.hands[j]? = some (some id') := by
    intro j id' hj
    rcases getElem?_set_cases hj with ⟨-, hNone⟩ | hOther
    · cases hNone
    · exact hOther
  refine ⟨⟨?_, ?_, ?_, ?_, ?_⟩, ⟨?_, ?_⟩, ?_, ?_⟩
  · rw [List.map_append, List.nodup_append]
    refine ⟨hNodup, List.nodup_singleton _, ?_⟩
    intro a ha b hb hEq
    obtain ⟨r, hr, rfl⟩ := List.mem_map.mp ha
    obtain rfl : b = id := by simpa using hb
    exact hHanded r hr (hEq ▸ hMine)
  · intro r hr hMem
    rw [hSet] at hMem
    obtain ⟨j, hj⟩ := List.mem_iff_getElem?.mp hMem
    obtain ⟨hNe, hj⟩ := hOld hj
    rcases List.mem_append.mp hr with hr | hr
    · exact hHanded r hr (List.mem_of_getElem? hj)
    · obtain rfl := List.mem_singleton.mp hr
      exact hNe (hApart j i id hj hHand)
  · intro j k id' hj hk
    rw [hSet] at hj hk
    exact hApart j k id' (hOld hj).2 (hOld hk).2
  · intro r hr
    rcases List.mem_append.mp hr with hr | hr
    · exact hFatesLe r hr
    · obtain rfl := List.mem_singleton.mp hr
      exact hHandedLe id hMine
  · intro id' hMem
    rw [hSet] at hMem
    exact hHandedLe id' ((some_mem_set_none hHand).mpr (Or.inl hMem))
  · rw [List.pairwise_append]
    refine ⟨hSorted, List.pairwise_singleton _ _, ?_⟩
    intro r hr r' hr' hSame
    obtain rfl := List.mem_singleton.mp hr'
    exact hLater r hr id (by rw [hSame]; exact hHand)
  · intro r hr id' hj
    rw [hSet] at hj
    obtain ⟨hNe, hj⟩ := hOld hj
    rcases List.mem_append.mp hr with hr | hr
    · exact hLater r hr id' hj
    · exact absurd (by rw [List.mem_singleton.mp hr]) hNe
  · intro j x id' hj hAck
    rcases getElem?_set_cases hj with ⟨rfl, rfl⟩ | ⟨-, hj⟩
    · obtain ⟨hSettles, hPut, rfl⟩ := hDecides.ack id' hAck
      exact ⟨hSettles, _, List.mem_append_right _ (List.mem_singleton_self _), rfl, rfl, hPut⟩
    · obtain ⟨hSettles, r, hr, hRest⟩ := hAcking j x id' hj hAck
      exact ⟨hSettles, r, List.mem_append_left _ hr, hRest⟩
  · intro id'
    change id' ∈ s.group.ids ↔ some id' ∈ List.map _ (s.servers.set i server') ∨ _
    rw [List.map_set]
    change _ ↔ some id' ∈ s.unsettled.set i server'.pc.unsettled ∨ _
    have hFates : (∃ r ∈ s.fates ++ [(⟨id, carrier, i, conn⟩ : Fate)],
        r.id = id' ∧ (f.settles = true → r.conn = none)) ↔
        (∃ r ∈ s.fates, r.id = id' ∧ (f.settles = true → r.conn = none)) ∨
          id = id' ∧ (f.settles = true → conn = none) := by
      simp only [List.mem_append, List.mem_singleton, or_and_right, exists_or, exists_eq_left]
    rw [hFates, hExactly id']
    by_cases hLost : f.settles = true → conn = none
    · rw [hDecides.unsettled hLost, some_mem_set_none hWas, and_iff_left hLost, or_right_comm,
        or_assoc]
    · -- it is to be acknowledged, and pending as before
      rw [Classical.not_imp] at hLost
      have hAck := hDecides.put hLost.1 hLost.2
      rw [hAck, ConsumerPc.unsettled]
      have hSame : s.unsettled.set i (some id) = s.unsettled := by
        obtain ⟨hLt, hEq⟩ := List.getElem?_eq_some_iff.mp hWas
        rw [← hEq, List.set_getElem_self]
      rw [hSame]
      have hNot : ¬(id = id' ∧ (f.settles = true → conn = none)) :=
        fun hBoth => hLost.2 (hBoth.2 hLost.1)
      rw [or_iff_left hNot]

theorem unsettled_cases {pc : ConsumerPc} {id : Nat} (h : pc.unsettled = some id) :
    pc.inHand = some id ∨ pc = .ack id := by
  rcases pc with _ | ⟨id, entry⟩ | ⟨id, carrier⟩ | ⟨id, carrier, conn⟩ | id | id | _ | id
  case ack => exact Or.inr (congrArg _ (Option.some.inj h))
  all_goals exact Or.inl h

/-- An acknowledgement: the entry was pending for this consumer alone. -/
theorem Handled.acknowledge (h : s.Handled f) (hServer : s.servers[i]? = some server) {id : Nat}
    (hPc : server.pc = .ack id) :
    Handled f { s with
      servers := s.servers.set i { server with pc := f.next }
      group := (s.group.ack id).1 } := by
  obtain ⟨hSettles, r, hr, hId, hAt, hPut⟩ := h.acking i server id hServer hPc
  obtain ⟨⟨hNodup, hHanded, hApart, hFatesLe, hHandedLe⟩, ⟨hSorted, hLater⟩, hAcking, hExactly⟩ := h
  have hWas : s.unsettled[i]? = some (some id) := by
    rw [unsettled_getElem? hServer, hPc]
    rfl
  have hHands : hands { s with
      servers := s.servers.set i { server with pc := f.next }
      group := (s.group.ack id).1 } = s.hands :=
    map_set_of_eq hServer (by rw [hPc, StreamServer.next_inHand]; rfl)
  have hOne : ∀ r' ∈ s.fates, r'.id = id → r' = r := fun r' hr' hId' =>
    List.inj_on_of_nodup_map hNodup hr' hr (hId'.trans hId.symm)
  refine ⟨⟨hNodup, ?_, ?_, hFatesLe, ?_⟩, ⟨hSorted, ?_⟩, ?_, ?_⟩
  · rw [hHands]
    exact hHanded
  · rw [hHands]
    exact hApart
  · rw [hHands]
    exact hHandedLe
  · rw [hHands]
    exact hLater
  · intro j x id' hj hAck
    obtain ⟨-, hj⟩ := ack_of_set (fun _ => StreamServer.next_ne_ack) j x id' hj hAck
    exact hAcking j x id' hj hAck
  · intro id'
    change id' ∈ (s.group.ack id).1.ids ↔ some id' ∈ List.map _ (s.servers.set i _) ∨ _
    rw [Group.mem_ids_ack, hExactly id', List.map_set, StreamServer.next_unsettled]
    change (some id' ∈ s.unsettled ∨ _) ∧ _ ↔ some id' ∈ s.unsettled.set i none ∨ _
    by_cases hSame : id' = id
    · subst hSame
      refine ⟨fun hBoth => absurd rfl hBoth.2, ?_⟩
      rintro (hMem | ⟨r', hr', hId', hLost⟩)
      · obtain ⟨j, hj⟩ := List.mem_iff_getElem?.mp hMem
        rcases getElem?_set_cases hj with ⟨-, hNone⟩ | ⟨hNe, hj⟩
        · cases hNone
        · -- another consumer with this entry would have its fate, or be in its hand
          rw [unsettled, List.getElem?_map, Option.map_eq_some_iff] at hj
          obtain ⟨x, hx, hUnsettled⟩ := hj
          rcases unsettled_cases hUnsettled with hIn | hAck
          · exact absurd (List.mem_of_getElem? (by rw [hands_getElem? hx, hIn, hId]))
              (hHanded r hr)
          · obtain ⟨-, r', hr', hId', hAt', -⟩ := hAcking j x id' hx hAck
            rw [hOne r' hr' hId'] at hAt'
            exact absurd (hAt'.symm.trans hAt) hNe
      · exact absurd (hOne r' hr' hId' ▸ hLost hSettles) hPut
    · have hNe : ¬id = id' := fun hEq => hSame hEq.symm
      rw [some_mem_set_none hWas, and_iff_left hSame, or_iff_left hNe]

end Delivery

namespace StreamServer

@[simp] theorem construct_pc (s : StreamServer) (name : Bytes) : (s.construct name).pc = s.pc := by
  unfold construct
  split
  · rfl
  · rfl

@[simp] theorem newConnectionFunc_pc (s : StreamServer) : s.newConnectionFunc.pc = s.pc := by
  unfold newConnectionFunc
  split
  · rfl
  · split
    · rfl
    · rfl
  · rfl

@[simp] theorem closeFunc_pc (s : StreamServer) (conn : Nat) : (s.closeFunc conn).pc = s.pc := by
  unfold closeFunc
  split
  · rfl
  · split
    · rfl
    · split
      · rfl
      · rfl

end StreamServer

namespace Delivery

variable {f : ConsumerFunc} {s s' : Delivery} {i : Nat} {server : StreamServer}

section

variable (s : Delivery) (i : Nat) (change : StreamServer → StreamServer)

@[simp] theorem atServer_group : (s.atServer i change).group = s.group := by
  unfold atServer
  split
  · rfl
  · rfl

@[simp] theorem atServer_added : (s.atServer i change).added = s.added := by
  unfold atServer
  split
  · rfl
  · rfl

@[simp] theorem atServer_fates : (s.atServer i change).fates = s.fates := by
  unfold atServer
  split
  · rfl
  · rfl

end

/-- The one server may have changed, the others have not. -/
theorem getElem?_atServer (s : Delivery) (i : Nat) (change : StreamServer → StreamServer)
    (j : Nat) : (s.atServer i change).servers[j]? =
      s.servers[j]?.map fun server => if i = j then change server else server := by
  unfold atServer
  split
  · rename_i hNone
    by_cases hSame : i = j
    · rw [← hSame, hNone]
      rfl
    · simp [hSame]
  · rename_i server hServer
    obtain ⟨hLt, -⟩ := List.getElem?_eq_some_iff.mp hServer
    by_cases hSame : i = j
    · subst hSame
      rw [List.getElem?_set_self hLt, hServer, Option.map_some, if_pos rfl]
    · rw [List.getElem?_set_ne hSame]
      simp [hSame]

theorem mem_atServer {change : StreamServer → StreamServer} {x : StreamServer}
    (hx : x ∈ (s.atServer i change).servers) :
    x ∈ s.servers ∨ ∃ server ∈ s.servers[i]?, x = change server := by
  obtain ⟨j, hj⟩ := List.mem_iff_getElem?.mp hx
  rw [getElem?_atServer, Option.map_eq_some_iff] at hj
  obtain ⟨server, hServer, rfl⟩ := hj
  split
  · rename_i hSame
    exact Or.inr ⟨server, hSame ▸ hServer, rfl⟩
  · exact Or.inl (List.mem_of_getElem? hServer)

/-- What is read off the places of the consumers stays as it is where theirs do. -/
theorem map_atServer {α : Type*} {change : StreamServer → StreamServer}
    (hPc : ∀ server, (change server).pc = server.pc) (F : ConsumerPc → α) :
    (s.atServer i change).servers.map (fun server => F server.pc) =
      s.servers.map fun server => F server.pc := by
  refine List.ext_getElem? ?_
  intro j
  rw [List.getElem?_map, List.getElem?_map, getElem?_atServer, Option.map_map]
  congr 1
  funext server
  dsimp only [Function.comp_apply]
  split
  · rw [hPc]
  · rfl

/-- A server whose consumer stays where it is. -/
theorem Handled.atServer (h : s.Handled f) (i : Nat) {change : StreamServer → StreamServer}
    (hPc : ∀ server, (change server).pc = server.pc) : (s.atServer i change).Handled f := by
  refine h.frame (map_atServer hPc _) (map_atServer hPc _) (s.atServer_fates i change)
    (fun j x id hj hAck => ?_) (by rw [atServer_group]) (by rw [atServer_group])
  rw [getElem?_atServer, Option.map_eq_some_iff] at hj
  obtain ⟨server, hServer, rfl⟩ := hj
  refine ⟨server, hServer, ?_⟩
  split at hAck
  · rwa [hPc] at hAck
  · exact hAck

theorem Handled.step (h : s.Handled f) (e : DeliveryEvent) : (s.step f e).Handled f := by
  rcases e with milliseconds | entry | n | ⟨i, name⟩ | i | ⟨i, conn⟩ | i
  case tick | add | trim =>
    exact h.frame rfl rfl rfl (fun i x id hx hAck => ⟨x, hx, hAck⟩) rfl rfl
  case accept => exact h.atServer i fun server => server.construct_pc name
  case setup => exact h.atServer i fun server => server.newConnectionFunc_pc
  case close => exact h.atServer i fun server => server.closeFunc_pc conn
  case consume =>
    rw [Delivery.step]
    split
    · exact h
    rename_i server hServer
    dsimp only
    rcases server.run_cases f s.now s.group with ⟨hQuiet, hNone⟩ | ⟨id, entry, hPc, hRead, hRun⟩ |
      ⟨id, carrier, conn, hDecides, hGroup, hFate⟩ | ⟨id, hPc, hRun⟩
    · rw [hNone, Option.toList_none, List.map_nil, List.append_nil]
      exact h.quiet hServer hQuiet
    · rw [hRun, Option.toList_none, List.map_nil, List.append_nil]
      exact h.pull hServer hPc hRead
    · rw [hGroup, hFate]
      exact h.decide hServer hDecides
    · rw [hRun, Option.toList_none, List.map_nil, List.append_nil]
      exact h.acknowledge hServer hPc

theorem start_hands (n : Nat) : (start n).hands = List.replicate n none := List.map_replicate

theorem Handled.start (f : ConsumerFunc) (n : Nat) : (start n).Handled f := by
  have hNone : ∀ id, some id ∉ (Delivery.start n).hands := by
    intro id hMem
    rw [start_hands] at hMem
    exact Option.some_ne_none id (List.eq_of_mem_replicate hMem)
  refine ⟨⟨List.nodup_nil, ?_, ?_, ?_, ?_⟩, ⟨List.Pairwise.nil, ?_⟩, ?_, ?_⟩
  · exact fun r hr => absurd hr List.not_mem_nil
  · exact fun i j id hi => absurd (List.mem_of_getElem? hi) (hNone id)
  · exact fun r hr => absurd hr List.not_mem_nil
  · exact fun id hMem => absurd hMem (hNone id)
  · exact fun r hr => absurd hr List.not_mem_nil
  · intro i server id hServer hPc
    rw [List.eq_of_mem_replicate (List.mem_of_getElem? hServer)] at hPc
    cases hPc
  · intro id
    refine ⟨fun hMem => absurd hMem List.not_mem_nil, ?_⟩
    rintro (hMem | ⟨r, hr, -⟩)
    · have hReplicate : (Delivery.start n).unsettled = List.replicate n none := List.map_replicate
      rw [hReplicate] at hMem
      exact absurd (List.eq_of_mem_replicate hMem) (Option.some_ne_none id)
    · exact absurd hr List.not_mem_nil

/-- **The pending list** has the entries that are in the hands of a consumer and, with the login
server, those that are lost; with the others it has every entry that was ever pulled. -/
theorem pending_iff (f : ConsumerFunc) (n : Nat) (es : List DeliveryEvent) :
    Always (step f) (PendingExactly f) (start n) es := by
  have hHandled : Always (step f) (Handled f) (start n) es :=
    always_of_step (fun _ e h => h.step e) (.start f n)
  exact hHandled.imp fun _ h => h.pending

end Delivery

end WarringServer.Server
