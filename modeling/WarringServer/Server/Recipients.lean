import WarringServer.Server.Delivery

/-!
# Who gets an answer

What a consumer puts into a buffer is the MESSAGE of the entry that it has pulled, and the
buffer is that of a connection whose name is CLIENT_ID. Names are those of the sockets:
an answer that was meant for a connection may reach a later one of the same name, but no
other.

* `Sourced` — the consumers pass on what was pushed;
* `Linked`, `Routed` — the table of names leads to connections of these names, and each buffer has
  what was put into it;
* `delivered_once` — over every interleaving, an answer is put into at most one buffer, one
  of a connection with the name it is meant for, and each buffer has its answers in the
  order of the stream.
-/

namespace WarringServer.Server

open ConsumerGroup DBServer Message Run

/-- The entry has been pushed under the id. -/
def Pushed (added : List StreamEntry) (id : Nat) (entry : StreamEntry) : Prop :=
  0 < id ∧ added[id - 1]? = some entry

namespace Delivery

/-- The fates of the answers that went to a connection. -/
def putTo (s : Delivery) (server conn : Nat) : List Fate :=
  s.fates.filter fun r => r.server = server ∧ r.conn = some conn

/-- Every fate is that of an entry of the stream, no entry has two, and what was put went to a
connection with the right name, in the order of the stream. -/
structure Delivered (f : ConsumerFunc) (s : Delivery) : Prop where
  once : (s.fates.map Fate.id).Nodup
  answers : ∀ r ∈ s.fates, ∃ entry, Pushed s.added r.id entry ∧ f.fill2This entry = .ok r.carrier
  recipient : ∀ r ∈ s.fates, ∀ conn, r.conn = some conn → ∃ server c,
    s.servers[r.server]? = some server ∧ server.connections[conn]? = some c ∧
      c.name = r.carrier.clientId
  buffers : ∀ i server conn c, s.servers[i]? = some server → server.connections[conn]? = some c →
    c.buffer = (s.putTo i conn).map fun r => r.carrier.message
  in_order : s.fates.Pairwise fun r r' => r.server = r'.server → r.id < r'.id

end Delivery

-- ---------------------------------------------------------------------------
-- Where the bytes come from
-- ---------------------------------------------------------------------------

/-- What a consumer holds is what was pushed. -/
def Knows (f : ConsumerFunc) (added : List StreamEntry) : ConsumerPc → Prop
  | .fill2This id entry => Pushed added id entry
  | .getConnPtrRef id carrier | .putToBuffer id carrier _ =>
    ∃ entry, Pushed added id entry ∧ f.fill2This entry = .ok carrier
  | _ => True

theorem getElem?_append_of_some {α : Type*} {l l' : List α} {i : Nat} {a : α}
    (h : l[i]? = some a) : (l ++ l')[i]? = some a := by
  obtain ⟨hLt, -⟩ := List.getElem?_eq_some_iff.mp h
  rw [List.getElem?_append_left hLt]
  exact h

theorem Pushed.append {added new : List StreamEntry} {id : Nat} {entry : StreamEntry}
    (h : Pushed added id entry) : Pushed (added ++ new) id entry :=
  ⟨h.1, getElem?_append_of_some h.2⟩

theorem Knows.append {f : ConsumerFunc} {added new : List StreamEntry} {pc : ConsumerPc}
    (h : Knows f added pc) : Knows f (added ++ new) pc := by
  rcases pc with _ | ⟨id, entry⟩ | ⟨id, carrier⟩ | ⟨id, carrier, conn⟩ | id | id | _ | id
  case fill2This => exact Pushed.append h
  case getConnPtrRef | putToBuffer =>
    obtain ⟨entry, hEntry, hFill⟩ := h
    exact ⟨entry, hEntry.append, hFill⟩
  all_goals trivial

theorem knows_next {f : ConsumerFunc} {added : List StreamEntry} : Knows f added f.next := by
  unfold ConsumerFunc.next
  split <;> trivial

/-- A statement passes on what was pushed, and adds nothing to the stream. -/
theorem StreamServer.run_sourced {f : ConsumerFunc} (now : Nat) {s : StreamServer}
    {g : Group StreamEntry Bytes} {added : List StreamEntry} (h : Knows f added s.pc)
    (hEntries : ∀ e ∈ g.entries, Pushed added e.1 e.2) :
    let r := s.run f now g
    Knows f added r.1.pc ∧ r.2.1.lastId = g.lastId ∧ (∀ e ∈ r.2.1.entries, e ∈ g.entries) ∧
      ∀ id carrier conn, r.2.2 = some (id, carrier, conn) →
        ∃ entry, Pushed added id entry ∧ f.fill2This entry = .ok carrier := by
  obtain ⟨connections, table, acceptor, pc⟩ := s
  rcases pc with _ | ⟨id, entry⟩ | ⟨id, carrier⟩ | ⟨id, carrier, conn⟩ | id | id | _ | id
  case pull =>
    dsimp only [run]
    rcases hRead : (g.read f.consumer now).2 with _ | ⟨id, entry⟩
    · exact ⟨knows_next, Group.read_lastId, by simp, fun _ _ _ hNone => by cases hNone⟩
    · exact ⟨hEntries _ (Group.read_mem hRead), Group.read_lastId, by simp,
        fun _ _ _ hNone => by cases hNone⟩
  case fill2This =>
    dsimp only [run]
    rcases hFill : f.fill2This entry with fault | carrier
    · exact ⟨trivial, rfl, fun _ he => he, fun _ _ _ hNone => by cases hNone⟩
    · exact ⟨⟨entry, h, hFill⟩, rfl, fun _ he => he, fun _ _ _ hNone => by cases hNone⟩
  case getConnPtrRef =>
    dsimp only [run]
    rcases table carrier.clientId with _ | conn
    · refine ⟨?_, rfl, fun _ he => he, ?_⟩
      · dsimp only
        split
        · trivial
        · exact knows_next
      · intro _ _ _ hFate
        cases hFate
        exact h
    · exact ⟨h, rfl, fun _ he => he, fun _ _ _ hNone => by cases hNone⟩
  case putToBuffer =>
    dsimp only [run]
    refine ⟨?_, rfl, fun _ he => he, ?_⟩
    · split
      · trivial
      · exact knows_next
    · intro _ _ _ hFate
      cases hFate
      exact h
  case ack => exact ⟨knows_next, rfl, fun _ he => he, fun _ _ _ hNone => by cases hNone⟩
  case del =>
    exact ⟨knows_next, rfl, fun _ he => (List.mem_filter.mp he).1, fun _ _ _ hNone => by cases hNone⟩
  all_goals exact ⟨trivial, rfl, fun _ he => he, fun _ _ _ hNone => by cases hNone⟩

namespace Delivery

variable {f : ConsumerFunc} {s : Delivery}

structure Sourced (f : ConsumerFunc) (s : Delivery) : Prop where
  lastId : s.group.lastId = s.added.length
  entries : ∀ e ∈ s.group.entries, Pushed s.added e.1 e.2
  known : ∀ server ∈ s.servers, Knows f s.added server.pc
  fates : ∀ r ∈ s.fates, ∃ entry, Pushed s.added r.id entry ∧ f.fill2This entry = .ok r.carrier

theorem Sourced.start (f : ConsumerFunc) (n : Nat) : (start n).Sourced f where
  lastId := rfl
  entries e he := absurd he List.not_mem_nil
  known server hServer := by
    rw [List.eq_of_mem_replicate hServer]
    trivial
  fates r hr := absurd hr List.not_mem_nil

/-- A server whose consumer stays where it is. -/
theorem Sourced.atServer (h : s.Sourced f) (i : Nat) {change : StreamServer → StreamServer}
    (hPc : ∀ server, (change server).pc = server.pc) : (s.atServer i change).Sourced f := by
  refine ⟨?_, ?_, ?_, ?_⟩
  · rw [atServer_group, atServer_added]
    exact h.lastId
  · rw [atServer_group, atServer_added]
    exact h.entries
  · intro x hx
    rw [atServer_added]
    rcases mem_atServer hx with hOld | ⟨server, hServer, rfl⟩
    · exact h.known x hOld
    · rw [hPc server]
      exact h.known server (List.mem_of_getElem? hServer)
  · rw [atServer_fates, atServer_added]
    exact h.fates

theorem Sourced.step (h : s.Sourced f) (e : DeliveryEvent) : (s.step f e).Sourced f := by
  rcases e with milliseconds | entry | n | ⟨i, name⟩ | i | ⟨i, conn⟩ | i
  case tick => exact ⟨h.lastId, h.entries, h.known, h.fates⟩
  case add =>
    refine ⟨?_, ?_, fun server hServer => (h.known server hServer).append, ?_⟩
    · change s.group.lastId + 1 = (s.added ++ [entry]).length
      rw [List.length_append, h.lastId]
      rfl
    · intro e he
      change Pushed (s.added ++ [entry]) e.1 e.2
      rcases List.mem_append.mp he with hOld | hNew
      · exact (h.entries e hOld).append
      · rw [List.mem_singleton.mp hNew, h.lastId]
        exact ⟨Nat.succ_pos _, List.getElem?_concat_length⟩
    · intro r hr
      obtain ⟨entry', hEntry, hFill⟩ := h.fates r hr
      exact ⟨entry', hEntry.append, hFill⟩
  case trim => exact ⟨h.lastId, fun e he => h.entries e (List.mem_of_mem_drop he), h.known, h.fates⟩
  case accept => exact h.atServer i fun server => server.construct_pc name
  case setup => exact h.atServer i fun server => server.newConnectionFunc_pc
  case close => exact h.atServer i fun server => server.closeFunc_pc conn
  case consume =>
    rw [Delivery.step]
    split
    · exact h
    rename_i server hServer
    obtain ⟨hKnows, hLastId, hSub, hFate⟩ := StreamServer.run_sourced s.now
      (h.known server (List.mem_of_getElem? hServer)) h.entries
    refine ⟨hLastId.trans h.lastId, fun e he => h.entries e (hSub e he), ?_, ?_⟩
    · intro x hx
      rcases List.mem_or_eq_of_mem_set hx with hOld | rfl
      · exact h.known x hOld
      · exact hKnows
    · intro r hr
      rcases List.mem_append.mp hr with hOld | hNew
      · exact h.fates r hOld
      · obtain ⟨⟨id, carrier, conn⟩, hMem, rfl⟩ := List.mem_map.mp hNew
        exact hFate id carrier conn (Option.mem_toList.mp hMem)

end Delivery

-- ---------------------------------------------------------------------------
-- Where the bytes go
-- ---------------------------------------------------------------------------

namespace StreamServer

variable {f : ConsumerFunc} {now : Nat} {s : StreamServer} {g : Group StreamEntry Bytes}

/-- The table leads to connections of these names, and a consumer is about to use one with the name
it has looked up. -/
structure Linked (s : StreamServer) : Prop where
  named : ∀ name conn, s.mTcpConnections name = some conn →
    ∃ c, s.connections[conn]? = some c ∧ c.name = name
  held : ∀ id carrier conn, s.pc = .putToBuffer id carrier conn →
    ∃ c, s.connections[conn]? = some c ∧ c.name = carrier.clientId

/-- What may become of the connections in one step: a buffer gets what is `put` into it, and
nothing else is taken away. -/
structure Puts (s s' : StreamServer) (put : Nat → List Bytes) : Prop where
  keeps : ∀ conn c, s.connections[conn]? = some c →
    ∃ c', s'.connections[conn]? = some c' ∧ c'.name = c.name ∧ c'.buffer = c.buffer ++ put conn
  fresh : ∀ conn c', s'.connections[conn]? = some c' → s.connections[conn]? = none →
    c'.buffer = put conn

theorem Puts.of_eq {s' : StreamServer} (h : s'.connections = s.connections) :
    s.Puts s' fun _ => [] where
  keeps conn c hc := ⟨c, h ▸ hc, rfl, (List.append_nil _).symm⟩
  fresh conn c' hc' hNone := absurd (h ▸ hc') (by rw [hNone]; simp)

/-- The step names no connection anew, and the table only leads to what it has led to. -/
theorem Linked.frame {s' : StreamServer} {put : Nat → List Bytes} (h : s.Linked)
    (hPuts : s.Puts s' put)
    (hTable : ∀ name conn, s'.mTcpConnections name = some conn →
      s.mTcpConnections name = some conn)
    (hPc : ∀ id carrier conn, s'.pc = .putToBuffer id carrier conn →
      ∃ c, s.connections[conn]? = some c ∧ c.name = carrier.clientId) : s'.Linked where
  named name conn hConn := by
    obtain ⟨c, hc, hName⟩ := h.named name conn (hTable name conn hConn)
    obtain ⟨c', hc', hSame, -⟩ := hPuts.keeps conn c hc
    exact ⟨c', hc', hSame.trans hName⟩
  held id carrier conn hPut := by
    obtain ⟨c, hc, hName⟩ := hPc id carrier conn hPut
    obtain ⟨c', hc', hSame, -⟩ := hPuts.keeps conn c hc
    exact ⟨c', hc', hSame.trans hName⟩

theorem getElem?_snoc_cases {α : Type*} {l : List α} {a b : α} {i : Nat}
    (h : (l ++ [a])[i]? = some b) : l[i]? = some b ∨ i = l.length ∧ b = a := by
  rcases Nat.lt_trichotomy i l.length with hLt | rfl | hGt
  · rw [List.getElem?_append_left hLt] at h
    exact Or.inl h
  · rw [List.getElem?_concat_length] at h
    exact Or.inr ⟨rfl, (Option.some.inj h).symm⟩
  · rw [List.getElem?_eq_none (by rw [List.length_append, List.length_singleton]; omega)] at h
    cases h

theorem construct_puts (s : StreamServer) (name : Bytes) :
    s.Puts (s.construct name) fun _ => [] := by
  unfold construct
  split
  · refine ⟨fun conn c hc => ⟨c, getElem?_append_of_some hc, rfl, (List.append_nil _).symm⟩,
      fun conn c' hc' hNone => ?_⟩
    rcases getElem?_snoc_cases hc' with hc' | ⟨-, rfl⟩
    · rw [hNone] at hc'
      cases hc'
    · rfl
  · exact .of_eq rfl

/-- A change of one connection that keeps its name and its buffer. -/
theorem Puts.of_getElem? {s' : StreamServer} {conn : Nat}
    {change : ClientConnection → ClientConnection}
    (hGet : ∀ i, s'.connections[i]? =
      s.connections[i]?.map fun c => if conn = i then change c else c)
    (hChange : ∀ c, (change c).name = c.name ∧ (change c).buffer = c.buffer) :
    s.Puts s' fun _ => [] where
  keeps i c hc := by
    refine ⟨_, by rw [hGet, hc]; rfl, ?_⟩
    split
    · rw [List.append_nil]
      exact hChange c
    · exact ⟨rfl, (List.append_nil _).symm⟩
  fresh i c' hc' hNone := by
    rw [hGet, hNone] at hc'
    cases hc'

theorem newConnectionFunc_puts (s : StreamServer) :
    s.Puts s.newConnectionFunc fun _ => [] := by
  unfold newConnectionFunc
  split
  · exact .of_eq rfl
  · split
    · exact .of_eq rfl
    · exact .of_eq rfl
  · exact .of_getElem? (fun i => List.getElem?_modify ..) fun c => ⟨rfl, rfl⟩

theorem closeFunc_puts (s : StreamServer) (conn : Nat) :
    s.Puts (s.closeFunc conn) fun _ => [] := by
  unfold closeFunc
  split
  · exact .of_eq rfl
  · split
    · exact .of_eq rfl
    · split
      · exact .of_getElem? (fun i => List.getElem?_modify ..) fun c => ⟨rfl, rfl⟩
      · exact .of_getElem? (fun i => List.getElem?_modify ..) fun c => ⟨rfl, rfl⟩

theorem Linked.construct (h : s.Linked) (name : Bytes) : (s.construct name).Linked := by
  refine h.frame (s.construct_puts name) (fun name' conn hConn => ?_) fun id carrier conn hPc => ?_
  · unfold StreamServer.construct at hConn
    split at hConn
    · exact hConn
    · exact hConn
  · exact h.held id carrier conn (s.construct_pc name ▸ hPc)

theorem Linked.closeFunc (h : s.Linked) (conn : Nat) : (s.closeFunc conn).Linked := by
  refine h.frame (s.closeFunc_puts conn) (fun name conn' hConn => ?_) fun id carrier conn' hPc => ?_
  · unfold StreamServer.closeFunc at hConn
    split at hConn
    · exact hConn
    · split at hConn
      · exact hConn
      · split at hConn
        · dsimp only at hConn
          rw [Function.update_apply] at hConn
          split at hConn
          · cases hConn
          · exact hConn
        · exact hConn
  · exact h.held id carrier conn' (s.closeFunc_pc conn ▸ hPc)

theorem Linked.newConnectionFunc (h : s.Linked) : s.newConnectionFunc.Linked := by
  have hHeld : ∀ id carrier conn, s.newConnectionFunc.pc = .putToBuffer id carrier conn →
      ∃ c, s.connections[conn]? = some c ∧ c.name = carrier.clientId :=
    fun id carrier conn hPc => h.held id carrier conn (s.newConnectionFunc_pc ▸ hPc)
  unfold StreamServer.newConnectionFunc at hHeld ⊢
  split
  · exact h
  · rename_i conn hAt
    split
    · exact h
    · rename_i c hc
      -- the one entry that is new
      refine ⟨fun name conn' hConn => ?_, h.held⟩
      dsimp only at hConn ⊢
      split at hConn
      · exact h.named name conn' hConn
      · rw [Function.update_apply] at hConn
        split at hConn
        · obtain rfl := Option.some.inj hConn
          exact ⟨c, hc, by rw [‹name = _›]⟩
        · exact h.named name conn' hConn
  · exact h.frame (.of_getElem? (fun i => List.getElem?_modify ..) fun c => ⟨rfl, rfl⟩)
      (fun _ _ hConn => hConn) h.held

/-- What the fate of an entry puts into the buffer of a connection. -/
def puts (fate : Option (Nat × Carrier × Option Nat)) (conn : Nat) : List Bytes :=
  (fate.toList.filter fun x => x.2.2 = some conn).map fun x => x.2.1.message

/-- The message goes to a connection with the name that was looked up. -/
def Looked (s : StreamServer) (fate : Option (Nat × Carrier × Option Nat)) : Prop :=
  ∀ id carrier conn, fate = some (id, carrier, some conn) →
    ∃ c, s.connections[conn]? = some c ∧ c.name = carrier.clientId

theorem Looked.undecided : s.Looked none := fun _ _ _ h => by cases h

theorem next_ne_putToBuffer {id conn : Nat} {carrier : Carrier} :
    f.next ≠ .putToBuffer id carrier conn := by
  unfold ConsumerFunc.next
  split
  · exact ConsumerPc.noConfusion
  · exact ConsumerPc.noConfusion

/-- The table, the acceptor and what else is said of the connections: a statement of the consumer
leaves them as they are. -/
structure Apart (s s' : StreamServer) : Prop where
  mTcpConnections : s'.mTcpConnections = s.mTcpConnections
  acceptor : s'.acceptor = s.acceptor
  connections : ∀ conn : Nat, s'.connections[conn]?.map (fun c => (c.name, c.state, c.mCloseFunc)) =
    s.connections[conn]?.map fun c => (c.name, c.state, c.mCloseFunc)

theorem Apart.of_eq {s' : StreamServer} (hConnections : s'.connections = s.connections)
    (hTable : s'.mTcpConnections = s.mTcpConnections) (hAcceptor : s'.acceptor = s.acceptor) :
    s.Apart s' := ⟨hTable, hAcceptor, fun conn => by rw [hConnections]⟩

/-- A statement puts what its fate says, and nothing else. -/
theorem run_puts (f : ConsumerFunc) (now : Nat) (s : StreamServer) (g : Group StreamEntry Bytes) :
    let r := s.run f now g
    s.Puts r.1 (puts r.2.2) ∧ s.Apart r.1 := by
  have hStay : ∀ {pc : ConsumerPc} {fate : Option (Nat × Carrier × Option Nat)},
      (∀ conn, puts fate conn = []) →
        s.Puts { s with pc := pc } (puts fate) ∧ s.Apart { s with pc := pc } := by
    intro pc fate hNone
    rw [funext hNone]
    exact ⟨.of_eq rfl, .of_eq rfl rfl rfl⟩
  rcases hPc : s.pc with _ | ⟨id, entry⟩ | ⟨id, carrier⟩ | ⟨id, carrier, conn⟩ | id | id | _ | id
  case pull =>
    simp only [StreamServer.run, hPc]
    rcases (g.read f.consumer now).2 with _ | ⟨id, entry⟩
    · exact hStay fun _ => rfl
    · exact hStay fun _ => rfl
  case fill2This =>
    simp only [StreamServer.run, hPc]
    rcases f.fill2This entry with fault | carrier
    · exact hStay fun _ => rfl
    · exact hStay fun _ => rfl
  case getConnPtrRef =>
    simp only [StreamServer.run, hPc]
    rcases s.mTcpConnections carrier.clientId with _ | conn
    · exact hStay fun conn => by simp [puts]
    · exact hStay fun _ => rfl
  case putToBuffer =>
    simp only [StreamServer.run, hPc]
    have hGet : ∀ conn' : Nat, (s.putToBuffer conn carrier.message).connections[conn']? =
        s.connections[conn']?.map fun c =>
          if conn = conn' then { c with buffer := c.buffer ++ [carrier.message] } else c :=
      fun conn' => List.getElem?_modify ..
    have hPuts : ∀ conn', puts (some (id, carrier, some conn)) conn' =
        if conn = conn' then [carrier.message] else [] := by
      intro conn'
      by_cases hSame : conn = conn'
      · simp [puts, hSame]
      · simp [puts, hSame]
    refine ⟨⟨fun conn' c hc => ?_, fun conn' c' hc' hNone => ?_⟩, rfl, rfl, ?_⟩
    · refine ⟨_, by dsimp only; rw [hGet, hc]; rfl, ?_⟩
      rw [hPuts]
      split
      · exact ⟨rfl, rfl⟩
      · exact ⟨rfl, (List.append_nil _).symm⟩
    · dsimp only at hc'
      rw [hGet, hNone] at hc'
      cases hc'
    · intro conn'
      dsimp only
      rw [hGet, Option.map_map]
      congr 1
      funext c
      dsimp only [Function.comp_apply]
      split
      · rfl
      · rfl
  case ack =>
    simp only [StreamServer.run, hPc]
    exact hStay fun _ => rfl
  case del =>
    simp only [StreamServer.run, hPc]
    exact hStay fun _ => rfl
  all_goals
    simp only [StreamServer.run, hPc]
    exact ⟨.of_eq rfl, .of_eq rfl rfl rfl⟩

/-- A statement looks right up: what it is about to use, or has used, has the name. -/
theorem Linked.looked (h : s.Linked) (f : ConsumerFunc) (now : Nat)
    (g : Group StreamEntry Bytes) :
    let r := s.run f now g
    (∀ id carrier conn, r.1.pc = .putToBuffer id carrier conn →
      ∃ c, s.connections[conn]? = some c ∧ c.name = carrier.clientId) ∧ s.Looked r.2.2 := by
  have hNext : ∀ id carrier conn, f.next = .putToBuffer id carrier conn →
      ∃ c, s.connections[conn]? = some c ∧ c.name = carrier.clientId :=
    fun _ _ _ hPut => absurd hPut next_ne_putToBuffer
  rcases hPc : s.pc with _ | ⟨id, entry⟩ | ⟨id, carrier⟩ | ⟨id, carrier, conn⟩ | id | id | _ | id
  case pull =>
    simp only [StreamServer.run, hPc]
    rcases (g.read f.consumer now).2 with _ | ⟨id, entry⟩
    · exact ⟨hNext, .undecided⟩
    · exact ⟨fun _ _ _ hPut => ConsumerPc.noConfusion hPut, .undecided⟩
  case fill2This =>
    simp only [StreamServer.run, hPc]
    rcases f.fill2This entry with fault | carrier
    · exact ⟨fun _ _ _ hPut => ConsumerPc.noConfusion hPut, .undecided⟩
    · exact ⟨fun _ _ _ hPut => ConsumerPc.noConfusion hPut, .undecided⟩
  case getConnPtrRef =>
    simp only [StreamServer.run, hPc]
    rcases hFound : s.mTcpConnections carrier.clientId with _ | conn
    · refine ⟨fun id' carrier' conn' hPut => ?_, fun _ _ _ hFate => by cases hFate⟩
      dsimp only at hPut
      split at hPut
      · cases hPut
      · exact hNext id' carrier' conn' hPut
    · refine ⟨fun id' carrier' conn' hPut => ?_, .undecided⟩
      cases hPut
      exact h.named carrier.clientId conn hFound
  case putToBuffer =>
    simp only [StreamServer.run, hPc]
    constructor
    · intro id' carrier' conn' hPut
      split at hPut
      · cases hPut
      · exact hNext id' carrier' conn' hPut
    · intro _ _ _ hFate
      cases hFate
      exact h.held id carrier conn hPc
  case ack =>
    simp only [StreamServer.run, hPc]
    exact ⟨hNext, .undecided⟩
  case del =>
    simp only [StreamServer.run, hPc]
    exact ⟨hNext, .undecided⟩
  all_goals
    simp only [StreamServer.run, hPc]
    exact ⟨fun _ _ _ hPut => ConsumerPc.noConfusion hPut, .undecided⟩

theorem Linked.run (h : s.Linked) (f : ConsumerFunc) (now : Nat)
    (g : Group StreamEntry Bytes) : (s.run f now g).1.Linked := by
  obtain ⟨hPuts, hApart⟩ := run_puts f now s g
  exact h.frame hPuts (fun name conn hConn => hApart.mTcpConnections ▸ hConn) (h.looked f now g).1

end StreamServer

namespace Delivery

variable {f : ConsumerFunc} {s : Delivery} {i : Nat} {server server' : StreamServer}

structure Routed (s : Delivery) : Prop where
  linked : ∀ server ∈ s.servers, server.Linked
  recipient : ∀ r ∈ s.fates, ∀ conn, r.conn = some conn → ∃ server c,
    s.servers[r.server]? = some server ∧ server.connections[conn]? = some c ∧
      c.name = r.carrier.clientId
  buffers : ∀ (i : Nat) (server : StreamServer) (conn : Nat) (c : ClientConnection),
    s.servers[i]? = some server → server.connections[conn]? = some c →
      c.buffer = (s.putTo i conn).map fun r => r.carrier.message

theorem Routed.start (n : Nat) : (start n).Routed where
  linked server hServer := by
    rw [List.eq_of_mem_replicate hServer]
    exact ⟨fun _ _ h => (by cases h), fun _ _ _ h => (by cases h)⟩
  recipient r hr := absurd hr List.not_mem_nil
  buffers i server conn c hServer hc := by
    rw [List.eq_of_mem_replicate (List.mem_of_getElem? hServer)] at hc
    cases hc

/-- One server moves. -/
theorem Routed.set (h : s.Routed) (hServer : s.servers[i]? = some server)
    (fate : Option (Nat × Carrier × Option Nat)) (hLinked : server'.Linked)
    (hPuts : server.Puts server' (StreamServer.puts fate)) (hLooked : server.Looked fate)
    (g : Group StreamEntry Bytes) :
    Routed { s with
      servers := s.servers.set i server'
      group := g
      fates := s.fates ++ fate.toList.map fun (id, carrier, conn) => ⟨id, carrier, i, conn⟩ } := by
  obtain ⟨hLt, -⟩ := List.getElem?_eq_some_iff.mp hServer
  refine ⟨?_, ?_, ?_⟩
  · intro x hx
    rcases List.mem_or_eq_of_mem_set hx with hOld | rfl
    · exact h.linked x hOld
    · exact hLinked
  · intro r hr conn hConn
    -- the connection had the name before the step
    have hBefore : ∃ server c, s.servers[r.server]? = some server ∧
        server.connections[conn]? = some c ∧ c.name = r.carrier.clientId := by
      rcases List.mem_append.mp hr with hr | hr
      · exact h.recipient r hr conn hConn
      · obtain ⟨⟨id, carrier, conn'⟩, hFate, rfl⟩ := List.mem_map.mp hr
        obtain rfl : conn' = some conn := hConn
        obtain ⟨c, hc, hName⟩ := hLooked id carrier conn (Option.mem_toList.mp hFate)
        exact ⟨server, c, hServer, hc, hName⟩
    obtain ⟨x, c, hx, hc, hName⟩ := hBefore
    dsimp only
    by_cases hSame : i = r.server
    · rw [← hSame, hServer] at hx
      obtain rfl := Option.some.inj hx
      obtain ⟨c', hc', hName', -⟩ := hPuts.keeps conn c hc
      exact ⟨server', c', by rw [← hSame, List.getElem?_set_self hLt], hc', hName'.trans hName⟩
    · exact ⟨x, c, by rw [List.getElem?_set_ne hSame]; exact hx, hc, hName⟩
  · intro j x conn c hx hc
    have hPutTo : putTo { s with
        servers := s.servers.set i server'
        group := g
        fates := s.fates ++ fate.toList.map fun (id, carrier, conn) => ⟨id, carrier, i, conn⟩ } j
          conn = s.putTo j conn ++
        if i = j then (fate.toList.filter fun x => x.2.2 = some conn).map
          fun (id, carrier, conn) => ⟨id, carrier, i, conn⟩ else [] := by
      rw [putTo, List.filter_append, List.filter_map, putTo]
      by_cases hSame : i = j
      · simp [hSame, Function.comp_def]
      · simp [hSame, Function.comp_def]
    rw [hPutTo, List.map_append]
    dsimp only at hx
    rcases getElem?_set_cases hx with ⟨rfl, rfl⟩ | ⟨hNe, hx⟩
    · rw [if_pos rfl, List.map_map]
      change c.buffer = _ ++ StreamServer.puts fate conn
      rcases hOld : server.connections[conn]? with _ | c₀
      · -- nothing has been put where there was no connection
        have hNone : s.putTo j conn = [] := by
          rw [putTo, List.filter_eq_nil_iff]
          intro r hr hTo
          rw [decide_eq_true_eq] at hTo
          obtain ⟨x, c', hx', hc', -⟩ := h.recipient r hr conn hTo.2
          rw [hTo.1, hServer] at hx'
          obtain rfl := Option.some.inj hx'
          rw [hOld] at hc'
          cases hc'
        rw [hNone, hPuts.fresh conn c hc hOld]
        rfl
      · obtain ⟨c', hc', -, hBuffer⟩ := hPuts.keeps conn c₀ hOld
        obtain rfl := Option.some.inj (hc.symm.trans hc')
        rw [hBuffer, h.buffers j server conn c₀ hServer hOld]
    · rw [if_neg fun hEq => hNe hEq.symm, List.map_nil, List.append_nil]
      exact h.buffers j x conn c hx hc

/-- A server whose buffers stay as they are. -/
theorem Routed.atServer (h : s.Routed) (i : Nat) {change : StreamServer → StreamServer}
    (hLinked : ∀ server : StreamServer, server.Linked → (change server).Linked)
    (hPuts : ∀ server : StreamServer, server.Puts (change server) fun _ => []) :
    (s.atServer i change).Routed := by
  unfold Delivery.atServer
  split
  · exact h
  rename_i server hServer
  have hSet := h.set hServer none (hLinked server (h.linked server (List.mem_of_getElem? hServer)))
    (hPuts server) .undecided s.group
  rw [Option.toList_none, List.map_nil, List.append_nil] at hSet
  exact hSet

theorem Routed.step (h : s.Routed) (e : DeliveryEvent) : (s.step f e).Routed := by
  rcases e with milliseconds | entry | n | ⟨i, name⟩ | i | ⟨i, conn⟩ | i
  case tick | add | trim => exact ⟨h.linked, h.recipient, h.buffers⟩
  case accept =>
    exact h.atServer i (fun _ hLinked => hLinked.construct name) (·.construct_puts name)
  case setup =>
    exact h.atServer i (fun _ hLinked => hLinked.newConnectionFunc) (·.newConnectionFunc_puts)
  case close =>
    exact h.atServer i (fun _ hLinked => hLinked.closeFunc conn) (·.closeFunc_puts conn)
  case consume =>
    rw [Delivery.step]
    split
    · exact h
    · rename_i server hServer
      have hLinked := h.linked server (List.mem_of_getElem? hServer)
      exact h.set hServer _ (hLinked.run f s.now s.group) (server.run_puts f s.now s.group).1
        (hLinked.looked f s.now s.group).2 _

/-- A connection keeps its name. -/
theorem step_named (e : DeliveryEvent) {conn : Nat} {c : ClientConnection}
    (hServer : s.servers[i]? = some server) (hc : server.connections[conn]? = some c) :
    ∃ server' c', (s.step f e).servers[i]? = some server' ∧
      server'.connections[conn]? = some c' ∧ c'.name = c.name := by
  have hAt : ∀ (j : Nat) (change : StreamServer → StreamServer),
      (∀ x : StreamServer, x.Puts (change x) fun _ => []) → ∃ server' c',
        (s.atServer j change).servers[i]? = some server' ∧
          server'.connections[conn]? = some c' ∧ c'.name = c.name := by
    intro j change hPuts
    obtain ⟨c', hc', hName, -⟩ := (hPuts server).keeps conn c hc
    rw [getElem?_atServer, hServer, Option.map_some]
    by_cases hSame : j = i
    · exact ⟨change server, c', congrArg some (if_pos hSame), hc', hName⟩
    · exact ⟨server, c, congrArg some (if_neg hSame), hc, rfl⟩
  rcases e with milliseconds | entry | n | ⟨j, name⟩ | j | ⟨j, conn'⟩ | j
  case tick | add | trim => exact ⟨server, c, hServer, hc, rfl⟩
  case accept => exact hAt j _ (·.construct_puts name)
  case setup => exact hAt j _ (·.newConnectionFunc_puts)
  case close => exact hAt j _ (·.closeFunc_puts conn')
  case consume =>
    rw [Delivery.step]
    split
    · exact ⟨server, c, hServer, hc, rfl⟩
    · rename_i x hx
      dsimp only
      by_cases hSame : j = i
      · subst hSame
        obtain rfl := Option.some.inj (hx.symm.trans hServer)
        obtain ⟨hLt, -⟩ := List.getElem?_eq_some_iff.mp hx
        obtain ⟨c', hc', hName, -⟩ := (x.run_puts f s.now s.group).1.keeps conn c hc
        exact ⟨_, c', List.getElem?_set_self hLt, hc', hName⟩
      · exact ⟨server, c, by rw [List.getElem?_set_ne hSame]; exact hServer, hc, rfl⟩

/-- Only a push adds to the stream. -/
theorem step_added {e : DeliveryEvent} (hAdd : ∀ entry, e ≠ .add entry) :
    (s.step f e).added = s.added := by
  rcases e with milliseconds | entry | n | ⟨i, name⟩ | i | ⟨i, conn⟩ | i
  case add => exact absurd rfl (hAdd entry)
  case tick | trim => rfl
  case accept | setup | close => exact s.atServer_added i _
  case consume =>
    rw [Delivery.step]
    split
    · rfl
    · rfl

/-- What every event keeps. -/
structure Kept (f : ConsumerFunc) (s : Delivery) : Prop where
  handled : s.Handled f
  sourced : s.Sourced f
  routed : s.Routed

theorem Kept.start (f : ConsumerFunc) (n : Nat) : (start n).Kept f :=
  ⟨.start f n, .start f n, .start n⟩

theorem Kept.step (h : s.Kept f) (e : DeliveryEvent) : (s.step f e).Kept f :=
  ⟨h.handled.step e, h.sourced.step e, h.routed.step e⟩

theorem always_kept (f : ConsumerFunc) (n : Nat) (es : List DeliveryEvent) :
    Always (step f) (Kept f) (start n) es :=
  always_of_step (fun _ e h => h.step e) (.start f n)

/--
**Delivery.** Over every interleaving of any number of servers on one stream with connections
that come and go: no entry of the stream has two fates, each fate is that of the entry as it was
pushed, a message that was put went to a connection with the name it is meant for, and a
buffer has the messages that went to its connection, in the order of the stream.
-/
theorem delivered_once (f : ConsumerFunc) (n : Nat) (es : List DeliveryEvent) :
    Always (step f) (Delivered f) (start n) es :=
  (always_kept f n es).imp fun _ h =>
    ⟨h.handled.once.nodup, h.sourced.fates, h.routed.recipient, h.routed.buffers,
      h.handled.ordered.fates⟩

end Delivery

end WarringServer.Server
