import WarringServer.Server.Recipients

/-!
# Which answers are lost

A consumer gives an answer up for lost if it does not find CLIENT_ID in `mTcpConnections`. The
acceptor enters a connection only after its construction, and a connection that is closed before it
has a close function closes its socket itself, and stays in the map under its name: a later one
of that name is then not entered.

* `Listed` — as long as no connection is closed before its close function is set, the table has
  exactly the connected ones that the acceptor has entered;
* `lost_only_without_connection` — then an answer is lost only where no such connection has its
  name.
-/

namespace WarringServer.Server

open ConsumerGroup DBServer Message Run

-- ---------------------------------------------------------------------------
-- The table and the connections
-- ---------------------------------------------------------------------------

namespace StreamServer

variable {f : ConsumerFunc} {now : Nat} {s s' : StreamServer} {g : Group StreamEntry Bytes}

/-- The table has exactly the connected ones that have been entered, two of them have two names,
and the one that the acceptor is about to enter is there, without a close function. -/
structure Listed (s : StreamServer) : Prop where
  named : ∀ name conn, s.mTcpConnections name = some conn →
    ∃ c, s.connections[conn]? = some c ∧ c.state = .connected ∧ c.name = name
  found : ∀ conn c, s.connections[conn]? = some c → c.state = .connected →
    s.acceptor ≠ .insert conn → s.mTcpConnections c.name = some conn
  distinct : ∀ (i j : Nat) (a b : ClientConnection), s.connections[i]? = some a →
    s.connections[j]? = some b → a.state = .connected → b.state = .connected →
    a.name = b.name → i = j
  kept : ∀ c ∈ s.connections, c.state ≠ .closed
  entering : ∀ conn, s.acceptor = .insert conn → (∀ name, s.mTcpConnections name ≠ some conn) ∧
    ∃ c, s.connections[conn]? = some c ∧ c.state = .connected ∧ c.mCloseFunc = false

theorem listed_new : new.Listed where
  named _ _ h := by cases h
  found _ _ h := by cases h
  distinct _ _ _ _ h := by cases h
  kept _ h := absurd h List.not_mem_nil
  entering _ h := by cases h

theorem Apart.symm (h : s.Apart s') : s'.Apart s :=
  ⟨h.mTcpConnections.symm, h.acceptor.symm, fun conn => (h.connections conn).symm⟩

theorem Apart.getElem? (h : s.Apart s') {conn : Nat} {c : ClientConnection}
    (hc : s.connections[conn]? = some c) : ∃ c', s'.connections[conn]? = some c' ∧
      c'.name = c.name ∧ c'.state = c.state ∧ c'.mCloseFunc = c.mCloseFunc := by
  have hSame := h.connections conn
  rw [hc, Option.map_some, Option.map_eq_some_iff] at hSame
  obtain ⟨c', hc', hFields⟩ := hSame
  obtain ⟨hName, hRest⟩ := Prod.mk.inj hFields
  obtain ⟨hState, hClose⟩ := Prod.mk.inj hRest
  exact ⟨c', hc', hName, hState, hClose⟩

theorem Listed.apart (h : s.Listed) (hApart : s.Apart s') : s'.Listed where
  named name conn hConn := by
    rw [hApart.mTcpConnections] at hConn
    obtain ⟨c, hc, hState, hName⟩ := h.named name conn hConn
    obtain ⟨c', hc', hName', hState', -⟩ := hApart.getElem? hc
    exact ⟨c', hc', hState'.trans hState, hName'.trans hName⟩
  found conn c hc hState hAt := by
    obtain ⟨c₀, hc₀, hName₀, hState₀, -⟩ := hApart.symm.getElem? hc
    rw [hApart.mTcpConnections, ← hName₀]
    exact h.found conn c₀ hc₀ (hState₀.trans hState) (hApart.acceptor ▸ hAt)
  distinct i j a b ha hb hStateA hStateB hSame := by
    obtain ⟨a₀, ha₀, hNameA, hA, -⟩ := hApart.symm.getElem? ha
    obtain ⟨b₀, hb₀, hNameB, hB, -⟩ := hApart.symm.getElem? hb
    exact h.distinct i j a₀ b₀ ha₀ hb₀ (hA.trans hStateA) (hB.trans hStateB)
      (hNameA.trans (hSame.trans hNameB.symm))
  kept c hc := by
    obtain ⟨conn, hConn⟩ := List.mem_iff_getElem?.mp hc
    obtain ⟨c₀, hc₀, -, hState, -⟩ := hApart.symm.getElem? hConn
    rw [← hState]
    exact h.kept c₀ (List.mem_of_getElem? hc₀)
  entering conn hAt := by
    rw [hApart.acceptor] at hAt
    obtain ⟨hNone, c, hc, hState, hClose⟩ := h.entering conn hAt
    obtain ⟨c', hc', -, hState', hClose'⟩ := hApart.getElem? hc
    exact ⟨hApart.mTcpConnections ▸ hNone, c', hc', hState'.trans hState, hClose'.trans hClose⟩

theorem Listed.construct (h : s.Listed) (name : Bytes) : (s.construct name).Listed := by
  unfold StreamServer.construct
  split
  swap
  · exact h
  rename_i hGuard
  obtain ⟨hIdle, hFree⟩ := hGuard
  have hNotNew : ∀ {conn c}, s.connections[conn]? = some c → conn ≠ s.connections.length :=
    fun hc => Nat.ne_of_lt (List.getElem?_eq_some_iff.mp hc).1
  refine ⟨?_, ?_, ?_, ?_, fun conn hAt => ⟨fun name' hConn => ?_, ?_⟩⟩
  · intro name' conn hConn
    obtain ⟨c, hc, hRest⟩ := h.named name' conn hConn
    exact ⟨c, getElem?_append_of_some hc, hRest⟩
  · intro conn c hc hState hAt
    rcases getElem?_snoc_cases hc with hc | ⟨rfl, -⟩
    · exact h.found conn c hc hState (by rw [hIdle]; exact SetupPoint.noConfusion)
    · exact absurd rfl hAt
  · intro i j a b ha hb hA hB hSame
    rcases getElem?_snoc_cases ha with ha | ⟨rfl, rfl⟩
    · rcases getElem?_snoc_cases hb with hb | ⟨rfl, rfl⟩
      · exact h.distinct i j a b ha hb hA hB hSame
      · exact absurd hSame (hFree a (List.mem_of_getElem? ha) hA)
    · rcases getElem?_snoc_cases hb with hb | ⟨rfl, -⟩
      · exact absurd hSame.symm (hFree b (List.mem_of_getElem? hb) hB)
      · rfl
  · intro c hc
    rcases List.mem_append.mp hc with hc | hc
    · exact h.kept c hc
    · rw [List.mem_singleton.mp hc]
      exact ConnectionState.noConfusion
  · obtain ⟨c, hc, -⟩ := h.named name' conn hConn
    exact hNotNew hc (SetupPoint.insert.inj hAt).symm
  · obtain rfl := SetupPoint.insert.inj hAt
    exact ⟨_, List.getElem?_concat_length, rfl, rfl⟩

/-- The name of the connection that is entered is free. -/
theorem Listed.insert (h : s.Listed) {conn : Nat} {c : ClientConnection}
    (hAt : s.acceptor = .insert conn) (hc : s.connections[conn]? = some c) :
    Listed { s with
      acceptor := .setCloseFunc conn
      mTcpConnections :=
        if (s.mTcpConnections c.name).isSome then s.mTcpConnections
        else Function.update s.mTcpConnections c.name (some conn) } := by
  obtain ⟨hNone, c', hc', hState, -⟩ := h.entering conn hAt
  obtain rfl := Option.some.inj (hc.symm.trans hc')
  have hFree : s.mTcpConnections c.name = none := by
    rcases hTable : s.mTcpConnections c.name with _ | other
    · rfl
    · obtain ⟨b, hb, hOpen, hName⟩ := h.named c.name other hTable
      obtain rfl := h.distinct other conn b c hb hc hOpen hState hName
      exact absurd hTable (hNone c.name)
  rw [hFree]
  refine ⟨?_, ?_, h.distinct, h.kept, fun _ hAt' => by cases hAt'⟩
  · intro name other hConn
    dsimp only [Option.isSome_none, Bool.false_eq_true, if_false] at hConn
    rw [if_neg Bool.false_ne_true, Function.update_apply] at hConn
    split at hConn
    · rename_i hName
      obtain rfl := Option.some.inj hConn
      exact ⟨c, hc, hState, hName.symm⟩
    · exact h.named name other hConn
  · intro other b hb hOpen _
    dsimp only
    rw [Option.isSome_none, if_neg Bool.false_ne_true]
    by_cases hSame : conn = other
    · subst hSame
      obtain rfl := Option.some.inj (hc.symm.trans hb)
      exact Function.update_self ..
    · have hName : b.name ≠ c.name := fun hEq =>
        hSame (h.distinct other conn b c hb hc hOpen hState hEq).symm
      rw [Function.update_of_ne hName]
      refine h.found other b hb hOpen fun hEq => hSame ?_
      exact SetupPoint.insert.inj (hAt.symm.trans hEq)

theorem Listed.newConnectionFunc (h : s.Listed) : s.newConnectionFunc.Listed := by
  unfold StreamServer.newConnectionFunc
  split
  · exact h
  · rename_i conn hAt
    split
    · exact h
    · exact h.insert hAt ‹_›
  · rename_i conn hAt
    -- the close function is no part of the table
    have hBack : ∀ {i : Nat} {c' : ClientConnection},
        (s.connections.modify conn ({ · with mCloseFunc := true }))[i]? = some c' →
        ∃ c, s.connections[i]? = some c ∧ c.name = c'.name ∧ c.state = c'.state := by
      intro i c' hc'
      rw [List.getElem?_modify, Option.map_eq_map, Option.map_eq_some_iff] at hc'
      obtain ⟨c, hc, rfl⟩ := hc'
      refine ⟨c, hc, ?_⟩
      split
      · exact ⟨rfl, rfl⟩
      · exact ⟨rfl, rfl⟩
    refine ⟨?_, ?_, ?_, ?_, fun _ hAt' => by cases hAt'⟩
    · intro name i hConn
      obtain ⟨c, hc, hState, hName⟩ := h.named name i hConn
      refine ⟨_, by dsimp only; rw [List.getElem?_modify, hc]; rfl, ?_⟩
      split
      · exact ⟨hState, hName⟩
      · exact ⟨hState, hName⟩
    · intro i c' hc' hState _
      obtain ⟨c, hc, hName, hSame⟩ := hBack hc'
      rw [← hName]
      exact h.found i c hc (hSame.trans hState) (by rw [hAt]; exact SetupPoint.noConfusion)
    · intro i j a b ha hb hA hB hSame
      obtain ⟨a₀, ha₀, hNameA, hStateA⟩ := hBack ha
      obtain ⟨b₀, hb₀, hNameB, hStateB⟩ := hBack hb
      exact h.distinct i j a₀ b₀ ha₀ hb₀ (hStateA.trans hA) (hStateB.trans hB)
        (hNameA.trans (hSame.trans hNameB.symm))
    · intro c' hc'
      obtain ⟨i, hi⟩ := List.mem_iff_getElem?.mp hc'
      obtain ⟨c, hc, -, hState⟩ := hBack hi
      rw [← hState]
      exact h.kept c (List.mem_of_getElem? hc)

/-- A connection that is closed has its close function, and is taken out of the table. -/
theorem Listed.closeFunc (h : s.Listed) {conn : Nat}
    (hSet : ∀ c ∈ s.connections[conn]?, c.state = .connected → c.mCloseFunc = true) :
    (s.closeFunc conn).Listed := by
  unfold StreamServer.closeFunc
  split
  · exact h
  rename_i c hc
  split
  · exact h
  rename_i hNotRemoved
  have hOpen : c.state = .connected := by
    rcases hState : c.state with _ | _ | _
    · rfl
    · exact absurd hState (h.kept c (List.mem_of_getElem? hc))
    · exact absurd hState hNotRemoved
  have hClose := hSet c hc hOpen
  rw [if_pos hClose]
  have hBack : ∀ {i : Nat} {c' : ClientConnection},
      (s.connections.modify conn ({ · with state := .removed }))[i]? = some c' →
      conn ≠ i ∧ s.connections[i]? = some c' ∨ conn = i ∧ c'.state = .removed := by
    intro i c' hc'
    by_cases hSame : conn = i
    · subst hSame
      rw [List.getElem?_modify_eq, hc] at hc'
      exact Or.inr ⟨rfl, by rw [← Option.some.inj hc']⟩
    · rw [List.getElem?_modify_ne _ _ hSame] at hc'
      exact Or.inl ⟨hSame, hc'⟩
  have hStays : ∀ {i : Nat} {c' : ClientConnection}, s.connections[i]? = some c' → conn ≠ i →
      (s.connections.modify conn ({ · with state := .removed }))[i]? = some c' :=
    fun hc' hNe => by rw [List.getElem?_modify_ne _ _ hNe]; exact hc'
  refine ⟨?_, ?_, ?_, ?_, ?_⟩
  · intro name i hConn
    dsimp only at hConn
    rw [Function.update_apply] at hConn
    split at hConn
    · cases hConn
    · rename_i hName
      obtain ⟨c', hc', hState, hName'⟩ := h.named name i hConn
      refine ⟨c', hStays hc' ?_, hState, hName'⟩
      rintro rfl
      obtain rfl := Option.some.inj (hc.symm.trans hc')
      exact hName hName'.symm
  · intro i c' hc' hState hAt
    rcases hBack hc' with ⟨hNe, hc'⟩ | ⟨-, hRemoved⟩
    · have hName : c'.name ≠ c.name := fun hEq =>
        hNe (h.distinct i conn c' c hc' hc hState hOpen hEq).symm
      dsimp only
      rw [Function.update_of_ne hName]
      exact h.found i c' hc' hState hAt
    · rw [hRemoved] at hState
      cases hState
  · intro i j a b ha hb hA hB hSame
    rcases hBack ha with ⟨-, ha⟩ | ⟨-, hRemoved⟩
    · rcases hBack hb with ⟨-, hb⟩ | ⟨-, hRemoved⟩
      · exact h.distinct i j a b ha hb hA hB hSame
      · rw [hRemoved] at hB
        cases hB
    · rw [hRemoved] at hA
      cases hA
  · intro c' hc'
    obtain ⟨i, hi⟩ := List.mem_iff_getElem?.mp hc'
    rcases hBack hi with ⟨-, hOld⟩ | ⟨-, hRemoved⟩
    · exact h.kept c' (List.mem_of_getElem? hOld)
    · rw [hRemoved]
      exact ConnectionState.noConfusion
  · intro i hAt
    obtain ⟨hNone, c', hc', hState, hUnset⟩ := h.entering i hAt
    refine ⟨?_, c', hStays hc' ?_, hState, hUnset⟩
    · intro name hConn
      dsimp only at hConn
      rw [Function.update_apply] at hConn
      split at hConn
      · cases hConn
      · exact hNone name hConn
    · rintro rfl
      obtain rfl := Option.some.inj (hc.symm.trans hc')
      rw [hUnset] at hClose
      cases hClose

/-- An entry is lost where the table has not the name. -/
theorem run_lost {id : Nat} {carrier : Carrier}
    (h : (s.run f now g).2.2 = some (id, carrier, none)) :
    s.mTcpConnections carrier.clientId = none := by
  rcases hPc : s.pc with _ | ⟨x, entry⟩ | ⟨x, carrier'⟩ | ⟨x, carrier', conn⟩ | x | x | _ | x
  case pull =>
    simp only [StreamServer.run, hPc] at h
    split at h
    · cases h
    · cases h
  case fill2This =>
    simp only [StreamServer.run, hPc] at h
    split at h
    · cases h
    · cases h
  case getConnPtrRef =>
    simp only [StreamServer.run, hPc] at h
    split at h
    · cases h
    · rename_i hFound
      cases h
      exact hFound
  all_goals
    simp only [StreamServer.run, hPc] at h
    cases h

end StreamServer

-- ---------------------------------------------------------------------------
-- Runs
-- ---------------------------------------------------------------------------

namespace Delivery

variable {f : ConsumerFunc} {s : Delivery}

/-- A connection is closed once its close function has been set. -/
def AfterSetup (s : Delivery) : DeliveryEvent → Prop
  | .close i conn => ∀ server ∈ s.servers[i]?, ∀ c ∈ server.connections[conn]?,
    c.state = .connected → c.mCloseFunc = true
  | _ => True

/-- Where the event gives an answer up for lost, no connected one has the name, except for one that
the acceptor is about to enter. -/
def LostOnly (f : ConsumerFunc) (s : Delivery) (e : DeliveryEvent) : Prop :=
  ∀ r ∈ (s.step f e).fates, r ∉ s.fates → r.conn = none → ∀ server,
    s.servers[r.server]? = some server → ∀ (conn : Nat) c, server.connections[conn]? = some c →
      c.state = .connected → c.name = r.carrier.clientId → server.acceptor = .insert conn

theorem listed_atServer (h : ∀ server ∈ s.servers, server.Listed) (i : Nat)
    {change : StreamServer → StreamServer}
    (hChange : ∀ server ∈ s.servers[i]?, server.Listed → (change server).Listed) :
    ∀ server ∈ (s.atServer i change).servers, server.Listed := by
  intro x hx
  rcases mem_atServer hx with hOld | ⟨server, hServer, rfl⟩
  · exact h x hOld
  · exact hChange server hServer (h server (List.mem_of_getElem? hServer))

theorem listed_step (h : ∀ server ∈ s.servers, server.Listed) {e : DeliveryEvent}
    (he : s.AfterSetup e) : ∀ server ∈ (s.step f e).servers, server.Listed := by
  rcases e with milliseconds | entry | n | ⟨i, name⟩ | i | ⟨i, conn⟩ | i
  case tick | add | trim => exact h
  case accept => exact listed_atServer h i fun _ _ hListed => hListed.construct name
  case setup => exact listed_atServer h i fun _ _ hListed => hListed.newConnectionFunc
  case close =>
    exact listed_atServer h i fun server hServer hListed => hListed.closeFunc (he server hServer)
  case consume =>
    rw [Delivery.step]
    split
    · exact h
    rename_i server hServer
    intro x hx
    rcases List.mem_or_eq_of_mem_set hx with hOld | rfl
    · exact h x hOld
    · exact (h server (List.mem_of_getElem? hServer)).apart (server.run_puts f s.now s.group).2

theorem lostOnly_of_listed (h : ∀ server ∈ s.servers, server.Listed) (e : DeliveryEvent) :
    LostOnly f s e := by
  intro r hr hNew hNone server hServer conn c hc hState hName
  rcases e with milliseconds | entry | n | ⟨i, name⟩ | i | ⟨i, conn'⟩ | i
  case tick | add | trim => exact absurd hr hNew
  case accept | setup | close =>
    rw [Delivery.step, atServer_fates] at hr
    exact absurd hr hNew
  case consume =>
    rw [Delivery.step] at hr
    split at hr
    · exact absurd hr hNew
    · rename_i x hx
      rcases List.mem_append.mp hr with hOld | hFate
      · exact absurd hOld hNew
      · obtain ⟨⟨id, carrier, conn'⟩, hMem, rfl⟩ := List.mem_map.mp hFate
        obtain rfl : conn' = none := hNone
        obtain rfl := Option.some.inj (hx.symm.trans hServer)
        have hTable := StreamServer.run_lost (Option.mem_toList.mp hMem)
        by_contra hNotEntering
        have hFound := (h x (List.mem_of_getElem? hx)).found conn c hc hState hNotEntering
        rw [hName, hTable] at hFound
        cases hFound

/-- **Losses.** As long as no connection is closed before its close function is set: the server that
loses an answer has no connected client with the name, or the acceptor is about to enter it. -/
theorem lost_only_without_connection (f : ConsumerFunc) (n : Nat) (es : List DeliveryEvent)
    (hSetup : Each (step f) AfterSetup (start n) es) : Each (step f) (LostOnly f) (start n) es := by
  have hListed : Always (step f) (fun s => ∀ server ∈ s.servers, server.Listed) (start n) es := by
    refine always_of_each (fun _ _ => True) (fun _ _ _ _ _ _ => trivial)
      (fun s e _ _ h he => listed_step h he) (fun server hServer => ?_) trivial hSetup
    rw [List.eq_of_mem_replicate hServer]
    exact StreamServer.listed_new
  exact hSetup.imp_of_always hListed fun _ e h _ => lostOnly_of_listed h e

/-- A client leaves while its answer is on its way. -/
theorem lost_only_without_connection_left :
    let answer : Carrier := ⟨[], [], [], literal "LoginServ_fd7", [], [1]⟩
    let es : List DeliveryEvent := [.accept 0 (literal "LoginServ_fd7"), .setup 0, .setup 0,
      .add answer.fill2Vec, .consume 0, .close 0 0, .consume 0, .consume 0]
    Each (step loginStreamConsumerFunc) (LostOnly loginStreamConsumerFunc) (start 1) es ∧
      (final (step loginStreamConsumerFunc) (start 1) es).fates = [⟨1, answer, 0, none⟩] := by
  intro answer es
  refine ⟨lost_only_without_connection loginStreamConsumerFunc 1 es ?_, by decide⟩
  refine ⟨trivial, trivial, trivial, trivial, trivial, fun server hServer c hc _ => ?_, trivial,
    trivial, trivial⟩
  cases hServer
  cases hc
  rfl

/-- Another login server has: it shares the stream, and whoever pulls an answer keeps it. -/
example :
    let answer : Carrier := ⟨[], [], [], literal "LoginServ_fd7", [], [1]⟩
    (final (step loginStreamConsumerFunc) (start 2)
      [.accept 0 (literal "LoginServ_fd7"), .setup 0, .setup 0, .add answer.fill2Vec, .consume 1,
        .consume 1, .consume 1]).fates = [⟨1, answer, 1, none⟩] := by
  decide

end Delivery

end WarringServer.Server
