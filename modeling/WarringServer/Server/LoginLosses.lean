import WarringServer.Server.LoginPath

/-!
# Where a login request may be lost

`RSBrokerHelper::push` lets XADD cut the stream to about `maxLen` entries, by default 5000. As long
as no more than that are waiting, what is cut off has been handed out before, and a stream is a
queue without losses. If Redis does not add an entry, `push` says so in the log alone.

* `Delivery.Complete`, `Gatemen.Complete` — whatever has been handed out is in somebody's hands
  or has come to its end;
* `no_request_forgotten` — over every interleaving in which no stream has a longer backlog, a request
  is on its way or has been answered, unless Redis has not added it or its answer, a handler has
  thrown or a pass over the pending entries has taken the request from its reader; and an answer is
  on its way, or put into a buffer, or lost for want of a connection.
-/

namespace WarringServer

open ConsumerGroup DBServer Message Run

-- ---------------------------------------------------------------------------
-- The stream of answers
-- ---------------------------------------------------------------------------

namespace Server

theorem mem_set_of_ne {α : Type*} {l : List α} {i : Nat} {a b : α} (h : a ∈ l)
    (hNe : l[i]? ≠ some a) : a ∈ l.set i b := by
  obtain ⟨j, hj⟩ := List.mem_iff_getElem?.mp h
  have hij : i ≠ j := by
    rintro rfl
    exact hNe hj
  exact List.mem_iff_getElem?.mpr ⟨j, by rw [List.getElem?_set_ne hij]; exact hj⟩

namespace StreamServer

variable {f : ConsumerFunc} {now : Nat} {s : StreamServer} {g : Group StreamEntry Bytes}

theorem next_ne_del {id : Nat} : f.next ≠ .del id := by
  unfold ConsumerFunc.next
  split
  · exact ConsumerPc.noConfusion
  · exact ConsumerPc.noConfusion

/-- What is about to be deleted was in hand. -/
theorem run_del {id : Nat} (h : (s.run f now g).1.pc = .del id) : s.pc.inHand = some id := by
  obtain ⟨connections, table, acceptor, pc⟩ := s
  rcases pc with _ | ⟨id', entry⟩ | ⟨id', carrier⟩ | ⟨id', carrier, conn⟩ | id' | id' | _ | id'
  case pull =>
    dsimp only [run] at h
    split at h
    · exact absurd h next_ne_del
    · cases h
  case fill2This =>
    dsimp only [run] at h
    split at h
    · cases h
    · cases h
  case getConnPtrRef =>
    dsimp only [run] at h
    split at h
    · cases h
    · dsimp only at h
      split at h
      · cases h
        rfl
      · exact absurd h next_ne_del
  case putToBuffer =>
    dsimp only [run] at h
    split at h
    · cases h
    · exact absurd h next_ne_del
  case ack => exact absurd h next_ne_del
  case del => exact absurd h next_ne_del
  all_goals cases h

theorem run_unbroken (h : g.Unbroken) (hDel : ∀ id, s.pc = .del id → id ≤ g.lastDelivered) :
    (s.run f now g).2.1.Unbroken := by
  rcases hPc : s.pc with _ | ⟨id, entry⟩ | ⟨id, carrier⟩ | ⟨id, carrier, conn⟩ | id | id | _ | id
  case pull =>
    have hRead := (h.read f.consumer now).1
    simp only [run, hPc]
    split
    · exact hRead
    · exact hRead
  case fill2This =>
    simp only [run, hPc]
    split
    · exact h
    · exact h
  case getConnPtrRef =>
    simp only [run, hPc]
    split
    · exact h
    · exact h
  case ack =>
    simp only [run, hPc]
    exact h.congr rfl rfl rfl
  case del =>
    simp only [run, hPc]
    exact h.delete (hDel id hPc)
  all_goals
    simp only [run, hPc]
    exact h

end StreamServer

namespace Delivery

variable {f : ConsumerFunc} {s : Delivery}

/-- Nothing is missing: what has not been handed out is on the stream, and the rest is in the
hands of a consumer or has come to its end. -/
structure Complete (s : Delivery) : Prop where
  unbroken : s.group.Unbroken
  covered : ∀ id, 0 < id → id ≤ s.group.lastDelivered →
    some id ∈ s.hands ∨ ∃ r ∈ s.fates, r.id = id
  deleting : ∀ server ∈ s.servers, ∀ id, server.pc = .del id → id ≤ s.group.lastDelivered

/-- What the event cuts off has been handed out. -/
def KeepsUnread (s : Delivery) : DeliveryEvent → Prop
  | .trim n => n + s.group.unread ≤ s.group.entries.length
  | _ => True

theorem Complete.start (n : Nat) : (start n).Complete where
  unbroken := Group.unbroken_empty
  covered id hPos hLe := absurd hLe (Nat.not_le.mpr hPos)
  deleting server hServer id hPc := by
    rw [List.eq_of_mem_replicate hServer] at hPc
    cases hPc

/-- A server whose consumer stays where it is. -/
theorem Complete.atServer (h : s.Complete) (i : Nat) {change : StreamServer → StreamServer}
    (hPc : ∀ server, (change server).pc = server.pc) : (s.atServer i change).Complete := by
  refine ⟨?_, ?_, ?_⟩
  · rw [atServer_group]
    exact h.unbroken
  · intro id hPos hLe
    rw [hands, map_atServer hPc, atServer_fates]
    rw [atServer_group] at hLe
    exact h.covered id hPos hLe
  · intro x hx
    rw [atServer_group]
    rcases mem_atServer hx with hOld | ⟨server, hServer, rfl⟩
    · exact h.deleting x hOld
    · rw [hPc]
      exact h.deleting server (List.mem_of_getElem? hServer)

theorem Complete.consume (h : s.Complete) (hOnce : s.Once) {i : Nat} {server : StreamServer}
    (hServer : s.servers[i]? = some server) :
    Complete { s with
      servers := s.servers.set i (server.run f s.now s.group).1
      group := (server.run f s.now s.group).2.1
      fates := s.fates ++ (server.run f s.now s.group).2.2.toList.map
        fun (id, carrier, conn) => ⟨id, carrier, i, conn⟩ } := by
  have hMem : server ∈ s.servers := List.mem_of_getElem? hServer
  obtain ⟨hLt, -⟩ := List.getElem?_eq_some_iff.mp hServer
  have hHand : s.hands[i]? = some server.pc.inHand := by rw [hands, List.getElem?_map, hServer]; rfl
  have hUnbroken : (server.run f s.now s.group).2.1.Unbroken :=
    StreamServer.run_unbroken h.unbroken (h.deleting server hMem)
  have hCases := StreamServer.run_cases f s.now server s.group
  have hLastLe : s.group.lastDelivered ≤ (server.run f s.now s.group).2.1.lastDelivered := by
    rcases hCases with ⟨hQuiet, -⟩ | ⟨id, entry, -, hRead, hRun⟩ |
      ⟨id, carrier, conn, -, hSame, -⟩ | ⟨id, -, hRun⟩
    · exact hQuiet.lastDelivered.ge
    · obtain ⟨hNew, hLast, -⟩ := Group.read_spec hRead
      rw [hRun, hLast]
      exact hNew.le
    · rw [hSame]
    · rw [hRun]
      exact le_rfl
  refine ⟨hUnbroken, ?_, ?_⟩
  · intro id hPos hLe
    -- a hand that the step does not touch
    have hKeep : ∀ x, server.pc.inHand ≠ some id → some id ∈ s.hands → some id ∈ s.hands.set i x :=
      fun x hNe hIn => mem_set_of_ne hIn (by rw [hHand]; exact fun hEq => hNe (Option.some.inj hEq))
    have hOld : id ≤ s.group.lastDelivered → (∀ x, some id ∈ s.hands → some id ∈ s.hands.set i x) →
        ∀ new x, some id ∈ s.hands.set i x ∨ ∃ r ∈ s.fates ++ new, r.id = id := by
      intro hLe hIn new x
      rcases h.covered id hPos hLe with hHeld | ⟨r, hr, hId⟩
      · exact Or.inl (hIn x hHeld)
      · exact Or.inr ⟨r, List.mem_append_left _ hr, hId⟩
    rw [hands, List.map_set]
    change some id ∈ s.hands.set i _ ∨ _
    rcases hCases with ⟨hQuiet, -⟩ | ⟨next, entry, hPc, hRead, hRun⟩ |
      ⟨decided, carrier, conn, hDecides, hSame, hFate⟩ | ⟨acked, hPc, hRun⟩
    · rw [hQuiet.lastDelivered] at hLe
      have hHands : s.hands.set i (server.run f s.now s.group).1.pc.inHand = s.hands := by
        rw [hands, ← List.map_set, map_set_of_eq hServer hQuiet.inHand]
      dsimp only
      rw [hHands]
      rcases h.covered id hPos hLe with hHeld | ⟨r, hr, hId⟩
      · exact Or.inl hHeld
      · exact Or.inr ⟨r, List.mem_append_left _ hr, hId⟩
    · -- the entry that comes next
      have hNext := (h.unbroken.read f.consumer s.now).2 _ hRead
      obtain ⟨-, hLast, -⟩ := Group.read_spec hRead
      rw [hRun, hLast] at hLe
      rw [hRun]
      rcases Nat.lt_or_ge s.group.lastDelivered id with hNew | hWas
      · obtain rfl : id = next := by
          dsimp only at hNext hLe
          omega
        exact Or.inl (List.mem_set (by rw [hands, List.length_map]; exact hLt) _)
      · exact hOld hWas (fun x => hKeep x (by rw [hPc]; exact fun hEq => by cases hEq)) _ _
    · rw [hSame] at hLe
      by_cases hId : decided = id
      · refine Or.inr ⟨⟨decided, carrier, i, conn⟩, List.mem_append_right _ ?_, hId⟩
        rw [hFate]
        exact List.mem_singleton.mpr rfl
      · refine hOld hLe (fun x => hKeep x ?_) _ _
        rw [hDecides.before]
        exact fun hEq => hId (Option.some.inj hEq)
    · rw [hRun] at hLe ⊢
      exact hOld hLe (fun x => hKeep x (by rw [hPc]; exact fun hEq => by cases hEq)) _ _
  · intro x hx id hPc
    rcases List.mem_or_eq_of_mem_set hx with hOld | rfl
    · exact (h.deleting x hOld id hPc).trans hLastLe
    · have hIn := StreamServer.run_del hPc
      refine (hOnce.handed_le id (List.mem_of_getElem? (i := i) ?_)).trans hLastLe
      rw [hHand, hIn]

theorem Complete.step (h : s.Complete) (hOnce : s.Once) {e : DeliveryEvent} (he : s.KeepsUnread e) :
    (s.step f e).Complete := by
  rcases e with milliseconds | entry | n | ⟨i, name⟩ | i | ⟨i, conn⟩ | i
  case tick => exact ⟨h.unbroken, h.covered, h.deleting⟩
  case add => exact ⟨h.unbroken.add entry, h.covered, h.deleting⟩
  case trim => exact ⟨h.unbroken.trim he, h.covered, h.deleting⟩
  case accept => exact h.atServer i fun server => server.construct_pc name
  case setup => exact h.atServer i fun server => server.newConnectionFunc_pc
  case close => exact h.atServer i fun server => server.closeFunc_pc conn
  case consume =>
    rw [Delivery.step]
    split
    · exact h
    · exact h.consume hOnce ‹_›

end Delivery

end Server

-- ---------------------------------------------------------------------------
-- The stream of requests
-- ---------------------------------------------------------------------------

namespace Broker

theorem Iteration.step_unbroken {handled : Option Carrier} {it : Iteration}
    {g : Group StreamEntry Bytes} (h : g.Unbroken) (hid : it.id ≤ g.lastDelivered) :
    (it.step handled g).2.1.Unbroken := by
  obtain ⟨id, entry, pulledAt, stage⟩ := it
  rcases stage with _ | msg | msg | ⟨msg, acked⟩ | ⟨msg, acked⟩ | _
  case pulled =>
    rcases handled with _ | msg
    · exact h
    · exact h
  case handled =>
    simp only [step]
    split
    · exact h.delete hid
    · exact h.congr rfl rfl rfl
  case deleted => exact h.congr rfl rfl rfl
  all_goals exact h

namespace Manager

variable {α : Type*} {c : Settings} {now : Nat} {forget : Bool} {m : Manager} {g : Group α Bytes}

/-- A pass deletes the item that it has come to. -/
theorem step_del {id : Nat} {rest : List (PendingItem Bytes)}
    (h : (m.step c now forget g).1.pass = .del id rest) : ∃ item ∈ m.items, item.id = id := by
  obtain ⟨pass, queue, siblings⟩ := m
  rcases pass with _ | _ | _ | _ | (_ | ⟨first, items⟩) | ⟨id', items⟩
  case groups =>
    simp only [step] at h
    split at h
    all_goals cases h
  case queue =>
    rcases queue with _ | ⟨⟨consumer, pendingNum⟩, queue⟩
    · cases h
    · cases h
  case items.cons =>
    refine ⟨first, List.mem_cons_self, ?_⟩
    simp only [step] at h
    split at h
    · exact (Pass.del.inj h).1
    · split at h
      · cases h
      · split at h
        all_goals cases h
  all_goals cases h

theorem step_unbroken (h : g.Unbroken)
    (hDel : ∀ id rest, m.pass = .del id rest → id ≤ g.lastDelivered) :
    (m.step c now forget g).2.Unbroken := by
  obtain ⟨pass, queue, siblings⟩ := m
  rcases pass with _ | _ | _ | _ | (_ | ⟨item, items⟩) | ⟨id, items⟩
  case queue =>
    rcases queue with _ | ⟨⟨consumer, pendingNum⟩, queue⟩
    · exact h
    · exact h
  case items.cons =>
    simp only [step]
    split
    · exact h.congr rfl rfl rfl
    · split
      · exact h.congr rfl rfl rfl
      · split
        · dsimp only
          split
          · exact h.congr Group.claim_lastId (Group.claim_pending ..).1 Group.claim_entries
          · exact h
        · exact h
  case del => exact h.delete (hDel id items rfl)
  all_goals exact h

end Manager

namespace Gatemen

variable {c : Settings} {s : Gatemen} {readKey : Bytes}

/-- Nothing is missing: what has not been handed out is on the stream, and the rest has come to a
reader. -/
structure Complete (s : Gatemen) : Prop where
  unbroken : s.group.Unbroken
  covered : ∀ id, 0 < id → id ≤ s.group.lastDelivered → ∃ it ∈ s.iterations, it.id = id
  deleting : ∀ m ∈ s.managers, ∀ id rest, m.pass = .del id rest → id ≤ s.group.lastDelivered

/-- What the event cuts off has been handed out. -/
def KeepsUnread (s : Gatemen) : GatemenEvent → Prop
  | .trim n => n + s.group.unread ≤ s.group.entries.length
  | _ => True

theorem Complete.start (n : Nat) : (start n).Complete where
  unbroken := Group.unbroken_empty
  covered id hPos hLe := absurd hLe (Nat.not_le.mpr hPos)
  deleting m hm id rest hPass := by
    rw [List.eq_of_mem_replicate hm] at hPass
    cases hPass

theorem Complete.pull (h : s.Complete) (consumer : Bytes) :
    (s.step readKey c (.pull consumer)).Complete := by
  obtain ⟨hUnbroken, hNext⟩ := h.unbroken.read consumer s.now
  have hLe : s.group.lastDelivered ≤ (s.group.read consumer s.now).1.lastDelivered := by
    rcases hRead : (s.group.read consumer s.now).2 with _ | e
    · exact (Group.read_none hRead).1.ge
    · obtain ⟨hNew, hLast, -⟩ := Group.read_spec hRead
      rw [hLast]
      exact hNew.le
  refine ⟨hUnbroken, fun id hPos hId => ?_, fun m hm id rest hPass =>
    (h.deleting m hm id rest hPass).trans hLe⟩
  change id ≤ (s.group.read consumer s.now).1.lastDelivered at hId
  rcases Nat.lt_or_ge s.group.lastDelivered id with hNew | hWas
  · rcases hRead : (s.group.read consumer s.now).2 with _ | e
    · rw [(Group.read_none hRead).1] at hId
      omega
    · obtain ⟨-, hLast, -⟩ := Group.read_spec hRead
      have hFirst := hNext e hRead
      refine ⟨⟨e.1, e.2, s.now, .pulled⟩, List.mem_append_right _ ?_, by dsimp only; omega⟩
      rw [hRead]
      exact List.mem_singleton.mpr rfl
  · obtain ⟨it, hit, hSame⟩ := h.covered id hPos hWas
    exact ⟨it, List.mem_append_left _ hit, hSame⟩

theorem Complete.reader (h : s.Complete) (hInv : Inv c s) (i : Nat) (handled : Option Carrier) :
    (s.step readKey c (.reader i handled)).Complete := by
  rcases hit : s.iterations[i]? with _ | it
  · rw [Gatemen.step, hit]
    exact h
  rcases hStep : it.step handled s.group with ⟨it', g, response⟩
  rw [step_reader hit hStep]
  obtain ⟨hLt, -⟩ := List.getElem?_eq_some_iff.mp hit
  obtain ⟨⟨hId, -, hLast⟩, -⟩ := it.step_cases handled s.group
  have hUnbroken := @Iteration.step_unbroken handled it s.group h.unbroken
    (hInv.delivered it (List.mem_of_getElem? hit))
  rw [hStep] at hId hLast hUnbroken
  dsimp only at hId hLast hUnbroken
  have hDeliver := (deliver_frame readKey response g).2
  refine ⟨?_, ?_, ?_⟩
  · dsimp only
    unfold deliver
    split
    · split
      · exact hUnbroken.add _
      · exact hUnbroken
    · exact hUnbroken
  · intro id hPos hLe
    dsimp only at hLe
    rw [hDeliver, hLast] at hLe
    obtain ⟨x, hx, hSame⟩ := h.covered id hPos hLe
    obtain ⟨j, hj⟩ := List.mem_iff_getElem?.mp hx
    by_cases hij : i = j
    · subst hij
      obtain rfl := Option.some.inj (hit.symm.trans hj)
      exact ⟨it', List.mem_set hLt _, hId.trans hSame⟩
    · exact ⟨x, List.mem_iff_getElem?.mpr ⟨j, by rw [List.getElem?_set_ne hij]; exact hj⟩, hSame⟩
  · intro m hm id rest hPass
    dsimp only
    rw [hDeliver, hLast]
    exact h.deleting m hm id rest hPass

theorem Complete.manager (h : s.Complete) (hInv : Inv c s) (j : Nat) (forget : Bool) :
    (s.step readKey c (.manager j forget)).Complete := by
  rcases hm : s.managers[j]? with _ | m
  · rw [Gatemen.step, hm]
    exact h
  rcases hStep : m.step c s.now forget s.group with ⟨m', g⟩
  rw [step_manager hm hStep]
  have hMem : m ∈ s.managers := List.mem_of_getElem? hm
  obtain ⟨hLast, -⟩ := m.step_pending c s.now forget s.group
  have hUnbroken := @Manager.step_unbroken _ c s.now forget m s.group h.unbroken (h.deleting m hMem)
  have hDel := @Manager.step_del _ c s.now forget m s.group
  rw [hStep] at hLast hUnbroken hDel
  dsimp only at hLast hUnbroken hDel
  refine ⟨hUnbroken, ?_, ?_⟩
  · intro id hPos hLe
    dsimp only at hLe
    rw [hLast] at hLe
    exact h.covered id hPos hLe
  · intro x hx id rest hPass
    dsimp only
    rw [hLast]
    rcases List.mem_or_eq_of_mem_set hx with hOld | rfl
    · exact h.deleting x hOld id rest hPass
    · -- the pass was told of an item that had been delivered
      obtain ⟨item, hItem, rfl⟩ := hDel hPass
      obtain ⟨t, hMark, -⟩ := hInv.told m hMem item hItem
      obtain ⟨it, hit, hSame, -⟩ := mem_marks.mp hMark
      exact hSame ▸ hInv.delivered it hit

theorem Complete.step (h : s.Complete) (hInv : Inv c s) {e : GatemenEvent} (he : s.KeepsUnread e) :
    (s.step readKey c e).Complete := by
  rcases e with milliseconds | entry | n | consumer | ⟨i, handled⟩ | ⟨j, forget⟩ | ⟨j, siblings⟩
  case tick => exact ⟨h.unbroken, h.covered, h.deleting⟩
  case add => exact ⟨h.unbroken.add entry, h.covered, h.deleting⟩
  case trim => exact ⟨h.unbroken.trim he, h.covered, h.deleting⟩
  case pull => exact h.pull consumer
  case reader => exact h.reader hInv i handled
  case manager => exact h.manager hInv j forget
  case otherStream =>
    rcases hm : s.managers[j]? with _ | m
    · rw [Gatemen.step, hm]
      exact h
    · rw [Gatemen.step, hm]
      refine ⟨h.unbroken, h.covered, fun x hx id rest hPass => ?_⟩
      rcases List.mem_or_eq_of_mem_set hx with hOld | rfl
      · exact h.deleting x hOld id rest hPass
      · exact h.deleting m (List.mem_of_getElem? hm) id rest hPass

end Gatemen

end Broker

-- ---------------------------------------------------------------------------
-- The whole way
-- ---------------------------------------------------------------------------

namespace Server

open Broker

/-- XADD with `MAXLEN ~` leaves so many entries, and no more than so many are waiting. The default
of `RSBrokerHelper::push`, which every call takes, is 5000. -/
def Cuts (maxLen : Nat) (g : Group StreamEntry Bytes) (n : Nat) : Prop :=
  n ≤ g.entries.length - maxLen ∧ g.unread ≤ maxLen

instance (maxLen : Nat) (g : Group StreamEntry Bytes) (n : Nat) : Decidable (Cuts maxLen g n) :=
  inferInstanceAs (Decidable (_ ∧ _))

theorem Cuts.keeps {maxLen : Nat} {g : Group StreamEntry Bytes} {n : Nat} (h : g.Unbroken)
    (hCuts : Cuts maxLen g n) : n + g.unread ≤ g.entries.length := by
  have hUnread := h.unread_le
  obtain ⟨hn, hMax⟩ := hCuts
  omega

/-- The reader is not done with the entry. -/
def AtWork (it : Iteration) : Prop :=
  match it.stage with
  | .pulled | .handled _ | .deleted _ | .acked _ _ => True
  | .finished _ _ | .thrown => False

namespace LoginPath

variable {σ : Type} {d : Drivers σ} {c : Settings} {s : LoginPath}

/-- What is cut off a stream is cut off by a push. -/
def Bounded (maxLen : Nat) (s : LoginPath) : LoginPathEvent σ → Prop
  | .trimRequests n => Cuts maxLen s.gatemen.group n
  | .trimAnswers n => Cuts maxLen s.delivery.group n
  | _ => True

instance (maxLen : Nat) (s : LoginPath) : ∀ e : LoginPathEvent σ, Decidable (s.Bounded maxLen e)
  | .trimRequests n => inferInstanceAs (Decidable (Cuts maxLen s.gatemen.group n))
  | .trimAnswers n => inferInstanceAs (Decidable (Cuts maxLen s.delivery.group n))
  | .tick _ | .message .. | .pull _ | .reader .. | .manager .. | .otherStream .. | .accept ..
  | .setup _ | .close .. | .consume _ => isTrue trivial

/-- Where the answer is: on the stream, in the hands of a consumer, or at its end. -/
def AnswerAccounted (s : LoginPath) (id : Nat) : Prop :=
  (∃ entry, (id, entry) ∈ s.delivery.group.entries) ∨
    some id ∈ s.delivery.hands ∨ ∃ r ∈ s.delivery.fates, r.id = id

/-- Where a request is. -/
inductive Accounted (s : LoginPath) (q : Nat) : Prop where
  | waiting (id : Nat) (entry : StreamEntry) (origin : s.origin id = some q)
    (entries : (id, entry) ∈ s.gatemen.group.entries)
  | working (it : Iteration) (origin : s.origin it.id = some q)
    (iterations : it ∈ s.gatemen.iterations) (stage : AtWork it)
  /-- The handler has thrown, and the reader is gone. -/
  | thrown (it : Iteration) (origin : s.origin it.id = some q)
    (iterations : it ∈ s.gatemen.iterations) (stage : it.stage = .thrown)
  /-- A pass has acknowledged the entry before its reader. -/
  | taken (it : Iteration) (origin : s.origin it.id = some q)
    (iterations : it ∈ s.gatemen.iterations) (taken : it.id ∈ s.gatemen.taken)
  /-- Redis has not added it, or its answer, and nobody has looked at what `push` returned. -/
  | unpushed (unpushed : q ∈ s.unpushed)
  | answered (k : Nat) (answered : s.answered[k]? = some q) (answer : s.AnswerAccounted (k + 1))

/-- Every request has come onto the stream, and every response for the login servers is among
the answers, but for those that Redis has not added. -/
structure Forwarded (s : LoginPath) : Prop where
  asked : ∀ q, q < s.requests.length → q ∈ s.unpushed ∨ ∃ id, 0 < id ∧ s.origin id = some q
  pushed : ∀ x ∈ s.gatemen.pushed, x.2.1 = LoginServConf.BROKER_LOGIN_KEY →
    ∃ q, (q ∈ s.answered ∨ q ∈ s.unpushed) ∧ s.origin x.1 = some q

theorem Forwarded.start (servers managers : Nat) : (start servers managers).Forwarded where
  asked q h := absurd h (Nat.not_lt_zero q)
  pushed _ h := absurd h List.not_mem_nil

theorem Forwarded.database (h : s.Forwarded) {e : GatemenEvent}
    (hCalm : s.gatemen.Calm (s.gatemen.step LoginServConf.BROKER_DB_KEY c e)) :
    (s.database c e).Forwarded where
  asked := h.asked
  pushed x hx hKey := by
    change x ∈ (s.gatemen.step _ c e).pushed at hx
    rw [hCalm.pushed] at hx
    exact h.pushed x hx hKey

theorem Forwarded.serve (h : s.Forwarded) (e : DeliveryEvent) : (s.serve e).Forwarded :=
  ⟨h.asked, h.pushed⟩

/-- A new entry: what was said of the others stays. -/
theorem Forwarded.origin (h : s.Forwarded) (hTraced : s.Traced d) (v : Option Nat) :
    Forwarded { s with origin := Function.update s.origin (s.gatemen.group.lastId + 1) v } where
  asked q hq := (h.asked q hq).imp_right fun ⟨id, hPos, hOrigin⟩ =>
    ⟨id, hPos, hTraced.origin_kept hOrigin v⟩
  pushed x hx hKey := by
    obtain ⟨q, hq, hOrigin⟩ := h.pushed x hx hKey
    exact ⟨q, hq, hTraced.origin_kept hOrigin v⟩

theorem Forwarded.push (h : s.Forwarded) (hTraced : s.Traced d) (server conn : Nat)
    (carrier : Carrier) (xadd : Bool) : (s.push c server conn carrier xadd).Forwarded := by
  have hCases : ∀ {q : Nat} {new : ClientRequest}, q < (s.requests ++ [new]).length →
      q < s.requests.length ∨ q = s.requests.length := by
    intro q new hq
    rw [List.length_append, List.length_singleton] at hq
    exact Nat.lt_or_eq_of_le (Nat.le_of_lt_succ hq)
  unfold LoginPath.push
  split
  · have hOld := h.origin hTraced (some s.requests.length)
    refine ⟨fun q hq => ?_, hOld.pushed⟩
    rcases hCases hq with hq | rfl
    · exact hOld.asked q hq
    · exact Or.inr ⟨_, Nat.succ_pos _, Function.update_self ..⟩
  · constructor
    · intro q hq
      rcases hCases hq with hq | rfl
      · exact (h.asked q hq).imp_left (List.mem_append_left _)
      · exact Or.inl (List.mem_append_right _ (List.mem_singleton_self _))
    · intro x hx hKey
      obtain ⟨q, hq, hOrigin⟩ := h.pushed x hx hKey
      exact ⟨q, hq.imp_right (List.mem_append_left _), hOrigin⟩

theorem Forwarded.reader (h : s.Forwarded) (hTraced : s.Traced d) (i : Nat) (world : σ)
    (xadd : Bool) : (s.step d c (.reader i world xadd)).Forwarded := by
  rw [LoginPath.step]
  split
  · exact h
  rename_i it hit
  obtain ⟨q, request, hOrigin, -⟩ := hTraced.iterations it (List.mem_of_getElem? hit)
  rcases hStep : it.step (handledBy d world it.entry) s.gatemen.group with ⟨it', g, response⟩
  -- what the reader has pushed is known, whatever Redis has done
  have hPushed : (s.reader c i (handledBy d world it.entry) xadd).gatemen.pushed =
      s.gatemen.pushed ++ response.toList.map fun x => (it.id, x) := by
    obtain ⟨readKey, hReader⟩ := s.reader_gatemen c i (handledBy d world it.entry) xadd
    rw [hReader, Gatemen.step_reader hit hStep]
  have hFields : ∃ gatemen, s.reader c i (handledBy d world it.entry) xadd =
      { s with gatemen := gatemen } := by
    unfold LoginPath.reader
    split
    · exact ⟨_, rfl⟩
    · exact ⟨_, rfl⟩
  obtain ⟨gatemen, hReader⟩ := hFields
  rw [hReader] at hPushed
  dsimp only at hPushed ⊢
  rw [hStep, hReader]
  dsimp only
  have hMoved : ∀ x ∈ gatemen.pushed, x ∈ s.gatemen.pushed ∨ ∃ key entry,
      response = some (key, entry) ∧ x = (it.id, (key, entry)) := by
    intro x hx
    rw [hPushed] at hx
    rcases List.mem_append.mp hx with hOld | hNew
    · exact Or.inl hOld
    · obtain ⟨⟨key, entry⟩, hMem, rfl⟩ := List.mem_map.mp hNew
      exact Or.inr ⟨key, entry, Option.mem_toList.mp hMem, rfl⟩
  rcases response with _ | ⟨key, entry⟩
  · refine ⟨h.asked, fun x hx => ?_⟩
    rcases hMoved x hx with hOld | ⟨key, entry, hNone, -⟩
    · exact h.pushed x hOld
    · cases hNone
  have hNe : LoginServConf.BROKER_DB_KEY ≠ LoginServConf.BROKER_LOGIN_KEY := by decide
  rw [respond]
  split
  · split
    · -- back onto the stream of requests
      rename_i hKey
      have hOld := h.origin hTraced (s.origin it.id)
      refine ⟨hOld.asked, fun x hx hTo => ?_⟩
      rcases hMoved x hx with hWas | ⟨key', entry', hSame, rfl⟩
      · exact hOld.pushed x hWas hTo
      · cases hSame
        exact absurd (hKey.symm.trans hTo) hNe
    · split
      · refine ⟨h.asked, fun x hx hTo => ?_⟩
        rcases hMoved x hx with hOld | ⟨key', entry', -, rfl⟩
        · obtain ⟨p, hp, hId⟩ := h.pushed x hOld hTo
          exact ⟨p, hp.imp_left (List.mem_append_left _), hId⟩
        · refine ⟨q, Or.inl (List.mem_append_right _ ?_), hOrigin⟩
          dsimp only
          rw [hOrigin]
          exact List.mem_singleton.mpr rfl
      · rename_i hKey
        refine ⟨h.asked, fun x hx hTo => ?_⟩
        rcases hMoved x hx with hOld | ⟨key', entry', hSame, rfl⟩
        · exact h.pushed x hOld hTo
        · cases hSame
          exact absurd hTo hKey
  · -- no stream has got it
    refine ⟨fun p hp => (h.asked p hp).imp_left (List.mem_append_left _), fun x hx hTo => ?_⟩
    rcases hMoved x hx with hOld | ⟨key', entry', -, rfl⟩
    · obtain ⟨p, hp, hId⟩ := h.pushed x hOld hTo
      exact ⟨p, hp.imp_right (List.mem_append_left _), hId⟩
    · refine ⟨q, Or.inr (List.mem_append_right _ ?_), hOrigin⟩
      dsimp only
      rw [hOrigin]
      exact List.mem_singleton.mpr rfl

theorem Forwarded.step (h : s.Forwarded) (hTraced : s.Traced d) (e : LoginPathEvent σ) :
    (s.step d c e).Forwarded := by
  rcases e with milliseconds | ⟨server, conn, tid, ipPort, msg, xadd⟩ | n | n | consumer |
    ⟨i, world, xadd⟩ | ⟨j, forget⟩ | ⟨j, siblings⟩ | ⟨server, name⟩ | server |
    ⟨server, conn⟩ | server
  case tick => exact (h.database (Gatemen.calm_tick milliseconds)).serve _
  case message =>
    rw [LoginPath.step]
    split
    · exact h
    · dsimp only
      generalize Function.update s.mMessageTypes _ _ = types
      have hTypes : Traced d { s with mMessageTypes := types } := hTraced.beside types s.unpushed
      have hSame : Forwarded { s with mMessageTypes := types } := ⟨h.asked, h.pushed⟩
      split
      · exact hSame
      · exact hSame.push hTypes server conn _ xadd
  case trimRequests => exact h.database (Gatemen.calm_trim n)
  case pull => exact h.database (Gatemen.calm_pull consumer)
  case reader => exact h.reader hTraced i world xadd
  case manager => exact h.database (Gatemen.calm_manager j forget)
  case otherStream => exact h.database (Gatemen.calm_otherStream j siblings)
  all_goals exact h.serve _

/-- What every event keeps that cuts off nothing that is waiting. -/
structure Whole (d : Drivers σ) (c : Settings) (s : LoginPath) : Prop where
  inv : s.Inv d c
  gatemen : s.gatemen.Complete
  delivery : s.delivery.Complete
  forwarded : s.Forwarded

theorem Whole.start (servers managers : Nat) : (start servers managers).Whole d c :=
  ⟨.start servers managers, .start managers, .start servers, .start servers managers⟩

theorem Whole.database (h : s.Whole d c) {e : GatemenEvent}
    (hCalm : s.gatemen.Calm (s.gatemen.step LoginServConf.BROKER_DB_KEY c e))
    (he : s.gatemen.KeepsUnread e) : (s.database c e).Whole d c :=
  ⟨h.inv.database hCalm, h.gatemen.step h.inv.gatemen he, h.delivery, h.forwarded.database hCalm⟩

theorem Whole.serve (h : s.Whole d c) {e : DeliveryEvent} (hAdd : ∀ entry, e ≠ .add entry)
    (he : s.delivery.KeepsUnread e) : (s.serve e).Whole d c :=
  ⟨h.inv.serve hAdd, h.gatemen, h.delivery.step h.inv.delivery.handled.once he,
    h.forwarded.serve e⟩

theorem Whole.message (h : s.Whole d c) (server conn tid : Nat) (ipPort msg : Bytes) (xadd : Bool) :
    (s.step d c (.message server conn tid ipPort msg xadd)).Whole d c := by
  have hInv := h.inv.message server conn tid ipPort msg xadd
  have hForwarded := h.forwarded.step (c := c) h.inv.traced
    (.message server conn tid ipPort msg xadd)
  rw [LoginPath.step] at hInv hForwarded ⊢
  split
  · exact h
  rename_i name hName
  rw [hName] at hInv hForwarded
  dsimp only at hInv hForwarded ⊢
  generalize Function.update s.mMessageTypes _ _ = types at hInv hForwarded ⊢
  split
  · rename_i hNone
    rw [hNone] at hInv hForwarded
    exact ⟨hInv, h.gatemen, h.delivery, hForwarded⟩
  · rename_i carrier hCarrier
    rw [hCarrier] at hInv hForwarded
    cases xadd with
    | false => exact ⟨hInv, h.gatemen, h.delivery, hForwarded⟩
    | true =>
      exact ⟨hInv, ⟨h.gatemen.unbroken.add _, h.gatemen.covered, h.gatemen.deleting⟩, h.delivery,
        hForwarded⟩

theorem Whole.reader (h : s.Whole d c) (i : Nat) (world : σ) (xadd : Bool) :
    (s.step d c (.reader i world xadd)).Whole d c := by
  have hInv := h.inv.reader i world xadd
  have hForwarded := h.forwarded.reader (c := c) h.inv.traced i world xadd
  rw [LoginPath.step] at hInv hForwarded ⊢
  split
  · exact h
  · rename_i it hit
    rw [hit] at hInv hForwarded
    dsimp only at hInv hForwarded ⊢
    set handled := handledBy d world it.entry
    obtain ⟨hGatemen, hDelivery⟩ := respond_cases (s := s.reader c i handled xadd) it.id
      (s.gatemen.group.lastId + 1) xadd (it.step handled s.gatemen.group).2.2
    obtain ⟨readKey, hReader⟩ := s.reader_gatemen c i handled xadd
    refine ⟨hInv, ?_, ?_, hForwarded⟩
    · rw [hGatemen, hReader]
      exact h.gatemen.reader h.inv.gatemen i handled
    · rw [s.reader_delivery c i handled xadd] at hDelivery
      rcases hDelivery with hSame | ⟨entry, hAdded⟩
      · rw [hSame]
        exact h.delivery
      · rw [hAdded]
        exact h.delivery.step (e := .add entry) h.inv.delivery.handled.once trivial

theorem Whole.step (h : s.Whole d c) {maxLen : Nat} {e : LoginPathEvent σ}
    (he : s.Bounded maxLen e) : (s.step d c e).Whole d c := by
  rcases e with milliseconds | ⟨server, conn, tid, ipPort, msg, xadd⟩ | n | n | consumer |
    ⟨i, world, xadd⟩ | ⟨j, forget⟩ | ⟨j, siblings⟩ | ⟨server, name⟩ | server |
    ⟨server, conn⟩ | server
  case tick =>
    exact (h.database (Gatemen.calm_tick milliseconds) trivial).serve
      (fun _ => DeliveryEvent.noConfusion) trivial
  case message => exact h.message server conn tid ipPort msg xadd
  case trimRequests => exact h.database (Gatemen.calm_trim n) (Cuts.keeps h.gatemen.unbroken he)
  case trimAnswers =>
    exact h.serve (fun _ => DeliveryEvent.noConfusion) (Cuts.keeps h.delivery.unbroken he)
  case pull => exact h.database (Gatemen.calm_pull consumer) trivial
  case reader => exact h.reader i world xadd
  case manager => exact h.database (Gatemen.calm_manager j forget) trivial
  case otherStream => exact h.database (Gatemen.calm_otherStream j siblings) trivial
  case accept => exact h.serve (e := .accept server name) (fun _ => DeliveryEvent.noConfusion) trivial
  case setup => exact h.serve (e := .setup server) (fun _ => DeliveryEvent.noConfusion) trivial
  case close => exact h.serve (e := .close server conn) (fun _ => DeliveryEvent.noConfusion) trivial
  case consume => exact h.serve (e := .consume server) (fun _ => DeliveryEvent.noConfusion) trivial

/-- An answer that has been pushed. -/
theorem Whole.answer (h : s.Whole d c) {k q : Nat} (hAnswer : s.answered[k]? = some q) :
    s.AnswerAccounted (k + 1) := by
  have hLt : k < s.delivery.group.lastId := by
    rw [h.inv.delivery.sourced.lastId, h.inv.traced.added]
    exact (List.getElem?_eq_some_iff.mp hAnswer).1
  rcases Nat.lt_or_ge s.delivery.group.lastDelivered (k + 1) with hNew | hOld
  · exact Or.inl (h.delivery.unbroken.mem hNew hLt)
  · exact Or.inr (h.delivery.covered (k + 1) (Nat.succ_pos k) hOld)

/-- The response to a request that nobody has taken is among the answers, or Redis has not added
it. -/
theorem Whole.responded (h : s.Whole d c) {it : Iteration} {msg : Carrier} {acked : Bool} {q : Nat}
    {request : ClientRequest} (hit : it ∈ s.gatemen.iterations)
    (hStage : it.stage = .finished msg acked) (hTaken : it.id ∉ s.gatemen.taken)
    (hOrigin : s.origin it.id = some q) (hRequest : s.requests[q]? = some request)
    (hType : request.carrier.type ∈ Gateman.login.types) : q ∈ s.answered ∨ q ∈ s.unpushed := by
  have hSettled := h.inv.gatemen.settled it hit
  rw [Iteration.Settled, hStage] at hSettled
  have hAcked : acked = true := hSettled.2.mpr hTaken
  obtain ⟨q', request', hOrigin', hRequest', -, hCarries⟩ := h.inv.traced.iterations it hit
  obtain rfl := Option.some.inj (hOrigin.symm.trans hOrigin')
  obtain rfl := Option.some.inj (hRequest.symm.trans hRequest')
  rw [Iteration.Carries, hStage] at hCarries
  obtain ⟨name, -, hFrom⟩ := h.inv.traced.requests request (List.mem_of_getElem? hRequest)
  have hKey : msg.nextService = LoginServConf.BROKER_LOGIN_KEY := by
    rcases handled_cases hCarries with ⟨-, message, hMsg⟩ | ⟨hNot, -⟩
    · rw [hMsg]
      exact hFrom.service
    · exact absurd hType hNot
  have hNonempty : msg.nextService ≠ [] := by
    rw [hKey]
    decide
  have hResponses := h.inv.gatemen.responses it hit
  rw [Iteration.responses, hStage] at hResponses
  dsimp only at hResponses
  rw [response, if_pos ⟨hAcked, hNonempty⟩] at hResponses
  have hMem : (msg.nextService, msg.fill2Vec) ∈ s.gatemen.responses it.id := by
    rw [hResponses]
    exact List.mem_singleton.mpr rfl
  obtain ⟨⟨id, r⟩, hPushed, hPair⟩ := List.mem_map.mp hMem
  obtain ⟨hIn, hId⟩ := List.mem_filter.mp hPushed
  obtain rfl : id = it.id := of_decide_eq_true hId
  obtain rfl : r = (msg.nextService, msg.fill2Vec) := hPair
  obtain ⟨p, hp, hpOrigin⟩ := h.forwarded.pushed _ hIn hKey
  obtain rfl := Option.some.inj (hOrigin.symm.trans hpOrigin)
  exact hp

theorem Whole.accounted (h : s.Whole d c) {q : Nat} {request : ClientRequest}
    (hRequest : s.requests[q]? = some request)
    (hType : request.carrier.type ∈ Gateman.login.types) : s.Accounted q := by
  rcases h.forwarded.asked q (List.getElem?_eq_some_iff.mp hRequest).1 with
    hUnpushed | ⟨id, hPos, hOrigin⟩
  · exact .unpushed hUnpushed
  rcases Nat.lt_or_ge s.gatemen.group.lastDelivered id with hNew | hOld
  · obtain ⟨entry, hEntry⟩ := h.gatemen.unbroken.mem hNew (h.inv.traced.origin_le id q hOrigin)
    exact .waiting id entry hOrigin hEntry
  · obtain ⟨it, hit, rfl⟩ := h.gatemen.covered id hPos hOld
    rcases hStage : it.stage with _ | msg | msg | ⟨msg, acked⟩ | ⟨msg, acked⟩ | _
    case finished =>
      by_cases hTaken : it.id ∈ s.gatemen.taken
      · exact .taken it hOrigin hit hTaken
      · rcases h.responded hit hStage hTaken hOrigin hRequest hType with hMem | hUnpushed
        · obtain ⟨k, hAnswer⟩ := List.mem_iff_getElem?.mp hMem
          exact .answered k hAnswer (h.answer hAnswer)
        · exact .unpushed hUnpushed
    case thrown => exact .thrown it hOrigin hit hStage
    all_goals
      refine .working it hOrigin hit ?_
      rw [AtWork, hStage]
      trivial

/--
**No request is forgotten.** Over every interleaving in which neither stream has more than `maxLen`
entries waiting when XADD cuts it: a request with a handler is on the stream, with a reader, or
answered, except that Redis may not have added it or its answer, that its handler may have thrown
or that a pass over the pending entries may have acknowledged it first; and an answer is on its
stream, in the hands of a consumer, or at its end.
-/
theorem no_request_forgotten (d : Drivers σ) (c : Settings) (servers managers maxLen : Nat)
    (es : List (LoginPathEvent σ))
    (hBounded : Each (step d c) (Bounded maxLen) (start servers managers) es) :
    Always (step d c) (fun s => ∀ (q : Nat) (request : ClientRequest), s.requests[q]? = some request →
      request.carrier.type ∈ Gateman.login.types → s.Accounted q) (start servers managers) es := by
  have hWhole : Always (step d c) (Whole d c) (start servers managers) es :=
    always_of_each (fun _ _ => True) (fun _ _ _ _ _ _ => trivial)
      (fun _ _ _ _ h he => h.step he) (.start servers managers) trivial hBounded
  exact hWhole.imp fun _ h _ _ hRequest hType => h.accounted hRequest hType

/-- A client asks three times to log in, with streams of one entry. The first request is cut off
while a reader has it, and its answer while the consumer has it; the second is answered as well, and
Redis does not add the third. -/
def askToLogIn : List (LoginPathEvent Store) :=
  let name := generateConnID (literal "LoginServ") 7 (literal "10.0.0.1:40000")
  let ask := fun xadd => LoginPathEvent.message 0 0 0 (literal "10.0.0.1:40000")
    (packed (literal "LOGIN_LOGIN_MSG")
      [.scalar 8 20, .string (literal "ann"), .string (literal "secret")]) xadd
  let read := fun i => LoginPathEvent.reader i Store.empty true
  [.accept 0 name, .setup 0, .setup 0, ask true, .pull (literal "DB_1"), ask true, .trimRequests 1,
    read 0, read 0, read 0, .pull (literal "DB_1"), read 1, read 1, read 1, .consume 0,
    .trimAnswers 1, ask false, .consume 0, .consume 0, .consume 0]

theorem no_request_forgotten_askToLogIn :
    let d := Store.drivers (fun _ => []) 0
    let s := final (step d .initial) (start 1 1) askToLogIn
    Always (step d .initial) (fun s => ∀ (q : Nat) (request : ClientRequest),
      s.requests[q]? = some request → request.carrier.type ∈ Gateman.login.types →
        s.Accounted q) (start 1 1) askToLogIn ∧
      s.requests.length = 3 ∧ s.answered = [0, 1] ∧ s.unpushed = [2] ∧
      s.gatemen.group.entries.map Prod.fst = [2] ∧ s.delivery.group.entries.map Prod.fst = [2] ∧
      s.delivery.fates.map (fun r => (r.id, r.conn)) = [(1, some 0)] := by
  exact ⟨no_request_forgotten _ _ 1 1 1 askToLogIn (by decide +kernel), by decide +kernel⟩

end LoginPath

end Server

end WarringServer
