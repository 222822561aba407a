import WarringServer.Broker.RSBrokerManager
import WarringServer.DBServer.Gateman

/-!
# Replies — is every handled request answered?

The readers of `DBServGateman` and the passes of `RSBrokerManager` work on one stream and one
group. A reader runs the handler first, then acknowledges the entry, and answers only if it
was the one who took the entry out of the pending list. A pass may have done so
before, when the entry was pending for too long: then the request has been handled,
and nobody answers.

* `process_response` — an iteration pushes what `Gateman.process` returns for it;
* `answered_unless_taken` — over every interleaving: no entry is answered twice, and a handled
  one is answered once exactly if no pass took it out of the pending list before its reader. A
  pass does that only to an entry that was delivered a while ago;
* `not_every_answered` — a handler that takes its time.
-/

namespace WarringServer.Broker

open Message ConsumerGroup DBServer Run

/-- What is pushed onto a stream. -/
abbrev Response := Bytes × StreamEntry

/-- What the reader pushes at the end of an iteration. -/
def response (msg : Carrier) (acked : Bool) : Option Response :=
  if acked ∧ msg.nextService ≠ [] then some (msg.nextService, msg.fill2Vec) else none

/-- It is what a whole iteration is said to push by `Gateman.process`. -/
theorem process_response {σ : Type} {gateman : Gateman} {d : Drivers σ} {entry : StreamEntry}
    {s s' : σ} {acked : Bool} {r : Option Response}
    (h : (gateman.process d entry acked).exec s = (.ok r, s')) :
    ∃ msg msg', gateman.fill2This entry = .ok msg ∧
      (gateman.handled d msg).exec s = (.ok msg', s') ∧ r = response msg' acked := by
  rcases hFill : gateman.fill2This entry with fault | msg
  · rw [Gateman.process, hFill] at h
    cases h
  · have hPulled : (Job.ofExcept (.ok msg) : Task σ Carrier).exec s = (.ok msg, s) := rfl
    rw [Gateman.process, hFill, Job.exec_bind_ok hPulled] at h
    rcases hHandled : (gateman.handled d msg).exec s with ⟨fault | msg', s''⟩
    · rw [Job.exec_bind_error hHandled] at h
      cases h
    · rw [Job.exec_bind_ok hHandled] at h
      cases h
      exact ⟨msg, msg', rfl, hHandled, rfl⟩

-- ---------------------------------------------------------------------------
-- Iterations
-- ---------------------------------------------------------------------------

/-- Where an iteration of the reader's loop stands. -/
inductive Stage where
  /-- The entry has been pulled, the handler is next. -/
  | pulled
  | handled (msg : Carrier)
  /-- The entry of an error message is deleted. -/
  | deleted (msg : Carrier)
  /-- After `XACK`, with what it returned. -/
  | acked (msg : Carrier) (acked : Bool)
  | finished (msg : Carrier) (acked : Bool)
  /-- The handler has thrown, and the reader is gone. -/
  | thrown
  deriving DecidableEq, Repr

/-- A reader at work on an entry. -/
structure Iteration where
  id : Nat
  entry : StreamEntry
  /-- The time of the delivery. -/
  pulledAt : Nat
  stage : Stage
  deriving DecidableEq, Repr

namespace Iteration

/-- The next statement, on the stream of the reader. `handled` is what the handler makes of the
entry, `none` for an exception. -/
def step (handled : Option Carrier) (it : Iteration) (g : Group StreamEntry Bytes) :
    Iteration × Group StreamEntry Bytes × Option Response :=
  match it.stage with
  | .pulled =>
    match handled with
    | some msg => ({ it with stage := .handled msg }, g, none)
    | none => ({ it with stage := .thrown }, g, none)
  | .handled msg =>
    if msg.type = DBServConf.MESSAGE_LOGIN_ERROR_MSG then
      ({ it with stage := .deleted msg }, g.delete it.id, none)
    else
      ({ it with stage := .acked msg (g.ack it.id).2 }, (g.ack it.id).1, none)
  | .deleted msg => ({ it with stage := .acked msg (g.ack it.id).2 }, (g.ack it.id).1, none)
  | .acked msg acked => ({ it with stage := .finished msg acked }, g, response msg acked)
  | .finished _ _ | .thrown => (it, g, none)

/-- The reader has not come to the acknowledgement, or never will. -/
def Waiting (it : Iteration) : Prop :=
  match it.stage with
  | .pulled | .handled _ | .deleted _ | .thrown => True
  | .acked _ _ | .finished _ _ => False

/-- What the iteration has pushed. -/
def responses (it : Iteration) : List Response :=
  match it.stage with
  | .finished msg acked => (response msg acked).toList
  | .pulled | .handled _ | .deleted _ | .acked _ _ | .thrown => []

/-- The acknowledgement, if it has been made, was the reader's own exactly if no pass has taken
the entry; else the entry is pending or taken. -/
def Settled (ids taken : List Nat) (it : Iteration) : Prop :=
  match it.stage with
  | .pulled | .handled _ | .deleted _ | .thrown => it.id ∈ ids ↔ it.id ∉ taken
  | .acked _ acked | .finished _ acked => it.id ∉ ids ∧ (acked = true ↔ it.id ∉ taken)

variable {it : Iteration} {g : Group StreamEntry Bytes} {handled : Option Carrier}

/-- **What a statement does**: it leaves the pending list alone, or it is the acknowledgement, or
the push. -/
theorem step_cases (handled : Option Carrier) (it : Iteration) (g : Group StreamEntry Bytes) :
    let r := it.step handled g
    (r.1.id = it.id ∧ r.1.pulledAt = it.pulledAt ∧ r.2.1.lastDelivered = g.lastDelivered) ∧
      ((it.Waiting ∧ r.1.Waiting ∧ r.2.1.pending = g.pending ∧ r.2.2 = none) ∨
        (it.Waiting ∧ (∃ msg, r.1.stage = .acked msg (g.ack it.id).2) ∧
          r.2.1 = (g.ack it.id).1 ∧ r.2.2 = none) ∨
        (∃ msg acked, it.stage = .acked msg acked ∧ r.1.stage = .finished msg acked ∧
          r.2.1 = g ∧ r.2.2 = response msg acked) ∨
        r = (it, g, none)) := by
  obtain ⟨id, entry, pulledAt, stage⟩ := it
  rcases stage with _ | msg | msg | ⟨msg, acked⟩ | ⟨msg, acked⟩ | _
  case pulled =>
    rcases handled with _ | msg
    · exact ⟨⟨rfl, rfl, rfl⟩, Or.inl ⟨trivial, trivial, rfl, rfl⟩⟩
    · exact ⟨⟨rfl, rfl, rfl⟩, Or.inl ⟨trivial, trivial, rfl, rfl⟩⟩
  case handled =>
    simp only [step]
    split
    · exact ⟨⟨rfl, rfl, rfl⟩, Or.inl ⟨trivial, trivial, rfl, rfl⟩⟩
    · exact ⟨⟨rfl, rfl, rfl⟩, Or.inr (Or.inl ⟨trivial, ⟨msg, rfl⟩, rfl, rfl⟩)⟩
  case deleted => exact ⟨⟨rfl, rfl, rfl⟩, Or.inr (Or.inl ⟨trivial, ⟨msg, rfl⟩, rfl, rfl⟩)⟩
  case acked =>
    exact ⟨⟨rfl, rfl, rfl⟩, Or.inr (Or.inr (Or.inl ⟨msg, acked, rfl, rfl, rfl, rfl⟩))⟩
  all_goals exact ⟨⟨rfl, rfl, rfl⟩, Or.inr (Or.inr (Or.inr rfl))⟩

theorem settled_of_waiting (h : it.Waiting) {ids taken : List Nat} :
    it.Settled ids taken ↔ (it.id ∈ ids ↔ it.id ∉ taken) := by
  obtain ⟨id, entry, pulledAt, stage⟩ := it
  rcases stage with _ | msg | msg | ⟨msg, acked⟩ | ⟨msg, acked⟩ | _
  case acked | finished => exact h.elim
  all_goals exact Iff.rfl

theorem responses_of_waiting (h : it.Waiting) : it.responses = [] := by
  obtain ⟨id, entry, pulledAt, stage⟩ := it
  rcases stage with _ | msg | msg | ⟨msg, acked⟩ | ⟨msg, acked⟩ | _
  case acked | finished => exact h.elim
  all_goals rfl

theorem Settled.congr {ids ids' taken : List Nat} (h : it.Settled ids taken)
    (hIds : it.id ∈ ids' ↔ it.id ∈ ids) : it.Settled ids' taken := by
  unfold Settled at h ⊢
  split
  all_goals
    rename_i hStage
    rw [hStage] at h
    dsimp only at h
    rw [hIds]
    exact h

/-- A pass takes what it removes. -/
theorem Settled.pass {ids ids' taken : List Nat} (h : it.Settled ids taken)
    (hSub : ∀ id ∈ ids', id ∈ ids) :
    it.Settled ids' (taken ++ ids.filter fun id => id ∉ ids') := by
  have hTaken : it.id ∉ taken ++ (ids.filter fun id => id ∉ ids') ↔
      it.id ∉ taken ∧ (it.id ∈ ids → it.id ∈ ids') := by
    simp
  have hSubId := hSub it.id
  unfold Settled at h ⊢
  split
  all_goals
    rename_i hStage
    rw [hStage] at h
    dsimp only at h
    rw [hTaken]
    tauto

end Iteration

-- ---------------------------------------------------------------------------
-- The system
-- ---------------------------------------------------------------------------

structure Gatemen where
  now : Nat
  group : Group StreamEntry Bytes
  iterations : List Iteration
  managers : List Manager
  /-- The responses, with the ids of the entries they answer. -/
  pushed : List (Nat × Response)
  /-- The entries that a pass has taken out of the pending list. -/
  taken : List Nat
  deriving Repr

inductive GatemenEvent where
  | tick (milliseconds : Nat)
  /-- A request is pushed onto the stream. -/
  | add (entry : StreamEntry)
  /-- What an XADD with MAXLEN deletes. -/
  | trim (n : Nat)
  /-- A reader pulls, as this consumer. -/
  | pull (consumer : Bytes)
  | reader (i : Nat) (handled : Option Carrier)
  | manager (j : Nat) (forget : Bool)
  /-- The pass of manager `j` over another stream, whose group has the same name. -/
  | otherStream (j : Nat) (siblings : List Bytes)
  deriving Repr

namespace Gatemen

/-- Nothing has been pushed; `n` managers have just been started. -/
def start (n : Nat) : Gatemen := ⟨0, .empty, [], List.replicate n .new, [], []⟩

/-- A response may go to the stream of the readers itself. -/
def deliver (readKey : Bytes) (r : Option Response) (g : Group StreamEntry Bytes) :
    Group StreamEntry Bytes :=
  match r with
  | some (key, entry) => if key = readKey then g.add entry else g
  | none => g

def step (readKey : Bytes) (c : Settings) (s : Gatemen) : GatemenEvent → Gatemen
  | .tick milliseconds => { s with now := s.now + milliseconds }
  | .add entry => { s with group := s.group.add entry }
  | .trim n => { s with group := s.group.trim n }
  | .pull consumer =>
    let r := s.group.read consumer s.now
    { s with
      group := r.1
      iterations := s.iterations ++ r.2.toList.map fun e => ⟨e.1, e.2, s.now, .pulled⟩ }
  | .reader i handled =>
    match s.iterations[i]? with
    | none => s
    | some it =>
      let r := it.step handled s.group
      { s with
        iterations := s.iterations.set i r.1
        group := deliver readKey r.2.2 r.2.1
        pushed := s.pushed ++ r.2.2.toList.map fun x => (it.id, x) }
  | .manager j forget =>
    match s.managers[j]? with
    | none => s
    | some m =>
      let r := m.step c s.now forget s.group
      { s with
        managers := s.managers.set j r.1
        group := r.2
        taken := s.taken ++ s.group.ids.filter fun id => id ∉ r.2.ids }
  | .otherStream j siblings =>
    match s.managers[j]? with
    | none => s
    | some m => { s with managers := s.managers.set j { m with siblings := siblings } }

/-- The responses to an entry. -/
def responses (s : Gatemen) (id : Nat) : List Response :=
  (s.pushed.filter (·.1 = id)).map Prod.snd

/-- The property: an iteration that is finished, with somewhere to answer, has pushed its response. -/
def EveryAnswered (s : Gatemen) : Prop :=
  ∀ it ∈ s.iterations, ∀ msg acked, it.stage = .finished msg acked → msg.nextService ≠ [] →
    s.responses it.id = [(msg.nextService, msg.fill2Vec)]

/-- What holds instead. -/
structure Answered (c : Settings) (s : Gatemen) : Prop where
  /-- An entry has one iteration at most. -/
  pulled_once : (s.iterations.map Iteration.id).Nodup
  at_most_once : ∀ id, (s.responses id).length ≤ 1
  /-- One response, or none if a pass has taken the entry. -/
  finished : ∀ it ∈ s.iterations, ∀ msg acked, it.stage = .finished msg acked →
    msg.nextService ≠ [] →
      s.responses it.id = if it.id ∈ s.taken then [] else [(msg.nextService, msg.fill2Vec)]
  /-- No entry is taken early. -/
  taken_late : ∀ it ∈ s.iterations, it.id ∈ s.taken → it.pulledAt + c.patience < s.now

-- ---------------------------------------------------------------------------
-- The invariant
-- ---------------------------------------------------------------------------

/-- The entries that have been pulled, with the times of their delivery. -/
def marks (s : Gatemen) : List (Nat × Nat) :=
  s.iterations.map fun it => (it.id, it.pulledAt)

/-- The entry was delivered some time before `at` at the latest. -/
def Late (c : Settings) (s : Gatemen) (id : Nat) : Prop :=
  ∃ t, (id, t) ∈ s.marks ∧ t + c.patience < s.now

structure Inv (c : Settings) (s : Gatemen) : Prop where
  once : (s.iterations.map Iteration.id).Nodup
  delivered : ∀ it ∈ s.iterations, it.id ≤ s.group.lastDelivered
  settled : ∀ it ∈ s.iterations, it.Settled s.group.ids s.taken
  responses : ∀ it ∈ s.iterations, s.responses it.id = it.responses
  answered : ∀ x ∈ s.pushed, ∃ t, (x.1, t) ∈ s.marks
  rows : ∀ p ∈ s.group.pending, ∃ t, (p.id, t) ∈ s.marks ∧ t ≤ p.deliveredAt ∧
    p.deliveredAt ≤ s.now ∧ (1 < p.deliveredNum → t + c.patience < s.now)
  told : ∀ m ∈ s.managers, ∀ item ∈ m.items, ∃ t, (item.id, t) ∈ s.marks ∧
    t + item.idle ≤ s.now ∧ (1 < item.deliveredNum → t + c.patience < s.now)
  late : ∀ id ∈ s.taken, s.Late c id

variable {c : Settings} {s s' : Gatemen} {readKey : Bytes}

theorem mem_marks {id t : Nat} :
    (id, t) ∈ s.marks ↔ ∃ it ∈ s.iterations, it.id = id ∧ it.pulledAt = t := by
  simp [marks]

theorem Inv.start (c : Settings) (n : Nat) : Inv c (start n) where
  once := List.nodup_nil
  delivered _ h := absurd h List.not_mem_nil
  settled _ h := absurd h List.not_mem_nil
  responses _ h := absurd h List.not_mem_nil
  answered _ h := absurd h List.not_mem_nil
  rows _ h := absurd h List.not_mem_nil
  told m hm item hItem := by
    rw [List.eq_of_mem_replicate hm] at hItem
    exact absurd hItem List.not_mem_nil
  late _ h := absurd h List.not_mem_nil

/-- An event that leaves the readers, the pending list and what the passes know alone. -/
theorem Inv.frame (h : Inv c s) (hIterations : s'.iterations = s.iterations)
    (hPushed : s'.pushed = s.pushed) (hTaken : s'.taken = s.taken)
    (hPending : s'.group.pending = s.group.pending)
    (hLast : s'.group.lastDelivered = s.group.lastDelivered) (hNow : s.now ≤ s'.now)
    (hItems : ∀ m ∈ s'.managers, ∀ item ∈ m.items, ∃ m' ∈ s.managers, item ∈ m'.items) :
    Inv c s' := by
  have hMarks : s'.marks = s.marks := by rw [marks, hIterations, marks]
  have hIds : s'.group.ids = s.group.ids := by rw [Group.ids, hPending, Group.ids]
  have hResponses : ∀ id, s'.responses id = s.responses id := fun id => by
    rw [Gatemen.responses, hPushed, Gatemen.responses]
  refine ⟨by rw [hIterations]; exact h.once, ?_, ?_, ?_, ?_, ?_, ?_, ?_⟩
  · rw [hIterations, hLast]
    exact h.delivered
  · rw [hIterations, hIds, hTaken]
    exact h.settled
  · intro it hit
    rw [hResponses]
    exact h.responses it (hIterations ▸ hit)
  · rw [hPushed, hMarks]
    exact h.answered
  · intro p hp
    obtain ⟨t, hMark, hAfter, hBefore, hAgain⟩ := h.rows p (hPending ▸ hp)
    exact ⟨t, hMarks ▸ hMark, hAfter, hBefore.trans hNow, fun hNum => (hAgain hNum).trans_le hNow⟩
  · intro m hm item hItem
    obtain ⟨m', hm', hItem'⟩ := hItems m hm item hItem
    obtain ⟨t, hMark, hIdle, hAgain⟩ := h.told m' hm' item hItem'
    exact ⟨t, hMarks ▸ hMark, hIdle.trans hNow, fun hNum => (hAgain hNum).trans_le hNow⟩
  · intro id hid
    obtain ⟨t, hMark, hLate⟩ := h.late id (hTaken ▸ hid)
    exact ⟨t, hMarks ▸ hMark, hLate.trans_le hNow⟩

/-- Nothing is known of an entry that has not been delivered. -/
theorem Inv.fresh (h : Inv c s) {id : Nat} (hNew : s.group.lastDelivered < id) :
    id ∉ s.group.ids ∧ id ∉ s.taken ∧ s.responses id = [] := by
  have hUnmarked : ∀ t, (id, t) ∉ s.marks := by
    intro t hMark
    obtain ⟨it, hit, rfl, -⟩ := mem_marks.mp hMark
    exact absurd (h.delivered it hit) (by omega)
  refine ⟨?_, ?_, ?_⟩
  · intro hMem
    obtain ⟨p, hp, rfl⟩ := List.mem_map.mp hMem
    obtain ⟨t, hMark, -⟩ := h.rows p hp
    exact hUnmarked t hMark
  · intro hMem
    obtain ⟨t, hMark, -⟩ := h.late id hMem
    exact hUnmarked t hMark
  · rw [Gatemen.responses, List.map_eq_nil_iff, List.filter_eq_nil_iff]
    intro x hx hId
    obtain ⟨t, hMark⟩ := h.answered x hx
    rw [of_decide_eq_true hId] at hMark
    exact hUnmarked t hMark

theorem Inv.pull (h : Inv c s) (consumer : Bytes) : Inv c (s.step readKey c (.pull consumer)) := by
  rcases hRead : (s.group.read consumer s.now).2 with _ | e
  · obtain ⟨hLast, hPending⟩ := Group.read_none hRead
    refine h.frame ?_ rfl rfl hPending hLast le_rfl fun m hm _ hItem => ⟨m, hm, hItem⟩
    rw [Gatemen.step, hRead]
    exact List.append_nil _
  · obtain ⟨hNew, hLast, hPending⟩ := Group.read_spec hRead
    obtain ⟨hNotPending, hNotTaken, hNoResponse⟩ := h.fresh hNew
    have hStep : s.step readKey c (.pull consumer) =
        { s with
          group := (s.group.read consumer s.now).1
          iterations := s.iterations ++ [⟨e.1, e.2, s.now, .pulled⟩] } := by
      rw [Gatemen.step, hRead]
      rfl
    have hIds : (s.group.read consumer s.now).1.ids = s.group.ids ++ [e.1] := by
      rw [Group.ids, hPending, List.map_append]
      rfl
    rw [hStep]
    have hMarks : ∀ x ∈ s.marks, x ∈ marks { s with
        group := (s.group.read consumer s.now).1
        iterations := s.iterations ++ [⟨e.1, e.2, s.now, .pulled⟩] } := by
      intro x hx
      rw [marks, List.map_append]
      exact List.mem_append_left _ hx
    refine ⟨?_, ?_, ?_, ?_, ?_, ?_, ?_, ?_⟩
    · rw [List.map_append, List.nodup_append]
      refine ⟨h.once, by simp, ?_⟩
      intro a ha b hb hEq
      obtain ⟨it, hit, rfl⟩ := List.mem_map.mp ha
      obtain rfl : b = e.1 := by simpa using hb
      exact absurd ((h.delivered it hit).trans_lt hNew) (by omega)
    · intro it hit
      rw [hLast]
      rcases List.mem_append.mp hit with hOld | hLastIt
      · exact ((h.delivered it hOld).trans_lt hNew).le
      · rw [List.mem_singleton.mp hLastIt]
    · intro it hit
      rw [hIds]
      rcases List.mem_append.mp hit with hOld | hLastIt
      · refine (h.settled it hOld).congr ?_
        have hNe : it.id ≠ e.1 := ((h.delivered it hOld).trans_lt hNew).ne
        simp [hNe]
      · rw [List.mem_singleton.mp hLastIt]
        simp [Iteration.Settled, hNotTaken]
    · intro it hit
      rcases List.mem_append.mp hit with hOld | hLastIt
      · exact h.responses it hOld
      · rw [List.mem_singleton.mp hLastIt]
        exact hNoResponse
    · intro x hx
      obtain ⟨t, hMark⟩ := h.answered x hx
      exact ⟨t, hMarks _ hMark⟩
    · intro p hp
      rw [hPending] at hp
      rcases List.mem_append.mp hp with hOld | hRow
      · obtain ⟨t, hMark, hTimes⟩ := h.rows p hOld
        exact ⟨t, hMarks _ hMark, hTimes⟩
      · rw [List.mem_singleton.mp hRow]
        exact ⟨s.now, mem_marks.mpr ⟨_, List.mem_append_right _ List.mem_cons_self, rfl, rfl⟩,
          le_rfl, le_rfl, fun hNum => absurd hNum (lt_irrefl 1)⟩
    · intro m hm item hItem
      obtain ⟨t, hMark, hTimes⟩ := h.told m hm item hItem
      exact ⟨t, hMarks _ hMark, hTimes⟩
    · intro id hid
      obtain ⟨t, hMark, hLate⟩ := h.late id hid
      exact ⟨t, hMarks _ hMark, hLate⟩

theorem map_set_of_eq {α β : Type} {f : α → β} {l : List α} {i : Nat} {a b : α} (h : l[i]? = some a)
    (hf : f b = f a) : (l.set i b).map f = l.map f := by
  obtain ⟨hi, rfl⟩ := List.getElem?_eq_some_iff.mp h
  rw [List.map_set, hf, ← List.getElem_map f (h := by simpa using hi), List.set_getElem_self]

/-- A reader moves: its iteration stays settled, and the pending list loses at most its entry. -/
theorem Inv.set (h : Inv c s) {i : Nat} {it it' : Iteration} (hit : s.iterations[i]? = some it)
    {g : Group StreamEntry Bytes} {new : List Response} (hId : it'.id = it.id)
    (hPulledAt : it'.pulledAt = it.pulledAt) (hLast : g.lastDelivered = s.group.lastDelivered)
    (hPending : ∀ p ∈ g.pending, p ∈ s.group.pending)
    (hIds : ∀ id, id ≠ it.id → (id ∈ g.ids ↔ id ∈ s.group.ids))
    (hSettled : it'.Settled g.ids s.taken) (hResponses : s.responses it.id ++ new = it'.responses) :
    Inv c { s with
      iterations := s.iterations.set i it'
      group := g
      pushed := s.pushed ++ new.map fun x => (it.id, x) } := by
  have hMem : it ∈ s.iterations := List.mem_of_getElem? hit
  have hMarks : marks { s with
      iterations := s.iterations.set i it'
      group := g
      pushed := s.pushed ++ new.map fun x => (it.id, x) } = s.marks :=
    map_set_of_eq hit (Prod.ext hId hPulledAt)
  have hOnce : ((s.iterations.set i it').map Iteration.id) = s.iterations.map Iteration.id :=
    map_set_of_eq hit hId
  -- another iteration has another id
  have hOther : ∀ x ∈ s.iterations.set i it', x = it' ∨ x ∈ s.iterations ∧ x.id ≠ it.id := by
    intro x hx
    by_cases hSame : x.id = it.id
    · have hNodup : ((s.iterations.set i it').map Iteration.id).Nodup := hOnce ▸ h.once
      have hSelf := List.mem_set (List.getElem?_eq_some_iff.mp hit).1 it'
      exact Or.inl (List.inj_on_of_nodup_map hNodup hx hSelf (hSame.trans hId.symm))
    · rcases List.mem_or_eq_of_mem_set hx with hOld | rfl
      · exact Or.inr ⟨hOld, hSame⟩
      · exact absurd hId hSame
  have hNew : ∀ id, ((new.map fun r => (it.id, r)).filter (·.1 = id)).map Prod.snd =
      if it.id = id then new else [] := by
    intro id
    rw [List.filter_map, List.map_map]
    split
    · rename_i hSame
      simp [Function.comp_def, hSame]
    · rename_i hNe
      simp [Function.comp_def, hNe]
  refine ⟨by rw [hOnce]; exact h.once, ?_, ?_, ?_, ?_, ?_, ?_, ?_⟩
  · intro x hx
    rw [hLast]
    rcases hOther x hx with rfl | ⟨hOld, -⟩
    · exact hId ▸ h.delivered it hMem
    · exact h.delivered x hOld
  · intro x hx
    rcases hOther x hx with rfl | ⟨hOld, hNe⟩
    · exact hSettled
    · exact (h.settled x hOld).congr (hIds x.id hNe)
  · intro x hx
    rw [Gatemen.responses, List.filter_append, List.map_append]
    rcases hOther x hx with rfl | ⟨hOld, hNe⟩
    · rw [← hResponses, hId, hNew, if_pos rfl]
      rfl
    · rw [hNew, if_neg (Ne.symm hNe), List.append_nil]
      exact h.responses x hOld
  · intro x hx
    rw [hMarks]
    rcases List.mem_append.mp hx with hOld | hNew
    · exact h.answered x hOld
    · obtain ⟨r, -, rfl⟩ := List.mem_map.mp hNew
      exact ⟨it.pulledAt, mem_marks.mpr ⟨it, hMem, rfl, rfl⟩⟩
  · intro p hp
    rw [hMarks]
    exact h.rows p (hPending p hp)
  · intro m hm item hItem
    rw [hMarks]
    exact h.told m hm item hItem
  · intro id hid
    rw [Late, hMarks]
    exact h.late id hid

theorem deliver_frame (readKey : Bytes) (r : Option Response) (g : Group StreamEntry Bytes) :
    (deliver readKey r g).pending = g.pending ∧
      (deliver readKey r g).lastDelivered = g.lastDelivered := by
  unfold deliver
  split
  · split
    · exact ⟨rfl, rfl⟩
    · exact ⟨rfl, rfl⟩
  · exact ⟨rfl, rfl⟩

theorem step_reader {i : Nat} {handled : Option Carrier} {it it' : Iteration}
    {g : Group StreamEntry Bytes} {r : Option Response} (hit : s.iterations[i]? = some it)
    (hStep : it.step handled s.group = (it', g, r)) :
    s.step readKey c (.reader i handled) =
      { s with
        iterations := s.iterations.set i it'
        group := deliver readKey r g
        pushed := s.pushed ++ r.toList.map fun x => (it.id, x) } := by
  rw [Gatemen.step, hit]
  dsimp only
  rw [hStep]

theorem Inv.reader (h : Inv c s) (i : Nat) (handled : Option Carrier) :
    Inv c (s.step readKey c (.reader i handled)) := by
  rcases hit : s.iterations[i]? with _ | it
  · rw [Gatemen.step, hit]
    exact h
  rcases hStep : it.step handled s.group with ⟨it', g, r⟩
  rw [step_reader hit hStep]
  have hMem : it ∈ s.iterations := List.mem_of_getElem? hit
  have hSettled := h.settled it hMem
  have hResponses := h.responses it hMem
  obtain ⟨⟨hId, hPulledAt, hLast⟩, hCases⟩ := it.step_cases handled s.group
  rw [hStep] at hId hPulledAt hLast hCases
  dsimp only at hId hPulledAt hLast hCases
  obtain ⟨hDelivered, hDeliveredLast⟩ := deliver_frame readKey r g
  have hIds : (deliver readKey r g).ids = g.ids := by rw [Group.ids, hDelivered, Group.ids]
  rcases hCases with ⟨hWaiting, hWaiting', hSame, rfl⟩ | ⟨hWaiting, ⟨msg, hStage⟩, rfl, rfl⟩ |
    ⟨msg, acked, hStage, hStage', rfl, rfl⟩ | hStay
  · have hSameIds : g.ids = s.group.ids := by rw [Group.ids, hSame, Group.ids]
    refine h.set hit hId hPulledAt hLast (fun p hp => hSame ▸ hp) (fun id _ => ?_) ?_ ?_
    · rw [hIds, hSameIds]
    · rw [hIds, Iteration.settled_of_waiting hWaiting', hSameIds, hId]
      exact (Iteration.settled_of_waiting hWaiting).mp hSettled
    · rw [hResponses, Iteration.responses_of_waiting hWaiting,
        Iteration.responses_of_waiting hWaiting']
      rfl
  · -- the acknowledgement
    have hWas := (Iteration.settled_of_waiting hWaiting).mp hSettled
    refine h.set hit hId hPulledAt hLast (fun p hp => (List.mem_filter.mp hp).1) (fun id hNe => ?_)
      ?_ ?_
    · rw [hIds, Group.mem_ids_ack, and_iff_left hNe]
    · rw [hIds, Iteration.Settled, hStage]
      dsimp only
      rw [hId, Group.mem_ids_ack, ← hWas]
      exact ⟨fun hBoth => hBoth.2 rfl, decide_eq_true_iff⟩
    · rw [hResponses, Iteration.responses_of_waiting hWaiting, Iteration.responses, hStage]
      rfl
  · -- the push
    rw [Iteration.Settled, hStage] at hSettled
    refine h.set hit hId hPulledAt (hDeliveredLast.trans hLast) (fun p hp => hDelivered ▸ hp)
      (fun id _ => by rw [hIds]) ?_ ?_
    · rw [hIds, Iteration.Settled, hStage', hId]
      exact hSettled
    · rw [hResponses, Iteration.responses, hStage, Iteration.responses, hStage']
      rfl
  · cases hStay
    exact h.set hit rfl rfl rfl (fun p hp => hp) (fun id _ => Iff.rfl) hSettled
      (by rw [hResponses]; exact List.append_nil _)

theorem step_manager {j : Nat} {forget : Bool} {m m' : Manager} {g : Group StreamEntry Bytes}
    (hm : s.managers[j]? = some m) (hStep : m.step c s.now forget s.group = (m', g)) :
    s.step readKey c (.manager j forget) =
      { s with
        managers := s.managers.set j m'
        group := g
        taken := s.taken ++ s.group.ids.filter fun id => id ∉ g.ids } := by
  rw [Gatemen.step, hm]
  dsimp only
  rw [hStep]

/-- An item that a pass touches was delivered some time ago. -/
theorem Inv.touched (h : Inv c s) {m : Manager} (hm : m ∈ s.managers)
    {item : PendingItem Bytes} (hItem : item ∈ m.items) (hTouched : Manager.Touched c item) :
    s.Late c item.id := by
  obtain ⟨t, hMark, hIdle, hAgain⟩ := h.told m hm item hItem
  rcases hTouched with hDead | hLong
  · exact ⟨t, hMark, hAgain (lt_of_lt_of_le (by decide) (c.maxDelivered_ge.trans hDead.le))⟩
  · exact ⟨t, hMark, by omega⟩

theorem Inv.manager (h : Inv c s) (j : Nat) (forget : Bool) :
    Inv c (s.step readKey c (.manager j forget)) := by
  rcases hm : s.managers[j]? with _ | m
  · rw [Gatemen.step, hm]
    exact h
  rcases hStep : m.step c s.now forget s.group with ⟨m', g⟩
  rw [step_manager hm hStep]
  have hMem : m ∈ s.managers := List.mem_of_getElem? hm
  obtain ⟨hLast, hPending⟩ := m.step_pending c s.now forget s.group
  rw [hStep] at hLast hPending
  dsimp only at hLast hPending
  -- what becomes of the ids
  have hIds : (∀ id ∈ g.ids, id ∈ s.group.ids) ∧
      ∀ id ∈ s.group.ids, id ∉ g.ids → s.Late c id := by
    rcases hPending with hSame | ⟨item, hItem, hTouched, hGone | ⟨-, sibling, hMoved⟩⟩
    · rw [Group.ids, hSame]
      exact ⟨fun id hid => hid, fun id hid hNot => absurd hid hNot⟩
    · have hAck : g.ids = (s.group.ack item.id).1.ids := by rw [Group.ids, hGone, Group.ids]
      rw [hAck]
      refine ⟨fun id hid => (Group.mem_ids_ack.mp hid).1, fun id hid hNot => ?_⟩
      rw [Group.mem_ids_ack, not_and_not_right] at hNot
      exact hNot hid ▸ h.touched hMem hItem hTouched
    · have hSame : g.ids = s.group.ids := by
        rw [Group.ids, hMoved, List.map_map, Group.ids]
        refine List.map_congr_left ?_
        intro p _
        rw [Function.comp_apply]
        split
        · exact Eq.symm ‹p.id = item.id›
        · rfl
      rw [hSame]
      exact ⟨fun id hid => hid, fun id hid hNot => absurd hid hNot⟩
  have hRows : ∀ p ∈ g.pending, ∃ t, (p.id, t) ∈ s.marks ∧ t ≤ p.deliveredAt ∧
      p.deliveredAt ≤ s.now ∧ (1 < p.deliveredNum → t + c.patience < s.now) := by
    rcases hPending with hSame | ⟨item, hItem, hTouched, hGone | ⟨hIdle, sibling, hMoved⟩⟩
    · rw [hSame]
      exact h.rows
    · rw [hGone]
      exact fun p hp => h.rows p (List.mem_filter.mp hp).1
    · rw [hMoved]
      intro p hp
      obtain ⟨p, hOld, rfl⟩ := List.mem_map.mp hp
      split
      · obtain ⟨t, hMark, hLate⟩ := h.touched hMem hItem hTouched
        exact ⟨t, hMark, by dsimp only; omega, le_rfl, fun _ => hLate⟩
      · exact h.rows p hOld
  refine ⟨h.once, ?_, ?_, h.responses, h.answered, hRows, ?_, ?_⟩
  · intro it hit
    rw [hLast]
    exact h.delivered it hit
  · intro it hit
    exact (h.settled it hit).pass hIds.1
  · intro m'' hm'' item hItem
    rcases List.mem_or_eq_of_mem_set hm'' with hOld | rfl
    · exact h.told m'' hOld item hItem
    · have hNext : item ∈ (m.step c s.now forget s.group).1.items := by
        rw [hStep]
        exact hItem
      rcases Manager.mem_items_step hNext with hTold | ⟨p, hp, rfl⟩
      · exact h.told m hMem item hTold
      · obtain ⟨t, hMark, hAfter, hBefore, hAgain⟩ := h.rows p hp
        exact ⟨t, hMark, by dsimp only; omega, hAgain⟩
  · intro id hid
    rcases List.mem_append.mp hid with hOld | hNew
    · exact h.late id hOld
    · obtain ⟨hWas, hGone⟩ := List.mem_filter.mp hNew
      exact hIds.2 id hWas (of_decide_eq_true hGone)

theorem Inv.step (h : Inv c s) (e : GatemenEvent) : Inv c (s.step readKey c e) := by
  rcases e with milliseconds | entry | n | consumer | ⟨i, handled⟩ | ⟨j, forget⟩ | ⟨j, siblings⟩
  case tick =>
    exact h.frame rfl rfl rfl rfl rfl (Nat.le_add_right _ _) fun m hm _ hItem => ⟨m, hm, hItem⟩
  case add => exact h.frame rfl rfl rfl rfl rfl le_rfl fun m hm _ hItem => ⟨m, hm, hItem⟩
  case trim => exact h.frame rfl rfl rfl rfl rfl le_rfl fun m hm _ hItem => ⟨m, hm, hItem⟩
  case pull => exact h.pull consumer
  case reader => exact h.reader i handled
  case manager => exact h.manager j forget
  case otherStream =>
    rcases hm : s.managers[j]? with _ | m
    · rw [Gatemen.step, hm]
      exact h
    · rw [Gatemen.step, hm]
      refine h.frame rfl rfl rfl rfl rfl le_rfl ?_
      intro m' hm' item hItem
      rcases List.mem_or_eq_of_mem_set hm' with hOld | rfl
      · exact ⟨m', hOld, hItem⟩
      · exact ⟨m, List.mem_of_getElem? hm, hItem⟩

theorem Inv.pulledAt_eq (h : Inv c s) {it : Iteration} (hit : it ∈ s.iterations) {t : Nat}
    (hMark : (it.id, t) ∈ s.marks) : t = it.pulledAt := by
  obtain ⟨it', hit', hId, rfl⟩ := mem_marks.mp hMark
  rw [List.inj_on_of_nodup_map h.once hit' hit hId]

theorem Inv.answers (h : Inv c s) : s.Answered c where
  pulled_once := h.once
  at_most_once id := by
    by_cases hSome : s.responses id = []
    · rw [hSome]
      exact Nat.zero_le _
    · obtain ⟨x, hx⟩ :=
        List.exists_mem_of_ne_nil _ (fun hNil => hSome (List.map_eq_nil_iff.mpr hNil))
      obtain ⟨hMem, hId⟩ := List.mem_filter.mp hx
      obtain ⟨t, hMark⟩ := h.answered x hMem
      obtain ⟨it, hit, hItId, -⟩ := mem_marks.mp hMark
      have hSame : it.id = id := hItId.trans (of_decide_eq_true hId)
      rw [← hSame, h.responses it hit, Iteration.responses]
      split
      · rw [Option.length_toList]
        split
        all_goals decide
      all_goals exact Nat.zero_le _
  finished it hit msg acked hStage hNext := by
    have hSettled := h.settled it hit
    rw [Iteration.Settled, hStage] at hSettled
    rw [h.responses it hit, Iteration.responses, hStage]
    dsimp only
    by_cases hTaken : it.id ∈ s.taken
    · have hNot : ¬ acked = true := fun hAcked => hSettled.2.mp hAcked hTaken
      rw [if_pos hTaken, response, if_neg (fun hBoth => hNot hBoth.1)]
      rfl
    · rw [if_neg hTaken, response, if_pos ⟨hSettled.2.mpr hTaken, hNext⟩]
      rfl
  taken_late it hit hTaken := by
    obtain ⟨t, hMark, hLate⟩ := h.late it.id hTaken
    rwa [h.pulledAt_eq hit hMark] at hLate

/--
**Handled requests.** Over every interleaving of the statements of any number of readers with the
commands of any number of passes, whatever the handlers do and however long they take: an entry
is answered once at most; an iteration that is finished, with somewhere to answer, has pushed
its response unless a pass has taken the entry out of the pending list; and a pass does that
only to entries that were delivered more than `patience` milliseconds ago.
-/
theorem answered_unless_taken (readKey : Bytes) (c : Settings) (n : Nat) (es : List GatemenEvent) :
    Always (step readKey c) (Answered c) (start n) es := by
  have hInv : Always (step readKey c) (Inv c) (start n) es :=
    always_of_step (fun s e h => h.step e) (Inv.start c n)
  exact hInv.imp fun s h => h.answers

/-- A request as the login server pushes it. -/
def loginRequest : Carrier where
  type := DBServConf.MESSAGE_LOGIN_LOGIN_MSG
  service := literal "Warring:LoginServ"
  nextService := DBServConf.BROKER_DB_4_LOGIN_KEY
  clientId := []
  clientAddress := []
  message := []

/-- The handler takes eleven seconds, and a pass acknowledges the entry meanwhile. -/
def slowHandler : List GatemenEvent :=
  [.add loginRequest.fill2Vec, .pull (literal "DB_1"), .tick 11000, .manager 0 false,
    .manager 0 false, .manager 0 false, .manager 0 false, .manager 0 false,
    .reader 0 (some (loginRequest.answering DBServConf.BROKER_DB_4_LOGIN_KEY)), .reader 0 none,
    .reader 0 none]

/-- The acknowledgement of the reader comes second, and nothing is pushed. -/
theorem not_every_answered :
    ¬ Always (step DBServConf.BROKER_DB_4_LOGIN_KEY .initial) EveryAnswered (start 1) slowHandler := by
  intro h
  let msg := loginRequest.answering DBServConf.BROKER_DB_4_LOGIN_KEY
  have hMem : (⟨1, loginRequest.fill2Vec, 0, .finished msg false⟩ : Iteration) ∈
      (final (step DBServConf.BROKER_DB_4_LOGIN_KEY .initial) (start 1) slowHandler).iterations := by
    decide
  exact absurd (h.final _ hMem msg false rfl (by decide)) (by decide)

end Gatemen

end WarringServer.Broker
