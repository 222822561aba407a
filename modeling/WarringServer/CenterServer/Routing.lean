import Mathlib.Data.List.Dedup
import Mathlib.Data.List.Sort
import WarringServer.CenterServer.LossDetection
import WarringServer.CenterServer.Services
import WarringServer.DBServer.LowLoad

/-!
# Which gateway a client is sent to

Three programs decide together where a client that enters the game is sent. The registry
asks for heartbeats and removes the services it has missed three times; a gateway answers with
`expire` and `zadd`; and the database server reads the sorted set of the gateways, and asks for
the time to live of one after another until it is content (`getLowLoadService`). Each command is one
step, and time passes between any two of them; a key is gone as soon as its time is over.

The time to live is 15 seconds, and a gateway is taken if 7 remain. So a gateway that exists is
taken exactly if it has renewed its key in the last 8.5 seconds. One that is gone is taken, too.

* `Query.Sound` — what a client can rely on: the gateway it is sent to has renewed its key in time,
  or its key never expires, or it is gone and the registry had missed it at most three
  times since the key was registered last when the sorted set was read; and all gateways that were
  passed over exist, and had let 8.5 seconds pass;
* `routing_sound` — that holds of all queries, in every run without late heartbeats;
* `query_follows` — a query is given all advertised gateways, each once and in their order, and goes
  through these as `getLowLoadService` does (`Follows.lowLoad_eq`).
-/

namespace WarringServer.CenterServer

open DBServer Run

-- ---------------------------------------------------------------------------
-- A query
-- ---------------------------------------------------------------------------

/-- `BROKER_GATEWAY_KEY_HEARTBEAT_IN_SECOND` times `BROKER_GATEWAY_KEY_HEARTBEAT_TOLERANCE`, in
milliseconds; a game server has the same. -/
def keyTTL : Nat := 1000 * (5 * 3)

/-- An answer of `TTL`: the misses of the key when the sorted set was read, the time, and
when the key was renewed last. -/
structure Asked where
  key : ServiceKey
  listed : Nat
  time : Nat
  renewed : Nat
  answer : TTLAnswer
  deriving DecidableEq, Repr

/-- A call of `getLowLoadService`: the members it has still to ask for, with their misses
when they were read, what it has been answered, and its result, where `some none` is `{}`. -/
structure Query where
  todo : List (ServiceKey × Nat)
  asked : List Asked
  result : Option (Option ServiceKey)
  deriving DecidableEq, Repr

namespace Query

/-- Behind `zrangebyscore`. -/
def start (members : List (ServiceKey × Nat)) : Query :=
  ⟨members, [], if members = [] then some none else none⟩

/-- The next key of the loop. -/
def next? (q : Query) : Option (ServiceKey × Nat) :=
  if q.result = none then q.todo.head? else none

/-- The body of the loop. -/
def ask (q : Query) (a : Asked) : Query where
  todo := q.todo.tail
  asked := q.asked ++ [a]
  result :=
    if a.answer.taken then some (some a.key) else if q.todo.tail = [] then some none else none

end Query

-- ---------------------------------------------------------------------------
-- The machine
-- ---------------------------------------------------------------------------

/-- The command that server `i` sends next. -/
def Services.command? (s : Services) (i : Nat) : Option ServerCommand :=
  s.servers[i]?.bind fun sv => sv.pending.head?

/-- The key that the registry asks for next. -/
def Services.checked? (s : Services) : Option ServiceKey :=
  if s.pending = [] then s.mTodo.head? else none

/-- The services with the time in milliseconds, and when each key was renewed last. `unnoticed`
counts how often in a row the registry has missed a key since it was registered last. -/
structure Routing where
  services : Services
  now : Nat
  renewed : ServiceKey → Nat
  unnoticed : ServiceKey → Nat
  queries : List Query

inductive RoutingEvent where
  /-- A step of the registry or a server. -/
  | services (e : Services.ServiceEvent)
  | tick
  /-- The database server calls `zrangebyscore`. -/
  | zrangebyscore
  /-- Query `i` goes on. -/
  | ttl (i : Nat)
  deriving DecidableEq, Repr

namespace Routing

def start : Routing := ⟨Services.init, 0, fun _ => 0, fun _ => 0, []⟩

/-- A key whose time is over is gone. -/
def expire (s : Routing) : Services :=
  { s.services with
    keys := fun key =>
      if s.services.keys key = some true ∧ s.renewed key + keyTTL < s.now then none
      else s.services.keys key }

/-- `TTL`, which rounds to seconds. -/
def ttl (s : Routing) (key : ServiceKey) : TTLAnswer :=
  match s.services.keys key with
  | none => .gone
  | some false => .noExpiry
  | some true => .remaining (Fin.ofNat (2 ^ 63) ((s.renewed key + keyTTL - s.now + 500) / 1000))

/-- The order of a sorted set: by score, then by key. -/
def Before (s : Routing) (key key' : ServiceKey) : Prop :=
  let score key := (s.services.sortedSet .GATEWAY_KEYS key).getD 0
  score key < score key' ∨ score key = score key' ∧ key ≤ key'

instance (s : Routing) : DecidableRel s.Before := fun _ _ => inferInstanceAs (Decidable (_ ∨ _))

/-- The members of `GATEWAY_KEYS` in their order. A member is the key of a server that has been
started. -/
def gateways (s : Routing) : List ServiceKey :=
  ((s.services.servers.map Server.keyWithAddress).dedup.filter fun key =>
    s.services.sortedSet .GATEWAY_KEYS key ≠ none).insertionSort s.Before

/-- What a step of a server or the registry does to the two records. -/
def record (s : Routing) : Services.ServiceEvent → (ServiceKey → Nat) × (ServiceKey → Nat)
  | .server i =>
      match s.services.command? i with
      | some (.sadd key) => (s.renewed, Function.update s.unnoticed key 0)
      | some (.expire key) =>
          (if s.services.existed key then Function.update s.renewed key s.now else s.renewed,
            s.unnoticed)
      | _ => (s.renewed, s.unnoticed)
  | .registry =>
      match s.services.checked? with
      | some key =>
          (s.renewed, Function.update s.unnoticed key
            (if s.services.existed key then 0 else s.unnoticed key + 1))
      | none => (s.renewed, s.unnoticed)
  | _ => (s.renewed, s.unnoticed)

def step (s : Routing) : RoutingEvent → Routing
  | .services (.expired _) => s
  | .services e =>
      { s with
        services := s.services.step e
        renewed := (s.record e).1
        unnoticed := (s.record e).2 }
  | .tick => { s with now := s.now + 1, services := { s with now := s.now + 1 }.expire }
  | .zrangebyscore =>
      let members := s.gateways.map fun key => (key, s.unnoticed key)
      { s with queries := s.queries ++ [Query.start members] }
  | .ttl i =>
      match s.queries[i]?.bind Query.next? with
      | none => s
      | some (key, listed) =>
          { s with queries := s.queries.modify i fun q =>
              q.ask ⟨key, listed, s.now, s.renewed key, s.ttl key⟩ }

end Routing

-- ---------------------------------------------------------------------------
-- What a client can rely on
-- ---------------------------------------------------------------------------

namespace Asked

/-- How long ago a gateway that is taken may have renewed its key. -/
def freshFor : Nat := 8500

/-- The gateway exists, and has renewed its key in time. -/
def Fresh (a : Asked) : Prop :=
  (∃ seconds, a.answer = .remaining seconds) ∧ a.time ≤ a.renewed + freshFor

/-- It exists, and has not. -/
def Stale (a : Asked) : Prop :=
  (∃ seconds, a.answer = .remaining seconds) ∧ a.renewed + freshFor < a.time

/-- It is gone, and the registry had missed it at most three times when it was listed. -/
def Unnoticed (a : Asked) : Prop := a.answer = .gone ∧ a.listed ≤ 3

end Asked

/-- What the result of a query says. -/
structure Query.Sound (q : Query) : Prop where
  chosen : ∀ key, q.result = some (some key) → ∃ before a, q.asked = before ++ [a] ∧ a.key = key ∧
    (a.Fresh ∨ a.answer = .noExpiry ∨ a.Unnoticed) ∧ ∀ b ∈ before, b.Stale
  nothing : q.result = some none → q.todo = [] ∧ ∀ a ∈ q.asked, a.Stale

-- ---------------------------------------------------------------------------
-- The loop of the database server
-- ---------------------------------------------------------------------------

namespace Query

/-- How far the loop of `getLowLoadService` has come with the keys that it was given. -/
inductive Follows (q : Query) (keys : List ServiceKey) : Prop where
  | goesOn (hKeys : q.asked.map Asked.key ++ q.todo.map Prod.fst = keys)
      (hTodo : q.todo ≠ []) (hPassed : ∀ a ∈ q.asked, a.answer.taken = false)
      (hResult : q.result = none)
  | chooses (before : List Asked) (a : Asked) (hAsked : q.asked = before ++ [a])
      (hKeys : q.asked.map Asked.key ++ q.todo.map Prod.fst = keys)
      (hPassed : ∀ b ∈ before, b.answer.taken = false) (hTaken : a.answer.taken = true)
      (hResult : q.result = some (some a.key))
  | findsNothing (hKeys : q.asked.map Asked.key ++ q.todo.map Prod.fst = keys)
      (hTodo : q.todo = []) (hPassed : ∀ a ∈ q.asked, a.answer.taken = false)
      (hResult : q.result = some none)

theorem follows_start (members : List (ServiceKey × Nat)) :
    (start members).Follows (members.map Prod.fst) := by
  cases members with
  | nil => exact .findsNothing rfl rfl (fun a ha => absurd ha List.not_mem_nil) rfl
  | cons x members =>
    exact .goesOn rfl (List.cons_ne_nil _ _) (fun a ha => absurd ha List.not_mem_nil) rfl

theorem Follows.ask {q : Query} {keys : List ServiceKey} (h : q.Follows keys) {key : ServiceKey}
    {listed : Nat} (hNext : q.next? = some (key, listed)) {a : Asked} (ha : a.key = key) :
    (q.ask a).Follows keys := by
  unfold next? at hNext
  cases h with
  | chooses before a hAsked hKeys hPassed hTaken hResult =>
    rw [if_neg (by simp [hResult])] at hNext
    cases hNext
  | findsNothing hKeys hTodo hPassed hResult =>
    rw [if_neg (by simp [hResult])] at hNext
    cases hNext
  | goesOn hKeys hTodo hPassed hResult =>
    rw [if_pos hResult] at hNext
    obtain ⟨rest, hRest⟩ := List.head?_eq_some_iff.mp hNext
    have hMoved : (q.ask a).asked.map Asked.key ++ (q.ask a).todo.map Prod.fst = keys := by
      rw [← hKeys]
      simp [Query.ask, hRest, ha]
    cases hTaken : a.answer.taken with
    | true => exact .chooses q.asked a rfl hMoved hPassed hTaken (if_pos hTaken)
    | false =>
      have hAll : ∀ b ∈ (q.ask a).asked, b.answer.taken = false := by
        intro b hb
        rcases List.mem_append.mp hb with hOld | hNew
        · exact hPassed b hOld
        · rw [List.mem_singleton.mp hNew, hTaken]
      have hResult : (q.ask a).result = if q.todo.tail = [] then some none else none := by
        show (if a.answer.taken = true then _ else _) = _
        rw [hTaken]
        rfl
      by_cases hEnd : q.todo.tail = []
      · rw [if_pos hEnd] at hResult
        exact .findsNothing hMoved hEnd hAll hResult
      · rw [if_neg hEnd] at hResult
        exact .goesOn hMoved hEnd hAll hResult

section

variable {σ : Type} {d : Drivers σ} {s : σ}

/-- The loop goes past keys that do not have enough time. -/
theorem lowLoad_passed (before : List Asked) (rest : List ServiceKey)
    (hTtl : ∀ b ∈ before, (d.ttl b.key).exec s = (.ok b.answer.value, s))
    (hPassed : ∀ b ∈ before, b.answer.taken = false) :
    (lowLoad d (before.map Asked.key ++ rest)).exec s = (lowLoad d rest).exec s := by
  induction before with
  | nil => rfl
  | cons b before ih =>
    have hNot : ¬ (BitVec.ofInt 64 b.answer.value).toNat ≥
        DBServConf.SERVICE_LOSE_THRESHOLD_IN_SECONDS / 2 :=
      of_decide_eq_false (hPassed b List.mem_cons_self)
    rw [List.map_cons, List.cons_append, lowLoad,
      Job.exec_bind_ok (hTtl b List.mem_cons_self), if_neg hNot]
    exact ih (fun b' hb => hTtl b' (List.mem_cons_of_mem _ hb))
      fun b' hb => hPassed b' (List.mem_cons_of_mem _ hb)

/-- **A query is the loop.** A query that has come to its end returns what `lowLoad` returns with
the same answers of `TTL`. -/
theorem Follows.lowLoad_eq {q : Query} {keys : List ServiceKey} (h : q.Follows keys)
    (hTtl : ∀ a ∈ q.asked, (d.ttl a.key).exec s = (.ok a.answer.value, s))
    {chosen : Option ServiceKey} (hChosen : q.result = some chosen) :
    (lowLoad d keys).exec s = (.ok (chosen.getD []), s) := by
  cases h with
  | goesOn hKeys hTodo hPassed hResult =>
    rw [hResult] at hChosen
    cases hChosen
  | chooses before a hAsked hKeys hPassed hTaken hResult =>
    cases hResult.symm.trans hChosen
    rw [hAsked] at hTtl
    have hEnough : (BitVec.ofInt 64 a.answer.value).toNat ≥
        DBServConf.SERVICE_LOSE_THRESHOLD_IN_SECONDS / 2 := of_decide_eq_true hTaken
    have hLast := hTtl a (List.mem_append_right _ List.mem_cons_self)
    rw [← hKeys, hAsked, List.map_append, List.append_assoc, lowLoad_passed before _
      (fun b hb => hTtl b (List.mem_append_left _ hb)) hPassed]
    rw [List.map_cons, List.cons_append, lowLoad, Job.exec_bind_ok hLast, if_pos hEnough]
    rfl
  | findsNothing hKeys hTodo hPassed hResult =>
    cases hResult.symm.trans hChosen
    rw [← hKeys, hTodo, lowLoad_passed q.asked _ hTtl hPassed]
    rfl

end

end Query

-- ---------------------------------------------------------------------------
-- What a result says
-- ---------------------------------------------------------------------------

namespace Asked

/-- A true answer: what exists is taken exactly if it is fresh, and the rest is taken. -/
structure Right (a : Asked) : Prop where
  listed : a.listed ≤ 3
  taken : a.answer.taken = true → a.Fresh ∨ a.answer = .noExpiry ∨ a.Unnoticed
  passed : a.answer.taken = false → a.Stale

/-- Half of the threshold, 7 seconds when they are rounded, are 6.5 seconds. -/
theorem taken_remaining_iff {now renewed : Nat} (hPast : renewed ≤ now)
    (hAlive : now ≤ renewed + keyTTL) :
    (TTLAnswer.remaining
        (Fin.ofNat (2 ^ 63) ((renewed + keyTTL - now + 500) / 1000))).taken = true ↔
      now ≤ renewed + freshFor := by
  have hTTL : keyTTL = 15000 := rfl
  have hFresh : freshFor = 8500 := rfl
  have hSmall : (renewed + keyTTL - now + 500) / 1000 < 2 ^ 63 := by omega
  have hSeconds : (Fin.ofNat (2 ^ 63) ((renewed + keyTTL - now + 500) / 1000)).val =
      (renewed + keyTTL - now + 500) / 1000 := Nat.mod_eq_of_lt hSmall
  rw [TTLAnswer.taken_iff true, TTLAnswer.misread, Bool.or_false, TTLAnswer.enough, hSeconds,
    decide_eq_true_eq, show DBServConf.SERVICE_LOSE_THRESHOLD_IN_SECONDS / 2 = 7 from rfl]
  omega

end Asked

namespace Query

theorem Follows.sound {q : Query} {keys : List ServiceKey} (h : q.Follows keys)
    (hRight : ∀ a ∈ q.asked, a.Right) : q.Sound := by
  cases h with
  | goesOn hKeys hTodo hPassed hResult =>
    constructor
    · intro key hKey
      cases hResult.symm.trans hKey
    · intro hNone
      cases hResult.symm.trans hNone
  | chooses before a hAsked hKeys hPassed hTaken hResult =>
    rw [hAsked] at hRight
    constructor
    · intro key hKey
      cases hResult.symm.trans hKey
      have hLast := hRight a (List.mem_append_right _ List.mem_cons_self)
      exact ⟨before, a, hAsked, rfl, hLast.taken hTaken, fun b hb =>
        (hRight b (List.mem_append_left _ hb)).passed (hPassed b hb)⟩
    · intro hNone
      cases hResult.symm.trans hNone
  | findsNothing hKeys hTodo hPassed hResult =>
    constructor
    · intro key hKey
      cases hResult.symm.trans hKey
    · intro _
      exact ⟨hTodo, fun a ha => (hRight a ha).passed (hPassed a ha)⟩

/-- What holds of a query at all times. -/
structure Running (q : Query) : Prop where
  listed : ∀ x ∈ q.todo, x.2 ≤ 3
  right : ∀ a ∈ q.asked, a.Right
  follows : ∃ keys, q.Follows keys

theorem running_start {members : List (ServiceKey × Nat)} (h : ∀ x ∈ members, x.2 ≤ 3) :
    (start members).Running :=
  ⟨h, fun _ ha => absurd ha List.not_mem_nil, _, follows_start members⟩

theorem Running.ask {q : Query} (h : q.Running) {key : ServiceKey} {listed : Nat}
    (hNext : q.next? = some (key, listed)) {a : Asked} (ha : a.Right) (hKey : a.key = key) :
    (q.ask a).Running := by
  obtain ⟨hListed, hRight, keys, hFollows⟩ := h
  refine ⟨fun x hx => hListed x (List.mem_of_mem_tail hx), fun b hb => ?_, keys,
    hFollows.ask hNext hKey⟩
  rcases List.mem_append.mp hb with hOld | hNew
  · exact hRight b hOld
  · exact List.mem_singleton.mp hNew ▸ ha

theorem Running.sound {q : Query} (h : q.Running) : q.Sound :=
  h.follows.elim fun _ hFollows => hFollows.sound h.right

/-- The number of misses that was listed with the next key. -/
theorem Running.next_listed {q : Query} (h : q.Running) {key : ServiceKey} {listed : Nat}
    (hNext : q.next? = some (key, listed)) : listed ≤ 3 := by
  unfold next? at hNext
  split at hNext
  · exact h.listed _ (List.mem_of_mem_head? hNext)
  · cases hNext

end Query

-- ---------------------------------------------------------------------------
-- What the registry has noticed
-- ---------------------------------------------------------------------------

namespace Routing

/-- The registry does not lose sight of a member, and what it misses it counts. -/
structure Noticing (s : Routing) : Prop where
  nodup : s.services.SERVICE_KEYS.Nodup
  todo_nodup : s.services.mTodo.Nodup
  todo_sub : s.services.mTodo ⊆ s.services.SERVICE_KEYS
  idle : s.services.inRound = false → s.services.pending = [] ∧ s.services.mTodo = []
  removing : ∀ key, .srem key ∈ s.services.pending → key ∉ s.services.mTodo
  counts : ∀ key, (s.services.mServiceKeys key).getD 0 ≤ 2
  bounded : ∀ key ∈ s.services.SERVICE_KEYS, .srem key ∉ s.services.pending →
    s.unnoticed key ≤ (s.services.mServiceKeys key).getD 0
  third : ∀ key, (key ∈ s.services.SERVICE_KEYS ∨ ∃ set, .zrem set key ∈ s.services.pending) →
    s.unnoticed key ≤ 3

theorem noticing_start : start.Noticing where
  nodup := List.nodup_nil
  todo_nodup := List.nodup_nil
  todo_sub := List.Subset.refl _
  idle _ := ⟨rfl, rfl⟩
  removing _ h := absurd h List.not_mem_nil
  counts _ := Nat.zero_le _
  bounded _ h := absurd h List.not_mem_nil
  third _ _ := Nat.zero_le _

section

variable {s : Routing}

/-- A step that nothing of this depends on. -/
theorem Noticing.frame {s' : Routing} (h : s.Noticing)
    (hKeys : s'.services.SERVICE_KEYS = s.services.SERVICE_KEYS)
    (hTodo : s'.services.mTodo = s.services.mTodo)
    (hRound : s'.services.inRound = s.services.inRound)
    (hPending : s'.services.pending = s.services.pending)
    (hCounts : s'.services.mServiceKeys = s.services.mServiceKeys)
    (hUnnoticed : s'.unnoticed = s.unnoticed) : s'.Noticing := by
  obtain ⟨hNodup, hTodoNodup, hSub, hIdle, hRemoving, hCount, hBounded, hThird⟩ := h
  constructor
  all_goals simp only [hKeys, hTodo, hRound, hPending, hCounts, hUnnoticed]
  all_goals assumption

-- ---------------------------------------------------------------------------
-- The registry
-- ---------------------------------------------------------------------------

theorem step_registry (s : Routing) : s.step (.services .registry) =
    { s with services := s.services.registryStep,
             renewed := (s.record .registry).1, unnoticed := (s.record .registry).2 } := rfl

theorem noticing_command (h : s.Noticing) {command : RegistryCommand}
    {pending : List RegistryCommand} (hPending : s.services.pending = command :: pending) :
    (s.step (.services .registry)).Noticing := by
  have hRecord : s.record .registry = (s.renewed, s.unnoticed) := by
    simp [record, Services.checked?, hPending]
  have hStep : s.services.registryStep =
      { s.services with pending := pending }.registryCommand command := by
    simp only [Services.registryStep, hPending]
  obtain ⟨hNodup, hTodoNodup, hSub, hIdle, hRemoving, hCount, hBounded, hThird⟩ := h
  have hBusy : s.services.inRound = false → pending = [] ∧ s.services.mTodo = [] := by
    intro hOff
    have hNone := (hIdle hOff).1
    rw [hPending] at hNone
    cases hNone
  rw [hPending] at hRemoving hBounded hThird
  rw [step_registry, hRecord, hStep]
  cases command with
  | publish msg =>
    refine ⟨hNodup, hTodoNodup, hSub, hBusy,
      fun key hKey => hRemoving key (List.mem_cons_of_mem _ hKey), hCount,
      fun key hIn hNot => hBounded key hIn fun hMem => ?_, ?_⟩
    · exact hNot ((List.mem_cons.mp hMem).resolve_left (by simp))
    · intro key hWhere
      exact hThird key (hWhere.imp_right (Exists.imp fun _ => List.mem_cons_of_mem _))
  | srem lost =>
    refine ⟨hNodup.filter _, hTodoNodup, ?_, hBusy,
      fun key hKey => hRemoving key (List.mem_cons_of_mem _ hKey), hCount, ?_, ?_⟩
    · intro key hKey
      -- what is removed is not asked for any more in this round
      refine List.mem_filter.mpr ⟨hSub hKey, ?_⟩
      have hOther : key ≠ lost := by
        rintro rfl
        exact hRemoving key List.mem_cons_self hKey
      simpa using hOther
    · intro key hIn hNot
      obtain ⟨hOld, hOther⟩ := List.mem_filter.mp hIn
      refine hBounded key hOld ?_
      intro hMem
      rcases List.mem_cons.mp hMem with hHead | hRest
      · rw [RegistryCommand.srem.injEq] at hHead
        simp [hHead] at hOther
      · exact hNot hRest
    · intro key hWhere
      exact hThird key (hWhere.imp (fun hIn => (List.mem_filter.mp hIn).1)
        (Exists.imp fun _ => List.mem_cons_of_mem _))
  | zrem set lost =>
    refine ⟨hNodup, hTodoNodup, hSub, hBusy,
      fun key hKey => hRemoving key (List.mem_cons_of_mem _ hKey), hCount,
      fun key hIn hNot => hBounded key hIn fun hMem => ?_, ?_⟩
    · exact hNot ((List.mem_cons.mp hMem).resolve_left (by simp))
    · intro key hWhere
      exact hThird key (hWhere.imp_right (Exists.imp fun _ => List.mem_cons_of_mem _))

/-- What the registry knows of a key it has asked for: it was there, was missed for the first or
second time, or has been missed for the third time and is going to be removed. -/
theorem observe_cases (m : MissCounts) (key : ServiceKey) (existed : Bool) :
    (existed = true ∧ ((observe m key existed).1 key).getD 0 = 0 ∧
      (∀ key', .srem key' ∉ (observe m key existed).2) ∧
      ∀ set key', .zrem set key' ∉ (observe m key existed).2) ∨
    (existed = false ∧ ((observe m key existed).1 key).getD 0 = (m key).getD 0 + 1 ∧
      (m key).getD 0 + 1 ≤ 2 ∧ (observe m key existed).2 = []) ∨
    (existed = false ∧ ((observe m key existed).1 key).getD 0 = 0 ∧
      (observe m key existed).2 = givingUp key) := by
  cases existed with
  | true =>
    refine Or.inl ⟨rfl, ?_, ?_, ?_⟩
    · simp [observe]
    · intro key'
      unfold observe
      dsimp only
      split
      · split <;> simp
      · contradiction
    · intro set key'
      unfold observe
      dsimp only
      split
      · split <;> simp
      · contradiction
  | false =>
    by_cases hThird : (m key).getD 0 + 1 ≥ 3
    · refine Or.inr (Or.inr ⟨rfl, ?_, ?_⟩)
      · simp only [observe, Bool.false_eq_true, if_false, if_pos hThird, Function.update_self,
          Option.getD_none]
      · simp only [observe, Bool.false_eq_true, if_false, if_pos hThird]
        rfl
    · refine Or.inr (Or.inl ⟨rfl, ?_, by omega, ?_⟩)
      · simp only [observe, Bool.false_eq_true, if_false, if_neg hThird, Function.update_self,
          Option.getD_some]
      · simp only [observe, Bool.false_eq_true, if_false, if_neg hThird]

theorem noticing_observe (h : s.Noticing) {key : ServiceKey} {mTodo : List ServiceKey}
    (hPending : s.services.pending = []) (hTodo : s.services.mTodo = key :: mTodo) :
    (s.step (.services .registry)).Noticing := by
  have hRecord : s.record .registry = (s.renewed, Function.update s.unnoticed key
      (if s.services.existed key then 0 else s.unnoticed key + 1)) := by
    simp [record, Services.checked?, hPending, hTodo]
  have hStep : s.services.registryStep = { s.services with
      mServiceKeys := (observe s.services.mServiceKeys key (s.services.existed key)).1,
      mTodo := mTodo,
      pending := (observe s.services.mServiceKeys key (s.services.existed key)).2 } := by
    simp only [Services.registryStep, hPending, hTodo]
  obtain ⟨hNodup, hTodoNodup, hSub, hIdle, -, hCount, hBounded, hThird⟩ := h
  rw [hTodo] at hTodoNodup hSub
  obtain ⟨hFresh, hRest⟩ := List.nodup_cons.mp hTodoNodup
  have hMember : key ∈ s.services.SERVICE_KEYS := hSub List.mem_cons_self
  have hKnown := hBounded key hMember (by rw [hPending]; exact List.not_mem_nil)
  have hOthers : ∀ key', key' ≠ key →
      (observe s.services.mServiceKeys key (s.services.existed key)).1 key' =
        s.services.mServiceKeys key' := fun key' hKey' =>
    ServiceRegistry.observe_misses_ne _ hKey'.symm
  have hBusy : s.services.inRound = false → False := by
    intro hOff
    have hNone := (hIdle hOff).2
    rw [hTodo] at hNone
    cases hNone
  have hCases := observe_cases s.services.mServiceKeys key (s.services.existed key)
  rw [step_registry, hRecord, hStep]
  generalize observe s.services.mServiceKeys key (s.services.existed key) = seen at hOthers hCases ⊢
  obtain ⟨m, commands⟩ := seen
  have hCount' : ∀ key', (m key').getD 0 ≤ 2 := by
    intro key'
    by_cases hKey : key' = key
    · subst hKey
      rcases hCases with ⟨-, hZero, -, -⟩ | ⟨-, hNext, hFew, -⟩ | ⟨-, hZero, -⟩
      · exact le_of_eq_of_le hZero (by omega)
      · exact le_of_eq_of_le hNext hFew
      · exact le_of_eq_of_le hZero (by omega)
    · rw [show m key' = _ from hOthers key' hKey]
      exact hCount key'
  have hMissed : Function.update s.unnoticed key
      (if s.services.existed key then 0 else s.unnoticed key + 1) key ≤ 3 := by
    have hTwo := hCount key
    rw [Function.update_self]
    split <;> omega
  have hElse : ∀ key', key' ≠ key → key' ∈ s.services.SERVICE_KEYS →
      Function.update s.unnoticed key
        (if s.services.existed key then 0 else s.unnoticed key + 1) key' ≤ (m key').getD 0 := by
    intro key' hKey hIn
    rw [Function.update_of_ne hKey, show m key' = _ from hOthers key' hKey]
    exact hBounded key' hIn (by rw [hPending]; exact List.not_mem_nil)
  refine ⟨hNodup, hRest, fun key' hKey => hSub (List.mem_cons_of_mem _ hKey),
    fun hOff => (hBusy hOff).elim, ?_, hCount', ?_, ?_⟩
  · intro key' hKey
    -- only the key that was asked for is removed
    rcases hCases with ⟨-, -, hNone, -⟩ | ⟨-, -, -, hNone⟩ | ⟨-, -, hAll⟩
    · exact absurd hKey (hNone key')
    · rw [show commands = [] from hNone] at hKey
      cases hKey
    · rw [show commands = givingUp key from hAll] at hKey
      obtain rfl : key' = key := by simpa [givingUp] using hKey
      exact hFresh
  · intro key' hIn hNot
    by_cases hKey : key' = key
    · subst hKey
      dsimp only
      rw [Function.update_self]
      rcases hCases with ⟨hExisted, -, -, -⟩ | ⟨hGone, hNext, -, -⟩ | ⟨-, -, hAll⟩
      · rw [hExisted]
        exact Nat.zero_le _
      · rw [hGone]
        have hSame : (m key').getD 0 = (s.services.mServiceKeys key').getD 0 + 1 := hNext
        simp only [Bool.false_eq_true, if_false]
        omega
      · refine absurd ?_ hNot
        show RegistryCommand.srem key' ∈ commands
        rw [show commands = givingUp key' from hAll]
        simp [givingUp]
    · exact hElse key' hKey hIn
  · intro key' hWhere
    by_cases hKey : key' = key
    · subst hKey
      exact hMissed
    · rcases hWhere with hIn | ⟨set, hSet⟩
      · exact Nat.le_trans (hElse key' hKey hIn) (Nat.le_trans (hCount' key') (by omega))
      · rcases hCases with ⟨-, -, -, hNone⟩ | ⟨-, -, -, hNone⟩ | ⟨-, -, hAll⟩
        · exact absurd hSet (hNone set key')
        · rw [show commands = [] from hNone] at hSet
          cases hSet
        · rw [show commands = givingUp key from hAll] at hSet
          simp [givingUp, hKey] at hSet

theorem noticing_endRound (h : s.Noticing) (hPending : s.services.pending = [])
    (hTodo : s.services.mTodo = []) : (s.step (.services .registry)).Noticing := by
  have hRecord : s.record .registry = (s.renewed, s.unnoticed) := by
    simp [record, Services.checked?, hPending, hTodo]
  rw [step_registry, hRecord]
  simp only [Services.registryStep, hPending, hTodo]
  split
  · obtain ⟨hNodup, hTodoNodup, hSub, -, hRemoving, hCount, hBounded, hThird⟩ := h
    rw [hPending] at hRemoving hBounded hThird
    rw [hTodo] at hTodoNodup hSub hRemoving
    exact ⟨hNodup, hTodoNodup, hSub, fun _ => ⟨rfl, rfl⟩, hRemoving, hCount, hBounded, hThird⟩
  · exact h

theorem noticing_smembers (h : s.Noticing) (order : List ServiceKey) :
    (s.step (.services (.smembers order))).Noticing := by
  show Noticing { s with services := if _ then _ else _, renewed := _, unnoticed := _ }
  split
  · rename_i hRound
    obtain ⟨hNodup, -, -, hIdle, -, hCount, hBounded, hThird⟩ := h
    refine ⟨hNodup, hRound.2.nodup_iff.mpr hNodup, hRound.2.subset, ?_, ?_, hCount, hBounded,
      hThird⟩
    · intro hOff
      cases hOff
    · intro key hKey
      -- nothing is being removed when a round starts
      rw [show s.services.pending = [] from (hIdle hRound.1).1] at hKey
      cases hKey
  · exact h

-- ---------------------------------------------------------------------------
-- The servers
-- ---------------------------------------------------------------------------

theorem step_server (s : Routing) (i : Nat) : s.step (.services (.server i)) =
    { s with services := s.services.serverStep i,
             renewed := (s.record (.server i)).1, unnoticed := (s.record (.server i)).2 } := rfl

/-- A server that has a command to send, or none. -/
theorem serverStep_cases (services : Services) (i : Nat) :
    (services.command? i = none ∧ services.serverStep i = services) ∨
    ∃ command, services.command? i = some command ∧ ∃ servers, services.serverStep i =
      Services.serverCommand { services with servers := servers } i command := by
  unfold Services.command? Services.serverStep
  rcases services.servers[i]? with _ | ⟨kind, key, subscribed, mailbox, _ | ⟨command, pending⟩⟩
  · exact Or.inl ⟨rfl, rfl⟩
  · exact Or.inl ⟨rfl, rfl⟩
  · exact Or.inr ⟨command, rfl, _, rfl⟩

theorem noticing_server (h : s.Noticing) (i : Nat) : (s.step (.services (.server i))).Noticing := by
  rw [step_server]
  rcases serverStep_cases s.services i with ⟨hCommand, hStep⟩ | ⟨command, hCommand, servers, hStep⟩
  · rw [hStep]
    simp only [record, hCommand]
    exact h
  · rw [hStep]
    simp only [record, hCommand]
    cases command with
    | sadd key =>
      obtain ⟨hNodup, hTodoNodup, hSub, hIdle, hRemoving, hCount, hBounded, hThird⟩ := h
      refine ⟨hNodup.insert, hTodoNodup, fun key' hKey => List.mem_insert_of_mem (hSub hKey), hIdle,
        hRemoving, hCount, ?_, ?_⟩
      · intro key' hIn hNot
        by_cases hKey : key' = key
        · subst hKey
          dsimp only
          rw [Function.update_self]
          exact Nat.zero_le _
        · dsimp only
          rw [Function.update_of_ne hKey]
          exact hBounded key' ((List.mem_insert_iff.mp hIn).resolve_left hKey) hNot
      · intro key' hWhere
        by_cases hKey : key' = key
        · subst hKey
          dsimp only
          rw [Function.update_self]
          exact Nat.zero_le _
        · dsimp only
          rw [Function.update_of_ne hKey]
          exact hThird key' (hWhere.imp_left fun hIn =>
            (List.mem_insert_iff.mp hIn).resolve_left hKey)
    | hset key => exact h.frame rfl rfl rfl rfl rfl rfl
    | expire key => exact h.frame rfl rfl rfl rfl rfl rfl
    | subscribe => exact h.frame rfl rfl rfl rfl rfl rfl
    | zadd set key score => exact h.frame rfl rfl rfl rfl rfl rfl

theorem Noticing.step (h : s.Noticing) (e : RoutingEvent) : (s.step e).Noticing := by
  cases e with
  | services e =>
    cases e with
    | smembers order => exact noticing_smembers h order
    | registry =>
      rcases hPending : s.services.pending with _ | ⟨command, pending⟩
      · rcases hTodo : s.services.mTodo with _ | ⟨key, mTodo⟩
        · exact noticing_endRound h hPending hTodo
        · exact noticing_observe h hPending hTodo
      · exact noticing_command h hPending
    | server i => exact noticing_server h i
    | expired key => exact h
    | start kind key => exact h.frame rfl rfl rfl rfl rfl rfl
    | consume i activeNum => exact h.frame rfl rfl rfl rfl rfl rfl
    | stop i => exact h.frame rfl rfl rfl rfl rfl rfl
  | tick => exact h.frame rfl rfl rfl rfl rfl rfl
  | zrangebyscore => exact h.frame rfl rfl rfl rfl rfl rfl
  | ttl i =>
    unfold Routing.step
    dsimp only
    split
    · exact h
    · exact h.frame rfl rfl rfl rfl rfl rfl

-- ---------------------------------------------------------------------------
-- Times
-- ---------------------------------------------------------------------------

/-- A key with a time to live has been renewed, and its time is not over. -/
def Timed (s : Routing) : Prop :=
  ∀ key, s.services.keys key = some true → s.renewed key ≤ s.now ∧ s.now ≤ s.renewed key + keyTTL

theorem timed_start : start.Timed := fun _ h => by cases h

theorem Timed.frame {s' : Routing} (h : s.Timed) (hKeys : s'.services.keys = s.services.keys)
    (hRenewed : s'.renewed = s.renewed) (hNow : s'.now = s.now) : s'.Timed := by
  unfold Timed
  rw [hKeys, hRenewed, hNow]
  exact h

theorem registryStep_keys (services : Services) : services.registryStep.keys = services.keys := by
  unfold Services.registryStep
  split
  · rename_i command pending hPending
    cases command <;> rfl
  · rfl
  · split <;> rfl

theorem timed_server (h : s.Timed) (i : Nat) : (s.step (.services (.server i))).Timed := by
  rw [step_server]
  rcases serverStep_cases s.services i with ⟨hCommand, hStep⟩ | ⟨command, hCommand, servers, hStep⟩
  · rw [hStep]
    simp only [record, hCommand]
    exact h
  · rw [hStep]
    simp only [record, hCommand]
    cases command with
    | sadd key => exact h.frame rfl rfl rfl
    | subscribe => exact h.frame rfl rfl rfl
    | zadd set key score => exact h.frame rfl rfl rfl
    | hset key =>
      -- `HSET` leaves a time to live as it is
      intro key' hKey'
      refine h key' ?_
      replace hKey' : Function.update s.services.keys key
        (some ((s.services.keys key).getD false)) key' = some true := hKey'
      by_cases hKey : key' = key
      · subst hKey
        rw [Function.update_self, Option.some.injEq] at hKey'
        cases hOld : s.services.keys key' with
        | none =>
          rw [hOld] at hKey'
          cases hKey'
        | some live => rw [hOld] at hKey'; rw [show live = true from hKey']
      · rwa [Function.update_of_ne hKey] at hKey'
    | expire key =>
      intro key' hKey'
      replace hKey' : Function.update s.services.keys key
        ((s.services.keys key).map fun _ => true) key' = some true := hKey'
      show (if s.services.existed key = true then Function.update s.renewed key s.now
          else s.renewed) key' ≤ s.now ∧
        s.now ≤ (if s.services.existed key = true then Function.update s.renewed key s.now
          else s.renewed) key' + keyTTL
      by_cases hKey : key' = key
      · subst hKey
        rw [Function.update_self] at hKey'
        have hExisted : s.services.existed key' = true := by
          cases hOld : s.services.keys key' with
          | none =>
            rw [hOld] at hKey'
            cases hKey'
          | some live => rw [Services.existed, hOld]; rfl
        rw [if_pos hExisted, Function.update_self]
        exact ⟨Nat.le_refl _, Nat.le_add_right _ _⟩
      · rw [Function.update_of_ne hKey] at hKey'
        split
        · rw [Function.update_of_ne hKey]
          exact h key' hKey'
        · exact h key' hKey'

theorem Timed.step (h : s.Timed) (e : RoutingEvent) : (s.step e).Timed := by
  cases e with
  | services e =>
    cases e with
    | smembers order =>
      show Timed { s with services := if _ then _ else _, renewed := _, unnoticed := _ }
      split <;> exact h.frame rfl rfl rfl
    | registry =>
      refine h.frame (registryStep_keys s.services) ?_ rfl
      show (match s.services.checked? with | some _ => _ | none => _ : (ServiceKey → Nat) × _).1 = _
      split <;> rfl
    | server i => exact timed_server h i
    | expired key => exact h
    | start kind key => exact h.frame rfl rfl rfl
    | consume i activeNum => exact h.frame rfl rfl rfl
    | stop i => exact h.frame rfl rfl rfl
  | tick =>
    intro key hKey
    replace hKey : (if s.services.keys key = some true ∧ s.renewed key + keyTTL < s.now + 1
      then none else s.services.keys key) = some true := hKey
    split at hKey
    · cases hKey
    · rename_i hTime
      have hOld := h key hKey
      have hNot : ¬ s.renewed key + keyTTL < s.now + 1 := fun hOver => hTime ⟨hKey, hOver⟩
      show s.renewed key ≤ s.now + 1 ∧ s.now + 1 ≤ s.renewed key + keyTTL
      omega
  | zrangebyscore => exact h.frame rfl rfl rfl
  | ttl i =>
    unfold Routing.step
    dsimp only
    split
    · exact h
    · exact h.frame rfl rfl rfl

-- ---------------------------------------------------------------------------
-- The gateways that are listed
-- ---------------------------------------------------------------------------

instance (s : Routing) : Std.Total s.Before where
  total key key' := by
    unfold Before
    dsimp only
    have hKeys := List.le_total key key'
    rcases Nat.lt_trichotomy ((s.services.sortedSet .GATEWAY_KEYS key).getD 0)
      ((s.services.sortedSet .GATEWAY_KEYS key').getD 0) with hLt | hEq | hGt
    · exact Or.inl (Or.inl hLt)
    · exact hKeys.imp (fun h => Or.inr ⟨hEq, h⟩) fun h => Or.inr ⟨hEq.symm, h⟩
    · exact Or.inr (Or.inl hGt)

instance (s : Routing) : IsTrans ServiceKey s.Before where
  trans a b c hab hbc := by
    unfold Before at *
    dsimp only at *
    rcases hab with hab | ⟨hab, hKeys⟩
    · rcases hbc with hbc | ⟨hbc, -⟩
      · exact Or.inl (hab.trans hbc)
      · exact Or.inl (hbc ▸ hab)
    · rcases hbc with hbc | ⟨hbc, hKeys'⟩
      · exact Or.inl (hab ▸ hbc)
      · exact Or.inr ⟨hab.trans hbc, List.le_trans hKeys hKeys'⟩

/-- What `zrangebyscore` answers: the members of `GATEWAY_KEYS`, each once, in their order. Each of
them is a gateway that has been started. -/
structure ListsGateways (s : Routing) : Prop where
  members : ∀ key, key ∈ s.gateways ↔ s.services.Advertised .GATEWAY_KEYS key
  started : ∀ key ∈ s.gateways,
    (.GATEWAY_KEYS, key) ∈ s.services.servers.map Server.identity
  nodup : s.gateways.Nodup
  ordered : s.gateways.Pairwise s.Before

theorem mem_gateways {key : ServiceKey} (h : key ∈ s.gateways) :
    s.services.Advertised .GATEWAY_KEYS key := by
  have hMem := (List.perm_insertionSort s.Before _).subset h
  simpa [Services.Advertised] using (List.mem_filter.mp hMem).2

theorem lists_gateways (h : s.services.Known) : s.ListsGateways := by
  refine ⟨fun key => ⟨mem_gateways, fun hAdvertised => ?_⟩,
    fun key hMem => h.started _ key (mem_gateways hMem), ?_, List.pairwise_insertionSort _ _⟩
  · obtain ⟨sv, hMem, hName⟩ := List.mem_map.mp (h.started _ key hAdvertised)
    have hKey : key ∈ s.services.servers.map Server.keyWithAddress :=
      List.mem_map.mpr ⟨sv, hMem, congrArg Prod.snd hName⟩
    exact List.mem_insertionSort _ |>.mpr
      (List.mem_filter.mpr ⟨List.mem_dedup.mpr hKey, decide_eq_true hAdvertised⟩)
  · exact (List.perm_insertionSort s.Before _).nodup_iff.mpr ((List.nodup_dedup _).filter _)

/-- A gateway that is listed has been missed at most three times. -/
theorem listed_le (hNoticing : s.Noticing) (hWatched : s.services.Inv) {key : ServiceKey}
    (h : key ∈ s.gateways) : s.unnoticed key ≤ 3 :=
  hNoticing.third key ((hWatched.watched _ key (mem_gateways h)).imp_right fun hSet => ⟨_, hSet⟩)

/-- Redis answers as the records say. -/
theorem asked_right (h : s.Timed) (key : ServiceKey) {listed : Nat} (hListed : listed ≤ 3) :
    (Asked.mk key listed s.now (s.renewed key) (s.ttl key)).Right := by
  unfold ttl
  rcases hKey : s.services.keys key with _ | _ | _
  · exact ⟨hListed, fun _ => Or.inr (Or.inr ⟨rfl, hListed⟩), fun hNot => by cases hNot⟩
  · exact ⟨hListed, fun _ => Or.inr (Or.inl rfl), fun hNot => by cases hNot⟩
  · obtain ⟨hPast, hAlive⟩ := h key hKey
    have hTaken := Asked.taken_remaining_iff hPast hAlive
    refine ⟨hListed, fun hYes => Or.inl ⟨⟨_, rfl⟩, hTaken.mp hYes⟩, fun hNo => ⟨⟨_, rfl⟩, ?_⟩⟩
    refine Nat.not_le.mp ?_
    intro hFresh
    rw [hTaken.mpr hFresh] at hNo
    cases hNo

-- ---------------------------------------------------------------------------
-- Runs
-- ---------------------------------------------------------------------------

end

/-- No gateway answers a heartbeat behind its removal from the sorted set. -/
def NoLateHeartbeat (s : Routing) : RoutingEvent → Prop
  | .services e => s.services.NoLateHeartbeat e
  | _ => True

instance (s : Routing) : DecidablePred s.NoLateHeartbeat
  | .services e => inferInstanceAs (Decidable (s.services.NoLateHeartbeat e))
  | .tick | .zrangebyscore | .ttl _ => isTrue trivial

/-- What the three programs keep together. -/
structure Inv (s : Routing) : Prop where
  noticing : s.Noticing
  timed : s.Timed
  watched : s.services.Inv
  running : ∀ q ∈ s.queries, q.Running

theorem inv_start : start.Inv :=
  ⟨noticing_start, timed_start, Services.inv_init, fun _ hq => absurd hq List.not_mem_nil⟩

section

variable {s : Routing}

/-- What a step does to the services. -/
theorem services_step (e : RoutingEvent) :
    (∃ e', e = .services e' ∧ (s.step e).services = s.services.step e') ∨
      ∃ keys, (s.step e).services = { s.services with keys := keys } := by
  cases e with
  | services e =>
    cases e with
    | expired key => exact Or.inr ⟨s.services.keys, rfl⟩
    | _ => exact Or.inl ⟨_, rfl, rfl⟩
  | tick => exact Or.inr ⟨_, rfl⟩
  | zrangebyscore => exact Or.inr ⟨s.services.keys, rfl⟩
  | ttl i =>
    refine Or.inr ⟨s.services.keys, ?_⟩
    unfold step
    dsimp only
    split <;> rfl

theorem watched_step (h : s.services.Inv) {e : RoutingEvent} (hLate : s.NoLateHeartbeat e) :
    (s.step e).services.Inv := by
  rcases services_step (s := s) e with ⟨e', rfl, hStep⟩ | ⟨keys, hStep⟩
  · exact hStep ▸ Services.inv_step h hLate
  · exact hStep ▸ h.frame rfl rfl (List.Subset.refl _)

theorem known_step (h : s.services.Known) (e : RoutingEvent) : (s.step e).services.Known := by
  rcases services_step (s := s) e with ⟨e', rfl, hStep⟩ | ⟨keys, hStep⟩
  · exact hStep ▸ h.step e'
  · exact hStep ▸ h.frame rfl rfl

theorem running_step (h : s.Inv) (e : RoutingEvent) : ∀ q ∈ (s.step e).queries, q.Running := by
  cases e with
  | services e => cases e <;> exact h.running
  | tick => exact h.running
  | zrangebyscore =>
    intro q hq
    rcases List.mem_append.mp hq with hOld | hNew
    · exact h.running q hOld
    · rw [List.mem_singleton.mp hNew]
      refine Query.running_start ?_
      intro x hx
      obtain ⟨key, hKey, rfl⟩ := List.mem_map.mp hx
      exact listed_le h.noticing h.watched hKey
  | ttl i =>
    unfold step
    dsimp only
    split
    · exact h.running
    · rename_i key listed hNext
      intro q hq
      obtain ⟨old, hOld, hNext⟩ := Option.bind_eq_some_iff.mp hNext
      replace hq : q ∈ s.queries.modify i _ := hq
      rw [List.modify_eq_set_getElem?, hOld] at hq
      rcases List.mem_or_eq_of_mem_set hq with hq | rfl
      · exact h.running q hq
      · have hRunning := h.running old (List.mem_of_getElem? hOld)
        exact hRunning.ask hNext (asked_right h.timed key (hRunning.next_listed hNext)) rfl

/-- **One step.** -/
theorem Inv.step (h : s.Inv) {e : RoutingEvent} (hLate : s.NoLateHeartbeat e) : (s.step e).Inv :=
  ⟨h.noticing.step e, h.timed.step e, watched_step h.watched hLate, running_step h e⟩

end

/-- **Where clients are sent.** In every run without late heartbeats, with any registry rounds,
servers that start, stop and answer when they like, and queries that read the sorted set and ask
at any times: what a query returns is a gateway that has renewed its key in the last 8.5 seconds, or
one whose key never expires, or one that is gone and had been missed at most three times, counted
since its key was registered last, when it was listed; and whatever it passed over exists, but had
renewed its key before that. -/
theorem routing_sound (es : List RoutingEvent) (hLate : Each step NoLateHeartbeat start es) :
    Always step (fun s => ∀ q ∈ s.queries, q.Sound) start es :=
  (always_of_each (fun _ _ => True) (fun _ _ _ _ _ _ => trivial)
    (fun _ _ _ _ hInv hStep => hInv.step hStep) inv_start trivial hLate).imp
    fun _ hInv q hq => (hInv.running q hq).sound

/-- A gateway registers itself and answers the first request for a heartbeat; then a client
enters the game. -/
def oneGateway : List RoutingEvent :=
  [.services (.start .GATEWAY_KEYS [71]), .services (.server 0), .services (.server 0),
    .services (.server 0), .services (.server 0), .services (.smembers [[71]]),
    .services .registry, .services .registry, .services .registry, .services (.consume 0 7),
    .services (.consume 0 7), .services (.server 0), .services (.server 0), .tick,
    .zrangebyscore, .ttl 0]

theorem routing_sound_oneGateway :
    Always step (fun s => ∀ q ∈ s.queries, q.Sound) start oneGateway ∧
      (final step start oneGateway).queries.map Query.result = [some (some [71])] :=
  ⟨routing_sound oneGateway (by decide), by decide⟩

-- ---------------------------------------------------------------------------
-- What a query goes through
-- ---------------------------------------------------------------------------

/-- Query `i` is somewhere in the loop over these keys. -/
def GoesThrough (i : Nat) (keys : List ServiceKey) (s : Routing) : Prop :=
  ∃ q, s.queries[i]? = some q ∧ q.Follows keys

theorem goesThrough_step {s : Routing} {i : Nat} {keys : List ServiceKey}
    (h : s.GoesThrough i keys) (e : RoutingEvent) : (s.step e).GoesThrough i keys := by
  obtain ⟨q, hq, hFollows⟩ := h
  cases e with
  | services e => cases e <;> exact ⟨q, hq, hFollows⟩
  | tick => exact ⟨q, hq, hFollows⟩
  | zrangebyscore =>
    have hOld : i < s.queries.length := (List.getElem?_eq_some_iff.mp hq).1
    exact ⟨q, (List.getElem?_append_left hOld).trans hq, hFollows⟩
  | ttl j =>
    unfold step
    dsimp only
    split
    · exact ⟨q, hq, hFollows⟩
    · rename_i key listed hNext
      by_cases hij : j = i
      · -- the query itself goes on
        subst hij
        rw [hq] at hNext
        refine ⟨_, (List.getElem?_modify_eq _ _ _).trans (congrArg _ hq), ?_⟩
        exact hFollows.ask hNext rfl
      · exact ⟨q, (List.getElem?_modify_ne _ _ hij).trans hq, hFollows⟩

/-- **What a query sees.** In every run, with late heartbeats or without, `zrangebyscore` answers
with the advertised gateways, each once and in their order, and whatever happens from there on, the
query goes through these as the loop of `getLowLoadService` does. -/
theorem query_follows (es es' : List RoutingEvent) :
    (final step start es).ListsGateways ∧
      Always step (GoesThrough (final step start es).queries.length (final step start es).gateways)
        ((final step start es).step .zrangebyscore) es' := by
  have hKnown : Always step (fun s => s.services.Known) start es :=
    always_of_step (fun _ e hKnown => known_step hKnown e) Services.known_init
  refine ⟨lists_gateways hKnown.final, always_of_step (fun _ e h => goesThrough_step h e) ?_⟩
  refine ⟨_, List.getElem?_concat_length, ?_⟩
  have hStart := Query.follows_start
    ((final step start es).gateways.map fun key => (key, (final step start es).unnoticed key))
  rwa [List.map_map, show (Prod.fst ∘ fun key => (key, (final step start es).unnoticed key)) = id
    from rfl, List.map_id] at hStart

end Routing

end WarringServer.CenterServer
