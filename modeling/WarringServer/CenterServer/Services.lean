import WarringServer.CenterServer.ServiceRegistry

/-!
# Servers, the registry and Redis

The registry and the Game and Gateway servers share four structures in Redis: the
set `SERVICE_KEYS`, the sorted sets `GATEWAY_KEYS` and `GAME_KEYS`, and one key with a
time to live for every server. Each Redis command is one step; between two commands of
one process any other process may take its steps, and a key may expire.

* A server registers itself in `SERVICE_KEYS` (`registerService`), and answers
  every `SEND_HEARTBEAT` with `expire` and `zadd` (`onMessageFunc`).
* The registry removes a service that it has missed three times from the set and
  from the sorted sets (`observe`).

A heartbeat does not register the server again. `expire` does nothing to a key that has
expired, and `zadd` puts the server back into the sorted set from which the registry has
removed it: it is advertised, and nobody watches it any more.

`advertised_monitored` — every advertised service is monitored in all runs in which no
`zadd` comes behind the removal of its key from the sorted set.
-/

namespace WarringServer.CenterServer

open Run

/-- The commands the servers send to Redis. -/
inductive ServerCommand where
  | sadd (key : ServiceKey)
  | hset (key : ServiceKey)
  | expire (key : ServiceKey)
  | subscribe
  | zadd (set : ServiceSet) (key : ServiceKey) (score : Nat)
  deriving DecidableEq, Repr

/-- A Game or Gateway server: the sorted set of its kind, its key, whether it has
subscribed, the messages that wait for it, and the commands that its current
function has still to send. -/
structure Server where
  kind : ServiceSet
  keyWithAddress : ServiceKey
  subscribed : Bool
  mailbox : List Bytes
  pending : List ServerCommand
  deriving DecidableEq, Repr

namespace Server

/-- `registerService` of a server that starts. -/
def registerService (kind : ServiceSet) (keyWithAddress : ServiceKey) : Server :=
  { kind := kind
    keyWithAddress := keyWithAddress
    subscribed := false
    mailbox := []
    pending := [.sadd keyWithAddress, .hset keyWithAddress, .expire keyWithAddress, .subscribe] }

/-- `onMessageFunc`, with the connections that are active. The announcements of other
services are ignored. -/
def onMessageFunc (sv : Server) (msg : Bytes) (activeNum : Nat) : Server :=
  if msg = KEY_HEARTBEAT_MESSAGE then
    { sv with pending := [.expire sv.keyWithAddress, .zadd sv.kind sv.keyWithAddress activeNum] }
  else sv

/-- `mSub.consume()`: the next message, once the function before has returned. -/
def consume (sv : Server) (activeNum : Nat) : Server :=
  match sv.pending, sv.mailbox with
  | [], msg :: mailbox => { sv with mailbox := mailbox }.onMessageFunc msg activeNum
  | _, _ => sv

/-- A published message reaches the subscribers. -/
def deliver (msg : Bytes) (sv : Server) : Server :=
  if sv.subscribed then { sv with mailbox := sv.mailbox ++ [msg] } else sv

/-- The process ends. -/
def stop (sv : Server) : Server := { sv with subscribed := false, mailbox := [], pending := [] }

end Server

/-- Redis, the registry and the servers. A key is `some true` while its time to live
runs. `mTodo` are the members the round has still to ask for. -/
structure Services where
  SERVICE_KEYS : List ServiceKey
  sortedSet : ServiceSet → ServiceKey → Option Nat
  keys : ServiceKey → Option Bool
  mServiceKeys : MissCounts
  inRound : Bool
  mTodo : List ServiceKey
  pending : List RegistryCommand
  servers : List Server

namespace Services

def init : Services :=
  { SERVICE_KEYS := []
    sortedSet := fun _ _ => none
    keys := fun _ => none
    mServiceKeys := fun _ => none
    inRound := false
    mTodo := []
    pending := []
    servers := [] }

-- ---------------------------------------------------------------------------
-- Redis commands
-- ---------------------------------------------------------------------------

/-- `PUBLISH`. -/
def publish (s : Services) (msg : Bytes) : Services :=
  { s with servers := s.servers.map (Server.deliver msg) }

/-- `EXISTS`. -/
def existed (s : Services) (key : ServiceKey) : Bool := (s.keys key).isSome

def setScore (s : Services) (set : ServiceSet) (key : ServiceKey) (score : Option Nat) :
    Services :=
  { s with
    sortedSet := Function.update s.sortedSet set (Function.update (s.sortedSet set) key score) }

/-- A command of the registry. -/
def registryCommand (s : Services) : RegistryCommand → Services
  | .publish msg => s.publish msg
  | .srem key => { s with SERVICE_KEYS := s.SERVICE_KEYS.filter (· ≠ key) }
  | .zrem set key => s.setScore set key none

/-- A command of server `i`. `EXPIRE` does nothing to a key that does not exist, and
`HSET` leaves the time to live of one that does. -/
def serverCommand (s : Services) (i : Nat) : ServerCommand → Services
  | .sadd key => { s with SERVICE_KEYS := s.SERVICE_KEYS.insert key }
  | .hset key => { s with keys := Function.update s.keys key (some ((s.keys key).getD false)) }
  | .expire key => { s with keys := Function.update s.keys key ((s.keys key).map fun _ => true) }
  | .subscribe => { s with servers := s.servers.modify i fun sv => { sv with subscribed := true } }
  | .zadd set key score => s.setScore set key (some score)

-- ---------------------------------------------------------------------------
-- Steps
-- ---------------------------------------------------------------------------

/-- One step of the registry inside a round: the next command, the next member, or the
message that ends the round. -/
def registryStep (s : Services) : Services :=
  match s.pending, s.mTodo with
  | command :: pending, _ => { s with pending := pending }.registryCommand command
  | [], key :: mTodo =>
      let (mServiceKeys, commands) := observe s.mServiceKeys key (s.existed key)
      { s with mServiceKeys := mServiceKeys, mTodo := mTodo, pending := commands }
  | [], [] => if s.inRound then { s with inRound := false }.publish KEY_HEARTBEAT_MESSAGE else s

/-- One step of server `i` inside `registerService` or `onMessageFunc`. -/
def serverStep (s : Services) (i : Nat) : Services :=
  match s.servers[i]? with
  | none => s
  | some sv =>
      match sv.pending with
      | [] => s
      | command :: pending =>
          { s with servers := s.servers.modify i fun sv => { sv with pending := pending } }
            |>.serverCommand i command

inductive ServiceEvent where
  /-- The registry starts a round: `smembers`, in the order of iteration. -/
  | smembers (order : List ServiceKey)
  /-- The registry goes on with its round. -/
  | registry
  /-- A server starts. -/
  | start (kind : ServiceSet) (keyWithAddress : ServiceKey)
  /-- Server `i` goes on with its function. -/
  | server (i : Nat)
  /-- Server `i` takes the next message. -/
  | consume (i : Nat) (activeNum : Nat)
  /-- Server `i` ends. -/
  | stop (i : Nat)
  /-- The time to live of a key has run out. -/
  | expired (key : ServiceKey)
  deriving DecidableEq, Repr

def step (s : Services) : ServiceEvent → Services
  | .smembers order =>
      if s.inRound = false ∧ order.Perm s.SERVICE_KEYS then
        { s with inRound := true, mTodo := order }
      else s
  | .registry => s.registryStep
  | .start kind key => { s with servers := s.servers ++ [Server.registerService kind key] }
  | .server i => s.serverStep i
  | .consume i activeNum => { s with servers := s.servers.modify i (·.consume activeNum) }
  | .stop i => { s with servers := s.servers.modify i Server.stop }
  | .expired key =>
      if s.keys key = some true then { s with keys := Function.update s.keys key none } else s

-- ---------------------------------------------------------------------------
-- Monitored services
-- ---------------------------------------------------------------------------

/-- No server is inside `registerService` or `onMessageFunc`, and the registry is between
two rounds. -/
def Quiescent (s : Services) : Prop :=
  s.inRound = false ∧ s.mTodo = [] ∧ s.pending = [] ∧ ∀ sv ∈ s.servers, sv.pending = []

instance (s : Services) : Decidable s.Quiescent := inferInstanceAs (Decidable (_ ∧ _))

/-- The key is in a sorted set. -/
def Advertised (s : Services) (set : ServiceSet) (key : ServiceKey) : Prop :=
  s.sortedSet set key ≠ none

/-- Once everything has come to rest, every advertised key is in `SERVICE_KEYS`. -/
def Monitored (s : Services) : Prop :=
  s.Quiescent → ∀ set key, s.Advertised set key → key ∈ s.SERVICE_KEYS

/-- The key is monitored, or the registry is about to take it out of the sorted set. -/
def Watched (s : Services) (set : ServiceSet) (key : ServiceKey) : Prop :=
  key ∈ s.SERVICE_KEYS ∨ .zrem set key ∈ s.pending

instance (s : Services) (set : ServiceSet) (key : ServiceKey) : Decidable (s.Watched set key) :=
  inferInstanceAs (Decidable (_ ∨ _))

/-- The sorted set and the key of the `zadd` that the event is, if it is one. -/
def zadd? (s : Services) : ServiceEvent → Option (ServiceSet × ServiceKey)
  | .server i =>
      match s.servers[i]? with
      | some { pending := .zadd set key _ :: _, .. } => some (set, key)
      | _ => none
  | _ => none

/-- No key is added to a sorted set behind its removal. -/
def NoLateHeartbeat (s : Services) (e : ServiceEvent) : Prop :=
  ∀ added ∈ s.zadd? e, s.Watched added.1 added.2

instance (s : Services) (e : ServiceEvent) : Decidable (s.NoLateHeartbeat e) :=
  inferInstanceAs (Decidable (∀ added ∈ s.zadd? e, _))

/-- A removal from `SERVICE_KEYS` is followed by those from the sorted sets. -/
def Thorough : List RegistryCommand → Prop
  | [] => True
  | .srem key :: rest => (∀ set, .zrem set key ∈ rest) ∧ Thorough rest
  | .publish _ :: rest => Thorough rest
  | .zrem _ _ :: rest => Thorough rest

/-- What every process keeps: advertised keys are watched, and what the registry has
begun to remove it removes everywhere. -/
structure Inv (s : Services) : Prop where
  watched : ∀ set key, s.Advertised set key → s.Watched set key
  thorough : Thorough s.pending

theorem Inv.monitored {s : Services} (h : Inv s) : s.Monitored := by
  rintro ⟨-, -, hPending, -⟩ set key hAdvertised
  -- at rest nothing is left to be removed
  rcases h.watched set key hAdvertised with hIn | hRemoval
  · exact hIn
  · rw [hPending] at hRemoval
    cases hRemoval

section

variable {s : Services} {key : ServiceKey}

theorem thorough_observe (mServiceKeys : MissCounts) (existed : Bool) :
    Thorough (observe mServiceKeys key existed).2 := by
  cases existed with
  | true =>
    by_cases hNew : (mServiceKeys key).isNone
    · simp [observe, hNew, Thorough]
    · simp [observe, hNew, Thorough]
  | false =>
    by_cases hLost : (mServiceKeys key).getD 0 + 1 ≥ 3
    · -- the four commands of a lost service
      simp only [observe, Bool.false_eq_true, if_false, if_pos hLost]
      refine ⟨fun set => ?_, trivial⟩
      cases set with
      | GATEWAY_KEYS => simp
      | GAME_KEYS => simp
    · simp only [observe, Bool.false_eq_true, if_false, if_neg hLost]
      exact trivial

theorem advertised_setScore {set set' : ServiceSet} {key' : ServiceKey} {score : Option Nat} :
    (s.setScore set key score).Advertised set' key' ↔
      if set' = set ∧ key' = key then score ≠ none else s.Advertised set' key' := by
  by_cases hSet : set' = set
  · subst hSet
    by_cases hKey : key' = key
    · subst hKey
      simp [Advertised, setScore]
    · simp [Advertised, setScore, hKey]
  · simp [Advertised, setScore, hSet]

/-- A step that touches neither the sorted sets nor the commands of the registry, and
takes nothing out of `SERVICE_KEYS`. -/
theorem Inv.frame {s' : Services} (h : Inv s) (hSet : s'.sortedSet = s.sortedSet)
    (hPending : s'.pending = s.pending) (hKeys : s.SERVICE_KEYS ⊆ s'.SERVICE_KEYS) : Inv s' := by
  refine ⟨fun set key hAdvertised => ?_, hPending ▸ h.thorough⟩
  rw [Advertised, hSet] at hAdvertised
  rcases h.watched set key hAdvertised with hIn | hRemoval
  · exact Or.inl (hKeys hIn)
  · exact Or.inr (hPending ▸ hRemoval)

-- ---------------------------------------------------------------------------
-- The registry
-- ---------------------------------------------------------------------------

theorem inv_registryCommand {command : RegistryCommand} {pending : List RegistryCommand}
    (h : Inv s) (hPending : s.pending = command :: pending) :
    Inv ({ s with pending := pending }.registryCommand command) := by
  obtain ⟨hWatched, hThorough⟩ := h
  rw [hPending] at hThorough
  cases command with
  | publish msg =>
    refine ⟨fun set key hAdvertised => ?_, hThorough⟩
    rcases hWatched set key hAdvertised with hIn | hRemoval
    · exact Or.inl hIn
    · rw [hPending] at hRemoval
      rcases List.mem_cons.mp hRemoval with hHead | hRest
      · cases hHead
      · exact Or.inr hRest
  | srem lost =>
    obtain ⟨hRest, hThorough⟩ := hThorough
    refine ⟨fun set key hAdvertised => ?_, hThorough⟩
    by_cases hLost : key = lost
    · -- from here on the removals from the sorted sets watch it
      subst hLost
      exact Or.inr (hRest set)
    · rcases hWatched set key hAdvertised with hIn | hRemoval
      · exact Or.inl (List.mem_filter.mpr ⟨hIn, by simpa using hLost⟩)
      · rw [hPending] at hRemoval
        rcases List.mem_cons.mp hRemoval with hHead | hLater
        · cases hHead
        · exact Or.inr hLater
  | zrem from_ lost =>
    refine ⟨fun set key hAdvertised => ?_, hThorough⟩
    have hSplit := advertised_setScore.mp hAdvertised
    by_cases hLost : set = from_ ∧ key = lost
    · rw [if_pos hLost] at hSplit
      exact absurd rfl hSplit
    · rw [if_neg hLost] at hSplit
      rcases hWatched set key hSplit with hIn | hRemoval
      · exact Or.inl hIn
      · rw [hPending] at hRemoval
        rcases List.mem_cons.mp hRemoval with hHead | hLater
        · rw [RegistryCommand.zrem.injEq] at hHead
          exact absurd hHead hLost
        · exact Or.inr hLater

theorem inv_registryStep (h : Inv s) : Inv s.registryStep := by
  cases hPending : s.pending with
  | cons command pending =>
    simp only [registryStep, hPending]
    exact inv_registryCommand h hPending
  | nil =>
    cases hTodo : s.mTodo with
    | cons key mTodo =>
      simp only [registryStep, hPending, hTodo]
      -- the round goes on only when nothing is left to be removed
      refine ⟨fun set other hAdvertised => ?_, thorough_observe s.mServiceKeys (s.existed key)⟩
      rcases h.watched set other hAdvertised with hIn | hRemoval
      · exact Or.inl hIn
      · rw [hPending] at hRemoval
        cases hRemoval
    | nil =>
      simp only [registryStep, hPending, hTodo]
      split
      · exact h.frame rfl hPending.symm (List.Subset.refl _)
      · exact h

-- ---------------------------------------------------------------------------
-- The servers
-- ---------------------------------------------------------------------------

theorem inv_serverCommand {i : Nat} {command : ServerCommand} (h : Inv s)
    (hLate : ∀ set key score, command = .zadd set key score → s.Watched set key) :
    Inv (s.serverCommand i command) := by
  cases command with
  | sadd key => exact h.frame rfl rfl fun _ hIn => List.mem_insert_of_mem hIn
  | hset key => exact h.frame rfl rfl (List.Subset.refl _)
  | expire key => exact h.frame rfl rfl (List.Subset.refl _)
  | subscribe => exact h.frame rfl rfl (List.Subset.refl _)
  | zadd into key score =>
    refine ⟨fun set other hAdvertised => ?_, h.thorough⟩
    have hSplit := advertised_setScore.mp hAdvertised
    by_cases hNew : set = into ∧ other = key
    · obtain ⟨rfl, rfl⟩ := hNew
      exact hLate set other score rfl
    · rw [if_neg hNew] at hSplit
      exact h.watched set other hSplit

theorem inv_serverStep {i : Nat} (h : Inv s) (hLate : s.NoLateHeartbeat (.server i)) :
    Inv (s.serverStep i) := by
  unfold serverStep
  split
  next => exact h
  next sv hServer =>
    split
    next => exact h
    next command pending hPending =>
      have hFrame : Inv { s with servers := s.servers.modify i fun sv =>
          { sv with pending := pending } } := h.frame rfl rfl (List.Subset.refl _)
      refine inv_serverCommand hFrame ?_
      intro set key score hCommand
      refine hLate (set, key) ?_
      obtain ⟨kind, keyWithAddress, subscribed, mailbox, pending'⟩ := sv
      subst hPending hCommand
      simp [zadd?, hServer]

/-- **One step.** -/
theorem inv_step {e : ServiceEvent} (h : Inv s) (hLate : s.NoLateHeartbeat e) :
    Inv (s.step e) := by
  cases e with
  | smembers order =>
    show Inv (if _ then _ else _)
    split
    · exact h.frame rfl rfl (List.Subset.refl _)
    · exact h
  | registry => exact inv_registryStep h
  | start kind key => exact h.frame rfl rfl (List.Subset.refl _)
  | server i => exact inv_serverStep h hLate
  | consume i activeNum => exact h.frame rfl rfl (List.Subset.refl _)
  | stop i => exact h.frame rfl rfl (List.Subset.refl _)
  | expired key =>
    show Inv (if _ then _ else _)
    split
    · exact h.frame rfl rfl (List.Subset.refl _)
    · exact h

end

theorem inv_init : Inv init :=
  ⟨fun _ _ hAdvertised => absurd rfl hAdvertised, trivial⟩

end Services

-- ---------------------------------------------------------------------------
-- Who is advertised
-- ---------------------------------------------------------------------------

namespace Server

/-- The sorted set and the key that a server adds. -/
def identity (sv : Server) : ServiceSet × ServiceKey := (sv.kind, sv.keyWithAddress)

/-- A server adds nothing but itself. -/
def AddsItself (sv : Server) : Prop :=
  ∀ set key score, .zadd set key score ∈ sv.pending → (set, key) = sv.identity

variable {sv : Server}

theorem addsItself_registerService (kind : ServiceSet) (key : ServiceKey) :
    (registerService kind key).AddsItself := by
  intro set key' score h
  simp [registerService] at h

theorem AddsItself.tail (h : sv.AddsItself) {command : ServerCommand}
    {pending : List ServerCommand} (hPending : sv.pending = command :: pending) :
    AddsItself { sv with pending := pending } := fun set key score hMem =>
  h set key score (hPending ▸ List.mem_cons_of_mem _ hMem)

theorem AddsItself.onMessageFunc (h : sv.AddsItself) (msg : Bytes) (activeNum : Nat) :
    (sv.onMessageFunc msg activeNum).AddsItself ∧
      (sv.onMessageFunc msg activeNum).identity = sv.identity := by
  unfold Server.onMessageFunc
  split
  · refine ⟨fun set key score hMem => ?_, rfl⟩
    rcases List.mem_cons.mp hMem with hExpire | hRest
    · cases hExpire
    · cases List.mem_singleton.mp hRest
      rfl
  · exact ⟨h, rfl⟩

theorem AddsItself.consume (h : sv.AddsItself) (activeNum : Nat) :
    (sv.consume activeNum).AddsItself ∧ (sv.consume activeNum).identity = sv.identity := by
  unfold Server.consume
  split
  next msg mailbox _ _ =>
    have hRest : AddsItself { sv with mailbox := mailbox } := h
    exact hRest.onMessageFunc msg activeNum
  next => exact ⟨h, rfl⟩

theorem AddsItself.deliver (h : sv.AddsItself) (msg : Bytes) :
    (sv.deliver msg).AddsItself ∧ (sv.deliver msg).identity = sv.identity := by
  unfold Server.deliver
  split
  · exact ⟨h, rfl⟩
  · exact ⟨h, rfl⟩

theorem addsItself_stop : sv.stop.AddsItself := fun _ _ _ h => absurd h List.not_mem_nil

end Server

namespace Services

/-- Every server adds itself, and what is advertised are servers that have been started. -/
structure Known (s : Services) : Prop where
  own : ∀ sv ∈ s.servers, sv.AddsItself
  started : ∀ set key, s.Advertised set key → (set, key) ∈ s.servers.map Server.identity

theorem known_init : Known init :=
  ⟨fun _ h => absurd h List.not_mem_nil, fun _ _ h => absurd rfl h⟩

section

variable {s : Services}

/-- A step that leaves the sorted sets and the identity of every server alone. -/
theorem Known.frame {s' : Services} (h : Known s) (hSet : s'.sortedSet = s.sortedSet)
    (hServers : s'.servers = s.servers) : Known s' := by
  refine ⟨hServers ▸ h.own, fun set key hAdvertised => ?_⟩
  rw [Advertised, hSet] at hAdvertised
  exact hServers ▸ h.started set key hAdvertised

theorem Known.map (h : Known s) {f : Server → Server}
    (hf : ∀ sv, sv.AddsItself → (f sv).AddsItself ∧ (f sv).identity = sv.identity) :
    Known { s with servers := s.servers.map f } := by
  constructor
  · intro sv hMem
    obtain ⟨old, hOld, rfl⟩ := List.mem_map.mp hMem
    exact (hf old (h.own old hOld)).1
  · intro set key hAdvertised
    obtain ⟨sv, hMem, hName⟩ := List.mem_map.mp (h.started set key hAdvertised)
    refine List.mem_map.mpr ⟨f sv, List.mem_map_of_mem hMem, ?_⟩
    rw [(hf sv (h.own sv hMem)).2, hName]

theorem Known.modify (h : Known s) (i : Nat) {f : Server → Server}
    (hf : ∀ sv, s.servers[i]? = some sv → (f sv).AddsItself ∧ (f sv).identity = sv.identity) :
    Known { s with servers := s.servers.modify i f } := by
  constructor
  · intro sv hMem
    obtain ⟨j, hj⟩ := List.getElem?_of_mem hMem
    rw [List.getElem?_modify] at hj
    obtain ⟨old, hOld, hNew⟩ := Option.map_eq_some_iff.mp hj
    by_cases hij : i = j
    · subst hij
      rw [if_pos rfl] at hNew
      exact hNew ▸ (hf old hOld).1
    · rw [if_neg hij] at hNew
      exact h.own sv (hNew ▸ List.mem_of_getElem? hOld)
  · intro set key hAdvertised
    obtain ⟨sv, hMem, hName⟩ := List.mem_map.mp (h.started set key hAdvertised)
    obtain ⟨j, hj⟩ := List.getElem?_of_mem hMem
    by_cases hij : i = j
    · subst hij
      have hNew : (s.servers.modify i f)[i]? = some (f sv) :=
        (List.getElem?_modify_eq f i s.servers).trans (congrArg _ hj)
      exact List.mem_map.mpr ⟨_, List.mem_of_getElem? hNew, (hf sv hj).2.trans hName⟩
    · have hOld : (s.servers.modify i f)[j]? = some sv :=
        (List.getElem?_modify_ne f s.servers hij).trans hj
      exact List.mem_map.mpr ⟨sv, List.mem_of_getElem? hOld, hName⟩

theorem Known.setScore (h : Known s) {set : ServiceSet} {key : ServiceKey} {score : Option Nat}
    (hNew : score ≠ none → (set, key) ∈ s.servers.map Server.identity) :
    Known (s.setScore set key score) := by
  refine ⟨h.own, fun set' key' hAdvertised => ?_⟩
  have hSplit := advertised_setScore.mp hAdvertised
  by_cases hSame : set' = set ∧ key' = key
  · obtain ⟨rfl, rfl⟩ := hSame
    exact hNew ((if_pos ⟨rfl, rfl⟩).mp hSplit)
  · rw [if_neg hSame] at hSplit
    exact h.started set' key' hSplit

theorem known_registryCommand (h : Known s) (command : RegistryCommand) :
    Known (s.registryCommand command) := by
  cases command with
  | publish msg => exact h.map fun sv hAdds => hAdds.deliver msg
  | srem key => exact h.frame rfl rfl
  | zrem set key => exact h.setScore fun hSome => absurd rfl hSome

theorem known_registryStep (h : Known s) : Known s.registryStep := by
  unfold registryStep
  split
  next command pending _ =>
    have hRest : Known { s with pending := pending } := h.frame rfl rfl
    exact known_registryCommand hRest command
  next => exact h.frame rfl rfl
  next =>
    split
    · have hOff : Known { s with inRound := false } := h.frame rfl rfl
      exact known_registryCommand hOff (.publish KEY_HEARTBEAT_MESSAGE)
    · exact h

theorem known_serverStep (h : Known s) (i : Nat) : Known (s.serverStep i) := by
  unfold serverStep
  split
  next => exact h
  next sv hServer =>
    have hAdds := h.own sv (List.mem_of_getElem? hServer)
    split
    next => exact h
    next command pending hPending =>
      have hRest : Known { s with servers := s.servers.modify i fun sv =>
          { sv with pending := pending } } := h.modify i fun sv' hServer' => by
        cases hServer.symm.trans hServer'
        exact ⟨hAdds.tail hPending, rfl⟩
      cases command with
      | sadd key => exact hRest.frame rfl rfl
      | hset key => exact hRest.frame rfl rfl
      | expire key => exact hRest.frame rfl rfl
      | subscribe =>
        refine hRest.modify i fun sv' hServer' => ⟨fun set key score hMem => ?_, rfl⟩
        exact hRest.own sv' (List.mem_of_getElem? hServer') set key score hMem
      | zadd set key score =>
        refine hRest.setScore ?_
        intro _
        -- the server is still there, with the rest of its commands
        have hSelf := hAdds set key score (hPending ▸ List.mem_cons_self)
        have hStill := List.getElem?_modify_eq (fun sv => { sv with pending := pending }) i
          s.servers
        rw [hServer] at hStill
        exact List.mem_map.mpr ⟨_, List.mem_of_getElem? hStill, hSelf.symm⟩

/-- **One step.** -/
theorem Known.step (h : Known s) (e : ServiceEvent) : Known (s.step e) := by
  cases e with
  | smembers order =>
    show Known (if _ then _ else _)
    split
    · exact h.frame rfl rfl
    · exact h
  | registry => exact known_registryStep h
  | start kind key =>
    constructor
    · intro sv hMem
      rcases List.mem_append.mp hMem with hOld | hNew
      · exact h.own sv hOld
      · exact List.mem_singleton.mp hNew ▸ Server.addsItself_registerService kind key
    · intro set key' hAdvertised
      show _ ∈ (s.servers ++ _).map _
      rw [List.map_append]
      exact List.mem_append_left _ (h.started set key' hAdvertised)
  | server i => exact known_serverStep h i
  | consume i activeNum =>
    exact h.modify i fun sv hServer => (h.own sv (List.mem_of_getElem? hServer)).consume activeNum
  | stop i => exact h.modify i fun sv _ => ⟨Server.addsItself_stop, rfl⟩
  | expired key =>
    show Known (if _ then _ else _)
    split
    · exact h.frame rfl rfl
    · exact h

end

-- ---------------------------------------------------------------------------
-- Runs
-- ---------------------------------------------------------------------------

/-- **No unmonitored service.** In every state of a run without late heartbeats in which
all is at rest, every member of the sorted sets is a member of `SERVICE_KEYS`. -/
theorem advertised_monitored (es : List ServiceEvent)
    (hLate : Each step NoLateHeartbeat init es) : Always step Monitored init es :=
  (always_of_each (fun _ _ => True) (fun _ _ _ _ _ _ => trivial)
    (fun _ _ _ _ hInv hStep => inv_step hInv hStep) inv_init trivial hLate).imp
    fun _ hInv => hInv.monitored

/-- A game server registers itself, and its key expires before it takes the first
heartbeat message. Three rounds later the registry has removed it; the message is still
in its mailbox. -/
def lateHeartbeat : List ServiceEvent :=
  [.start .GAME_KEYS [71], .server 0, .server 0, .server 0, .server 0, .expired [71],
    .smembers [[71]], .registry, .registry,
    .smembers [[71]], .registry, .registry,
    .smembers [[71]], .registry, .registry, .registry, .registry, .registry, .registry,
    .consume 0 0, .server 0, .server 0, .consume 0 0, .server 0, .server 0]

/-- The server is advertised ever after, though nobody watches it. -/
theorem advertised_unmonitored : ¬ Always step Monitored init lateHeartbeat := by
  intro h
  have hRest : (final step init lateHeartbeat).Quiescent := by decide
  have hIn := h.final hRest .GAME_KEYS [71] (by rw [Advertised]; decide)
  revert hIn
  decide

/-- A heartbeat in time, within the round that announces the server. -/
theorem advertised_monitored_inTime :
    Always step Monitored init
      [.start .GAME_KEYS [71], .server 0, .server 0, .server 0, .server 0,
        .smembers [[71]], .registry, .registry, .registry,
        .consume 0 7, .consume 0 7, .server 0, .server 0] :=
  advertised_monitored _ (by decide)

end Services

end WarringServer.CenterServer
