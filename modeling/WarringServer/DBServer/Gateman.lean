import WarringServer.DBServer.Store
import WarringServer.Lib.Run

/-!
# Gateman — the readers of the request streams

`DBServGateman::reader` of `DBServerGateway.h`. The login server and the game server push
carriers onto a stream of Redis with NEXT_SERVICE set to that stream itself. Readers of one
group pull them (each entry goes to one reader), run the handler for TYPE, acknowledge
the entry, and push the carrier onto whatever NEXT_SERVICE names by then.

So a handler has to overwrite NEXT_SERVICE. Those of the login stream always do.
`getGameResponseMsg` never does, and `getGameCharacterResponseMsg` not for a CODE it does
not know: the reader pushes such a carrier back onto its own stream, to be read again.

* `process_answered` — no push onto the stream for a request that is answered;
* `fed_forever` — a single request of the other kind keeps the readers busy;
* `stream_drains_iff` — the readers of a stream never feed it, under any schedule,
  exactly if all requests are of the first kind.
-/

namespace WarringServer.DBServer

open Message Run

-- ---------------------------------------------------------------------------
-- Stream entries
-- ---------------------------------------------------------------------------

/-- The fields of an entry, tag and value. -/
abbrev StreamEntry := List (Bytes × Bytes)

/-- `FILL_2_VEC` -/
def Carrier.fill2Vec (c : Carrier) : StreamEntry :=
  [(literal "CARRIER_TYPE", c.type), (literal "CARRIER_SERVICE", c.service),
    (literal "CARRIER_NEXT_SERVICE", c.nextService), (literal "CARRIER_CLIENT_ID_TAG", c.clientId),
    (literal "CARRIER_CLIENT_ADDRESS_TAG", c.clientAddress), (literal "CARRIER_MESSAGE", c.message)]

/-- The gatemen of `DBServGateway`. -/
inductive Gateman where
  | login
  | game
deriving Repr, DecidableEq

namespace Gateman

/-- `FILL_2_THIS`: the values by their position. `LoginMessage` asserts the number of
fields, `GameMessage` does not. -/
def fill2This (g : Gateman) (entry : StreamEntry) : Except Fault Carrier :=
  match entry.map Prod.snd with
  | type :: service :: nextService :: clientId :: clientAddress :: message :: rest =>
    if g = .login ∧ rest ≠ [] then .error .standard
    else .ok ⟨type, service, nextService, clientId, clientAddress, message⟩
  | _ => .error .standard

/-- **Round trip** of a carrier through the stream. -/
theorem fill2This_fill2Vec (g : Gateman) (c : Carrier) : g.fill2This c.fill2Vec = .ok c := by
  simp [fill2This, Carrier.fill2Vec]

-- ---------------------------------------------------------------------------
-- The reader
-- ---------------------------------------------------------------------------

/-- `mReadKey` -/
def readKey : Gateman → Bytes
  | .login => DBServConf.BROKER_DB_4_LOGIN_KEY
  | .game => DBServConf.BROKER_DB_4_GAME_KEY

/-- `mHandleFuncs`, as the constructor of `DBServGateway` registers it. -/
def mHandleFuncs {σ : Type} (g : Gateman) (d : Drivers σ) (type : Bytes) :
    Option (Carrier → Task σ Carrier) :=
  match g with
  | .login =>
    if type = DBServConf.MESSAGE_LOGIN_LOGIN_MSG then some (getLoginResponseMsg d)
    else if type = DBServConf.MESSAGE_LOGIN_LOGIN_CHARACTER_MSG then
      some (getLoginCharacterResponseMsg d)
    else none
  | .game =>
    if type = DBServConf.MESSAGE_GAME_MSG then some getGameResponseMsg
    else if type = DBServConf.MESSAGE_GAME_CHARACTER_MSG then some (getGameCharacterResponseMsg d)
    else none

/-- The look-up in `mHandleFuncs` and the call. -/
def handled {σ : Type} (g : Gateman) (d : Drivers σ) (msg : Carrier) : Task σ Carrier :=
  match g.mHandleFuncs d msg.type with
  | some handler => handler msg
  | none => pure msg

/-- The entry of an iteration: the handler for its TYPE, and what is pushed where if
`acked`. The deletion for the error type concerns an entry the group has delivered, so it
makes no difference to what is still to be read. -/
def process {σ : Type} (g : Gateman) (d : Drivers σ) (entry : StreamEntry) (acked : Bool) :
    Task σ (Option (Bytes × StreamEntry)) := do
  let msg ← Job.ofExcept (g.fill2This entry)
  let msg ← g.handled d msg
  return if acked ∧ msg.nextService ≠ [] then some (msg.nextService, msg.fill2Vec) else none

/-- Whether the iteration runs a handler. -/
def runsHandler {σ : Type} (g : Gateman) (d : Drivers σ) (entry : StreamEntry) : Bool :=
  match g.fill2This entry with
  | .ok msg => (g.mHandleFuncs d msg.type).isSome
  | .error _ => false

-- ---------------------------------------------------------------------------
-- Requests
-- ---------------------------------------------------------------------------

/-- The key a server wants to be answered on. The number of a game server is appended to
its key. -/
def Sender : Gateman → Bytes → Prop
  | .login, service => service = literal "Warring:LoginServ"
  | .game, service => ∃ suffix, service = literal "Warring:GameServ_" ++ suffix

/-- The body is one of the message class that goes with TYPE. -/
structure Decodes (c : Carrier) : Prop where
  login : c.type = DBServConf.MESSAGE_LOGIN_LOGIN_MSG →
    ∃ m, LoginRequestMessage.deserialize c.message = .ok m
  loginCharacter : c.type = DBServConf.MESSAGE_LOGIN_LOGIN_CHARACTER_MSG →
    ∃ m, LoginCharacterRequestMessage.deserialize c.message = .ok m
  game : c.type = DBServConf.MESSAGE_GAME_MSG → ∃ m, DSMessage.deserialize c.message = .ok m
  gameCharacter : c.type = DBServConf.MESSAGE_GAME_CHARACTER_MSG →
    ∃ m, DSLoadOrUploadCharacterMessage.deserialize c.message = .ok m

/-- The types with a handler. -/
def types : Gateman → List Bytes
  | .login => [DBServConf.MESSAGE_LOGIN_LOGIN_MSG, DBServConf.MESSAGE_LOGIN_LOGIN_CHARACTER_MSG]
  | .game => [DBServConf.MESSAGE_GAME_MSG, DBServConf.MESSAGE_GAME_CHARACTER_MSG]

/-- A carrier as `messageFunc` of the other servers pushes it, with a TYPE that has a
handler and a body that decodes. -/
structure Request (g : Gateman) where
  carrier : Carrier
  from_server : g.Sender carrier.service
  to_itself : carrier.nextService = g.readKey
  registered : carrier.type ∈ g.types
  decodes : Decodes carrier

namespace Request

variable {g : Gateman}

def entry (r : Request g) : StreamEntry := r.carrier.fill2Vec

/-- The handler overwrites NEXT_SERVICE. -/
def Answered (r : Request g) : Prop :=
  r.carrier.type ≠ DBServConf.MESSAGE_GAME_MSG ∧
    (r.carrier.type = DBServConf.MESSAGE_GAME_CHARACTER_MSG →
      ∀ m, DSLoadOrUploadCharacterMessage.deserialize r.carrier.message = .ok m →
        m.code = code.game.GAME_LOAD_CHARACTER_CODE ∨
        m.code = code.game.GAME_UPLOAD_CHARACTER_CODE ∨
        m.code = code.game.GAME_LAST_UPLOAD_CHARACTER_CODE)

end Request

-- ---------------------------------------------------------------------------
-- Readers of one stream
-- ---------------------------------------------------------------------------

/-- The stream, the readers of the group, and what they work with. -/
structure Reading (σ : Type) where
  world : σ
  /-- Entries of the stream that the group has not been given. -/
  waiting : List StreamEntry
  /-- Entries given to readers that have not finished with them. -/
  inHand : List StreamEntry
  /-- Requests pushed by other servers. -/
  requests : Nat
  /-- Handler runs. -/
  runs : Nat
  /-- Pushes of the readers onto the stream. -/
  fed : Nat

inductive Event (g : Gateman) where
  /-- Another server pushes a request. -/
  | request (r : Request g)
  /-- `XADD` cuts the stream to its maximal length. -/
  | trim (n : Nat)
  /-- `XREADGROUP` gives the next entry to a reader. -/
  | deliver
  /-- The reader of the `i`-th entry goes through with its iteration; `acked` is whether
  `XACK` returns 1. -/
  | finish (i : Nat) (acked : Bool)

namespace Reading

variable {σ : Type} (d : Drivers σ) {g : Gateman}

def start (world : σ) : Reading σ := ⟨world, [], [], 0, 0, 0⟩

/-- A reader goes through with its iteration. After an exception it is gone, without
acknowledgement or push. -/
def finish (g : Gateman) (s : Reading σ) (i : Nat) (acked : Bool) : Reading σ :=
  match s.inHand[i]? with
  | none => s
  | some entry =>
    let (pushed, world) := (g.process d entry acked).exec s.world
    let s := { s with
      world := world
      inHand := s.inHand.eraseIdx i
      runs := s.runs + if g.runsHandler d entry then 1 else 0 }
    match pushed with
    | .ok (some (key, entry)) =>
      if key = g.readKey then { s with waiting := s.waiting ++ [entry], fed := s.fed + 1 } else s
    | _ => s

def step (s : Reading σ) : Event g → Reading σ
  | .request r =>
    { s with waiting := s.waiting ++ [r.entry], requests := s.requests + 1 }
  | .trim n => { s with waiting := s.waiting.drop n }
  | .deliver =>
    match s.waiting with
    | [] => s
    | entry :: waiting => { s with waiting := waiting, inHand := s.inHand ++ [entry] }
  | .finish i acked => finish d g s i acked

/-- The readers have not pushed onto their own stream, and there are no more handler runs
than requests. -/
structure Quiet (s : Reading σ) : Prop where
  not_fed : s.fed = 0
  runs_le : s.runs ≤ s.requests

end Reading

/-- The requests of a schedule, in order. -/
def requestsOf {g : Gateman} (es : List (Event g)) : List (Request g) :=
  es.filterMap fun
    | .request r => some r
    | _ => none

-- ---------------------------------------------------------------------------
-- What the handlers do to NEXT_SERVICE
-- ---------------------------------------------------------------------------

section

variable {σ : Type} (d : Drivers σ) {c : Carrier}

theorem decoded_ok_bind {α β : Type} {r : Except DecodeFault α} {a : α} (h : r = .ok a)
    (f : α → Task σ β) : (decoded r >>= f) = f a := by
  rw [h]
  rfl

theorem getLoginResponseMsg_next (hType : c.type = DBServConf.MESSAGE_LOGIN_LOGIN_MSG) :
    Job.Returns (getLoginResponseMsg d c) fun c' => c'.nextService = c.service := by
  rw [getLoginResponseMsg, if_neg (not_not.mpr hType)]
  exact Job.returns_bind fun _ => Job.returns_bind fun _ => Job.returns_pure rfl

theorem getLoginCharacterResponseMsg_next
    (hType : c.type = DBServConf.MESSAGE_LOGIN_LOGIN_CHARACTER_MSG) :
    Job.Returns (getLoginCharacterResponseMsg d c) fun c' => c'.nextService = c.service := by
  rw [getLoginCharacterResponseMsg, if_neg (not_not.mpr hType)]
  exact Job.returns_bind fun _ => Job.returns_bind fun _ => Job.returns_pure rfl

theorem getGameCharacterResponseMsg_next {m : DSLoadOrUploadCharacterMessage}
    (hType : c.type = DBServConf.MESSAGE_GAME_CHARACTER_MSG)
    (hDecode : DSLoadOrUploadCharacterMessage.deserialize c.message = .ok m)
    (hCode : m.code = code.game.GAME_LOAD_CHARACTER_CODE ∨
      m.code = code.game.GAME_UPLOAD_CHARACTER_CODE ∨
      m.code = code.game.GAME_LAST_UPLOAD_CHARACTER_CODE) :
    Job.Returns (getGameCharacterResponseMsg d c)
      fun c' => c'.nextService = c.service ∨ c'.nextService = [] := by
  rw [getGameCharacterResponseMsg, if_neg (not_not.mpr hType), decoded_ok_bind hDecode]
  dsimp only
  split
  · exact Job.returns_bind fun _ => Job.returns_pure (Or.inl rfl)
  · rename_i hLoad
    split
    · exact Job.returns_bind fun _ => Job.returns_pure (Or.inr rfl)
    · rename_i hUpload
      rw [if_pos ((hCode.resolve_left hLoad).resolve_left hUpload)]
      exact Job.returns_bind fun _ => Job.returns_pure (Or.inr rfl)

/-- Any other CODE leaves the carrier as it was, and nothing is asked of the drivers. -/
theorem getGameCharacterResponseMsg_unknown {m : DSLoadOrUploadCharacterMessage}
    (hType : c.type = DBServConf.MESSAGE_GAME_CHARACTER_MSG)
    (hDecode : DSLoadOrUploadCharacterMessage.deserialize c.message = .ok m)
    (hCode : ¬ (m.code = code.game.GAME_LOAD_CHARACTER_CODE ∨
      m.code = code.game.GAME_UPLOAD_CHARACTER_CODE ∨
      m.code = code.game.GAME_LAST_UPLOAD_CHARACTER_CODE)) :
    getGameCharacterResponseMsg d c = pure c := by
  rw [not_or, not_or] at hCode
  rw [getGameCharacterResponseMsg, if_neg (not_not.mpr hType), decoded_ok_bind hDecode]
  dsimp only
  rw [if_neg hCode.1, if_neg hCode.2.1, if_neg hCode.2.2]

theorem getGameResponseMsg_unchanged {m : DSMessage}
    (hType : c.type = DBServConf.MESSAGE_GAME_MSG)
    (hDecode : DSMessage.deserialize c.message = .ok m) :
    (getGameResponseMsg c : Task σ Carrier) = pure c := by
  rw [getGameResponseMsg, if_neg (not_not.mpr hType), decoded_ok_bind hDecode]

end

-- ---------------------------------------------------------------------------
-- One iteration
-- ---------------------------------------------------------------------------

namespace Request

variable {g : Gateman} (r : Request g)

theorem readKey_ne_nil : g.readKey ≠ [] := by
  cases g <;> decide

/-- Servers want to be answered on another stream. -/
theorem service_ne : r.carrier.service ≠ g.readKey := by
  have hSender := r.from_server
  cases g with
  | login =>
    have hService : r.carrier.service = literal "Warring:LoginServ" := hSender
    rw [hService]
    decide
  | game =>
    obtain ⟨suffix, hService⟩ := hSender
    intro hEq
    -- the keys differ behind the prefix they share
    have hTake := congrArg (List.take 17) (hService ▸ hEq)
    rw [List.take_left' (by decide)] at hTake
    exact absurd hTake (by decide)

theorem process_eq {σ : Type} (d : Drivers σ) (acked : Bool) :
    ∃ handler, g.mHandleFuncs d r.carrier.type = some handler ∧
      g.process d r.entry acked = (handler r.carrier >>= fun msg => pure
        (if acked ∧ msg.nextService ≠ [] then some (msg.nextService, msg.fill2Vec) else none)) := by
  have hHandler : ∃ handler, g.mHandleFuncs d r.carrier.type = some handler := by
    have hType := r.registered
    cases g with
    | login =>
      rcases List.mem_pair.mp hType with h | h
      · exact ⟨_, by rw [mHandleFuncs, if_pos h]⟩
      · exact ⟨_, by rw [mHandleFuncs, if_neg (by rw [h]; decide), if_pos h]⟩
    | game =>
      rcases List.mem_pair.mp hType with h | h
      · exact ⟨_, by rw [mHandleFuncs, if_pos h]⟩
      · exact ⟨_, by rw [mHandleFuncs, if_neg (by rw [h]; decide), if_pos h]⟩
  obtain ⟨handler, hHandler⟩ := hHandler
  refine ⟨handler, hHandler, ?_⟩
  rw [process, entry, fill2This_fill2Vec]
  show (g.handled d r.carrier >>= _) = _
  rw [handled, hHandler]

theorem runsHandler_entry {σ : Type} (d : Drivers σ) : g.runsHandler d r.entry = true := by
  obtain ⟨handler, hHandler, -⟩ := r.process_eq d true
  simp [runsHandler, entry, fill2This_fill2Vec, hHandler]

/-- The handler of an answered request leaves the sender's key in NEXT_SERVICE, or
nothing. -/
theorem handler_next (hAnswered : r.Answered) {σ : Type} (d : Drivers σ)
    {handler : Carrier → Task σ Carrier} (h : g.mHandleFuncs d r.carrier.type = some handler) :
    Job.Returns (handler r.carrier)
      fun c => c.nextService = r.carrier.service ∨ c.nextService = [] := by
  have hWeaken : ∀ t : Task σ Carrier, Job.Returns t (fun c => c.nextService = r.carrier.service) →
      Job.Returns t fun c => c.nextService = r.carrier.service ∨ c.nextService = [] :=
    fun t ht s a s' hExec => Or.inl (ht s a s' hExec)
  have hType := r.registered
  cases g with
  | login =>
    rcases List.mem_pair.mp hType with hLogin | hCharacter
    · rw [mHandleFuncs, if_pos hLogin] at h
      obtain rfl := Option.some.inj h
      exact hWeaken _ (getLoginResponseMsg_next d hLogin)
    · rw [mHandleFuncs, if_neg (by rw [hCharacter]; decide), if_pos hCharacter] at h
      obtain rfl := Option.some.inj h
      exact hWeaken _ (getLoginCharacterResponseMsg_next d hCharacter)
  | game =>
    rcases List.mem_pair.mp hType with hGame | hCharacter
    · exact absurd hGame hAnswered.1
    · rw [mHandleFuncs, if_neg (by rw [hCharacter]; decide), if_pos hCharacter] at h
      obtain rfl := Option.some.inj h
      obtain ⟨m, hDecode⟩ := r.decodes.gameCharacter hCharacter
      exact getGameCharacterResponseMsg_next d hCharacter hDecode
        (hAnswered.2 hCharacter m hDecode)

/-- **One iteration.** A reader pushes nothing onto its stream for an answered request,
whatever the drivers answer or throw. -/
theorem process_answered (hAnswered : r.Answered) {σ : Type} (d : Drivers σ) (acked : Bool) :
    Job.Returns (g.process d r.entry acked)
      fun pushed => ∀ key entry, pushed = some (key, entry) → key ≠ g.readKey := by
  obtain ⟨handler, hHandler, hProcess⟩ := r.process_eq d acked
  rw [hProcess]
  intro s pushed s' hExec
  rcases hRun : (handler r.carrier).exec s with ⟨_ | c, s₁⟩
  · rw [Job.exec_bind_error hRun] at hExec
    cases hExec
  · rw [Job.exec_bind_ok hRun, Job.exec_pure, Prod.mk.injEq, Except.ok.injEq] at hExec
    obtain ⟨rfl, -⟩ := hExec
    intro key entry hPushed
    have hNext := r.handler_next hAnswered d hHandler s c s₁ hRun
    split at hPushed
    · rename_i hPush
      obtain rfl : c.nextService = key := congrArg Prod.fst (Option.some.inj hPushed)
      rw [hNext.resolve_right hPush.2]
      exact r.service_ne
    · cases hPushed

/-- A request that is not answered goes back onto the stream as it came. -/
theorem process_unanswered (hNot : ¬ r.Answered) {σ : Type} (d : Drivers σ) (world : σ) :
    (g.process d r.entry true).exec world = (.ok (some (g.readKey, r.entry)), world) := by
  obtain ⟨handler, hHandler, hProcess⟩ := r.process_eq d true
  have hSame : handler r.carrier = pure r.carrier := by
    have hType := r.registered
    cases g with
    | login =>
      -- the login stream has no such requests
      refine absurd ⟨?_, fun h => ?_⟩ hNot
      · rcases List.mem_pair.mp hType with h | h <;> rw [h] <;> decide
      · rcases List.mem_pair.mp hType with h' | h' <;> exact absurd (h'.symm.trans h) (by decide)
    | game =>
      rcases List.mem_pair.mp hType with hGame | hCharacter
      · rw [mHandleFuncs, if_pos hGame] at hHandler
        obtain rfl := Option.some.inj hHandler
        obtain ⟨m, hDecode⟩ := r.decodes.game hGame
        exact getGameResponseMsg_unchanged hGame hDecode
      · rw [mHandleFuncs, if_neg (by rw [hCharacter]; decide), if_pos hCharacter] at hHandler
        obtain rfl := Option.some.inj hHandler
        obtain ⟨m, hDecode⟩ := r.decodes.gameCharacter hCharacter
        refine getGameCharacterResponseMsg_unknown d hCharacter hDecode fun hCode => hNot ⟨?_, ?_⟩
        · rw [hCharacter]
          decide
        · intro _ m' hDecode'
          rw [hDecode, Except.ok.injEq] at hDecode'
          exact hDecode' ▸ hCode
  have hPush : r.carrier.nextService ≠ [] := by
    rw [r.to_itself]
    exact readKey_ne_nil
  rw [hProcess, hSame, pure_bind, Job.exec_pure, if_pos ⟨rfl, hPush⟩, r.to_itself, entry]

end Request

-- ---------------------------------------------------------------------------
-- Runs
-- ---------------------------------------------------------------------------

/-- A request that is pushed is answered. -/
def Event.Answered {g : Gateman} : Event g → Prop
  | .request r => r.Answered
  | _ => True

namespace Reading

variable {σ : Type} (d : Drivers σ) {g : Gateman} {s : Reading σ}

theorem finish_answered {r : Request g} {i : Nat} (h : s.inHand[i]? = some r.entry)
    (hAnswered : r.Answered) (acked : Bool) :
    ∃ world, finish d g s i acked =
      { s with world := world, inHand := s.inHand.eraseIdx i, runs := s.runs + 1 } := by
  rcases hExec : (g.process d r.entry acked).exec s.world with ⟨pushed, world⟩
  refine ⟨world, ?_⟩
  simp only [finish, h, hExec, r.runsHandler_entry, if_true]
  match pushed, hExec with
  | .error _, _ => rfl
  | .ok none, _ => rfl
  | .ok (some (key, entry)), hExec =>
    have hKey := r.process_answered hAnswered d acked _ _ _ hExec key entry rfl
    exact if_neg hKey

theorem finish_unanswered {r : Request g} {i : Nat} (h : s.inHand[i]? = some r.entry)
    (hNot : ¬ r.Answered) :
    finish d g s i true =
      { s with
        waiting := s.waiting ++ [r.entry]
        inHand := s.inHand.eraseIdx i
        runs := s.runs + 1
        fed := s.fed + 1 } := by
  simp only [finish, h, r.process_unanswered hNot, r.runsHandler_entry, if_true]

/-- All that is on the stream or in hand are answered requests, and every request is there,
or handled, or cut off. -/
structure Served (g : Gateman) (s : Reading σ) : Prop where
  entries : ∀ e ∈ s.waiting ++ s.inHand, ∃ r : Request g, r.Answered ∧ e = r.entry
  not_fed : s.fed = 0
  counted : s.runs + s.inHand.length + s.waiting.length ≤ s.requests

theorem Served.quiet (h : s.Served g) : s.Quiet := ⟨h.not_fed, by have := h.counted; omega⟩

theorem served_start (world : σ) : (start world).Served g :=
  ⟨fun _ he => absurd he List.not_mem_nil, rfl, Nat.le_refl 0⟩

/-- **One event.** -/
theorem served_step (h : s.Served g) {e : Event g} (he : e.Answered) : (step d s e).Served g := by
  have hCount := h.counted
  cases e with
  | request r =>
    refine ⟨?_, h.not_fed, ?_⟩
    · intro e' he'
      simp only [step, List.append_assoc, List.mem_append, List.mem_singleton] at he'
      rcases he' with hWaiting | rfl | hHand
      · exact h.entries e' (by simp [hWaiting])
      · exact ⟨r, he, rfl⟩
      · exact h.entries e' (by simp [hHand])
    · simp only [step, List.length_append, List.length_singleton]
      omega
  | trim n =>
    refine ⟨?_, h.not_fed, ?_⟩
    · intro e' he'
      rcases List.mem_append.mp he' with hWaiting | hHand
      · exact h.entries e' (List.mem_append_left _ (List.mem_of_mem_drop hWaiting))
      · exact h.entries e' (List.mem_append_right _ hHand)
    · simp only [step, List.length_drop]
      omega
  | deliver =>
    cases hWaiting : s.waiting with
    | nil => simpa [step, hWaiting] using h
    | cons entry waiting =>
      simp only [hWaiting, List.length_cons] at hCount
      simp only [step, hWaiting]
      refine ⟨fun e' he' => h.entries e' ?_, h.not_fed, ?_⟩
      · rw [hWaiting]
        simp only [List.mem_append, List.mem_cons, List.not_mem_nil, or_false] at he' ⊢
        tauto
      · simp only [List.length_append, List.length_singleton]
        omega
  | finish i acked =>
    cases hEntry : s.inHand[i]? with
    | none => simpa [step, finish, hEntry] using h
    | some entry =>
      have hMem : entry ∈ s.inHand := List.mem_of_getElem? hEntry
      obtain ⟨r, hAnswered, rfl⟩ := h.entries entry (by simp [hMem])
      obtain ⟨world, hFinish⟩ := finish_answered d hEntry hAnswered acked
      have hIndex : i < s.inHand.length := (List.getElem?_eq_some_iff.mp hEntry).1
      show (finish d g s i acked).Served g
      rw [hFinish]
      refine ⟨fun e' he' => h.entries e' ?_, h.not_fed, ?_⟩
      · rcases List.mem_append.mp he' with hWaiting | hHand
        · simp [hWaiting]
        · simp [List.mem_of_mem_eraseIdx hHand]
      · simp only [List.length_eraseIdx_of_lt hIndex]
        omega

-- ---------------------------------------------------------------------------
-- Schedules that show the defect
-- ---------------------------------------------------------------------------

theorem final_requests (rs : List (Request g)) :
    final (step d) s (rs.map Event.request) =
      { s with
        waiting := s.waiting ++ rs.map Request.entry
        requests := s.requests + rs.length } := by
  induction rs generalizing s with
  | nil => simp
  | cons r rs ih =>
    rw [List.map_cons, final_cons, ih]
    simp [step, Nat.add_assoc, Nat.add_comm 1]

theorem final_deliver {entries : List StreamEntry} (h : s.waiting = entries) :
    final (step d) s (List.replicate entries.length (Event.deliver : Event g)) =
      { s with waiting := [], inHand := s.inHand ++ entries } := by
  induction entries generalizing s with
  | nil =>
    obtain ⟨world, waiting, inHand, requests, runs, fed⟩ := s
    obtain rfl : waiting = [] := h
    simp
  | cons entry entries ih =>
    rw [List.length_cons, List.replicate_succ, final_cons]
    have hStep : step d s (Event.deliver : Event g) =
        { s with waiting := entries, inHand := s.inHand ++ [entry] } := by
      simp only [step, h]
    rw [hStep, ih rfl]
    simp

/-- The reader gives the request back, and the next iteration is given it again. -/
theorem fed_forever {r : Request g} (hNot : ¬ r.Answered) (world : σ) (n : Nat) :
    final (step d) (start world)
        (Event.request r :: (List.replicate n [Event.deliver, Event.finish 0 true]).flatten) =
      ⟨world, [r.entry], [], 1, n, n⟩ := by
  rw [final_cons]
  show final (step d) ⟨world, [r.entry], [], 1, 0, 0⟩ _ = _
  have hTurns : ∀ k, final (step d) (⟨world, [r.entry], [], 1, k, k⟩ : Reading σ)
      ((List.replicate n [(Event.deliver : Event g), Event.finish 0 true]).flatten) =
        ⟨world, [r.entry], [], 1, k + n, k + n⟩ := by
    induction n with
    | zero => exact fun k => rfl
    | succ n ih =>
      intro k
      rw [List.replicate_succ, List.flatten_cons, final_append]
      have hTurn : final (step d) (⟨world, [r.entry], [], 1, k, k⟩ : Reading σ)
          [(Event.deliver : Event g), Event.finish 0 true] =
            ⟨world, [r.entry], [], 1, k + 1, k + 1⟩ := by
        show finish d g ⟨world, [], [r.entry], 1, k, k⟩ 0 true = _
        rw [finish_unanswered d (by rfl) hNot]
        rfl
      rw [hTurn, ih, Nat.add_assoc, Nat.add_comm 1]
  simpa using hTurns 0

end Reading

open Reading in
/--
**The database server and its own stream.** However the readers of a stream interleave,
whatever the drivers answer or throw and whichever acknowledgements count: no reader pushes
onto the stream, and there are no more handler runs than requests — if and only if every
request has a TYPE and a CODE whose handler overwrites NEXT_SERVICE.
-/
theorem stream_drains_iff {σ : Type} (d : Drivers σ) (g : Gateman) (world : σ)
    (rs : List (Request g)) :
    (∀ es : List (Event g), requestsOf es = rs → Always (step d) Quiet (start world) es) ↔
      ∀ r ∈ rs, r.Answered := by
  constructor
  · -- all requests are given to readers, then the one in question is finished
    intro hQuiet r hr
    by_contra hNot
    obtain ⟨i, hi, hGet⟩ := List.getElem_of_mem hr
    set es : List (Event g) := rs.map Event.request ++
      (List.replicate (rs.map Request.entry).length Event.deliver ++ [Event.finish i true]) with hes
    have hRequests : requestsOf es = rs := by
      simp [requestsOf, hes, List.filterMap_append, List.filterMap_map]
    have hFinal := (hQuiet es hRequests).final.not_fed
    rw [hes, final_append, final_append, final_requests d rs, final_deliver d (by rfl)] at hFinal
    have hEntry : ((start world).inHand ++ rs.map Request.entry)[i]? = some r.entry := by
      simp [start, hi, hGet]
    change (finish d g _ i true).fed = 0 at hFinal
    rw [finish_unanswered d hEntry hNot] at hFinal
    exact absurd hFinal (Nat.succ_ne_zero _)
  · intro hAnswered es hes
    have hEach : Each (step d) (fun _ => Event.Answered) (start world) es := by
      refine each_of_forall ?_
      intro e he
      cases e with
      | request r =>
        refine hAnswered r ?_
        rw [← hes]
        exact List.mem_filterMap.mpr ⟨_, he, rfl⟩
      | _ => trivial
    have hServed : Always (step d) (Served g) (start world) es :=
      always_of_each (fun _ _ => True) (fun _ _ _ _ _ _ => trivial)
        (fun _ _ _ _ h he => served_step d h he) (served_start world) trivial hEach
    exact hServed.imp fun _ h => h.quiet

/-- The body of a character request with a CODE nobody knows. -/
def unknownCode : DSLoadOrUploadCharacterMessage := ⟨999, 0, literal "a", literal "b", []⟩

theorem deserialize_unknownCode : DSLoadOrUploadCharacterMessage.deserialize
    (packed DBServConf.MESSAGE_GAME_CHARACTER_MSG unknownCode.members) = .ok unknownCode :=
  DSLoadOrUploadCharacterMessage.deserialize_packed _ _ (by decide) (by decide)

def unknownCodeRequest : Request .game where
  carrier := {
    type := DBServConf.MESSAGE_GAME_CHARACTER_MSG
    service := literal "Warring:GameServ_1"
    nextService := DBServConf.BROKER_DB_4_GAME_KEY
    clientId := literal "conn1"
    clientAddress := literal "10.0.0.1:40000"
    message := packed DBServConf.MESSAGE_GAME_CHARACTER_MSG unknownCode.members }
  from_server := ⟨literal "1", by decide⟩
  to_itself := rfl
  registered := by decide
  decodes := {
    login := fun h => absurd h (by decide)
    loginCharacter := fun h => absurd h (by decide)
    game := fun h => absurd h (by decide)
    gameCharacter := fun _ => ⟨unknownCode, deserialize_unknownCode⟩ }

theorem unknownCodeRequest_unanswered : ¬ unknownCodeRequest.Answered := by
  rintro ⟨-, hCode⟩
  exact absurd (hCode rfl unknownCode deserialize_unknownCode) (by decide)

open Reading in
/-- One request, two handler runs, and the entry is on the stream again. -/
theorem stream_fed :
    ¬ Always (step (Store.drivers (fun _ => []) 0)) Quiet (start Store.empty)
      [Event.request unknownCodeRequest, .deliver, .finish 0 true, .deliver, .finish 0 true] := by
  intro h
  have hFinal : (final (step (Store.drivers (fun _ => []) 0)) (start Store.empty)
      [Event.request unknownCodeRequest, .deliver, .finish 0 true, .deliver, .finish 0 true]) =
        ⟨Store.empty, [unknownCodeRequest.entry], [], 1, 2, 2⟩ :=
    fed_forever _ unknownCodeRequest_unanswered Store.empty 2
  have hRuns := h.final.runs_le
  rw [hFinal] at hRuns
  exact absurd hRuns (by decide)

end Gateman

end WarringServer.DBServer
