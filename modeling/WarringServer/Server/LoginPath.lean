import WarringServer.Broker.Replies
import WarringServer.Lib.Decimal
import WarringServer.Server.Recipients

/-!
# From a login request to its answer

A client sends a frame to a login server. `messageFunc` wraps it into a carrier with the name
of the connection and pushes it onto the stream of the database server. A reader there
pulls it, has the handler replace the message by the answer, and pushes the carrier onto the
stream that it came from, where the login servers look for the connection again.

The handlers of several readers run at the same time. What the drivers answer during one run of
a handler is therefore given with the event: nothing is assumed about it. So is whether Redis adds
what is pushed: if it does not, the request or the answer is dropped without a word. Every other
command is answered.

* `messageFunc` — the carrier that a frame becomes;
* `handled_cases` — what the handlers make of a carrier;
* `Traced` — every entry of the two streams belongs to a request;
* `answers_requests` — over every interleaving, each answer is what the handler has made of one
  request, no request is handled or answered twice, and an answer goes to a connection with
  the name of the one that has asked.
-/

namespace WarringServer

-- ---------------------------------------------------------------------------
-- What an iteration of a reader passes on
-- ---------------------------------------------------------------------------

namespace Broker

open Message ConsumerGroup DBServer

namespace Iteration

/-- The carrier that the handler has left, if it has come to that, has the property. -/
def Carries (P : Carrier → Prop) (it : Iteration) : Prop :=
  match it.stage with
  | .pulled | .thrown => True
  | .handled msg | .deleted msg | .acked msg _ | .finished msg _ => P msg

variable {P : Carrier → Prop} {handled : Option Carrier} {it : Iteration}
  {g : Group StreamEntry Bytes}

/-- A statement adds nothing to the stream, and stays with the entry. -/
theorem step_entries (handled : Option Carrier) (it : Iteration) (g : Group StreamEntry Bytes) :
    let r := it.step handled g
    r.1.id = it.id ∧ r.1.entry = it.entry ∧ r.2.1.lastId = g.lastId ∧
      ∀ e ∈ r.2.1.entries, e ∈ g.entries := by
  obtain ⟨id, entry, pulledAt, stage⟩ := it
  rcases stage with _ | msg | msg | ⟨msg, acked⟩ | ⟨msg, acked⟩ | _
  case pulled =>
    rcases handled with _ | msg
    · exact ⟨rfl, rfl, rfl, fun e he => he⟩
    · exact ⟨rfl, rfl, rfl, fun e he => he⟩
  case handled =>
    simp only [step]
    split
    · exact ⟨rfl, rfl, rfl, fun e he => (List.mem_filter.mp he).1⟩
    · exact ⟨rfl, rfl, rfl, fun e he => he⟩
  all_goals exact ⟨rfl, rfl, rfl, fun e he => he⟩

/-- What the handler has left is what is pushed. -/
theorem step_carries (hHandled : it.stage = .pulled → ∀ msg, handled = some msg → P msg)
    (h : it.Carries P) :
    let r := it.step handled g
    r.1.Carries P ∧ ∀ response, r.2.2 = some response →
      (∃ msg acked, it.stage = .acked msg acked ∧ P msg ∧
        response = (msg.nextService, msg.fill2Vec)) := by
  obtain ⟨id, entry, pulledAt, stage⟩ := it
  rcases stage with _ | msg | msg | ⟨msg, acked⟩ | ⟨msg, acked⟩ | _
  case pulled =>
    rcases handled with _ | msg
    · exact ⟨trivial, fun _ hNone => by cases hNone⟩
    · exact ⟨hHandled rfl msg rfl, fun _ hNone => by cases hNone⟩
  case handled =>
    simp only [step]
    split
    · exact ⟨h, fun _ hNone => by cases hNone⟩
    · exact ⟨h, fun _ hNone => by cases hNone⟩
  case acked =>
    refine ⟨h, fun r hResponse => ⟨msg, acked, rfl, h, ?_⟩⟩
    simp only [step, response] at hResponse
    split at hResponse
    · exact (Option.some.inj hResponse).symm
    · cases hResponse
  all_goals exact ⟨h, fun _ hNone => by cases hNone⟩

/-- A response names a stream. -/
theorem step_key {key : Bytes} {entry : StreamEntry}
    (h : (it.step handled g).2.2 = some (key, entry)) : key ≠ [] := by
  obtain ⟨id, e, pulledAt, stage⟩ := it
  rcases stage with _ | msg | msg | ⟨msg, acked⟩ | ⟨msg, acked⟩ | _
  case pulled =>
    rcases handled with _ | msg
    · cases h
    · cases h
  case handled =>
    simp only [step] at h
    split at h
    · cases h
    · cases h
  case acked =>
    simp only [step, response] at h
    split at h
    · rename_i hBoth
      obtain ⟨rfl, -⟩ := Prod.mk.inj (Option.some.inj h)
      exact hBoth.2
    · cases h
  all_goals cases h

end Iteration

namespace Gatemen

variable {c : Settings} {s : Gatemen} {readKey : Bytes}

/-- The event pushes nothing; what has just been pulled was on the stream. -/
structure Calm (s s' : Gatemen) : Prop where
  lastId : s'.group.lastId = s.group.lastId
  entries : ∀ e ∈ s'.group.entries, e ∈ s.group.entries
  pushed : s'.pushed = s.pushed
  iterations : ∀ it ∈ s'.iterations, it ∈ s.iterations ∨
    it.stage = .pulled ∧ (it.id, it.entry) ∈ s.group.entries

/-- The next statement of an iteration, where Redis does not add what it pushes: no stream gets the
response. -/
def readerUnpushed (s : Gatemen) (i : Nat) (handled : Option Carrier) : Gatemen :=
  match s.iterations[i]? with
  | none => s
  | some it =>
    let r := it.step handled s.group
    { s with
      iterations := s.iterations.set i r.1
      group := r.2.1
      pushed := s.pushed ++ r.2.2.toList.map fun x => (it.id, x) }

/-- It is as if the reader had read another stream: no response names the empty key. -/
theorem readerUnpushed_eq (i : Nat) (handled : Option Carrier) :
    s.readerUnpushed i handled = s.step [] c (.reader i handled) := by
  rcases hit : s.iterations[i]? with _ | it
  · rw [readerUnpushed, Gatemen.step, hit]
  · rcases hStep : it.step handled s.group with ⟨it', g, response⟩
    rw [readerUnpushed, step_reader hit hStep, hit]
    dsimp only
    rw [hStep]
    have hDeliver : deliver [] response g = g := by
      rcases response with _ | ⟨key, entry⟩
      · rfl
      · have hPushes : (it.step handled s.group).2.2 = some (key, entry) := by rw [hStep]
        exact if_neg (Iteration.step_key hPushes)
    rw [hDeliver]

theorem calm_tick (milliseconds : Nat) : s.Calm (s.step readKey c (.tick milliseconds)) :=
  ⟨rfl, fun _ he => he, rfl, fun _ hit => Or.inl hit⟩

theorem calm_trim (n : Nat) : s.Calm (s.step readKey c (.trim n)) :=
  ⟨rfl, fun _ he => List.mem_of_mem_drop he, rfl, fun _ hit => Or.inl hit⟩

theorem calm_pull (consumer : Bytes) : s.Calm (s.step readKey c (.pull consumer)) := by
  refine ⟨Group.read_lastId, ?_, rfl, ?_⟩
  · intro e he
    change e ∈ (s.group.read consumer s.now).1.entries at he
    rw [Group.read_entries] at he
    exact he
  · intro it hit
    rcases List.mem_append.mp hit with hOld | hNew
    · exact Or.inl hOld
    · obtain ⟨e, he, rfl⟩ := List.mem_map.mp hNew
      exact Or.inr ⟨rfl, Group.read_mem (Option.mem_toList.mp he)⟩

theorem calm_manager (j : Nat) (forget : Bool) : s.Calm (s.step readKey c (.manager j forget)) := by
  rw [Gatemen.step]
  split
  · exact ⟨rfl, fun _ he => he, rfl, fun _ hit => Or.inl hit⟩
  · rename_i m _
    obtain ⟨hLastId, hEntries⟩ := m.step_entries c s.now forget s.group
    exact ⟨hLastId, hEntries, rfl, fun _ hit => Or.inl hit⟩

theorem calm_otherStream (j : Nat) (siblings : List Bytes) :
    s.Calm (s.step readKey c (.otherStream j siblings)) := by
  rw [Gatemen.step]
  split
  · exact ⟨rfl, fun _ he => he, rfl, fun _ hit => Or.inl hit⟩
  · exact ⟨rfl, fun _ he => he, rfl, fun _ hit => Or.inl hit⟩

end Gatemen

end Broker

namespace Server

open Broker ConsumerGroup DBServer Message Run

-- ---------------------------------------------------------------------------
-- The login server
-- ---------------------------------------------------------------------------

namespace LoginServConf

def BROKER_DB_KEY : Bytes := literal "Warring:DBServ4LoginServ"
def BROKER_LOGIN_KEY : Bytes := literal "Warring:LoginServ"

end LoginServConf

/-- `LoginMessageOp::messageFunc`, with the frame that it has taken off a connection: the carrier
that is pushed onto BROKER_DB_KEY, and the prototypes of the thread. A heartbeat is
answered at once; nothing else is pushed. -/
def LoginMessageOp.messageFunc (mMessageTypes : MessageTypes) (name ipPort msg : Bytes) :
    Option Carrier × MessageTypes :=
  match dispatch mMessageTypes msg with
  -- the frame is shorter than it says, and is read past its end
  | .error _ => (none, mMessageTypes)
  | .ok (⟨_, none⟩, types) => (none, types)
  | .ok (⟨_, some prototype⟩, types) =>
    match prototype.type with
    | .loginRequestMessage | .loginCharacterRequestMessage =>
      (some {
        type := prototype.object.msgName
        service := LoginServConf.BROKER_LOGIN_KEY
        nextService := LoginServConf.BROKER_DB_KEY
        clientId := name
        clientAddress := ipPort
        message := msg }, types)
    | _ => (none, types)

/-- `TcpServer::generateConnID` -/
def generateConnID (mServName : Bytes) (connfd : Nat) (hostAndService : Bytes) : Bytes :=
  mServName ++ literal "_fd" ++ Decimal.text connfd ++ literal "_" ++ hostAndService

/-- The name tells the descriptor and the address of the client. -/
theorem generateConnID_inj {mServName hostAndService hostAndService' : Bytes} {connfd connfd' : Nat}
    (h : generateConnID mServName connfd hostAndService =
      generateConnID mServName connfd' hostAndService') :
    connfd = connfd' ∧ hostAndService = hostAndService' := by
  unfold generateConnID at h
  simp only [List.append_assoc] at h
  have hDigits := List.append_cancel_left (List.append_cancel_left h)
  have hUnderscore : ¬ Decimal.IsDigit 95 := by
    unfold Decimal.IsDigit
    decide
  obtain ⟨hText, hSame⟩ := Decimal.append_cons_inj (fun _ => Decimal.isDigit_of_mem_text)
    (fun _ => Decimal.isDigit_of_mem_text) hUnderscore hDigits
  exact ⟨Decimal.text_injective hText, hSame⟩

/-- The carrier of a connection. -/
structure FromConnection (name : Bytes) (carrier : Carrier) : Prop where
  service : carrier.service = LoginServConf.BROKER_LOGIN_KEY
  nextService : carrier.nextService = LoginServConf.BROKER_DB_KEY
  clientId : carrier.clientId = name

theorem LoginMessageOp.messageFunc_fromConnection {types : MessageTypes}
    {name ipPort msg : Bytes} {carrier : Carrier}
    (h : (messageFunc types name ipPort msg).1 = some carrier) : FromConnection name carrier := by
  unfold messageFunc at h
  split at h
  · cases h
  · cases h
  · split at h
    · obtain rfl := Option.some.inj h
      exact ⟨rfl, rfl, rfl⟩
    · obtain rfl := Option.some.inj h
      exact ⟨rfl, rfl, rfl⟩
    · cases h

-- ---------------------------------------------------------------------------
-- The database server
-- ---------------------------------------------------------------------------

section

variable {σ : Type} (d : Drivers σ)

/-- The handler may make that of the carrier. -/
def HandledFrom (carrier msg : Carrier) : Prop :=
  ∃ world world', (Gateman.login.handled d carrier).exec world = (.ok msg, world')

/-- What a reader makes of an entry in a world in which the drivers answer as they do. -/
def handledBy (world : σ) (entry : StreamEntry) : Option Carrier :=
  match Gateman.login.fill2This entry with
  | .error _ => none
  | .ok msg =>
    match (Gateman.login.handled d msg).exec world with
    | (.ok msg', _) => some msg'
    | (.error _, _) => none

variable {d}

theorem handledBy_fill2Vec {world : σ} {carrier msg : Carrier}
    (h : handledBy d world carrier.fill2Vec = some msg) : HandledFrom d carrier msg := by
  unfold handledBy at h
  rw [Gateman.fill2This_fill2Vec] at h
  dsimp only at h
  rcases hExec : (Gateman.login.handled d carrier).exec world with ⟨fault | msg', world'⟩
  · rw [hExec] at h
    cases h
  · rw [hExec] at h
    obtain rfl := Option.some.inj h
    exact ⟨world, world', hExec⟩

theorem getLoginResponseMsg_returns {carrier : Carrier}
    (hType : carrier.type = DBServConf.MESSAGE_LOGIN_LOGIN_MSG) :
    Job.Returns (getLoginResponseMsg d carrier) fun msg => ∃ message,
      msg = { carrier.answering DBServConf.BROKER_DB_4_LOGIN_KEY with message := message } := by
  rw [getLoginResponseMsg, if_neg (not_not.mpr hType)]
  exact Job.returns_bind fun _ => Job.returns_bind fun _ => Job.returns_pure ⟨_, rfl⟩

theorem getLoginCharacterResponseMsg_returns {carrier : Carrier}
    (hType : carrier.type = DBServConf.MESSAGE_LOGIN_LOGIN_CHARACTER_MSG) :
    Job.Returns (getLoginCharacterResponseMsg d carrier) fun msg => ∃ message,
      msg = { carrier.answering DBServConf.BROKER_DB_4_LOGIN_KEY with message := message } := by
  rw [getLoginCharacterResponseMsg, if_neg (not_not.mpr hType)]
  exact Job.returns_bind fun _ => Job.returns_bind fun _ => Job.returns_pure ⟨_, rfl⟩

/-- **What becomes of a carrier.** With a TYPE that has a handler, its message is replaced and
the carrier turned round; with any other it stays as it is. -/
theorem handled_cases {carrier msg : Carrier} (h : HandledFrom d carrier msg) :
    (carrier.type ∈ Gateman.login.types ∧ ∃ message,
      msg = { carrier.answering DBServConf.BROKER_DB_4_LOGIN_KEY with message := message }) ∨
    (carrier.type ∉ Gateman.login.types ∧ msg = carrier) := by
  obtain ⟨world, world', hExec⟩ := h
  unfold Gateman.handled Gateman.mHandleFuncs at hExec
  by_cases hLogin : carrier.type = DBServConf.MESSAGE_LOGIN_LOGIN_MSG
  · rw [if_pos hLogin] at hExec
    exact Or.inl ⟨List.mem_pair.mpr (Or.inl hLogin),
      getLoginResponseMsg_returns hLogin world msg world' hExec⟩
  · rw [if_neg hLogin] at hExec
    by_cases hCharacter : carrier.type = DBServConf.MESSAGE_LOGIN_LOGIN_CHARACTER_MSG
    · rw [if_pos hCharacter] at hExec
      exact Or.inl ⟨List.mem_pair.mpr (Or.inr hCharacter),
        getLoginCharacterResponseMsg_returns hCharacter world msg world' hExec⟩
    · rw [if_neg hCharacter] at hExec
      refine Or.inr ⟨fun hMem => ?_, ?_⟩
      · rcases List.mem_pair.mp hMem with hMem | hMem
        · exact hLogin hMem
        · exact hCharacter hMem
      · cases hExec
        rfl

end

-- ---------------------------------------------------------------------------
-- The system
-- ---------------------------------------------------------------------------

/-- A request that has been pushed, and the connection that has asked. -/
structure ClientRequest where
  server : Nat
  conn : Nat
  carrier : Carrier
  deriving DecidableEq, Repr

structure LoginPath where
  /-- The stream of requests, and the database server. -/
  gatemen : Gatemen
  /-- The stream of answers, and the login servers. -/
  delivery : Delivery
  /-- Of a server and one of its threads. -/
  mMessageTypes : Nat → Nat → MessageTypes
  requests : List ClientRequest
  /-- Which request the entry of that id is. -/
  origin : Nat → Option Nat
  /-- Which requests the entries of the answer stream answer, in order. -/
  answered : List Nat
  /-- The requests that Redis has not added to their stream, or whose responses it has not added. -/
  unpushed : List Nat

inductive LoginPathEvent (σ : Type) where
  | tick (milliseconds : Nat)
  /-- A thread of a server has taken a frame off a connection. `xadd`, here and below, says whether
  Redis adds what is pushed. -/
  | message (server conn tid : Nat) (ipPort msg : Bytes) (xadd : Bool)
  /-- What an XADD with MAXLEN deletes. -/
  | trimRequests (n : Nat)
  | trimAnswers (n : Nat)
  /-- A reader of the database server pulls. -/
  | pull (consumer : Bytes)
  /-- The next statement of an iteration; the drivers answer a handler as in this world. -/
  | reader (i : Nat) (world : σ) (xadd : Bool)
  | manager (j : Nat) (forget : Bool)
  | otherStream (j : Nat) (siblings : List Bytes)
  | accept (server : Nat) (name : Bytes)
  /-- The next statement of the acceptor of a login server. -/
  | setup (server : Nat)
  | close (server conn : Nat)
  /-- The next statement of the consumer of a login server. -/
  | consume (server : Nat)

namespace LoginPath

/-- The login servers and the managers have been started. -/
def start (servers managers : Nat) : LoginPath where
  gatemen := .start managers
  delivery := .start servers
  mMessageTypes := fun _ _ => ServerKind.loginServer.messageTypes
  requests := []
  origin := fun _ => none
  answered := []
  unpushed := []

/-- The name of a connection. -/
def name (s : LoginPath) (server conn : Nat) : Option Bytes :=
  (s.delivery.servers[server]?.bind fun server => server.connections[conn]?).map (·.name)

/-- On the side of the database server. -/
def database (s : LoginPath) (c : Settings) (e : GatemenEvent) : LoginPath :=
  { s with gatemen := s.gatemen.step LoginServConf.BROKER_DB_KEY c e }

/-- On the side of the login servers. -/
def serve (s : LoginPath) (e : DeliveryEvent) : LoginPath :=
  { s with delivery := s.delivery.step loginStreamConsumerFunc e }

/-- A carrier of a connection is pushed. `RSBrokerHelper::push` catches what XADD throws, and
`messageFunc` does not look at what it returns. -/
def push (s : LoginPath) (c : Settings) (server conn : Nat) (carrier : Carrier) (xadd : Bool) :
    LoginPath :=
  let asked : LoginPath := { s with requests := s.requests ++ [⟨server, conn, carrier⟩] }
  if xadd then
    { asked.database c (.add carrier.fill2Vec) with
      origin := Function.update s.origin (s.gatemen.group.lastId + 1) (some s.requests.length) }
  else { asked with unpushed := s.unpushed ++ [s.requests.length] }

/-- The next statement of an iteration. -/
def reader (s : LoginPath) (c : Settings) (i : Nat) (handled : Option Carrier) (xadd : Bool) :
    LoginPath :=
  if xadd then s.database c (.reader i handled)
  else { s with gatemen := s.gatemen.readerUnpushed i handled }

/-- The response to an entry goes to the stream that it names. -/
def respond (s : LoginPath) (id next : Nat) (xadd : Bool) : Option Response → LoginPath
  | none => s
  | some (key, entry) =>
    if xadd then
      if key = LoginServConf.BROKER_DB_KEY then
        { s with origin := Function.update s.origin next (s.origin id) }
      else if key = LoginServConf.BROKER_LOGIN_KEY then
        { s.serve (.add entry) with answered := s.answered ++ (s.origin id).toList }
      else s
    else { s with unpushed := s.unpushed ++ (s.origin id).toList }

def step {σ : Type} (d : Drivers σ) (c : Settings) (s : LoginPath) : LoginPathEvent σ → LoginPath
  | .tick milliseconds => (s.database c (.tick milliseconds)).serve (.tick milliseconds)
  | .message server conn tid ipPort msg xadd =>
    match s.name server conn with
    | none => s
    | some name =>
      let r := LoginMessageOp.messageFunc (s.mMessageTypes server tid) name ipPort msg
      let s := { s with
        mMessageTypes := Function.update s.mMessageTypes server
          (Function.update (s.mMessageTypes server) tid r.2) }
      match r.1 with
      | none => s
      | some carrier => s.push c server conn carrier xadd
  | .trimRequests n => s.database c (.trim n)
  | .trimAnswers n => s.serve (.trim n)
  | .pull consumer => s.database c (.pull consumer)
  | .reader i world xadd =>
    match s.gatemen.iterations[i]? with
    | none => s
    | some it =>
      let handled := handledBy d world it.entry
      (s.reader c i handled xadd).respond it.id (s.gatemen.group.lastId + 1) xadd
        (it.step handled s.gatemen.group).2.2
  | .manager j forget => s.database c (.manager j forget)
  | .otherStream j siblings => s.database c (.otherStream j siblings)
  | .accept server name => s.serve (.accept server name)
  | .setup server => s.serve (.setup server)
  | .close server conn => s.serve (.close server conn)
  | .consume server => s.serve (.consume server)

/-- The request that the fate of an answer belongs to. -/
def requestOf (s : LoginPath) (r : Fate) : Option Nat := s.answered[r.id - 1]?

/-- No two connections of the run have had the same name. -/
def NamesUnique (s : LoginPath) : Prop :=
  ∀ (i j i' j' : Nat) (name : Bytes), s.name i j = some name → s.name i' j' = some name →
    i = i' ∧ j = j'

/-- What is to hold. -/
structure AnswersRequests {σ : Type} (d : Drivers σ) (s : LoginPath) : Prop where
  /-- An answer is what the handler has made of a request. -/
  answers : ∀ r ∈ s.delivery.fates, ∃ q request, s.requestOf r = some q ∧
    s.requests[q]? = some request ∧ request.carrier.type ∈ Gateman.login.types ∧
      HandledFrom d request.carrier r.carrier
  answered_once : ∀ r ∈ s.delivery.fates, ∀ r' ∈ s.delivery.fates,
    s.requestOf r = s.requestOf r' → r = r'
  /-- A request whose TYPE has a handler is in the hands of one reader at most. -/
  handled_once : ∀ it ∈ s.gatemen.iterations, ∀ it' ∈ s.gatemen.iterations, ∀ q request,
    s.requests[q]? = some request → request.carrier.type ∈ Gateman.login.types →
      s.origin it.id = some q → s.origin it'.id = some q → it = it'
  /-- The answer goes to a connection that is called as the one that has asked. -/
  recipient : ∀ r ∈ s.delivery.fates, ∀ conn, r.conn = some conn → ∀ q request,
    s.requestOf r = some q → s.requests[q]? = some request →
      s.name r.server conn = some r.carrier.clientId ∧
        s.name request.server request.conn = some r.carrier.clientId
  /-- With the names that servers give, that is a client at the same address. -/
  address : ∀ r ∈ s.delivery.fates, ∀ conn, r.conn = some conn → ∀ q request,
    s.requestOf r = some q → s.requests[q]? = some request →
      ∀ mServName connfd connfd' hostAndService hostAndService',
        s.name r.server conn = some (generateConnID mServName connfd hostAndService) →
        s.name request.server request.conn =
          some (generateConnID mServName connfd' hostAndService') →
        connfd = connfd' ∧ hostAndService = hostAndService'
  /-- With names that are not used again, it is that connection. -/
  same : s.NamesUnique → ∀ r ∈ s.delivery.fates, ∀ conn, r.conn = some conn → ∀ q request,
    s.requestOf r = some q → s.requests[q]? = some request →
      r.server = request.server ∧ conn = request.conn

-- ---------------------------------------------------------------------------
-- The invariant
-- ---------------------------------------------------------------------------

variable {σ : Type} {d : Drivers σ} {c : Settings} {s s' : LoginPath}

/-- The entry is the carrier of a request. -/
def Stems (s : LoginPath) (id : Nat) (entry : StreamEntry) : Prop :=
  ∃ q request, s.origin id = some q ∧ s.requests[q]? = some request ∧
    entry = request.carrier.fill2Vec

/-- An entry of the answer stream is the response to an entry of the request stream. -/
def AnswerOf (d : Drivers σ) (s : LoginPath) (k q : Nat) : Prop :=
  ∃ request msg id response, s.requests[q]? = some request ∧
    request.carrier.type ∈ Gateman.login.types ∧ HandledFrom d request.carrier msg ∧
    s.delivery.added[k]? = some msg.fill2Vec ∧ s.origin id = some q ∧
    (id, response) ∈ s.gatemen.pushed

structure Traced (d : Drivers σ) (s : LoginPath) : Prop where
  origin_le : ∀ id q, s.origin id = some q → id ≤ s.gatemen.group.lastId
  origin_lt : ∀ id q, s.origin id = some q → q < s.requests.length
  origin_once : ∀ id id' q request, s.origin id = some q → s.origin id' = some q →
    s.requests[q]? = some request → request.carrier.type ∈ Gateman.login.types → id = id'
  entries : ∀ e ∈ s.gatemen.group.entries, s.Stems e.1 e.2
  iterations : ∀ it ∈ s.gatemen.iterations, ∃ q request, s.origin it.id = some q ∧
    s.requests[q]? = some request ∧ it.entry = request.carrier.fill2Vec ∧
      it.Carries (HandledFrom d request.carrier)
  added : s.delivery.added.length = s.answered.length
  answers : ∀ k q, s.answered[k]? = some q → s.AnswerOf d k q
  answered_once : s.answered.Nodup
  requests : ∀ request ∈ s.requests, ∃ name, s.name request.server request.conn = some name ∧
    FromConnection name request.carrier

theorem Traced.start (servers managers : Nat) : (start servers managers).Traced d where
  origin_le _ _ h := by cases h
  origin_lt _ _ h := by cases h
  origin_once _ _ _ _ h := by cases h
  entries _ h := absurd h List.not_mem_nil
  iterations _ h := absurd h List.not_mem_nil
  added := rfl
  answers _ _ h := by cases h
  answered_once := List.nodup_nil
  requests _ h := absurd h List.not_mem_nil

/-- Nothing that has been said of a request is taken back. -/
structure Grows (s s' : LoginPath) : Prop where
  requests : ∀ (q : Nat) (request : ClientRequest), s.requests[q]? = some request →
    s'.requests[q]? = some request
  origin : ∀ id q, s.origin id = some q → s'.origin id = some q
  added : ∀ (k : Nat) (entry : StreamEntry), s.delivery.added[k]? = some entry →
    s'.delivery.added[k]? = some entry
  pushed : ∀ x ∈ s.gatemen.pushed, x ∈ s'.gatemen.pushed
  names : ∀ server conn name, s.name server conn = some name → s'.name server conn = some name

theorem Stems.mono (hGrows : s.Grows s') {id : Nat} {entry : StreamEntry} (h : s.Stems id entry) :
    s'.Stems id entry := by
  obtain ⟨q, request, hOrigin, hRequest, hEntry⟩ := h
  exact ⟨q, request, hGrows.origin id q hOrigin, hGrows.requests q request hRequest, hEntry⟩

theorem AnswerOf.mono (hGrows : s.Grows s') {k q : Nat} (h : s.AnswerOf d k q) :
    s'.AnswerOf d k q := by
  obtain ⟨request, msg, id, response, hRequest, hType, hHandled, hAdded, hOrigin, hPushed⟩ := h
  exact ⟨request, msg, id, response, hGrows.requests q request hRequest, hType, hHandled,
    hGrows.added k _ hAdded, hGrows.origin id q hOrigin, hGrows.pushed _ hPushed⟩

theorem name_eq_some {server conn : Nat} {name : Bytes} :
    s.name server conn = some name ↔ ∃ x c, s.delivery.servers[server]? = some x ∧
      x.connections[conn]? = some c ∧ c.name = name := by
  simp only [LoginPath.name, Option.map_eq_some_iff, Option.bind_eq_some_iff]
  constructor
  · rintro ⟨c, ⟨x, hx, hc⟩, hName⟩
    exact ⟨x, c, hx, hc, hName⟩
  · rintro ⟨x, c, hx, hc, hName⟩
    exact ⟨c, ⟨x, hx, hc⟩, hName⟩

/-- An event at the login servers, a push included. -/
theorem serve_grows (s : LoginPath) (e : DeliveryEvent) : s.Grows (s.serve e) where
  requests _ _ hRequest := hRequest
  origin _ _ hOrigin := hOrigin
  added k entry hEntry := by
    by_cases hAdd : ∀ entry, e ≠ .add entry
    · change (s.delivery.step _ e).added[k]? = some entry
      rw [Delivery.step_added hAdd]
      exact hEntry
    · simp only [ne_eq, not_forall, not_not] at hAdd
      obtain ⟨new, rfl⟩ := hAdd
      exact getElem?_append_of_some hEntry
  pushed _ hPushed := hPushed
  names server conn name hName := by
    obtain ⟨x, c, hx, hc, hSame⟩ := name_eq_some.mp hName
    obtain ⟨x', c', hx', hc', hKept⟩ := Delivery.step_named e hx hc
    exact name_eq_some.mpr ⟨x', c', hx', hc', hKept.trans hSame⟩

theorem Traced.serve (h : s.Traced d) {e : DeliveryEvent}
    (hAdd : ∀ entry, e ≠ .add entry) : (s.serve e).Traced d where
  origin_le := h.origin_le
  origin_lt := h.origin_lt
  origin_once := h.origin_once
  entries := h.entries
  iterations := h.iterations
  added := by
    change (s.delivery.step _ e).added.length = _
    rw [Delivery.step_added hAdd]
    exact h.added
  answers k q hAnswer := (h.answers k q hAnswer).mono (s.serve_grows e)
  answered_once := h.answered_once
  requests request hRequest := by
    obtain ⟨name, hName, hFrom⟩ := h.requests request hRequest
    exact ⟨name, (s.serve_grows e).names _ _ _ hName, hFrom⟩

/-- An event at the database server that pushes nothing. -/
theorem Traced.database (h : s.Traced d) {e : GatemenEvent}
    (hCalm : s.gatemen.Calm (s.gatemen.step LoginServConf.BROKER_DB_KEY c e)) :
    (s.database c e).Traced d where
  origin_le id q hOrigin := by
    change id ≤ (s.gatemen.step _ c e).group.lastId
    rw [hCalm.lastId]
    exact h.origin_le id q hOrigin
  origin_lt := h.origin_lt
  origin_once := h.origin_once
  entries e' he := h.entries e' (hCalm.entries e' he)
  iterations it hit := by
    rcases hCalm.iterations it hit with hOld | ⟨hStage, hEntry⟩
    · exact h.iterations it hOld
    · obtain ⟨q, request, hOrigin, hRequest, hSame⟩ := h.entries _ hEntry
      refine ⟨q, request, hOrigin, hRequest, hSame, ?_⟩
      rw [Iteration.Carries, hStage]
      trivial
  added := h.added
  answers k q hAnswer := by
    have hPushed : ∀ x ∈ s.gatemen.pushed, x ∈ (s.database c e).gatemen.pushed := by
      intro x hx
      change x ∈ (s.gatemen.step _ c e).pushed
      rw [hCalm.pushed]
      exact hx
    have hGrows : s.Grows (s.database c e) :=
      ⟨fun _ _ => id, fun _ _ => id, fun _ _ => id, hPushed, fun _ _ _ => id⟩
    exact (h.answers k q hAnswer).mono hGrows
  answered_once := h.answered_once
  requests := h.requests

/-- The prototypes, and what has failed, say nothing about the entries. -/
theorem Traced.beside (h : s.Traced d) (types : Nat → Nat → MessageTypes) (unpushed : List Nat) :
    Traced d { s with mMessageTypes := types, unpushed := unpushed } :=
  ⟨h.origin_le, h.origin_lt, h.origin_once, h.entries, h.iterations, h.added, h.answers,
    h.answered_once, h.requests⟩

/-- The next entry is a new one. -/
theorem Traced.origin_kept (h : s.Traced d) {id q : Nat} (hOrigin : s.origin id = some q)
    (v : Option Nat) : Function.update s.origin (s.gatemen.group.lastId + 1) v id = some q := by
  have hLe := h.origin_le id q hOrigin
  rw [Function.update_of_ne (by omega)]
  exact hOrigin

/-- A carrier of a request comes onto the stream: one that has a handler for the first time. -/
theorem Traced.add (h : s.Traced d) {q : Nat} {request : ClientRequest}
    (hRequest : s.requests[q]? = some request)
    (hNew : request.carrier.type ∈ Gateman.login.types → ∀ id, s.origin id ≠ some q) :
    Traced d { s with
      gatemen := { s.gatemen with group := s.gatemen.group.add request.carrier.fill2Vec }
      origin := Function.update s.origin (s.gatemen.group.lastId + 1) (some q) } := by
  have hOld : ∀ {id p : Nat}, s.origin id = some p →
      Function.update s.origin (s.gatemen.group.lastId + 1) (some q) id = some p :=
    fun hOrigin => h.origin_kept hOrigin (some q)
  have hCases : ∀ {id p : Nat},
      Function.update s.origin (s.gatemen.group.lastId + 1) (some q) id = some p →
        s.origin id = some p ∨ id = s.gatemen.group.lastId + 1 ∧ p = q := by
    intro id p hOrigin
    rw [Function.update_apply] at hOrigin
    split at hOrigin
    · exact Or.inr ⟨‹_›, (Option.some.inj hOrigin).symm⟩
    · exact Or.inl hOrigin
  have hGrows : s.Grows { s with
      gatemen := { s.gatemen with group := s.gatemen.group.add request.carrier.fill2Vec }
      origin := Function.update s.origin (s.gatemen.group.lastId + 1) (some q) } :=
    ⟨fun _ _ => id, fun _ _ => hOld, fun _ _ => id, fun _ => id, fun _ _ _ => id⟩
  refine ⟨?_, ?_, ?_, ?_, ?_, h.added, fun k p hAnswer => (h.answers k p hAnswer).mono hGrows,
    h.answered_once, h.requests⟩
  · intro id p hOrigin
    change id ≤ s.gatemen.group.lastId + 1
    rcases hCases hOrigin with hOrigin | ⟨rfl, -⟩
    · exact (h.origin_le id p hOrigin).trans (Nat.le_succ _)
    · exact le_rfl
  · intro id p hOrigin
    rcases hCases hOrigin with hOrigin | ⟨-, rfl⟩
    · exact h.origin_lt id p hOrigin
    · exact (List.getElem?_eq_some_iff.mp hRequest).1
  · intro id id' p x hId hId' hx hType
    rcases hCases hId with hWas | ⟨rfl, rfl⟩
    · rcases hCases hId' with hWas' | ⟨rfl, rfl⟩
      · exact h.origin_once id id' p x hWas hWas' hx hType
      · obtain rfl := Option.some.inj (hRequest.symm.trans hx)
        exact absurd hWas (hNew hType id)
    · rcases hCases hId' with hWas' | ⟨rfl, -⟩
      · obtain rfl := Option.some.inj (hRequest.symm.trans hx)
        exact absurd hWas' (hNew hType id')
      · rfl
  · intro e he
    rcases List.mem_append.mp he with hEntry | hEntry
    · exact (h.entries e hEntry).mono hGrows
    · rw [List.mem_singleton.mp hEntry]
      exact ⟨q, request, Function.update_self .., hRequest, rfl⟩
  · intro it hit
    obtain ⟨p, x, hOrigin, hx, hRest⟩ := h.iterations it hit
    exact ⟨p, x, hOld hOrigin, hx, hRest⟩

/-- A connection asks. -/
theorem Traced.push (h : s.Traced d) {server conn : Nat} {name : Bytes} {carrier : Carrier}
    (hName : s.name server conn = some name) (hFrom : FromConnection name carrier) (xadd : Bool) :
    (s.push c server conn carrier xadd).Traced d := by
  have hOld : ∀ (q : Nat) (request : ClientRequest), s.requests[q]? = some request →
      (s.requests ++ [⟨server, conn, carrier⟩])[q]? = some request :=
    fun _ _ => getElem?_append_of_some
  have hAsked : Traced d { s with requests := s.requests ++ [⟨server, conn, carrier⟩] } := by
    have hGrows : s.Grows { s with requests := s.requests ++ [⟨server, conn, carrier⟩] } :=
      ⟨hOld, fun _ _ => id, fun _ _ => id, fun _ => id, fun _ _ _ => id⟩
    refine ⟨h.origin_le, ?_, ?_, fun e he => (h.entries e he).mono hGrows, ?_, h.added,
      fun k p hAnswer => (h.answers k p hAnswer).mono hGrows, h.answered_once, ?_⟩
    · intro id q hOrigin
      rw [List.length_append]
      exact (h.origin_lt id q hOrigin).trans_le (Nat.le_add_right _ _)
    · intro id id' q request hId hId' hRequest
      have hLt := h.origin_lt id q hId
      rw [List.getElem?_append_left hLt] at hRequest
      exact h.origin_once id id' q request hId hId' hRequest
    · intro it hit
      obtain ⟨q, request, hOrigin, hRequest, hRest⟩ := h.iterations it hit
      exact ⟨q, request, hOrigin, hOld q request hRequest, hRest⟩
    · intro request hRequest
      rcases List.mem_append.mp hRequest with hRequest | hRequest
      · exact h.requests request hRequest
      · rw [List.mem_singleton.mp hRequest]
        exact ⟨name, hName, hFrom⟩
  unfold LoginPath.push
  split
  · refine hAsked.add List.getElem?_concat_length fun _ id hOrigin => ?_
    exact absurd (h.origin_lt id _ hOrigin) (lt_irrefl _)
  · exact hAsked.beside s.mMessageTypes _

/-- The answer to a request, with its first response. -/
theorem Traced.answer (h : s.Traced d) {q id : Nat}
    {request : ClientRequest} {msg : Carrier} {response : Response}
    (hRequest : s.requests[q]? = some request)
    (hType : request.carrier.type ∈ Gateman.login.types) (hHandled : HandledFrom d request.carrier msg)
    (hOrigin : s.origin id = some q) (hPushed : (id, response) ∈ s.gatemen.pushed)
    (hNew : q ∉ s.answered) :
    Traced d { s.serve (.add msg.fill2Vec) with answered := s.answered ++ [q] } := by
  have hGrows := s.serve_grows (.add msg.fill2Vec)
  refine ⟨h.origin_le, h.origin_lt, h.origin_once, h.entries, h.iterations, ?_, ?_, ?_, ?_⟩
  · change (s.delivery.added ++ [msg.fill2Vec]).length = (s.answered ++ [q]).length
    rw [List.length_append, List.length_append, h.added]
    rfl
  · intro k p hAnswer
    dsimp only at hAnswer
    rcases Nat.lt_or_ge k s.answered.length with hLt | hGe
    · rw [List.getElem?_append_left hLt] at hAnswer
      exact (h.answers k p hAnswer).mono hGrows
    · rw [List.getElem?_append_right hGe, List.getElem?_singleton] at hAnswer
      split at hAnswer
      · obtain rfl := Option.some.inj hAnswer
        refine ⟨request, msg, id, response, hRequest, hType, hHandled, ?_, hOrigin, hPushed⟩
        change (s.delivery.added ++ [msg.fill2Vec])[k]? = _
        rw [show k = s.delivery.added.length by rw [h.added]; omega]
        exact List.getElem?_concat_length
      · cases hAnswer
  · exact List.nodup_append.mpr ⟨h.answered_once, List.nodup_singleton q,
      fun p hp p' hp' hEq => hNew (by rw [← List.mem_singleton.mp hp', ← hEq]; exact hp)⟩
  · intro x hx
    obtain ⟨name, hName, hFrom⟩ := h.requests x hx
    exact ⟨name, hGrows.names _ _ _ hName, hFrom⟩

/-- An iteration goes on. -/
theorem Traced.iteration (h : s.Traced d) (i : Nat) (new : List (Nat × Response)) {q : Nat}
    {it' : Iteration} {request : ClientRequest} {g : Group StreamEntry Bytes}
    (hOrigin : s.origin it'.id = some q) (hRequest : s.requests[q]? = some request)
    (hEntry : it'.entry = request.carrier.fill2Vec)
    (hCarries : it'.Carries (HandledFrom d request.carrier))
    (hLastId : g.lastId = s.gatemen.group.lastId)
    (hEntries : ∀ e ∈ g.entries, e ∈ s.gatemen.group.entries) :
    Traced d { s with gatemen := { s.gatemen with
      iterations := s.gatemen.iterations.set i it'
      group := g
      pushed := s.gatemen.pushed ++ new } } where
  origin_le id p hId := by
    dsimp only
    rw [hLastId]
    exact h.origin_le id p hId
  origin_lt := h.origin_lt
  origin_once := h.origin_once
  entries e he := h.entries e (hEntries e he)
  iterations x hx := by
    rcases List.mem_or_eq_of_mem_set hx with hOld | rfl
    · exact h.iterations x hOld
    · exact ⟨q, request, hOrigin, hRequest, hEntry, hCarries⟩
  added := h.added
  answers k p hAnswer := by
    have hGrows : s.Grows { s with gatemen := { s.gatemen with
        iterations := s.gatemen.iterations.set i it'
        group := g
        pushed := s.gatemen.pushed ++ new } } :=
      ⟨fun _ _ => id, fun _ _ => id, fun _ _ => id, fun _ => List.mem_append_left _,
        fun _ _ _ => id⟩
    exact (h.answers k p hAnswer).mono hGrows
  answered_once := h.answered_once
  requests := h.requests

/-- A request that has an answer has a response. -/
theorem Traced.not_answered (h : s.Traced d) (hInv : Gatemen.Inv c s.gatemen) {q : Nat}
    {it : Iteration} {request : ClientRequest} {msg : Carrier} {acked : Bool}
    (hit : it ∈ s.gatemen.iterations) (hStage : it.stage = .acked msg acked)
    (hOrigin : s.origin it.id = some q) (hRequest : s.requests[q]? = some request)
    (hType : request.carrier.type ∈ Gateman.login.types) : q ∉ s.answered := by
  intro hMem
  obtain ⟨k, hAnswer⟩ := List.mem_iff_getElem?.mp hMem
  obtain ⟨x, msg', id, response, hx, -, -, -, hId, hPushed⟩ := h.answers k q hAnswer
  have hSame : id = it.id := h.origin_once id it.id q request hId hOrigin hRequest hType
  have hNone : s.gatemen.responses it.id = [] := by
    rw [hInv.responses it hit, Iteration.responses, hStage]
  have hResponse : response ∈ s.gatemen.responses it.id :=
    List.mem_map.mpr ⟨_, List.mem_filter.mpr ⟨hPushed, decide_eq_true hSame⟩, rfl⟩
  rw [hNone] at hResponse
  cases hResponse

theorem Traced.reader (h : s.Traced d) (hInv : Gatemen.Inv c s.gatemen) (i : Nat) (world : σ)
    (xadd : Bool) : (s.step d c (.reader i world xadd)).Traced d := by
  rw [LoginPath.step]
  split
  · exact h
  rename_i it hit
  have hMem : it ∈ s.gatemen.iterations := List.mem_of_getElem? hit
  obtain ⟨q, request, hOrigin, hRequest, hEntry, hCarries⟩ := h.iterations it hMem
  obtain ⟨name, -, hFrom⟩ := h.requests request (List.mem_of_getElem? hRequest)
  rcases hStep : it.step (handledBy d world it.entry) s.gatemen.group with ⟨it', g, response⟩
  obtain ⟨hId, hSame, hLastId, hEntries⟩ :=
    it.step_entries (handledBy d world it.entry) s.gatemen.group
  have hHandler : it.stage = .pulled → ∀ msg, handledBy d world it.entry = some msg →
      HandledFrom d request.carrier msg :=
    fun _ msg hMsg => handledBy_fill2Vec (hEntry ▸ hMsg)
  obtain ⟨hCarries', hResponse⟩ := Iteration.step_carries (g := s.gatemen.group) hHandler hCarries
  rw [hStep] at hId hSame hLastId hEntries hCarries' hResponse
  dsimp only at hId hSame hLastId hEntries hCarries' hResponse
  have hMoved := h.iteration i (response.toList.map fun x => (it.id, x)) (hId.symm ▸ hOrigin)
    hRequest (hSame.trans hEntry) hCarries' hLastId hEntries
  dsimp only
  rw [hStep]
  dsimp only
  cases xadd with
  | false =>
    -- no stream gets what is pushed
    have hReader : s.reader c i (handledBy d world it.entry) false =
        { s with gatemen := { s.gatemen with
          iterations := s.gatemen.iterations.set i it'
          group := g
          pushed := s.gatemen.pushed ++ response.toList.map fun x => (it.id, x) } } := by
      rw [LoginPath.reader, if_neg Bool.false_ne_true, Gatemen.readerUnpushed, hit]
      dsimp only
      rw [hStep]
    rw [hReader]
    rcases response with _ | ⟨key, entry⟩
    · exact hMoved
    · rw [respond, if_neg Bool.false_ne_true]
      exact hMoved.beside s.mMessageTypes _
  | true =>
    have hReader : s.reader c i (handledBy d world it.entry) true =
        { s with gatemen := { s.gatemen with
          iterations := s.gatemen.iterations.set i it'
          group := Gatemen.deliver LoginServConf.BROKER_DB_KEY response g
          pushed := s.gatemen.pushed ++ response.toList.map fun x => (it.id, x) } } := by
      rw [LoginPath.reader, if_pos rfl, LoginPath.database, Gatemen.step_reader hit hStep]
    rw [hReader]
    rcases response with _ | ⟨key, entry⟩
    · exact hMoved
    · obtain ⟨msg, acked, hStage, hHandled, hPair⟩ := hResponse _ rfl
      rw [Prod.mk.injEq] at hPair
      obtain ⟨rfl, rfl⟩ := hPair
      rcases handled_cases hHandled with ⟨hType, message, hMsg⟩ | ⟨hType, rfl⟩
      · -- the answer
        have hKey : msg.nextService = LoginServConf.BROKER_LOGIN_KEY := by
          rw [hMsg]
          exact hFrom.service
        have hNe : LoginServConf.BROKER_LOGIN_KEY ≠ LoginServConf.BROKER_DB_KEY := by decide
        rw [Gatemen.deliver, hKey, if_neg hNe, respond, if_pos rfl, if_neg hNe, if_pos rfl]
        dsimp only
        rw [hOrigin]
        rw [hKey] at hMoved
        exact hMoved.answer hRequest hType hHandled hOrigin
          (List.mem_append_right _ (List.mem_singleton.mpr rfl))
          (h.not_answered hInv hMem hStage hOrigin hRequest hType)
      · -- a carrier without a handler comes back
        rw [Gatemen.deliver, hFrom.nextService, if_pos rfl, respond, if_pos rfl, if_pos rfl]
        dsimp only
        rw [hOrigin]
        rw [hFrom.nextService] at hMoved
        have hAdded := hMoved.add hRequest fun hHas => absurd hHas hType
        dsimp only at hAdded
        rw [hLastId] at hAdded
        exact hAdded

-- ---------------------------------------------------------------------------
-- Runs
-- ---------------------------------------------------------------------------

/-- What every event keeps. -/
structure Inv (d : Drivers σ) (c : Settings) (s : LoginPath) : Prop where
  gatemen : Gatemen.Inv c s.gatemen
  delivery : s.delivery.Kept loginStreamConsumerFunc
  traced : s.Traced d

theorem Inv.start (servers managers : Nat) : (start servers managers).Inv d c :=
  ⟨.start c managers, .start _ servers, .start servers managers⟩

theorem Inv.database (h : s.Inv d c) {e : GatemenEvent}
    (hCalm : s.gatemen.Calm (s.gatemen.step LoginServConf.BROKER_DB_KEY c e)) :
    (s.database c e).Inv d c :=
  ⟨h.gatemen.step e, h.delivery, h.traced.database hCalm⟩

theorem Inv.serve (h : s.Inv d c) {e : DeliveryEvent} (hAdd : ∀ entry, e ≠ .add entry) :
    (s.serve e).Inv d c :=
  ⟨h.gatemen, h.delivery.step e, h.traced.serve hAdd⟩

theorem Inv.message (h : s.Inv d c) (server conn tid : Nat) (ipPort msg : Bytes) (xadd : Bool) :
    (s.step d c (.message server conn tid ipPort msg xadd)).Inv d c := by
  rw [LoginPath.step]
  split
  · exact h
  rename_i name hName
  dsimp only
  generalize Function.update s.mMessageTypes _ _ = types
  have hTypes : Traced d { s with mMessageTypes := types } := h.traced.beside types s.unpushed
  split
  · exact ⟨h.gatemen, h.delivery, hTypes⟩
  · rename_i carrier hCarrier
    have hPushed := hTypes.push (c := c) hName
      (LoginMessageOp.messageFunc_fromConnection hCarrier) xadd
    cases xadd with
    | false => exact ⟨h.gatemen, h.delivery, hPushed⟩
    | true =>
      have hAdded : Gatemen.Inv c
          (s.gatemen.step LoginServConf.BROKER_DB_KEY c (.add carrier.fill2Vec)) := h.gatemen.step _
      exact ⟨hAdded, h.delivery, hPushed⟩

/-- A response concerns the stream of answers alone. -/
theorem respond_cases (id next : Nat) (xadd : Bool) (response : Option Response) :
    (s.respond id next xadd response).gatemen = s.gatemen ∧
      ((s.respond id next xadd response).delivery = s.delivery ∨ ∃ entry,
        (s.respond id next xadd response).delivery =
          s.delivery.step loginStreamConsumerFunc (.add entry)) := by
  rcases response with _ | ⟨key, entry⟩
  · exact ⟨rfl, Or.inl rfl⟩
  · unfold respond
    dsimp only
    split
    · split
      · exact ⟨rfl, Or.inl rfl⟩
      · split
        · exact ⟨rfl, Or.inr ⟨entry, rfl⟩⟩
        · exact ⟨rfl, Or.inl rfl⟩
    · exact ⟨rfl, Or.inl rfl⟩

/-- A statement of an iteration is one of the database server, whatever Redis does. -/
theorem reader_gatemen (s : LoginPath) (c : Settings) (i : Nat) (handled : Option Carrier)
    (xadd : Bool) : ∃ readKey,
      (s.reader c i handled xadd).gatemen = s.gatemen.step readKey c (.reader i handled) := by
  unfold LoginPath.reader
  split
  · exact ⟨_, rfl⟩
  · exact ⟨_, Gatemen.readerUnpushed_eq i handled⟩

theorem reader_delivery (s : LoginPath) (c : Settings) (i : Nat) (handled : Option Carrier)
    (xadd : Bool) : (s.reader c i handled xadd).delivery = s.delivery := by
  unfold LoginPath.reader
  split
  · rfl
  · rfl

theorem Inv.reader (h : s.Inv d c) (i : Nat) (world : σ) (xadd : Bool) :
    (s.step d c (.reader i world xadd)).Inv d c := by
  have hTraced := h.traced.reader h.gatemen i world xadd
  rw [LoginPath.step] at hTraced ⊢
  split
  · exact h
  · rename_i it hit
    rw [hit] at hTraced
    dsimp only at hTraced ⊢
    set handled := handledBy d world it.entry
    obtain ⟨hGatemen, hDelivery⟩ := respond_cases (s := s.reader c i handled xadd) it.id
      (s.gatemen.group.lastId + 1) xadd (it.step handled s.gatemen.group).2.2
    obtain ⟨readKey, hReader⟩ := s.reader_gatemen c i handled xadd
    refine ⟨?_, ?_, hTraced⟩
    · rw [hGatemen, hReader]
      exact h.gatemen.step (.reader i handled)
    · rw [s.reader_delivery c i handled xadd] at hDelivery
      rcases hDelivery with hSame | ⟨entry, hAdded⟩
      · rw [hSame]
        exact h.delivery
      · rw [hAdded]
        exact h.delivery.step (.add entry)

theorem Inv.step (h : s.Inv d c) (e : LoginPathEvent σ) : (s.step d c e).Inv d c := by
  rcases e with milliseconds | ⟨server, conn, tid, ipPort, msg, xadd⟩ | n | n | consumer |
    ⟨i, world, xadd⟩ | ⟨j, forget⟩ | ⟨j, siblings⟩ | ⟨server, name⟩ | server |
    ⟨server, conn⟩ | server
  case tick =>
    exact (h.database (Gatemen.calm_tick milliseconds)).serve fun _ => DeliveryEvent.noConfusion
  case message => exact h.message server conn tid ipPort msg xadd
  case trimRequests => exact h.database (Gatemen.calm_trim n)
  case pull => exact h.database (Gatemen.calm_pull consumer)
  case reader => exact h.reader i world xadd
  case manager => exact h.database (Gatemen.calm_manager j forget)
  case otherStream => exact h.database (Gatemen.calm_otherStream j siblings)
  all_goals exact h.serve fun _ => DeliveryEvent.noConfusion

/-- An answer is that of a request. -/
theorem Inv.fate (h : s.Inv d c) {r : Fate} (hr : r ∈ s.delivery.fates) :
    0 < r.id ∧ ∃ q request, s.requestOf r = some q ∧ s.requests[q]? = some request ∧
      request.carrier.type ∈ Gateman.login.types ∧ HandledFrom d request.carrier r.carrier := by
  obtain ⟨entry, ⟨hPos, hEntry⟩, hFill⟩ := h.delivery.sourced.fates r hr
  have hLt : r.id - 1 < s.answered.length := by
    rw [← h.traced.added]
    exact (List.getElem?_eq_some_iff.mp hEntry).1
  have hAnswer : s.answered[r.id - 1]? = some s.answered[r.id - 1] := List.getElem?_eq_getElem hLt
  obtain ⟨request, msg, id, response, hRequest, hType, hHandled, hAdded, -, -⟩ :=
    h.traced.answers _ _ hAnswer
  obtain rfl := Option.some.inj (hEntry.symm.trans hAdded)
  have hMsg : r.carrier = msg :=
    Except.ok.inj (hFill.symm.trans (Gateman.fill2This_fill2Vec .login msg))
  exact ⟨hPos, _, request, hAnswer, hRequest, hType, hMsg ▸ hHandled⟩

theorem Inv.recipient (h : s.Inv d c) {r : Fate} (hr : r ∈ s.delivery.fates) {conn : Nat}
    (hConn : r.conn = some conn) {q : Nat} {request : ClientRequest}
    (hOf : s.requestOf r = some q) (hRequest : s.requests[q]? = some request) :
    s.name r.server conn = some r.carrier.clientId ∧
      s.name request.server request.conn = some r.carrier.clientId := by
  obtain ⟨-, q', request', hOf', hRequest', hType, hHandled⟩ := h.fate hr
  obtain rfl := Option.some.inj (hOf.symm.trans hOf')
  obtain rfl := Option.some.inj (hRequest.symm.trans hRequest')
  have hClient : r.carrier.clientId = request.carrier.clientId := by
    rcases handled_cases hHandled with ⟨-, message, hMsg⟩ | ⟨hNot, -⟩
    · rw [hMsg]
      rfl
    · exact absurd hType hNot
  obtain ⟨name, hName, hFrom⟩ := h.traced.requests request (List.mem_of_getElem? hRequest)
  obtain ⟨server, x, hServer, hx, hSame⟩ := h.delivery.routed.recipient r hr conn hConn
  refine ⟨name_eq_some.mpr ⟨server, x, hServer, hx, hSame⟩, ?_⟩
  rw [hName, hClient, hFrom.clientId]

theorem Inv.answersRequests (h : s.Inv d c) : s.AnswersRequests d where
  answers r hr := (h.fate hr).2
  answered_once r hr r' hr' hSame := by
    obtain ⟨hPos, q, request, hOf, -⟩ := h.fate hr
    obtain ⟨hPos', -⟩ := h.fate hr'
    have hIndex : r.id - 1 = r'.id - 1 :=
      (List.getElem?_inj (List.getElem?_eq_some_iff.mp hOf).1 h.traced.answered_once).mp hSame
    exact List.inj_on_of_nodup_map h.delivery.handled.once.nodup hr hr' (by omega)
  handled_once it hit it' hit' q request hRequest hType hOrigin hOrigin' :=
    List.inj_on_of_nodup_map h.gatemen.once hit hit'
      (h.traced.origin_once _ _ q request hOrigin hOrigin' hRequest hType)
  recipient r hr conn hConn q request hOf hRequest := h.recipient hr hConn hOf hRequest
  address r hr conn hConn q request hOf hRequest mServName connfd connfd' host host' hTo hFrom := by
    obtain ⟨hName, hName'⟩ := h.recipient hr hConn hOf hRequest
    exact generateConnID_inj (Option.some.inj (hTo.symm.trans (hName.trans (hName'.symm.trans hFrom))))
  same hUnique r hr conn hConn q request hOf hRequest := by
    obtain ⟨hTo, hFrom⟩ := h.recipient hr hConn hOf hRequest
    exact hUnique _ _ _ _ _ hTo hFrom

/--
**Login requests and their answers.** Over every interleaving of any number of login servers, of
the readers and the passes of the database server, whatever the drivers answer: what reaches a
connection is what the handler has made of a request; a request has one handler run and one
answer at most; and the answer goes to a connection with the name of the one that has asked, so
to a client at the same address, and to the same connection as long as no name is used again.
-/
theorem answers_requests (d : Drivers σ) (c : Settings) (servers managers : Nat)
    (es : List (LoginPathEvent σ)) :
    Always (step d c) (AnswersRequests d) (start servers managers) es := by
  have hInv : Always (step d c) (Inv d c) (start servers managers) es :=
    always_of_step (fun _ e h => h.step e) (.start servers managers)
  exact hInv.imp fun _ h => h.answersRequests

/-- A client that comes back from the same port while its descriptor is free has the same name: the
new connection gets the answer. -/
example :
    let name := generateConnID (literal "LoginServ") 7 (literal "10.0.0.1:40000")
    let answer : Carrier := ⟨[], [], [], name, [], [1]⟩
    (final (Delivery.step loginStreamConsumerFunc) (.start 1)
      [.accept 0 name, .setup 0, .setup 0, .close 0 0, .accept 0 name, .setup 0, .setup 0,
        .add answer.fill2Vec, .consume 0, .consume 0, .consume 0, .consume 0]).fates =
      [⟨1, answer, 0, some 1⟩] := by
  decide

end LoginPath

end Server

end WarringServer
