import WarringServer.Message.Types
import WarringServer.Lib.Run
import Mathlib.Logic.Function.Basic

/-!
# Dispatching frames — the second half of `messageFunc`

`dispatch` is what the `messageFunc` of a server does with a frame that it took off
a connection: a fresh `TimestampMessage` learns `MSG_NAME` from it, and the prototype
registered under that name deserialises the same frame. What follows in the source
only reads the prototype's members.

The table of prototypes belongs to one thread (`mMessageTypes[tid]`) and keeps its
objects from frame to frame.

Main result:

* `decoder_safe_iff` — in any run, no `deserialize` leaves its frame or the table of
  lengths, exactly if every frame is long enough for what it announces, up to the first
  string that is refused.
-/

namespace WarringServer.Server

open Message Run

-- ---------------------------------------------------------------------------
-- Registration
-- ---------------------------------------------------------------------------

/-- `mMessageTypes[tid]` -/
abbrev MessageTypes := Bytes → Option Prototype

/-- `registerMessageType<MESSAGE>`. `emplace` does not replace an entry. -/
def registerMessageType (mMessageTypes : MessageTypes) (type : MessageType) (msgName : Bytes) :
    MessageTypes :=
  match mMessageTypes msgName with
  | some _ => mMessageTypes
  | none => Function.update mMessageTypes msgName (some (Prototype.make type))

/-- The registrations of a server's constructor, one after another. -/
def registerAll (registrations : List (Bytes × MessageType)) : MessageTypes :=
  registrations.foldl (fun types r => registerMessageType types r.2 r.1) fun _ => none

theorem registerMessageType_of_ne {types : MessageTypes} {type : MessageType}
    {msgName n : Bytes} (h : n ≠ msgName) :
    registerMessageType types type msgName n = types n := by
  cases hEntry : types msgName with
  | some p => simp only [registerMessageType, hEntry]
  | none =>
    simp only [registerMessageType, hEntry]
    exact Function.update_of_ne h ..

theorem registerMessageType_of_none {types : MessageTypes} {type : MessageType}
    {msgName : Bytes} (h : types msgName = none) :
    registerMessageType types type msgName msgName = some (Prototype.make type) := by
  simp only [registerMessageType, h]
  exact Function.update_self ..

/-- With no name registered twice, every name gets an object of its class. -/
theorem registerAll_lookup {registrations : List (Bytes × MessageType)}
    (hNodup : (registrations.map Prod.fst).Nodup) :
    ∀ r ∈ registrations, registerAll registrations r.1 = some (Prototype.make r.2) := by
  -- later registrations under other names leave an entry alone
  have hKeep : ∀ (rs : List (Bytes × MessageType)) (types : MessageTypes) (n : Bytes),
      n ∉ rs.map Prod.fst →
      rs.foldl (fun types r => registerMessageType types r.2 r.1) types n = types n := by
    intro rs
    induction rs with
    | nil => exact fun types n _ => rfl
    | cons r rs ih =>
      intro types n hn
      rw [List.map_cons, List.mem_cons, not_or] at hn
      rw [List.foldl_cons, ih _ n hn.2, registerMessageType_of_ne hn.1]
  -- by induction over tables that have none of the names yet
  have hAll : ∀ types : MessageTypes, (∀ r ∈ registrations, types r.1 = none) →
      ∀ r ∈ registrations, registrations.foldl
        (fun types r => registerMessageType types r.2 r.1) types r.1 =
          some (Prototype.make r.2) := by
    induction registrations with
    | nil => exact fun types _ r hr => absurd hr List.not_mem_nil
    | cons r rs ih =>
      rw [List.map_cons, List.nodup_cons] at hNodup
      intro types hNone q hq
      rw [List.foldl_cons]
      rcases List.mem_cons.mp hq with rfl | hq
      · rw [hKeep rs _ q.1 hNodup.1, registerMessageType_of_none (hNone q (by simp))]
      · refine ih hNodup.2 _ ?_ q hq
        intro s hs
        have hNe : s.1 ≠ r.1 := fun h => hNodup.1 (h ▸ List.mem_map_of_mem hs)
        rw [registerMessageType_of_ne hNe]
        exact hNone s (by simp [hs])
  exact hAll _ fun r _ => rfl

/-- The servers that read frames from connections. -/
inductive ServerKind where
  | loginServer
  | gameServer
  | gatewayServer
deriving Repr, DecidableEq

/-- What the constructor registers, under the names of `LoginServConf`,
`GameServConf` and `GatewayServConf`. -/
def ServerKind.registrations : ServerKind → List (Bytes × MessageType)
  | .loginServer =>
    [(literal "LOGIN_BASE_MSG", .timestampMessage),
      (literal "HEARTBEAT_MSG", .heartBeatPacket),
      (literal "LOGIN_LOGIN_MSG", .loginRequestMessage),
      (literal "LOGIN_LOGIN_CHARACTER_MSG", .loginCharacterRequestMessage)]
  | .gameServer =>
    [(literal "GAME_BASE_MSG", .timestampMessage),
      (literal "HEARTBEAT_MSG", .heartBeatPacket),
      (literal "GAME_MSG", .dsMessage),
      (literal "GAME_CHARACTER_MSG", .dsLoadOrUploadCharacterMessage)]
  | .gatewayServer =>
    [(literal "GATEWAY_BASE_MSG", .timestampMessage),
      (literal "HEARTBEAT_MSG", .heartBeatPacket),
      (literal "GATEWAY_ENTER_GAME_MSG", .enterGameRequestMessage)]

def ServerKind.messageTypes (server : ServerKind) : MessageTypes := registerAll server.registrations

-- ---------------------------------------------------------------------------
-- Dispatch
-- ---------------------------------------------------------------------------

/-- `msgType`, and the prototype registered under it after its `deserialize`. -/
structure Dispatched where
  msgType : Bytes
  prototype : Option Prototype

def dispatch (mMessageTypes : MessageTypes) (msg : Bytes) :
    Except DecodeFault (Dispatched × MessageTypes) := do
  -- `TimestampMessage baseMsg`, local to the call
  let baseMsg ← (Prototype.make .timestampMessage).deserialize msg
  let msgType := baseMsg.object.msgName
  match mMessageTypes msgType with
  | none => return (⟨msgType, none⟩, mMessageTypes)
  | some prototype =>
    let prototype ← prototype.deserialize msg
    return (⟨msgType, some prototype⟩, Function.update mMessageTypes msgType (some prototype))

/-- Frames handled one after another on one thread. -/
def dispatchAll : MessageTypes → List Bytes → Except DecodeFault (List Dispatched × MessageTypes)
  | mMessageTypes, [] => return ([], mMessageTypes)
  | mMessageTypes, msg :: msgs => do
    let (d, mMessageTypes) ← dispatch mMessageTypes msg
    let (ds, mMessageTypes) ← dispatchAll mMessageTypes msgs
    return (d :: ds, mMessageTypes)

theorem dispatchAll_singleton {types types' : MessageTypes} {msg : Bytes} {d : Dispatched}
    (h : dispatch types msg = .ok (d, types')) : dispatchAll types [msg] = .ok ([d], types') := by
  simp only [dispatchAll, bind_eq_ok, pure_eq_ok]
  exact ⟨_, h, _, rfl, rfl⟩

/-- The name a frame carries: as many bytes behind the table as its first entry
says. -/
def wireName (msg : Bytes) : Bytes := (payload msg).take ((wireTable msg).headD 0)

/-- The frame is long enough to be read as a `TimestampMessage` by a fresh object: it
holds its table, the table is not empty, and a name and 8 bytes follow. -/
structure NameReadable (msg : Bytes) : Prop where
  table_fits : 16 + 8 * wireSize msg ≤ msg.length
  table_nonempty : 1 ≤ wireSize msg
  name_fits : 16 + 8 * wireSize msg + (wireTable msg).headD 0 + 8 ≤ msg.length

instance (msg : Bytes) : Decidable (NameReadable msg) :=
  decidable_of_iff (16 + 8 * wireSize msg ≤ msg.length ∧ 1 ≤ wireSize msg ∧
      16 + 8 * wireSize msg + (wireTable msg).headD 0 + 8 ≤ msg.length)
    ⟨fun h => ⟨h.1, h.2.1, h.2.2⟩, fun h => ⟨h.1, h.2, h.3⟩⟩

theorem nameReadable_iff {msg : Bytes} :
    (Prototype.make .timestampMessage).object.FitsFrame msg ↔ NameReadable msg := by
  have hTable : (Prototype.make .timestampMessage).object.table msg = wireTable msg := rfl
  constructor
  · rintro ⟨hFits, hEntries, hPayload⟩
    rw [hTable] at hPayload
    refine ⟨hFits, ?_, hPayload⟩
    have h : 0 + 1 + 0 ≤ 0 + wireSize msg := hEntries
    omega
  · rintro ⟨hFits, hNonempty, hName⟩
    refine ⟨hFits, ?_, ?_⟩
    · show 0 + 1 + 0 ≤ 0 + wireSize msg
      omega
    · rw [hTable]
      exact hName

/-- **One dispatch, exactly.** -/
theorem dispatch_eq_ok {types : MessageTypes} {msg : Bytes} {r : Dispatched × MessageTypes} :
    dispatch types msg = .ok r ↔ NameReadable msg ∧
      match types (wireName msg) with
      | none => r = (⟨wireName msg, none⟩, types)
      | some p => p.object.FitsFrame msg ∧ r = (⟨wireName msg, some (p.decoded msg)⟩,
          Function.update types (wireName msg) (some (p.decoded msg))) := by
  have hName : ((Prototype.make .timestampMessage).decoded msg).object.msgName = wireName msg := rfl
  simp only [dispatch, bind_eq_ok, Prototype.deserialize_eq_ok, nameReadable_iff]
  constructor
  · rintro ⟨_, ⟨hReadable, rfl⟩, hRest⟩
    refine ⟨hReadable, ?_⟩
    rw [hName] at hRest
    split at hRest
    · -- a name nobody registered: the frame is dropped
      rename_i hNone
      exact (pure_eq_ok.mp hRest)
    · rename_i p hSome
      simp only [bind_eq_ok, Prototype.deserialize_eq_ok, pure_eq_ok] at hRest
      obtain ⟨_, ⟨hFits, rfl⟩, rfl⟩ := hRest
      exact ⟨hFits, rfl⟩
  · rintro ⟨hReadable, hRest⟩
    refine ⟨_, ⟨hReadable, rfl⟩, ?_⟩
    rw [hName]
    split at hRest
    · rename_i hNone
      exact pure_eq_ok.mpr hRest
    · rename_i p hSome
      simp only [bind_eq_ok, Prototype.deserialize_eq_ok, pure_eq_ok]
      exact ⟨_, ⟨hRest.1, rfl⟩, hRest.2⟩

/-- A frame that is long enough is decoded by the prototype its name selects. -/
theorem dispatch_some {types : MessageTypes} {msg : Bytes} {p : Prototype}
    (hReadable : NameReadable msg) (hp : types (wireName msg) = some p)
    (hFits : p.object.FitsFrame msg) :
    dispatch types msg = .ok (⟨wireName msg, some (p.decoded msg)⟩,
      Function.update types (wireName msg) (some (p.decoded msg))) := by
  refine dispatch_eq_ok.mpr ⟨hReadable, ?_⟩
  rw [hp]
  exact ⟨hFits, rfl⟩

-- ---------------------------------------------------------------------------
-- Decoder safety
-- ---------------------------------------------------------------------------

/-- A frame taken off a connection, and for which lengths beyond it a `std::string` would get
its storage then. -/
structure Arrival where
  msg : Bytes
  obtains : Nat → Bool

/-- Neither `deserialize` reads past the frame or indexes the table of lengths out of
range. A string that is refused its storage has thrown before it could. `none` is a process that
an exception has ended. -/
def NoFault (mMessageTypes : Option MessageTypes) (a : Arrival) : Prop :=
  ∀ types ∈ mMessageTypes, Spared a.obtains (dispatch types a.msg)

/-- The table after a frame was handled. Nothing catches an exception. -/
def dispatchStep (mMessageTypes : Option MessageTypes) (a : Arrival) : Option MessageTypes :=
  mMessageTypes.bind fun types =>
    match dispatch types a.msg with
    | .ok (_, types) => some types
    | .error _ => none

/-- The frame holds its table, the table is not empty, and the name does not fit and is refused. -/
structure NameRefused (obtains : Nat → Bool) (msg : Bytes) : Prop where
  table_fits : 16 + 8 * wireSize msg ≤ msg.length
  table_nonempty : 1 ≤ wireSize msg
  name_past : msg.length < 16 + 8 * wireSize msg + (wireTable msg).headD 0
  name_refused : obtains ((wireTable msg).headD 0) = false

/-- The frame is long enough for both of its readers, up to the first string that is refused. -/
structure FrameSafe (mMessageTypes : MessageTypes) (a : Arrival) : Prop where
  name_safe : NameReadable a.msg ∨ NameRefused a.obtains a.msg
  prototype_safe : NameReadable a.msg → ∀ p, mMessageTypes (wireName a.msg) = some p →
    p.object.Decodable a.obtains a.msg

/-- What a fresh `TimestampMessage` makes of a frame. -/
theorem name_safe_iff {obtains : Nat → Bool} {msg : Bytes} :
    (Prototype.make .timestampMessage).object.Decodable obtains msg ↔
      (NameReadable msg ∨ NameRefused obtains msg) := by
  have hTable : (Prototype.make .timestampMessage).object.table msg = wireTable msg := rfl
  have hLength : (wireTable msg).length = wireSize msg := LittleEndian.decodeMany_length ..
  constructor
  · rintro ⟨hFits, hEntry, hName⟩
    rw [hTable] at hEntry hName
    have hSome : 1 ≤ wireSize msg := hLength ▸ hEntry
    rcases hName with ⟨hPast, hRefused⟩ | ⟨hIn, -, hStamp⟩
    · exact Or.inr ⟨hFits, hSome, by omega, hRefused⟩
    · have hIn : (wireTable msg).headD 0 ≤ _ := hIn
      have hStamp : 8 ≤ msg.length - (16 + 8 * wireSize msg) - (wireTable msg).headD 0 :=
        (hStamp.resolve_left id).1
      exact Or.inl ⟨hFits, hSome, by omega⟩
  · rintro (⟨hFits, hSome, hName⟩ | ⟨hFits, hSome, hPast, hRefused⟩)
    · refine ⟨hFits, ?_, Or.inr ⟨?_, Nat.zero_le _, Or.inr ⟨?_, trivial⟩⟩⟩
      · rw [hTable, hLength]
        exact hSome
      · show (wireTable msg).headD 0 ≤ _
        omega
      · show 8 ≤ msg.length - (16 + 8 * wireSize msg) - (wireTable msg).headD 0
        omega
    · refine ⟨hFits, ?_, Or.inl ⟨?_, hRefused⟩⟩
      · rw [hTable, hLength]
        exact hSome
      · rw [hTable]
        omega

/-- **One dispatch.** -/
theorem spared_dispatch_iff {types : MessageTypes} {a : Arrival} :
    Spared a.obtains (dispatch types a.msg) ↔ FrameSafe types a := by
  have hOk (r : Prototype) : (Prototype.make .timestampMessage).deserialize a.msg = .ok r ↔
      NameReadable a.msg ∧ r = (Prototype.make .timestampMessage).decoded a.msg := by
    rw [Prototype.deserialize_eq_ok, nameReadable_iff]
  have hName : ((Prototype.make .timestampMessage).decoded a.msg).object.msgName =
      wireName a.msg := rfl
  rw [dispatch, spared_bind hOk, Prototype.spared_deserialize, name_safe_iff]
  dsimp only
  rw [hName]
  cases hp : types (wireName a.msg) with
  | none =>
    -- a name nobody registered
    refine ⟨fun h => ⟨h.1, fun _ p hp' => ?_⟩, fun h => ⟨h.1, fun _ => spared_ok⟩⟩
    rw [hp] at hp'
    cases hp'
  | some p =>
    dsimp only
    rw [spared_bind (fun r => Prototype.deserialize_eq_ok), Prototype.spared_deserialize]
    refine ⟨fun h => ⟨h.1, fun hReadable p' hp' => ?_⟩, fun h => ⟨h.1, fun hReadable => ?_⟩⟩
    · rw [hp] at hp'
      obtain rfl := Option.some.inj hp'
      exact (h.2 hReadable).1
    · exact ⟨h.2 hReadable p hp, fun _ => spared_ok⟩

/--
**Decoder safety.** Whatever table of prototypes a run starts from and whatever
frames arrive: no `deserialize` reads past its frame or indexes the table of lengths
out of range, exactly if every frame that is handled is long enough for its table, its name,
and the members of the prototype its name selects under the lengths that prototype uses, or
the first string of these that does not fit is refused its storage.
-/
theorem decoder_safe_iff (types : MessageTypes) (arrivals : List Arrival) :
    Each dispatchStep NoFault (some types) arrivals ↔
      Each dispatchStep (fun mMessageTypes a => ∀ types ∈ mMessageTypes, FrameSafe types a)
        (some types) arrivals :=
  each_congr fun _ _ => forall₂_congr fun _ _ => spared_dispatch_iff

/-- Frames that declare their own length and make a server read past the frame, and
index an empty table of lengths. -/
theorem decoder_unsafe :
    (LittleEndian.encode 8 8).length = 8 ∧
    dispatch ServerKind.loginServer.messageTypes (LittleEndian.encode 8 8) = .error .readPastEnd ∧
    (LittleEndian.encode 8 24 ++ List.replicate 16 0).length = 24 ∧
    dispatch ServerKind.loginServer.messageTypes
      (LittleEndian.encode 8 24 ++ List.replicate 16 0) = .error .lengthOutOfRange :=
  ⟨rfl, rfl, rfl, rfl⟩

end WarringServer.Server
