import WarringServer.Server.Dispatch
import Mathlib.Data.List.Forall2

/-!
# Prototypes that decode many frames

A prototype is never reset: every `deserialize` appends the frame's table to
`ARRAY_LIKE_LENGHTS` and moves `mArrayLikeIndex` on by the strings of the class. What
it decodes depends on the earlier frames through these two alone
(`dispatchAll_prototype`), and a decoded object shows the lengths it was decoded under
(`decoded_alike_iff`).

Main results, for one thread and any registrations:

* `honest_traffic` — on frames of honest senders the index always stands at the end
  of the table: every message is delivered with its name, class and members;
* `decode_isolation_iff` — after any frames, a frame is decoded as by a fresh object,
  exactly if the lengths its prototype uses are its own.
-/

namespace WarringServer.Server

open Message

-- ---------------------------------------------------------------------------
-- What a prototype has seen
-- ---------------------------------------------------------------------------

/-- The frames that select the prototype registered under a name. -/
def framesFor (msgName : Bytes) (frames : List Bytes) : List Bytes :=
  frames.filter fun f => wireName f = msgName

/-- The tables of these frames one after another. -/
def earlierLengths (msgName : Bytes) (frames : List Bytes) : List Nat :=
  (framesFor msgName frames).flatMap wireTable

theorem framesFor_cons (msgName f : Bytes) (frames : List Bytes) :
    framesFor msgName (f :: frames) =
      if wireName f = msgName then f :: framesFor msgName frames
      else framesFor msgName frames := by
  rw [framesFor, List.filter_cons]
  simp only [decide_eq_true_eq]
  rfl

/-- A prototype after some frames: its table has grown by theirs, and its index by the
strings of its class for each of them. -/
theorem dispatchAll_prototype {types types' : MessageTypes} {frames : List Bytes}
    {ds : List Dispatched} (h : dispatchAll types frames = .ok (ds, types')) {msgName : Bytes}
    {p : Prototype} (hp : types msgName = some p) :
    ∃ p', types' msgName = some p' ∧ p'.type = p.type ∧
      p'.object.arrayLikeLenghts =
        p.object.arrayLikeLenghts ++ earlierLengths msgName frames ∧
      p'.object.mArrayLikeIndex = p.object.mArrayLikeIndex +
        (framesFor msgName frames).length * p.type.stringCount := by
  induction frames generalizing types ds p with
  | nil =>
    obtain ⟨-, rfl⟩ := Prod.mk.inj (Except.ok.inj h)
    exact ⟨p, hp, rfl, (List.append_nil _).symm, by simp [framesFor]⟩
  | cons f frames ih =>
    simp only [dispatchAll, bind_eq_ok, pure_eq_ok] at h
    obtain ⟨⟨d, types₁⟩, hHead, ⟨ds', types₂⟩, hTail, hEq⟩ := h
    obtain ⟨-, rfl⟩ := Prod.mk.inj hEq
    obtain ⟨-, hStep⟩ := dispatch_eq_ok.mp hHead
    by_cases hName : wireName f = msgName
    · -- the frame selects this prototype
      rw [hName, hp] at hStep
      obtain ⟨-, hAfter⟩ := hStep
      obtain ⟨-, rfl⟩ := Prod.mk.inj hAfter
      obtain ⟨p', hp', hType, hLens, hIndex⟩ := ih hTail (Function.update_self ..)
      have hCons : framesFor msgName (f :: frames) = f :: framesFor msgName frames := by
        rw [framesFor_cons, if_pos hName]
      refine ⟨p', hp', hType, ?_, ?_⟩
      · rw [hLens, earlierLengths, earlierLengths, hCons, List.flatMap_cons,
          ← List.append_assoc]
        rfl
      · have hOne : (p.decoded f).object.mArrayLikeIndex =
            p.object.mArrayLikeIndex + p.type.stringCount := by
          rw [← p.arity_members, ← Nat.add_assoc]
          rfl
        have hSame : (p.decoded f).type.stringCount = p.type.stringCount := rfl
        rw [hIndex, hOne, hSame, hCons, List.length_cons, Nat.succ_mul]
        omega
    · -- the frame leaves it alone
      have hKeep : types₁ msgName = some p := by
        split at hStep
        · obtain ⟨-, rfl⟩ := Prod.mk.inj hStep
          exact hp
        · obtain ⟨-, hAfter⟩ := hStep
          obtain ⟨-, rfl⟩ := Prod.mk.inj hAfter
          rw [Function.update_of_ne (Ne.symm hName)]
          exact hp
      obtain ⟨p', hp', hType, hLens, hIndex⟩ := ih hTail hKeep
      have hSkip : framesFor msgName (f :: frames) = framesFor msgName frames := by
        rw [framesFor_cons, if_neg hName]
      refine ⟨p', hp', hType, ?_, ?_⟩
      · rw [hLens, earlierLengths, earlierLengths, hSkip]
      · rw [hIndex, hSkip]

/-- Every prototype is as `registerMessageType` made it. -/
def OnlyFresh (types : MessageTypes) : Prop :=
  ∀ msgName p, types msgName = some p → p = Prototype.make p.type

theorem registerMessageType_fresh {types : MessageTypes} (h : OnlyFresh types)
    (type : MessageType) (msgName : Bytes) :
    OnlyFresh (registerMessageType types type msgName) := by
  unfold registerMessageType
  split
  · -- `emplace` finds the name taken
    exact h
  · intro n p hp
    by_cases hName : n = msgName
    · rw [hName, Function.update_self, Option.some.injEq] at hp
      rw [← hp]
      rfl
    · rw [Function.update_of_ne hName] at hp
      exact h n p hp

/-- Registration only makes fresh objects. -/
theorem registerAll_fresh (registrations : List (Bytes × MessageType)) :
    OnlyFresh (registerAll registrations) := by
  show OnlyFresh (Run.final (fun types (r : Bytes × MessageType) =>
    registerMessageType types r.2 r.1) (fun _ => none) registrations)
  refine Run.final_of_step ?_ ?_
  · intro types r h
    exact registerMessageType_fresh h r.2 r.1
  · intro msgName p hp
    cases hp

-- ---------------------------------------------------------------------------
-- Honest traffic
-- ---------------------------------------------------------------------------

/-- A message of a sender that follows the protocol of a server: the name its class
is registered under, and members of that class. -/
structure HonestMessage (server : ServerKind) where
  msgName : Bytes
  type : MessageType
  members : List Member
  registered : (msgName, type) ∈ server.registrations
  typed : members.map Member.kind = type.kinds
  size_lt : wireLength msgName members < 2 ^ 64

namespace HonestMessage

variable {server : ServerKind} (m : HonestMessage server)

def object : MessageObject := .fresh m.msgName m.members

/-- The frame is what `count` and `serialize` on the sender's fresh object give. -/
def Encodes (frame : Bytes) : Prop :=
  ∃ sent, m.object.count.serialize = some (frame.map some, sent)

/-- The frame reached the prototype registered for the sender's class, under the
sender's name, and the prototype holds the sender's members. -/
def Delivered (d : Dispatched) : Prop :=
  d.msgType = m.msgName ∧ ∃ p, d.prototype = some p ∧ p.type = m.type ∧
    p.object.msgName = m.msgName ∧ p.object.members = m.members

theorem lengths_lt : ∀ n ∈ tableOf m.msgName m.members, n < 2 ^ 64 :=
  m.type.schema.lengths_lt m.typed m.size_lt

theorem encodes_wire : m.Encodes (wire m.msgName m.members) :=
  ⟨_, MessageObject.serialize_fresh m.size_lt m.lengths_lt⟩

theorem encodes_iff {frame : Bytes} : m.Encodes frame ↔ frame = wire m.msgName m.members := by
  constructor
  · rintro ⟨sent, hSent⟩
    rw [object, MessageObject.serialize_fresh m.size_lt m.lengths_lt, Option.some.injEq,
      Prod.mk.injEq] at hSent
    exact (List.map_injective_iff.mpr (Option.some_injective _) hSent.1).symm
  · rintro rfl
    exact m.encodes_wire

theorem plain : ∀ a ∈ m.members, a.kind.Plain := by
  intro a ha
  refine m.type.kinds_plain a.kind ?_
  rw [← m.typed]
  exact List.mem_map_of_mem ha

theorem flat : ∀ a ∈ m.members, a.Flat := fun a ha => Member.flat_of_plain (m.plain a ha)

/-- Every class has 8 bytes behind the name, which is all a `TimestampMessage` reads
there. -/
theorem eight_le_image : 8 ≤ (image m.members).length := by
  obtain ⟨rest, hHead⟩ := m.type.kinds_head
  have hTyped := m.typed
  rw [hHead] at hTyped
  obtain ⟨a, members, hMembers, hKind, -⟩ := List.map_eq_cons_iff.mp hTyped
  have hImage : a.image.length = 8 := by
    cases a with
    | scalar w val =>
      obtain rfl : w = 8 := by simpa [Member.kind] using hKind
      exact LittleEndian.encode_length 8 _
    | _ => exact absurd hKind (by simp [Member.kind])
  rw [hMembers, image_cons, List.length_append]
  omega

theorem wireTable_frame :
    wireTable (wire m.msgName m.members) = m.msgName.length :: Message.lengths m.members :=
  wireTable_wire m.size_lt m.lengths_lt

theorem wireName_frame : wireName (wire m.msgName m.members) = m.msgName := by
  rw [wireName, m.wireTable_frame, payload_wire m.size_lt]
  exact List.take_left

theorem nameReadable_frame : NameReadable (wire m.msgName m.members) := by
  have hEight := m.eight_le_image
  have hLen : (wire m.msgName m.members).length =
      16 + 8 * (tableOf m.msgName m.members).length + m.msgName.length +
        (image m.members).length := wire_length _ _
  have hSize := wireSize_wire m.size_lt
  have hHead : (wireTable (wire m.msgName m.members)).headD 0 = m.msgName.length := by
    rw [m.wireTable_frame]
    rfl
  refine ⟨?_, ?_, ?_⟩
  · omega
  · rw [hSize, tableOf, List.length_cons]
    omega
  · omega

end HonestMessage

/-- The index of the object stands at the end of its table. -/
def Balanced (p : Prototype) : Prop :=
  p.object.mArrayLikeIndex = p.object.arrayLikeLenghts.length

/-- A balanced prototype decodes an honest frame of its class, and is balanced
again. -/
theorem decoded_honest {server : ServerKind} (m : HonestMessage server) {p : Prototype}
    (hBalanced : Balanced p) (hType : p.type = m.type) :
    p.object.FitsFrame (wire m.msgName m.members) ∧
      (p.decoded (wire m.msgName m.members)).object.msgName = m.msgName ∧
      (p.decoded (wire m.msgName m.members)).object.members = m.members ∧
      Balanced (p.decoded (wire m.msgName m.members)) := by
  have hKinds : p.object.members.map Member.kind = m.members.map Member.kind := by
    rw [p.typed, m.typed, hType]
  have hTable : p.object.table (wire m.msgName m.members) =
      m.msgName.length :: lengths m.members := by
    rw [MessageObject.table, hBalanced, List.drop_left, m.wireTable_frame]
  have hArity : arity p.object.members = (lengths m.members).length := by
    rw [lengths_length m.flat, arity_of_kinds hKinds]
  have hSize : wireSize (wire m.msgName m.members) = (lengths m.members).length + 1 :=
    wireSize_wire m.size_lt
  -- what the members held before does not matter, as none of them is a vector
  obtain ⟨hLayout, hParse⟩ := parse_image hKinds
    (fun a ha => Member.blank_of_plain (p.plain a ha)) m.flat [] []
  rw [List.append_nil] at hLayout hParse
  rw [List.append_nil] at hParse
  have hLen : (wire m.msgName m.members).length =
      16 + 8 * ((lengths m.members).length + 1) + m.msgName.length +
        (image m.members).length := wire_length _ _
  have hIndex : p.object.mArrayLikeIndex = p.object.arrayLikeLenghts.length := hBalanced
  refine ⟨⟨?_, ?_, ?_⟩, ?_, ?_, ?_⟩
  · omega
  · omega
  · rw [hTable]
    simp only [List.headD_cons, List.drop_one, List.tail_cons, hLayout]
    omega
  · show (payload _).take ((p.object.table _).headD 0) = _
    rw [hTable, payload_wire m.size_lt]
    exact List.take_left
  · show parse p.object.members ((p.object.table _).drop 1)
      ((payload _).drop ((p.object.table _).headD 0)) = _
    rw [hTable, payload_wire m.size_lt]
    simp only [List.headD_cons, List.drop_one, List.tail_cons, List.drop_left, hParse]
  · show p.object.mArrayLikeIndex + 1 + arity p.object.members =
      (p.object.arrayLikeLenghts ++ wireTable (wire m.msgName m.members)).length
    rw [List.length_append, m.wireTable_frame, List.length_cons]
    omega

/-- Every class of the server has a balanced prototype under its name. -/
def Serves (server : ServerKind) (types : MessageTypes) : Prop :=
  ∀ r ∈ server.registrations, ∃ p, types r.1 = some p ∧ p.type = r.2 ∧ Balanced p

theorem serves_messageTypes (server : ServerKind) : Serves server server.messageTypes := by
  have hNodup : (server.registrations.map Prod.fst).Nodup := by cases server <;> decide
  intro r hr
  exact ⟨_, registerAll_lookup hNodup r hr, rfl, rfl⟩

/-- **One honest message** is delivered, and the server goes on serving. -/
theorem dispatch_honest {server : ServerKind} {types : MessageTypes} (hServes : Serves server types)
    (m : HonestMessage server) :
    ∃ d types', dispatch types (wire m.msgName m.members) = .ok (d, types') ∧ m.Delivered d ∧
      Serves server types' := by
  obtain ⟨p, hp, hType, hBalanced⟩ := hServes _ m.registered
  obtain ⟨hFits, hName, hMembers, hAfter⟩ := decoded_honest m hBalanced hType
  have hReadable := m.nameReadable_frame
  have hWireName := m.wireName_frame
  -- from here on only these facts about the frame count
  generalize wire m.msgName m.members = frame at *
  have hEntry : types (wireName frame) = some p := by
    rw [hWireName]
    exact hp
  refine ⟨_, _, dispatch_some hReadable hEntry hFits,
    ⟨hWireName, p.decoded frame, rfl, hType, hName, hMembers⟩, ?_⟩
  intro r hr
  rw [hWireName]
  by_cases hSame : r.1 = m.msgName
  · -- the prototype that decoded the frame
    obtain ⟨q, hq, hClass, -⟩ := hServes r hr
    rw [hSame, hp, Option.some.injEq] at hq
    refine ⟨p.decoded frame, ?_, ?_, hAfter⟩
    · rw [hSame]
      exact Function.update_self ..
    · rw [← hClass, ← hq]
      rfl
  · rw [Function.update_of_ne hSame]
    exact hServes r hr

/--
**Honest traffic.** Any number of honest messages of any classes of a server, handled
one after another on one thread: each frame's name is read without leaving the
frame, selects the prototype of the sender's class, and the prototype then holds the
sender's members, whatever it has decoded before.
-/
theorem honest_traffic (server : ServerKind) (sent : List (HonestMessage server))
    (frames : List Bytes) (hFrames : List.Forall₂ HonestMessage.Encodes sent frames) :
    ∃ ds types, dispatchAll server.messageTypes frames = .ok (ds, types) ∧
      List.Forall₂ HonestMessage.Delivered sent ds := by
  have hRun : ∀ types, Serves server types →
      ∃ ds types', dispatchAll types frames = .ok (ds, types') ∧
        List.Forall₂ HonestMessage.Delivered sent ds := by
    induction hFrames with
    | nil => exact fun types _ => ⟨[], types, rfl, .nil⟩
    | @cons m frame sent frames hm _ ih =>
      intro types hServes
      obtain rfl := m.encodes_iff.mp hm
      obtain ⟨d, types₁, hStep, hDelivered, hServes₁⟩ := dispatch_honest hServes m
      obtain ⟨ds, types₂, hRest, hAll⟩ := ih types₁ hServes₁
      refine ⟨d :: ds, types₂, ?_, .cons hDelivered hAll⟩
      simp only [dispatchAll, bind_eq_ok, pure_eq_ok]
      exact ⟨_, hStep, _, hRest, rfl⟩
  exact hRun server.messageTypes (serves_messageTypes server)

/-- The login server knows the two messages below. -/
theorem registered_heartbeat : (literal "HEARTBEAT_MSG", MessageType.heartBeatPacket) ∈
    ServerKind.loginServer.registrations := by decide

theorem registered_login : (literal "LOGIN_LOGIN_MSG", MessageType.loginRequestMessage) ∈
    ServerKind.loginServer.registrations := by decide

/-- A heartbeat of a client of the login server. -/
def heartbeat (time : BitVec (8 * 8)) : HonestMessage .loginServer where
  msgName := literal "HEARTBEAT_MSG"
  type := .heartBeatPacket
  members := [.scalar 8 time]
  registered := registered_heartbeat
  typed := rfl
  size_lt := by
    have hImage : (image [Member.scalar 8 time]).length = 8 := by
      simp [image, Member.image]
    have hTable : (tableOf (literal "HEARTBEAT_MSG") [Member.scalar 8 time]).length = 1 := rfl
    rw [wireLength, hImage, hTable]
    decide

/-- Two heartbeats and a login. -/
def loginTraffic : List (HonestMessage .loginServer) :=
  [heartbeat 1,
    { msgName := literal "LOGIN_LOGIN_MSG"
      type := .loginRequestMessage
      members := [.scalar 8 20, .string (literal "account"), .string []]
      registered := registered_login
      typed := rfl
      size_lt := by decide },
    heartbeat 2]

theorem honest_traffic_login :
    ∃ ds types, dispatchAll ServerKind.loginServer.messageTypes
        (loginTraffic.map fun m => wire m.msgName m.members) = .ok (ds, types) ∧
      List.Forall₂ HonestMessage.Delivered loginTraffic ds := by
  refine honest_traffic .loginServer loginTraffic _ ?_
  exact List.forall₂_map_right_iff.mpr (List.forall₂_same.mpr fun m _ => m.encodes_wire)

-- ---------------------------------------------------------------------------
-- Isolation
-- ---------------------------------------------------------------------------

/-- The name as the first member, read with the others. -/
def allMembers (p : Prototype) : List Member := .string p.object.msgName :: p.object.members

theorem allMembers_kinds (p : Prototype) :
    (allMembers p).map Member.kind = .string :: p.type.kinds := by
  rw [allMembers, List.map_cons, p.typed]
  rfl

theorem allMembers_arity (p : Prototype) : arity (allMembers p) = p.type.stringCount :=
  p.arity_members

theorem allMembers_plain (p : Prototype) : ∀ m ∈ allMembers p, m.kind.Plain := by
  intro m hm
  rcases List.mem_cons.mp hm with rfl | hm
  · exact trivial
  · exact p.plain m hm

/-- `FitsFrame` with the name read as a member. -/
theorem fitsFrame_iff {p : Prototype} {g : Bytes} : p.object.FitsFrame g ↔
    16 + 8 * wireSize g ≤ g.length ∧ p.type.stringCount ≤ (p.object.table g).length ∧
      layout (allMembers p) (p.object.table g) ≤ (payload g).length := by
  have hTable : (p.object.table g).length =
      p.object.arrayLikeLenghts.length + wireSize g - p.object.mArrayLikeIndex := by
    rw [MessageObject.table, List.length_drop, List.length_append, wireTable,
      LittleEndian.decodeMany_length]
  have hPayload : (payload g).length = g.length - (16 + 8 * wireSize g) := List.length_drop
  have hLayout : layout (allMembers p) (p.object.table g) =
      (p.object.table g).headD 0 + layout p.object.members ((p.object.table g).drop 1) := rfl
  have hCount := p.arity_members
  rw [hTable, hPayload, hLayout]
  constructor
  · rintro ⟨hFits, hEntries, hBytes⟩
    exact ⟨hFits, by omega, by omega⟩
  · rintro ⟨hFits, hEntries, hBytes⟩
    exact ⟨hFits, by omega, by omega⟩

/-- Two prototypes of one class decode a frame alike exactly if they use the same
lengths. -/
theorem decoded_alike_iff {p q : Prototype} {g : Bytes} (hType : p.type = q.type)
    (hq : q.object.FitsFrame g) :
    (p.object.FitsFrame g ∧ (p.decoded g).object.msgName = (q.decoded g).object.msgName ∧
        (p.decoded g).object.members = (q.decoded g).object.members) ↔
      (p.object.table g).take q.type.stringCount =
        (q.object.table g).take q.type.stringCount := by
  have hKinds : (allMembers p).map Member.kind = (allMembers q).map Member.kind := by
    rw [allMembers_kinds, allMembers_kinds, hType]
  have hArity : arity (allMembers p) = q.type.stringCount := by rw [allMembers_arity, hType]
  obtain ⟨hTable, hEntries, hBytes⟩ := fitsFrame_iff.mp hq
  -- name and members together are what `parse` gives for the longer list
  have hAlike : ((p.decoded g).object.msgName = (q.decoded g).object.msgName ∧
        (p.decoded g).object.members = (q.decoded g).object.members) ↔
      parse (allMembers p) (p.object.table g) (payload g) =
        parse (allMembers q) (q.object.table g) (payload g) := by
    show _ ↔ Member.string (p.decoded g).object.msgName :: (p.decoded g).object.members =
      Member.string (q.decoded g).object.msgName :: (q.decoded g).object.members
    rw [List.cons.injEq, Member.string.injEq]
  rw [hAlike]
  constructor
  · rintro ⟨hFits, hParse⟩
    obtain ⟨-, hEntries', hBytes'⟩ := fitsFrame_iff.mp hFits
    rw [hType] at hEntries'
    rw [layout_of_kinds hKinds.symm] at hBytes
    rw [← hArity] at hEntries hEntries' ⊢
    exact (parse_eq_iff hKinds (allMembers_plain p) hEntries' hEntries hBytes' hBytes).mp hParse
  · intro hTake
    have hLen := congrArg List.length hTake
    rw [List.length_take, List.length_take] at hLen
    have hEntries' : q.type.stringCount ≤ (p.object.table g).length := by omega
    -- the layout is that of `q`, entry by entry
    have hBytes' : layout (allMembers p) (p.object.table g) ≤ (payload g).length := by
      calc layout (allMembers p) (p.object.table g)
          = layout (allMembers p) ((p.object.table g).take q.type.stringCount) := by
            rw [← hArity, layout_take]
        _ = layout (allMembers p) ((q.object.table g).take q.type.stringCount) := by rw [hTake]
        _ = layout (allMembers q) (q.object.table g) := by
            rw [← hArity, layout_take, layout_of_kinds hKinds]
        _ ≤ (payload g).length := hBytes
    refine ⟨fitsFrame_iff.mpr ⟨hTable, by rw [hType]; exact hEntries', hBytes'⟩, ?_⟩
    rw [layout_of_kinds hKinds.symm] at hBytes
    rw [← hArity] at hEntries hEntries' hTake
    exact (parse_eq_iff hKinds (allMembers_plain p) hEntries' hEntries hBytes' hBytes).mpr hTake

/-- The thread handles `g`, and the prototype it selects holds what `fresh` holds. -/
def DecodesLike (types : MessageTypes) (g : Bytes) (fresh : Prototype) : Prop :=
  ∃ d after p, dispatch types g = .ok (d, after) ∧ d.prototype = some p ∧
    p.object.msgName = fresh.object.msgName ∧ p.object.members = fresh.object.members

/--
**Decode isolation.** A thread has handled any frames whose `deserialize` completed,
and then gets a frame that a freshly registered table decodes. The thread's prototype
gets the same name and members exactly if the lengths it reads the frame under are the
frame's: in the tables of the earlier frames with this name, followed by the frame's
own table, the entries behind the first `n * k` begin with the `k` entries of the
frame, where `n` is the number of these frames and `k` the number of strings of the
class.
-/
theorem decode_isolation_iff {registrations : List (Bytes × MessageType)} {frames : List Bytes}
    {ds : List Dispatched} {types types₀ : MessageTypes} {g : Bytes} {d₀ : Dispatched}
    {fresh : Prototype}
    (hFrames : dispatchAll (registerAll registrations) frames = .ok (ds, types))
    (hFresh : dispatch (registerAll registrations) g = .ok (d₀, types₀))
    (hSelect : d₀.prototype = some fresh) :
    DecodesLike types g fresh ↔
      ((earlierLengths (wireName g) frames ++ wireTable g).drop
          ((framesFor (wireName g) frames).length * fresh.type.stringCount)).take
          fresh.type.stringCount =
        (wireTable g).take fresh.type.stringCount := by
  obtain ⟨hReadable, hStep⟩ := dispatch_eq_ok.mp hFresh
  cases hEntry : registerAll registrations (wireName g) with
  | none =>
    rw [hEntry] at hStep
    obtain ⟨rfl, -⟩ := Prod.mk.inj hStep
    cases hSelect
  | some q =>
    rw [hEntry] at hStep
    obtain ⟨hFits, hAfter⟩ := hStep
    obtain ⟨rfl, -⟩ := Prod.mk.inj hAfter
    obtain rfl : q.decoded g = fresh := Option.some.inj hSelect
    -- `q` is fresh: it uses the frame's own table
    have hMake : q = Prototype.make q.type := registerAll_fresh registrations _ q hEntry
    have hOwn : q.object.table g = wireTable g := by
      rw [hMake]
      rfl
    -- `p` is the same prototype after the frames
    obtain ⟨p, hp, hType, hLens, hIndex⟩ := dispatchAll_prototype hFrames hEntry
    have hTable : p.object.table g =
        (earlierLengths (wireName g) frames ++ wireTable g).drop
          ((framesFor (wireName g) frames).length * q.type.stringCount) := by
      have hNoLens : q.object.arrayLikeLenghts = [] := by rw [hMake]; rfl
      have hNoIndex : q.object.mArrayLikeIndex = 0 := by rw [hMake]; rfl
      rw [MessageObject.table, hLens, hIndex, hNoLens, hNoIndex, List.nil_append, Nat.zero_add]
    -- the dispatch on the thread completes exactly if `p` fits the frame
    have hDispatch : DecodesLike types g (q.decoded g) ↔ p.object.FitsFrame g ∧
        (p.decoded g).object.msgName = (q.decoded g).object.msgName ∧
        (p.decoded g).object.members = (q.decoded g).object.members := by
      constructor
      · rintro ⟨d, after, p', hOk, hSome, hName, hMembers⟩
        obtain ⟨-, hStep⟩ := dispatch_eq_ok.mp hOk
        rw [hp] at hStep
        obtain ⟨hFits', hAfter'⟩ := hStep
        obtain ⟨rfl, -⟩ := Prod.mk.inj hAfter'
        obtain rfl : p.decoded g = p' := Option.some.inj hSome
        exact ⟨hFits', hName, hMembers⟩
      · rintro ⟨hFits', hName, hMembers⟩
        exact ⟨_, _, p.decoded g, dispatch_some hReadable hp hFits', rfl, hName, hMembers⟩
    rw [hDispatch, decoded_alike_iff hType hFits, hTable, hOwn]
    rfl

/-- Two heartbeats on a fresh login server. -/
theorem decode_isolation_two_heartbeats :
    ∃ ds types d₀ types₀ fresh,
      dispatchAll ServerKind.loginServer.messageTypes
        [wire (heartbeat 1).msgName (heartbeat 1).members] = .ok (ds, types) ∧
      dispatch ServerKind.loginServer.messageTypes
        (wire (heartbeat 2).msgName (heartbeat 2).members) = .ok (d₀, types₀) ∧
      d₀.prototype = some fresh ∧
      (DecodesLike types (wire (heartbeat 2).msgName (heartbeat 2).members) fresh ↔
        ((earlierLengths (wireName (wire (heartbeat 2).msgName (heartbeat 2).members))
            [wire (heartbeat 1).msgName (heartbeat 1).members] ++
              wireTable (wire (heartbeat 2).msgName (heartbeat 2).members)).drop
            ((framesFor (wireName (wire (heartbeat 2).msgName (heartbeat 2).members))
              [wire (heartbeat 1).msgName (heartbeat 1).members]).length *
                fresh.type.stringCount)).take fresh.type.stringCount =
          (wireTable (wire (heartbeat 2).msgName (heartbeat 2).members)).take
            fresh.type.stringCount) := by
  obtain ⟨d, types, hFirst, -, -⟩ :=
    dispatch_honest (serves_messageTypes .loginServer) (heartbeat 1)
  obtain ⟨d₀, types₀, hFresh, ⟨-, fresh, hSelect, -⟩, -⟩ :=
    dispatch_honest (serves_messageTypes .loginServer) (heartbeat 2)
  have hFrames := dispatchAll_singleton hFirst
  exact ⟨_, _, _, _, _, hFrames, hFresh, hSelect,
    @decode_isolation_iff ServerKind.loginServer.registrations _ _ _ _ _ _ _ hFrames hFresh hSelect⟩

/-- A heartbeat whose table has an entry too many: the next client's heartbeat is
decoded under that entry, to an empty name. -/
def overlongTable : Bytes :=
  LittleEndian.encode 8 53 ++ LittleEndian.encode 8 2 ++ LittleEndian.encodeMany 8 [13, 0] ++
    literal "HEARTBEAT_MSG" ++ LittleEndian.encode 8 1

theorem decode_not_isolated :
    ∃ ds types d₀ types₀ fresh,
      dispatchAll ServerKind.loginServer.messageTypes [overlongTable] = .ok (ds, types) ∧
      dispatch ServerKind.loginServer.messageTypes
        (wire (heartbeat 2).msgName (heartbeat 2).members) = .ok (d₀, types₀) ∧
      d₀.prototype = some fresh ∧
      ¬ DecodesLike types (wire (heartbeat 2).msgName (heartbeat 2).members) fresh := by
  have hEntry : ServerKind.loginServer.messageTypes (literal "HEARTBEAT_MSG") =
      some (Prototype.make .heartBeatPacket) :=
    registerAll_lookup (by decide) (literal "HEARTBEAT_MSG", .heartBeatPacket) (by decide)
  have hName : wireName overlongTable = literal "HEARTBEAT_MSG" := by decide
  have hFits : (Prototype.make .heartBeatPacket).object.FitsFrame overlongTable := by decide
  have hReadable : NameReadable overlongTable := by decide
  have hFirst := dispatch_some hReadable (hName ▸ hEntry) hFits
  have hFrames := dispatchAll_singleton hFirst
  obtain ⟨d₀, types₀, hFresh, ⟨-, fresh, hSelect, -, hSent, -⟩, -⟩ :=
    dispatch_honest (serves_messageTypes .loginServer) (heartbeat 2)
  refine ⟨_, _, _, _, _, hFrames, hFresh, hSelect, ?_⟩
  rintro ⟨d, after, p, hOk, hSome, hSame, -⟩
  obtain ⟨-, hStep⟩ := dispatch_eq_ok.mp hOk
  have hGet : Function.update ServerKind.loginServer.messageTypes (wireName overlongTable)
      (some ((Prototype.make .heartBeatPacket).decoded overlongTable))
      (wireName (wire (heartbeat 2).msgName (heartbeat 2).members)) =
        some ((Prototype.make .heartBeatPacket).decoded overlongTable) := by
    rw [HonestMessage.wireName_frame, hName]
    exact Function.update_self ..
  rw [hGet] at hStep
  obtain ⟨-, hAfter⟩ := hStep
  obtain ⟨rfl, -⟩ := Prod.mk.inj hAfter
  -- the name is read under the length 0 the first frame left behind
  have hEmpty : (((Prototype.make .heartBeatPacket).decoded overlongTable).decoded
      (wire (heartbeat 2).msgName (heartbeat 2).members)).object.msgName = [] := by decide
  rw [← Option.some.inj hSome, hSent, hEmpty] at hSame
  exact absurd hSame (by decide)

end WarringServer.Server
