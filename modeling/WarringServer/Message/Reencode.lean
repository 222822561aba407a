import WarringServer.Lib.Run
import WarringServer.Message.RoundTrip

/-!
# Encoding one object many times

`count` adds to `MSG_LEN`, `ARRAY_LIKE_S_SIZE` and `ARRAY_LIKE_LENGHTS`, and nothing ever
sets them back. An object that is counted again, with other members or with the same ones,
has a frame of the sum of both sizes and a table with the old lengths in front.
`serialize` itself can be repeated: it starts from a new allocation and changes no counter.

* `serialize_room` — what `serialize` returns, whatever has been counted, as long as it
  is enough;
* `Tallied` — the counters after any history of an object;
* `reencode_iff` — a frame is that of a fresh object exactly if the object has been
  counted once.
-/

namespace WarringServer.Message

open Run LittleEndian

-- ---------------------------------------------------------------------------
-- Histories
-- ---------------------------------------------------------------------------

inductive MessageCall where
  | assignName (msgName : Bytes)
  /-- An assignment to member `i`. -/
  | assign (i : Nat) (val : Member)
  | count
  | serialize
  deriving DecidableEq, Repr

/-- A member keeps its static type. -/
def MessageObject.assign (m : MessageObject) (i : Nat) (val : Member) : MessageObject :=
  if m.members[i]?.map Member.kind = some val.kind then { m with members := m.members.set i val }
  else m

/-- An object and its history. There is no telling what follows a write past the
allocation. -/
structure ObjectHistory where
  object : Option MessageObject
  counts : Nat
  /-- `count` has been called since the last assignment. -/
  counted : Bool
  deriving DecidableEq, Repr

namespace ObjectHistory

def init (msgName : Bytes) (members : List Member) : ObjectHistory :=
  { object := some (.fresh msgName members), counts := 0, counted := false }

def step (s : ObjectHistory) : MessageCall → ObjectHistory
  | .assignName msgName =>
      { s with object := s.object.map fun m => { m with msgName := msgName }, counted := false }
  | .assign i val => { s with object := s.object.map fun m => m.assign i val, counted := false }
  | .count =>
      { object := s.object.map MessageObject.count, counts := s.counts + 1, counted := true }
  | .serialize => { s with object := s.object.bind fun m => m.serialize.map Prod.snd }

/-- A `serialize` behind a `count` of the members as they are returns what it returns for a
fresh object with these members. -/
def EncodesAfresh (s : ObjectHistory) : MessageCall → Prop
  | .serialize => ∀ m, s.object = some m → s.counted = true →
      m.serialize.map Prod.fst = (MessageObject.fresh m.msgName m.members).count.serialize.map Prod.fst
  | _ => True

/-- A `serialize` behind a `count` of the members as they are comes after one `count` in
all. -/
def CountedOnce (s : ObjectHistory) : MessageCall → Prop
  | .serialize => ∀ m, s.object = some m → s.counted = true → s.counts = 1
  | _ => True

end ObjectHistory

-- ---------------------------------------------------------------------------
-- Serialising
-- ---------------------------------------------------------------------------

namespace BaseMessage

/-- What `serialize` leaves as it is. -/
structure SameTally (b b' : BaseMessage) : Prop where
  msgName : b'.msgName = b.msgName
  msgLen : b'.msgLen = b.msgLen
  arrayLikeLenghts : b'.arrayLikeLenghts = b.arrayLikeLenghts
  arrayLikeSSize : b'.arrayLikeSSize = b.arrayLikeSSize

theorem SameTally.refl (b : BaseMessage) : SameTally b b := ⟨rfl, rfl, rfl, rfl⟩

theorem SameTally.trans {b b' b'' : BaseMessage} (h : SameTally b b') (h' : SameTally b' b'') :
    SameTally b b'' :=
  ⟨h'.msgName.trans h.msgName, h'.msgLen.trans h.msgLen,
    h'.arrayLikeLenghts.trans h.arrayLikeLenghts, h'.arrayLikeSSize.trans h.arrayLikeSSize⟩

theorem sameTally_foldlM {α : Type} {f : BaseMessage → α → Option BaseMessage}
    (hf : ∀ b x b', f b x = some b' → SameTally b b') (xs : List α) {b b' : BaseMessage}
    (h : xs.foldlM f b = some b') : SameTally b b' := by
  induction xs generalizing b with
  | nil =>
    obtain rfl := Option.some.inj h
    exact SameTally.refl b
  | cons x xs ih =>
    rw [List.foldlM_cons] at h
    obtain ⟨b₁, hHead, hTail⟩ := Option.bind_eq_some_iff.mp h
    exact (hf b x b₁ hHead).trans (ih hTail)

theorem pushBytes_sameTally {b b' : BaseMessage} {src : Bytes} (h : b.pushBytes src = some b') :
    SameTally b b' := by
  obtain ⟨mData, -, hEq⟩ := Option.bind_eq_some_iff.mp h
  obtain rfl := Option.some.inj hEq
  exact ⟨rfl, rfl, rfl, rfl⟩

theorem pushMember_sameTally {b b' : BaseMessage} {m : Member} (h : b.pushMember m = some b') :
    SameTally b b' := by
  cases m with
  | scalar w val => exact pushBytes_sameTally h
  | string val => exact pushBytes_sameTally h
  | vector w val => exact sameTally_foldlM (fun _ _ _ => pushBytes_sameTally) _ h
  | strings strs => exact sameTally_foldlM (fun _ _ _ => pushBytes_sameTally) _ h

theorem pushMembers_sameTally {b b' : BaseMessage} {ms : List Member}
    (h : b.pushMembers ms = some b') : SameTally b b' :=
  sameTally_foldlM (fun _ _ _ => pushMember_sameTally) ms h

/-- The members that `serializeHelper` pushes. -/
def header (b : BaseMessage) : List Member :=
  [.scalar 8 (.ofNat _ b.msgLen), .scalar 8 (.ofNat _ b.arrayLikeSSize),
    .vector 8 (b.arrayLikeLenghts.map (.ofNat _)), .string b.msgName]

theorem image_header_length (b : BaseMessage) :
    (image b.header).length = 16 + 8 * b.arrayLikeLenghts.length + b.msgName.length := by
  simp [header, image, Member.image, encodeMany_length]
  omega

end BaseMessage

namespace MessageObject

theorem serialize_sameTally {m m' : MessageObject} {frame : List (Option UInt8)}
    (h : m.serialize = some (frame, m')) :
    BaseMessage.SameTally m.toBaseMessage m'.toBaseMessage ∧ m'.members = m.members := by
  obtain ⟨b, hHelper, hRest⟩ := Option.bind_eq_some_iff.mp h
  obtain ⟨b', hMembers, hEq⟩ := Option.bind_eq_some_iff.mp hRest
  obtain ⟨-, rfl⟩ := Prod.mk.inj (Option.some.inj hEq)
  have hPush := BaseMessage.pushMembers_sameTally hHelper
  have hHead : BaseMessage.SameTally m.toBaseMessage b :=
    ⟨hPush.msgName, hPush.msgLen, hPush.arrayLikeLenghts, hPush.arrayLikeSSize⟩
  exact ⟨hHead.trans (BaseMessage.pushMembers_sameTally hMembers), rfl⟩

/-- The bytes that `serialize` has to write. -/
def writes (m : MessageObject) : Nat :=
  16 + 8 * m.arrayLikeLenghts.length + m.msgName.length + (image m.members).length

/-- **Serialising** with room for it returns `MSG_LEN` bytes. Those behind the members
have not been written. -/
theorem serialize_room {m : MessageObject} (hRoom : m.writes ≤ m.msgLen) :
    ∃ m', m.serialize = some ((image m.header ++ image m.members).map some ++
      List.replicate (m.msgLen - m.writes) none, m') := by
  have hHeader := BaseMessage.image_header_length m.toBaseMessage
  have hAll : (image m.header ++ image m.members).length = m.writes := by
    rw [List.length_append, hHeader, writes]
  -- the header goes into the new allocation, and the members behind it
  have hPush : m.serializeHelper = some (m.toBaseMessage.written (image m.header)
      ((image m.members).length + (m.msgLen - m.writes))) := by
    have hWritten := BaseMessage.pushMembers_written m.header m.toBaseMessage []
      ((image m.members).length + (m.msgLen - m.writes))
    have hLen : (image m.header).length + ((image m.members).length + (m.msgLen - m.writes)) =
        m.msgLen := by
      rw [List.length_append] at hAll
      omega
    rw [hLen, List.nil_append] at hWritten
    exact hWritten
  have hMembers := BaseMessage.pushMembers_written m.members m.toBaseMessage (image m.header)
    (m.msgLen - m.writes)
  refine ⟨⟨m.toBaseMessage.written (image m.header ++ image m.members) (m.msgLen - m.writes),
    m.members⟩, ?_⟩
  rw [serialize, hPush]
  show ((m.toBaseMessage.written _ _).pushMembers m.members >>= fun b => _) = _
  rw [hMembers]
  refine congrArg some (Prod.ext ?_ rfl)
  -- the allocation has `MSG_LEN` bytes
  show ((image m.header ++ image m.members).map some ++ List.replicate _ none).take m.msgLen = _
  rw [List.take_of_length_le]
  rw [List.length_append, List.length_map, List.length_replicate, hAll]
  omega

/-- What is returned depends on the counters and the members alone. -/
theorem serialize_congr {m m' : MessageObject}
    (h : BaseMessage.SameTally m.toBaseMessage m'.toBaseMessage) (hMembers : m'.members = m.members)
    (hRoom : m.writes ≤ m.msgLen) :
    m'.serialize.map Prod.fst = m.serialize.map Prod.fst := by
  obtain ⟨hName, hLen, hLens, hSize⟩ := h
  have hWrites : m'.writes = m.writes := by rw [writes, hLens, hName, hMembers, writes]
  have hHeader : m'.header = m.header := by
    rw [BaseMessage.header, hLen, hSize, hLens, hName, BaseMessage.header]
  obtain ⟨_, hSerialize⟩ := serialize_room hRoom
  obtain ⟨_, hSerialize'⟩ := serialize_room (m := m') (by rw [hWrites, hLen]; exact hRoom)
  rw [hSerialize, hSerialize', hHeader, hMembers, hLen, hWrites]
  rfl

/-- A fresh object has just the room it needs. -/
theorem writes_counted (msgName : Bytes) (ms : List Member) :
    (counted msgName ms).writes = (counted msgName ms).msgLen := rfl

theorem serialize_length {m : MessageObject} (hRoom : m.writes ≤ m.msgLen)
    {frame : List (Option UInt8)} (h : m.serialize.map Prod.fst = some frame) :
    frame.length = m.msgLen := by
  obtain ⟨_, hSerialize⟩ := serialize_room hRoom
  rw [hSerialize] at h
  obtain rfl := Option.some.inj h
  have hHeader := BaseMessage.image_header_length m.toBaseMessage
  rw [List.length_append, List.length_map, List.length_replicate, List.length_append, hHeader]
  unfold writes at hRoom ⊢
  omega

end MessageObject

-- ---------------------------------------------------------------------------
-- Counters
-- ---------------------------------------------------------------------------

namespace ObjectHistory

/-- The counters of an object: nothing before the first `count`; those of its frame
behind one `count` of the members as they are; and too much for it behind more. -/
structure Tallied (counts : Nat) (current : Bool) (m : MessageObject) : Prop where
  uncounted : counts = 0 → m.msgLen = 0 ∧ m.arrayLikeLenghts = [] ∧ m.arrayLikeSSize = 0
  some_counted : 0 < counts → 0 < m.msgLen
  once : current = true → counts = 1 →
    BaseMessage.SameTally (MessageObject.counted m.msgName m.members).toBaseMessage m.toBaseMessage
  more : current = true → counts ≠ 1 →
    wireLength m.msgName m.members < m.msgLen ∧ m.writes ≤ m.msgLen

/-- In every history. -/
def AllTallied (s : ObjectHistory) : Prop :=
  ∀ m, s.object = some m → Tallied s.counts s.counted m

section

variable {counts : Nat} {current : Bool} {m : MessageObject}

theorem Tallied.count (h : Tallied counts current m) : Tallied (counts + 1) true m.count := by
  rw [MessageObject.count_eq]
  have hWire : 0 < wireLength m.msgName m.members := by
    rw [wireLength]
    omega
  refine ⟨fun hZero => by omega, ?_, ?_, ?_⟩
  · intro _
    dsimp only
    omega
  · intro _ hOne
    -- the counters have been zero
    obtain ⟨hLen, hLens, hSize⟩ := h.uncounted (by omega)
    refine ⟨rfl, ?_, ?_, ?_⟩
    · show m.msgLen + 8 * m.arrayLikeLenghts.length + _ = _
      rw [hLen, hLens, List.length_nil, Nat.mul_zero, Nat.add_zero, Nat.zero_add]
      rfl
    · show m.arrayLikeLenghts ++ _ = _
      rw [hLens, List.nil_append]
      rfl
    · show m.arrayLikeSSize + _ = _
      rw [hSize, Nat.zero_add]
      rfl
  · intro _ hMore
    have hPos := h.some_counted (by omega)
    refine ⟨?_, ?_⟩
    · dsimp only
      omega
    · rw [MessageObject.writes]
      dsimp only
      rw [List.length_append, wireLength]
      omega

/-- Another value leaves the counters as they are. -/
theorem Tallied.assign (h : Tallied counts current m) {m' : MessageObject}
    (hLen : m'.msgLen = m.msgLen) (hLens : m'.arrayLikeLenghts = m.arrayLikeLenghts)
    (hSize : m'.arrayLikeSSize = m.arrayLikeSSize) : Tallied counts false m' where
  uncounted := by
    rw [hLen, hLens, hSize]
    exact h.uncounted
  some_counted := by
    rw [hLen]
    exact h.some_counted
  once hCurrent := nomatch hCurrent
  more hCurrent := nomatch hCurrent

theorem Tallied.same (h : Tallied counts current m) {m' : MessageObject}
    (hSame : BaseMessage.SameTally m.toBaseMessage m'.toBaseMessage)
    (hMembers : m'.members = m.members) : Tallied counts current m' := by
  refine ⟨?_, ?_, ?_, ?_⟩
  · rw [hSame.msgLen, hSame.arrayLikeLenghts, hSame.arrayLikeSSize]
    exact h.uncounted
  · rw [hSame.msgLen]
    exact h.some_counted
  · intro hCurrent hOne
    rw [hSame.msgName, hMembers]
    exact (h.once hCurrent hOne).trans hSame
  · intro hCurrent hMore
    rw [MessageObject.writes, hSame.msgName, hSame.msgLen, hSame.arrayLikeLenghts, hMembers]
    exact h.more hCurrent hMore

end

theorem AllTallied.step {s : ObjectHistory} (h : s.AllTallied) (e : MessageCall) :
    (s.step e).AllTallied := by
  intro m hm
  cases e with
  | assignName msgName =>
    obtain ⟨m₀, hObject, rfl⟩ := Option.map_eq_some_iff.mp hm
    exact (h m₀ hObject).assign rfl rfl rfl
  | assign i val =>
    obtain ⟨m₀, hObject, rfl⟩ := Option.map_eq_some_iff.mp hm
    unfold MessageObject.assign
    split
    · exact (h m₀ hObject).assign rfl rfl rfl
    · exact (h m₀ hObject).assign rfl rfl rfl
  | count =>
    obtain ⟨m₀, hObject, rfl⟩ := Option.map_eq_some_iff.mp hm
    exact (h m₀ hObject).count
  | serialize =>
    obtain ⟨m₀, hObject, hRest⟩ := Option.bind_eq_some_iff.mp hm
    obtain ⟨⟨frame, m'⟩, hSerialize, rfl⟩ := Option.map_eq_some_iff.mp hRest
    obtain ⟨hSame, hMembers⟩ := MessageObject.serialize_sameTally hSerialize
    exact (h m₀ hObject).same hSame hMembers

theorem init_allTallied (msgName : Bytes) (members : List Member) :
    (init msgName members).AllTallied := by
  intro m hm
  obtain rfl := Option.some.inj hm
  exact ⟨fun _ => ⟨rfl, rfl, rfl⟩, nofun, nofun, nofun⟩

/-- One `serialize`. -/
theorem encodesAfresh_iff {s : ObjectHistory} (h : s.AllTallied) (e : MessageCall) :
    s.EncodesAfresh e ↔ s.CountedOnce e := by
  cases e with
  | serialize =>
    refine forall_congr' fun m => forall_congr' fun hm => forall_congr' fun hCurrent => ?_
    have hTallied := h m hm
    have hFresh : (MessageObject.counted m.msgName m.members).writes ≤
        (MessageObject.counted m.msgName m.members).msgLen :=
      Nat.le_of_eq (MessageObject.writes_counted _ _)
    rw [MessageObject.count_fresh]
    constructor
    · -- two counts leave a frame that is too long
      intro hEqual
      by_contra hMore
      obtain ⟨hLonger, hRoom⟩ := hTallied.more hCurrent hMore
      obtain ⟨m', hSerialize⟩ := MessageObject.serialize_room hRoom
      have hMine := MessageObject.serialize_length hRoom (congrArg (Option.map Prod.fst) hSerialize)
      have hTheirs := MessageObject.serialize_length hFresh
        (hEqual.symm.trans (congrArg (Option.map Prod.fst) hSerialize))
      have hLen : (MessageObject.counted m.msgName m.members).msgLen =
          wireLength m.msgName m.members := rfl
      omega
    · intro hOnce
      exact MessageObject.serialize_congr (hTallied.once hCurrent hOnce) rfl hFresh
  | _ => exact Iff.rfl

/-- **Reused messages.** In every history of an object, each `serialize` behind a `count`
of the members as they are returns the frame of a fresh object exactly if each comes
after one `count` in all. -/
theorem reencode_iff (msgName : Bytes) (members : List Member) (es : List MessageCall) :
    Each step EncodesAfresh (init msgName members) es ↔
      Each step CountedOnce (init msgName members) es :=
  each_congr_of_inv (fun _ e h => h.step e) (fun _ e h => encodesAfresh_iff h e)
    (init_allTallied msgName members)

/-- A request that is sent, gets another code, and is counted again. -/
def loginThenRegister : List MessageCall :=
  [.count, .serialize, .assign 0 (.scalar 1 2), .count]

/-- Its second frame is too long. -/
theorem not_reencoded :
    ¬ ∀ (msgName : Bytes) (members : List Member) (es : List MessageCall),
      Each step EncodesAfresh (init msgName members) es := by
  intro h
  have hRun := (each_append.mp (h [76] [.scalar 1 1, .string [97]]
    (loginThenRegister ++ [.serialize]))).2.1
  have hTallied : (final step (init [76] [.scalar 1 1, .string [97]]) loginThenRegister).AllTallied :=
    final_of_step (fun _ e h => AllTallied.step h e) (init_allTallied _ _)
  obtain ⟨m, hObject⟩ : ∃ m, (final step (init [76] [.scalar 1 1, .string [97]])
      loginThenRegister).object = some m := Option.isSome_iff_exists.mp (by decide +kernel)
  exact absurd ((encodesAfresh_iff hTallied .serialize).mp hRun m hObject rfl) (by decide)

end ObjectHistory

end WarringServer.Message
