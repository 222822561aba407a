import Mathlib.Data.List.Basic
import Mathlib.Data.List.Nodup
import Mathlib.Logic.Function.Basic
import WarringServer.Lib.Run
import WarringServer.Net.IOBuffer

/-!
# The service registry and its announcements

`ServiceRegistry::run` polls: in every round it reads the members of the set
`SERVICE_KEYS` and asks Redis for each of them whether the key still exists.
`mServiceKeys` counts the misses in a row. A key that the map does not hold is new,
and is announced as `"+key"`; the third miss removes the key everywhere and
announces `"-key"`.

A miss also puts the key into the map. A key whose first observation is a miss is
therefore in the map without having been announced (`Silent`). It is not new any more when it is seen
to exist, and after three misses it is announced as lost without ever having been
announced at all.

Seen from one key a round is one step of a small machine (`KeyView.observe`), whose
state is the counter and the announcements made for the key.

* `view_round` — the registry refines that machine, for every key at once;
* `announcements_alternate_iff` — the announcements alternate, and end in `"+key"`
  for every key seen to exist, exactly if no silent key is observed again but for
  one more miss.
-/

namespace WarringServer.CenterServer

open Run

/-- A Redis key of a service, as `registerService` builds it. -/
abbrev ServiceKey := Bytes

/-- `"+" + serviceKey`. -/
def plus (key : ServiceKey) : Bytes := 43 :: key

/-- `"-" + serviceKey`. -/
def minus (key : ServiceKey) : Bytes := 45 :: key

/-- `KEY_HEARTBEAT_MESSAGE`, `"SEND_HEARTBEAT"`. -/
def KEY_HEARTBEAT_MESSAGE : Bytes := "SEND_HEARTBEAT".toList.map fun c => UInt8.ofNat c.toNat

/-- The sorted sets of the services in use. -/
inductive ServiceSet where
  | GATEWAY_KEYS
  | GAME_KEYS
  deriving DecidableEq, Repr

/-- The commands the registry sends to Redis. -/
inductive RegistryCommand where
  | publish (msg : Bytes)
  | srem (key : ServiceKey)
  | zrem (set : ServiceSet) (key : ServiceKey)
  deriving DecidableEq, Repr

/-- The message a command publishes. -/
def RegistryCommand.message? : RegistryCommand → Option Bytes
  | .publish msg => some msg
  | .srem _ => none
  | .zrem _ _ => none

/-- `mServiceKeys`: service key and number of misses. -/
abbrev MissCounts := ServiceKey → Option Nat

/-- Loop body of `run` for one member of `SERVICE_KEYS`: the new map, and the commands
in their order. -/
def observe (mServiceKeys : MissCounts) (serviceKey : ServiceKey) (existed : Bool) :
    MissCounts × List RegistryCommand :=
  if existed then
    let inserted := (mServiceKeys serviceKey).isNone
    (Function.update mServiceKeys serviceKey (some 0),
      if inserted then [.publish (plus serviceKey)] else [])
  else
    -- `operator[]` inserts 0 for a key it does not find
    let misses := (mServiceKeys serviceKey).getD 0 + 1
    if misses ≥ 3 then
      (Function.update mServiceKeys serviceKey none,
        [.srem serviceKey, .zrem .GATEWAY_KEYS serviceKey, .zrem .GAME_KEYS serviceKey,
          .publish (minus serviceKey)])
    else (Function.update mServiceKeys serviceKey (some misses), [])

/-- What one round observes: the members of `SERVICE_KEYS` in the order of iteration,
each once, and whether the key existed when it was asked for. -/
structure Round where
  members : List (ServiceKey × Bool)
  nodup : (members.map Prod.fst).Nodup

/-- The registry between two rounds, with what it has published so far and the keys
its last round saw to exist. -/
structure ServiceRegistry where
  mServiceKeys : MissCounts
  published : List Bytes
  existing : List ServiceKey

namespace ServiceRegistry

def init : ServiceRegistry := ⟨fun _ => none, [], []⟩

/-- One member of the round. -/
def check (s : ServiceRegistry) (member : ServiceKey × Bool) : ServiceRegistry :=
  let (mServiceKeys, commands) := observe s.mServiceKeys member.1 member.2
  { s with
    mServiceKeys := mServiceKeys
    published := s.published ++ commands.filterMap RegistryCommand.message? }

/-- One round of `run`. It ends with the message that asks for heartbeats. -/
def round (s : ServiceRegistry) (r : Round) : ServiceRegistry :=
  let s := r.members.foldl check s
  { s with
    published := s.published ++ [KEY_HEARTBEAT_MESSAGE]
    existing := (r.members.filter Prod.snd).map Prod.fst }

end ServiceRegistry

-- ---------------------------------------------------------------------------
-- Announcements of one key
-- ---------------------------------------------------------------------------

/-- The announcement a message is for a key: `true` for `"+key"`, `false` for `"-key"`. -/
def announcement? (key : ServiceKey) (msg : Bytes) : Option Bool :=
  if msg = plus key then some true
  else if msg = minus key then some false
  else none

/-- The announcements among the messages, in their order. -/
def announcements (key : ServiceKey) (msgs : List Bytes) : List Bool :=
  msgs.filterMap (announcement? key)

/-- `b, !b, b, …` -/
def Alternates : Bool → List Bool → Prop
  | _, [] => True
  | b, x :: xs => x = b ∧ Alternates (!b) xs

/-- The next element of an alternating list is the opposite of its last. -/
theorem alternates_snoc {b x : Bool} {xs : List Bool} :
    Alternates b (xs ++ [x]) ↔ Alternates b xs ∧ x = !(xs.getLast?.getD (!b)) := by
  induction xs generalizing b with
  | nil => simp [Alternates]
  | cons y ys ih =>
    rw [List.cons_append, Alternates, Alternates, ih, and_assoc]
    refine and_congr_right ?_
    intro hHead
    subst hHead
    cases ys with
    | nil => simp
    | cons z zs => simp [List.getLast?_cons]

section

variable {key key' : ServiceKey}

@[simp] theorem announcement?_plus : announcement? key (plus key) = some true := if_pos rfl

@[simp] theorem announcement?_minus : announcement? key (minus key) = some false := by
  simp [announcement?, plus, minus]

@[simp] theorem announcement?_heartbeat : announcement? key KEY_HEARTBEAT_MESSAGE = none := by
  have hHead : KEY_HEARTBEAT_MESSAGE.head? = some 83 := by decide
  have hPlus : KEY_HEARTBEAT_MESSAGE ≠ plus key := by
    intro h
    rw [h] at hHead
    cases hHead
  have hMinus : KEY_HEARTBEAT_MESSAGE ≠ minus key := by
    intro h
    rw [h] at hHead
    cases hHead
  rw [announcement?, if_neg hPlus, if_neg hMinus]

theorem announcement?_plus_ne (h : key ≠ key') : announcement? key' (plus key) = none := by
  simp [announcement?, plus, minus, h]

theorem announcement?_minus_ne (h : key ≠ key') : announcement? key' (minus key) = none := by
  simp [announcement?, plus, minus, h]

end

-- ---------------------------------------------------------------------------
-- The registry seen from one key
-- ---------------------------------------------------------------------------

/-- What the registry knows and has said of one key. -/
@[ext]
structure KeyView where
  misses : Option Nat
  announced : List Bool

namespace KeyView

/-- One observation of the key. -/
def observe (v : KeyView) (existed : Bool) : KeyView :=
  if existed then ⟨some 0, v.announced ++ if v.misses.isNone then [true] else []⟩
  else if v.misses.getD 0 + 1 ≥ 3 then ⟨none, v.announced ++ [false]⟩
  else ⟨some (v.misses.getD 0 + 1), v.announced⟩

/-- The last announcement is `"+key"`. -/
def Announced (v : KeyView) : Prop := v.announced.getLast? = some true

/-- The key is in the map, but is not announced. -/
def Silent (v : KeyView) : Prop := v.misses ≠ none ∧ ¬ v.Announced

/-- The observations that a key can have without harm: a silent key only misses, and
not for the third time. -/
def Harmless (v : KeyView) (existed : Bool) : Prop :=
  v.Silent → existed = false ∧ v.misses.getD 0 + 1 < 3

/-- An announced key is in the map. -/
def Known (v : KeyView) : Prop := v.Announced → v.misses ≠ none

section

variable {v : KeyView} {existed : Bool}

theorem not_announced (h : ¬ v.Announced) : v.announced.getLast?.getD (!true) = false := by
  unfold Announced at h
  cases hLast : v.announced.getLast? with
  | none => rfl
  | some b =>
    cases b with
    | true => exact absurd hLast h
    | false => rfl

theorem observe_hit_new (h : v.misses = none) :
    v.observe true = ⟨some 0, v.announced ++ [true]⟩ := by
  simp [observe, h]

theorem observe_hit_old (h : v.misses ≠ none) : v.observe true = ⟨some 0, v.announced⟩ := by
  simp [observe, h]

theorem observe_lost (h : v.misses.getD 0 + 1 ≥ 3) :
    v.observe false = ⟨none, v.announced ++ [false]⟩ := by
  simp only [observe, Bool.false_eq_true, if_false, if_pos h]

theorem observe_miss (h : v.misses.getD 0 + 1 < 3) :
    v.observe false = ⟨some (v.misses.getD 0 + 1), v.announced⟩ := by
  simp only [observe, Bool.false_eq_true, if_false, if_neg (Nat.not_le.mpr h)]

/-- Only known keys are ever announced, so the view stays known. -/
theorem known_observe : (v.observe existed).Known := by
  cases existed with
  | true =>
    intro _
    by_cases hNew : v.misses = none
    · simp [observe_hit_new hNew]
    · simp [observe_hit_old hNew]
  | false =>
    by_cases hLost : v.misses.getD 0 + 1 ≥ 3
    · rw [observe_lost hLost]
      intro h
      simp [Announced] at h
    · rw [observe_miss (by omega)]
      intro _
      simp

/-- A harmless observation keeps the announcements in turn, and leaves a key that
exists announced. -/
theorem observe_of_harmless (hKnown : v.Known) (hAlternates : Alternates true v.announced)
    (hHarmless : v.Harmless existed) :
    Alternates true (v.observe existed).announced ∧
      (existed = true → (v.observe existed).Announced) := by
  cases existed with
  | true =>
    by_cases hNew : v.misses = none
    · -- a new key has not been announced, so it is its turn
      have hNot : ¬ v.Announced := fun h => hKnown h hNew
      rw [observe_hit_new hNew]
      refine ⟨alternates_snoc.mpr ⟨hAlternates, ?_⟩, ?_⟩
      · rw [not_announced hNot]
        rfl
      · intro _
        simp [Announced]
    · have hAnnounced : v.Announced := by
        by_contra hNot
        have hMiss := (hHarmless ⟨hNew, hNot⟩).1
        cases hMiss
      rw [observe_hit_old hNew]
      exact ⟨hAlternates, fun _ => hAnnounced⟩
  | false =>
    refine ⟨?_, fun h => by cases h⟩
    by_cases hLost : v.misses.getD 0 + 1 ≥ 3
    · have hIn : v.misses ≠ none := by
        intro hNone
        rw [hNone] at hLost
        simp at hLost
      have hAnnounced : v.Announced := by
        by_contra hNot
        have hFew := (hHarmless ⟨hIn, hNot⟩).2
        omega
      rw [observe_lost hLost]
      refine alternates_snoc.mpr ⟨hAlternates, ?_⟩
      rw [Announced] at hAnnounced
      rw [hAnnounced]
      rfl
    · rw [observe_miss (by omega)]
      exact hAlternates

/-- Any other observation of a silent key breaks the announcements. -/
theorem harmless_of_observe (hAlternates : Alternates true (v.observe existed).announced)
    (hAnnounced : existed = true → (v.observe existed).Announced) : v.Harmless existed := by
  rintro ⟨hIn, hNot⟩
  cases existed with
  | true =>
    -- the key is not new any more, so nothing is announced
    have hAfter := hAnnounced rfl
    rw [observe_hit_old hIn] at hAfter
    exact absurd hAfter hNot
  | false =>
    refine ⟨rfl, ?_⟩
    by_contra hMany
    rw [observe_lost (by omega)] at hAlternates
    have hTurn := (alternates_snoc.mp hAlternates).2
    rw [not_announced hNot] at hTurn
    cases hTurn

end

end KeyView

namespace ServiceRegistry

def view (s : ServiceRegistry) (key : ServiceKey) : KeyView :=
  ⟨s.mServiceKeys key, announcements key s.published⟩

section

variable {s : ServiceRegistry} {key : ServiceKey}

/-- The member's own view takes one step. -/
theorem view_check_self (existed : Bool) :
    (s.check (key, existed)).view key = (s.view key).observe existed := by
  cases existed with
  | true =>
    by_cases hNew : s.mServiceKeys key = none
    · rw [KeyView.observe_hit_new hNew]
      simp [check, view, CenterServer.observe, hNew, RegistryCommand.message?, announcements]
    · rw [KeyView.observe_hit_old hNew]
      simp [check, view, CenterServer.observe, hNew]
  | false =>
    by_cases hLost : (s.mServiceKeys key).getD 0 + 1 ≥ 3
    · rw [KeyView.observe_lost hLost]
      simp only [check, CenterServer.observe, Bool.false_eq_true, if_false, if_pos hLost, view,
        Function.update_self]
      simp [RegistryCommand.message?, announcements, List.filterMap_cons]
    · rw [KeyView.observe_miss (Nat.not_le.mp hLost)]
      simp only [check, CenterServer.observe, Bool.false_eq_true, if_false, if_neg hLost, view,
        Function.update_self]
      simp

/-- The views of the other keys do not change. -/
theorem view_check_ne {member : ServiceKey × Bool} (h : member.1 ≠ key) :
    (s.check member).view key = s.view key := by
  obtain ⟨other, existed⟩ := member
  have hUpdate (x : Option Nat) : Function.update s.mServiceKeys other x key = s.mServiceKeys key :=
    Function.update_of_ne (Ne.symm h) ..
  cases existed with
  | true =>
    by_cases hNew : s.mServiceKeys other = none
    · simp [check, view, CenterServer.observe, hNew, hUpdate, RegistryCommand.message?,
        announcements, announcement?_plus_ne h]
    · simp [check, view, CenterServer.observe, hNew, hUpdate]
  | false =>
    by_cases hLost : (s.mServiceKeys other).getD 0 + 1 ≥ 3
    · simp only [check, CenterServer.observe, Bool.false_eq_true, if_false, if_pos hLost, view,
        hUpdate]
      simp [RegistryCommand.message?, announcements, announcement?_minus_ne h]
    · simp only [check, CenterServer.observe, Bool.false_eq_true, if_false, if_neg hLost, view,
        hUpdate]
      simp

theorem view_foldl_ne (members : List (ServiceKey × Bool)) (h : key ∉ members.map Prod.fst) :
    (members.foldl check s).view key = s.view key := by
  induction members generalizing s with
  | nil => rfl
  | cons member members ih =>
    rw [List.map_cons, List.mem_cons, not_or] at h
    rw [List.foldl_cons, ih h.2, view_check_ne (Ne.symm h.1)]

theorem view_foldl_mem (members : List (ServiceKey × Bool)) (existed : Bool)
    (hNodup : (members.map Prod.fst).Nodup) (h : (key, existed) ∈ members) :
    (members.foldl check s).view key = (s.view key).observe existed := by
  induction members generalizing s with
  | nil => cases h
  | cons member members ih =>
    rw [List.map_cons, List.nodup_cons] at hNodup
    rw [List.foldl_cons]
    rcases List.mem_cons.mp h with rfl | hRest
    · rw [view_foldl_ne members hNodup.1, view_check_self]
    · -- the key comes later, so this member is another one
      have hNe : member.1 ≠ key := by
        intro hSame
        exact hNodup.1 (hSame ▸ List.mem_map_of_mem (f := Prod.fst) hRest)
      rw [ih hNodup.2 hRest, view_check_ne hNe]

theorem view_round (r : Round) : (s.round r).view key = (r.members.foldl check s).view key := by
  simp [round, view, announcements]

/-- **Refinement.** A round is one step of the view of each of its members, and of no
other. -/
theorem view_round_mem {r : Round} {existed : Bool} (h : (key, existed) ∈ r.members) :
    (s.round r).view key = (s.view key).observe existed := by
  rw [view_round, view_foldl_mem r.members existed r.nodup h]

theorem view_round_ne {r : Round} (h : key ∉ r.members.map Prod.fst) :
    (s.round r).view key = s.view key := by
  rw [view_round, view_foldl_ne r.members h]

theorem mem_existing_round {r : Round} :
    key ∈ (s.round r).existing ↔ (key, true) ∈ r.members := by
  show key ∈ (r.members.filter Prod.snd).map Prod.fst ↔ _
  simp

end

-- ---------------------------------------------------------------------------
-- Runs
-- ---------------------------------------------------------------------------

/-- The announcements of every key alternate, starting with `"+key"`, and the last one
is `"+key"` for the keys that the round has seen to exist. -/
def Announces (s : ServiceRegistry) : Prop :=
  (∀ key, Alternates true (announcements key s.published)) ∧
  ∀ key ∈ s.existing, (announcements key s.published).getLast? = some true

/-- The round observes no silent key, but for misses below the third. -/
def HarmlessRound (s : ServiceRegistry) (r : Round) : Prop :=
  ∀ key existed, (key, existed) ∈ r.members → (s.view key).Harmless existed

/-- **Announcements.** After every round of a run the announcements of all keys are in
turn and up to date, exactly if every round of it is harmless. -/
theorem announcements_alternate_iff (rounds : List Round) :
    Always round Announces init rounds ↔ Each round HarmlessRound init rounds := by
  refine always_iff_each (fun s _ => ∀ key, (s.view key).Known) ?_ ?_ ?_ ?_
  · intro s r rs hKnown _ _ key
    by_cases hIn : key ∈ r.members.map Prod.fst
    · obtain ⟨⟨_, existed⟩, hMember, rfl⟩ := List.mem_map.mp hIn
      rw [view_round_mem hMember]
      exact KeyView.known_observe
    · rw [view_round_ne hIn]
      exact hKnown key
  · intro s r rs hKnown hBefore
    constructor
    · rintro ⟨hAlternates, hLast⟩ key existed hMember
      have hView := view_round_mem (s := s) hMember
      refine KeyView.harmless_of_observe ?_ ?_
      · rw [← hView]
        exact hAlternates key
      · rintro rfl
        rw [← hView]
        exact hLast key (mem_existing_round.mpr hMember)
    · intro hHarmless
      -- what a harmless observation does, for any member of the round
      have hMembers : ∀ key existed, (key, existed) ∈ r.members →
          Alternates true ((s.round r).view key).announced ∧
            (existed = true → ((s.round r).view key).Announced) := by
        intro key existed hMember
        rw [view_round_mem hMember]
        exact KeyView.observe_of_harmless (hKnown key) (hBefore.1 key)
          (hHarmless key existed hMember)
      constructor
      · intro key
        by_cases hIn : key ∈ r.members.map Prod.fst
        · obtain ⟨⟨_, existed⟩, hMember, rfl⟩ := List.mem_map.mp hIn
          exact (hMembers _ existed hMember).1
        · show Alternates true ((s.round r).view key).announced
          rw [view_round_ne hIn]
          exact hBefore.1 key
      · intro key hKey
        exact (hMembers key true (mem_existing_round.mp hKey)).2 rfl
  · exact ⟨fun _ => trivial, fun key hKey => by cases hKey⟩
  · intro key hAnnounced
    cases hAnnounced

/-- A server adds its key to `SERVICE_KEYS` before the key exists. A round in between
sees a member that does not exist, and the next ones do not announce it. -/
theorem announcement_missing :
    ¬ Always round Announces init
      [⟨[([103], false)], by decide⟩, ⟨[([103], true)], by decide⟩] := by
  intro h
  have hLast := h.final.2 [103] (by decide)
  revert hLast
  decide

end ServiceRegistry

end WarringServer.CenterServer
