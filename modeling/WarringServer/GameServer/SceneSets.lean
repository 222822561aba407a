import WarringServer.GameServer.SceneManager

/-!
# The scene map and the sorted sets

`SceneManager` keeps the scene of an address twice: in `mSceneAddresses` and, for the other
servers, in the sorted set of the scene. A registration and a removal change the map first
and Redis behind it, and the map is not put back if Redis fails; an update changes Redis
only.

* `agree_step_iff` — what one call does to the agreement of the two;
* `scenes_agree_iff` — over runs: they agree exactly if Redis fails in no call that
  changes the map, and no update is for another scene than that of the map.
-/

namespace WarringServer.GameServer

open Run Message
open SceneRun (sortedAdd_ne_none sortedRemove_ne_none)

/-- A call of one of the functions that change a scene. -/
inductive SceneCall where
  | registerScene (ip sceneKey : Bytes) (dsPort load : Int)
  | removeScene (address : Bytes)
  | updateScene (address sceneKey : Bytes) (load : Int)
  deriving DecidableEq, Repr

namespace SceneManager

/-- A call, with whether Redis carries out its operation. -/
def call (m : SceneManager) : SceneCall × Bool → SceneManager
  | (.registerScene ip sceneKey dsPort load, ok) => (m.registerScene ok ip sceneKey dsPort load).1
  | (.removeScene address, ok) => (m.removeScene ok address).1
  | (.updateScene address sceneKey load, ok) => (m.updateScene ok address sceneKey load).1

/-- The members of the sorted sets are the addresses the map has for their scenes. -/
def Agree (m : SceneManager) : Prop :=
  ∀ sceneKey a, m.sortedSets sceneKey a ≠ none ↔ m.mSceneAddresses a = some sceneKey

/-- Redis does not fail where the map changes, and an update that Redis carries out is for
the scene the map has. -/
def Harmless (m : SceneManager) : SceneCall × Bool → Prop
  | (.registerScene ip _ dsPort _, ok) => m.mSceneAddresses (address ip dsPort) = none → ok = true
  | (.removeScene address, ok) => m.mSceneAddresses address ≠ none → ok = true
  | (.updateScene address sceneKey _, ok) =>
      ok = true → m.mSceneAddresses address = some sceneKey

section

variable {m : SceneManager}

theorem registerScene_new {ok : Bool} {ip sceneKey : Bytes} {dsPort load : Int}
    (h : m.mSceneAddresses (address ip dsPort) = none) :
    (m.registerScene ok ip sceneKey dsPort load).1 =
      ⟨Function.update m.mSceneAddresses (address ip dsPort) (some sceneKey),
        (sortedAdd m.sortedSets ok sceneKey (address ip dsPort) load).1⟩ := by
  unfold registerScene
  dsimp only
  rw [h]
  rfl

theorem registerScene_old {ok : Bool} {ip sceneKey scene : Bytes} {dsPort load : Int}
    (h : m.mSceneAddresses (address ip dsPort) = some scene) :
    (m.registerScene ok ip sceneKey dsPort load).1 = m := by
  unfold registerScene
  dsimp only
  rw [h]
  rfl

/-- A new address, in the map and, unless Redis fails, in its sorted set. -/
theorem agree_register_iff (h : m.Agree) {ok : Bool} {ip sceneKey : Bytes} {dsPort load : Int} :
    (m.registerScene ok ip sceneKey dsPort load).1.Agree ↔
      (m.mSceneAddresses (address ip dsPort) = none → ok = true) := by
  cases hScene : m.mSceneAddresses (address ip dsPort) with
  | some scene =>
    rw [registerScene_old hScene]
    exact ⟨fun _ => nofun, fun _ => h⟩
  | none =>
    rw [registerScene_new hScene]
    cases ok with
    | false =>
      -- the map has the address, no sorted set does
      refine ⟨fun hAgree => ?_, fun hOk => absurd (hOk rfl) (by decide)⟩
      have hMember := (hAgree sceneKey (address ip dsPort)).mpr (Function.update_self ..)
      have hScene' := (h sceneKey (address ip dsPort)).mp hMember
      rw [hScene] at hScene'
      cases hScene'
    | true =>
      refine ⟨fun _ _ => rfl, fun _ key a => sortedAdd_ne_none.trans ?_⟩
      by_cases ha : a = address ip dsPort
      · subst ha
        have hNot : ¬ m.sortedSets key (address ip dsPort) ≠ none := by
          rw [h, hScene]
          exact nofun
        show _ ↔ Function.update m.mSceneAddresses _ (some sceneKey) _ = some key
        rw [Function.update_self, Option.some.injEq, eq_comm (a := sceneKey)]
        exact ⟨fun hOr => (hOr.resolve_right hNot).1, fun hKey => Or.inl ⟨hKey, rfl⟩⟩
      · show _ ↔ Function.update m.mSceneAddresses _ (some sceneKey) _ = some key
        rw [Function.update_of_ne ha, ← h]
        exact ⟨fun hOr => hOr.resolve_left fun hAnd => ha hAnd.2, Or.inr⟩

theorem removeScene_known {ok : Bool} {address scene : Bytes}
    (h : m.mSceneAddresses address = some scene) :
    (m.removeScene ok address).1 =
      ⟨Function.update m.mSceneAddresses address none,
        (sortedRemove m.sortedSets ok scene address).1⟩ := by
  unfold removeScene
  rw [h]

theorem removeScene_unknown {ok : Bool} {address : Bytes}
    (h : m.mSceneAddresses address = none) : (m.removeScene ok address).1 = m := by
  unfold removeScene
  rw [h]

/-- A known address leaves the map and, unless Redis fails, its sorted set. -/
theorem agree_remove_iff (h : m.Agree) {ok : Bool} {address : Bytes} :
    (m.removeScene ok address).1.Agree ↔ (m.mSceneAddresses address ≠ none → ok = true) := by
  cases hScene : m.mSceneAddresses address with
  | none =>
    rw [removeScene_unknown hScene]
    exact ⟨fun _ hSome => absurd rfl hSome, fun _ => h⟩
  | some scene =>
    rw [removeScene_known hScene]
    cases ok with
    | false =>
      -- the sorted set still has the address, the map does not
      refine ⟨fun hAgree => ?_, fun hOk => absurd (hOk nofun) (by decide)⟩
      have hGone : Function.update m.mSceneAddresses address none address = some scene :=
        (hAgree scene address).mp ((h scene address).mpr hScene)
      rw [Function.update_self] at hGone
      cases hGone
    | true =>
      refine ⟨fun _ _ => rfl, fun _ key a => sortedRemove_ne_none.trans ?_⟩
      show _ ↔ Function.update m.mSceneAddresses address none a = some key
      by_cases ha : a = address
      · subst ha
        rw [Function.update_self, h, hScene, Option.some.injEq]
        exact ⟨fun hAnd => absurd ⟨hAnd.1.symm, rfl⟩ hAnd.2, nofun⟩
      · rw [Function.update_of_ne ha, ← h]
        exact and_iff_left fun hAnd => ha hAnd.2

/-- An address in a sorted set, whatever the map has for it. -/
theorem agree_update_iff (h : m.Agree) {ok : Bool} {address sceneKey : Bytes} {load : Int} :
    (m.updateScene ok address sceneKey load).1.Agree ↔
      (ok = true → m.mSceneAddresses address = some sceneKey) := by
  cases ok with
  | false => exact ⟨fun _ hOk => absurd hOk (by decide), fun _ => h⟩
  | true =>
    constructor
    · intro hAgree _
      exact (hAgree sceneKey address).mp (sortedAdd_ne_none.mpr (Or.inl ⟨rfl, rfl⟩))
    · intro hScene key a
      refine sortedAdd_ne_none.trans ⟨?_, fun ha => Or.inr ((h key a).mpr ha)⟩
      rintro (⟨rfl, rfl⟩ | hMember)
      · exact hScene rfl
      · exact (h key a).mp hMember

/-- **One call.** -/
theorem agree_step_iff (h : m.Agree) (e : SceneCall × Bool) : (m.call e).Agree ↔ m.Harmless e := by
  obtain ⟨c, ok⟩ := e
  cases c with
  | registerScene ip sceneKey dsPort load => exact agree_register_iff h
  | removeScene address => exact agree_remove_iff h
  | updateScene address sceneKey load => exact agree_update_iff h

end

theorem init_agree : init.Agree := fun _ _ => ⟨fun h => absurd rfl h, nofun⟩

/-- **Map and sorted sets.** They agree after every call of a run exactly if Redis fails in
no call that changes the map, and no update is for another scene than that of the map. -/
theorem scenes_agree_iff (es : List (SceneCall × Bool)) :
    Always call Agree init es ↔ Each call Harmless init es :=
  always_iff_each (fun _ _ => True) (fun _ _ _ _ _ _ => trivial)
    (fun _ e _ _ h => agree_step_iff h e) init_agree trivial

/-- Redis has the address of an update that was never registered. -/
theorem update_unregistered :
    ¬ Always call Agree init [(.updateScene (literal "10.0.0.1:7777") (literal "s") 1, true)] := by
  intro h
  have hMap := (h.final (literal "s") (literal "10.0.0.1:7777")).mp (by decide)
  cases hMap

end SceneManager

end WarringServer.GameServer
