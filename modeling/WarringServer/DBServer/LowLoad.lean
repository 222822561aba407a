import WarringServer.DBServer.Store

/-!
# The choice of a service

`getLowLoadService` takes the first service that is known for long enough still. `TTL` answers
with a negative number for a key that never expires and for one that is gone; compared with
a `size_t`, either is more than enough.

* `lowLoad_exec` — the loop returns the first key with enough time or a negative answer;
* `low_load_iff` — that is the right one exactly if no key is misread before it.
-/

namespace WarringServer.DBServer

open DBServConf

/-- What `TTL` says about a key, a `long long`. -/
inductive TTLAnswer where
  | remaining (seconds : Fin (2 ^ 63))
  /-- The key never expires. -/
  | noExpiry
  /-- There is no such key any more. -/
  | gone
  deriving DecidableEq, Repr

namespace TTLAnswer

def value : TTLAnswer → Int
  | .remaining seconds => seconds.val
  | .noExpiry => -1
  | .gone => -2

/-- At least half of the threshold remains. `counts` tells whether a key that never expires has
that much. -/
def enough (counts : Bool) : TTLAnswer → Bool
  | .remaining seconds => decide (SERVICE_LOSE_THRESHOLD_IN_SECONDS / 2 ≤ seconds.val)
  | .noExpiry => counts
  | .gone => false

/-- The comparison takes the answer for enough, and it is not. -/
def misread (counts : Bool) : TTLAnswer → Bool
  | .remaining _ => false
  | .noExpiry => !counts
  | .gone => true

/-- The comparison in the loop. -/
def taken (answer : TTLAnswer) : Bool :=
  decide ((BitVec.ofInt 64 answer.value).toNat ≥ SERVICE_LOSE_THRESHOLD_IN_SECONDS / 2)

end TTLAnswer

/-- The first key with enough time, else the empty string; and no key that is gone. -/
structure ChoosesLowLoad (counts : Bool) (answers : Bytes → TTLAnswer) (result : List Bytes)
    (chosen : Bytes) : Prop where
  first : chosen = (result.find? fun key => (answers key).enough counts).getD []
  alive : ∀ key ∈ result, answers key = .gone → chosen ≠ key

/-- Each misread key comes behind one with enough time. (Or behind an empty key that never
expires and is chosen, where the empty string is right.) -/
def Covered (counts : Bool) (answers : Bytes → TTLAnswer) (result : List Bytes) : Prop :=
  ∀ (i : Nat) key, result[i]? = some key → (answers key).misread counts = true →
    ∃ (j : Nat) (key' : Bytes), j ≤ i ∧ result[j]? = some key' ∧ ((answers key').enough counts = true ∨
      key' = [] ∧ answers key' = .noExpiry ∧
        ∀ other ∈ result, (answers other).enough counts = false)

-- ---------------------------------------------------------------------------
-- The loop
-- ---------------------------------------------------------------------------

theorem TTLAnswer.taken_iff (counts : Bool) (answer : TTLAnswer) :
    answer.taken = (answer.enough counts || answer.misread counts) := by
  cases answer with
  | remaining seconds =>
    have hValue : (BitVec.ofInt 64 (seconds.val : Int)).toNat = seconds.val := by
      rw [BitVec.ofInt_natCast, BitVec.toNat_ofNat]
      exact Nat.mod_eq_of_lt (by omega)
    simp only [taken, value, enough, misread, hValue, Bool.or_false]
  | noExpiry => cases counts <;> rfl
  | gone => rfl

theorem lowLoad_exec {σ : Type} {d : Drivers σ} {answers : Bytes → TTLAnswer} {s : σ}
    {result : List Bytes}
    (hTtl : ∀ key ∈ result, (d.ttl key).exec s = (.ok (answers key).value, s)) :
    (lowLoad d result).exec s = (.ok ((result.find? fun key => (answers key).taken).getD []), s) := by
  induction result with
  | nil => rfl
  | cons key result ih =>
    rw [lowLoad, Job.exec_bind_ok (hTtl key List.mem_cons_self), List.find?_cons]
    by_cases hTaken : (answers key).taken = true
    · rw [hTaken, if_pos (of_decide_eq_true hTaken)]
      rfl
    · rw [Bool.not_eq_true] at hTaken
      rw [hTaken, if_neg (of_decide_eq_false hTaken)]
      exact ih fun key' hMem => hTtl key' (List.mem_cons_of_mem key hMem)

-- ---------------------------------------------------------------------------
-- The choice
-- ---------------------------------------------------------------------------

section

variable {counts : Bool} {answers : Bytes → TTLAnswer} {result : List Bytes}

theorem TTLAnswer.not_misread_of_enough {answer : TTLAnswer} (h : answer.enough counts = true) :
    answer.misread counts = false := by
  cases answer with
  | remaining seconds => rfl
  | noExpiry =>
    rw [misread, show counts = true from h]
    rfl
  | gone => cases h

theorem TTLAnswer.not_enough_of_misread {answer : TTLAnswer} (h : answer.misread counts = true) :
    answer.enough counts = false := by
  cases hEnough : answer.enough counts with
  | false => rfl
  | true =>
    rw [not_misread_of_enough hEnough] at h
    cases h

/-- A misread key is not before the one that is taken. -/
theorem le_of_misread {i i' : Nat} {other : Bytes}
    (hBefore : ∀ (j : Nat) key', j < i → result[j]? = some key' →
      (answers key').enough counts = false ∧ (answers key').misread counts = false)
    (hOther : result[i']? = some other) (hMisread : (answers other).misread counts = true) :
    i ≤ i' := by
  by_contra hEarlier
  rw [(hBefore i' other (Nat.not_le.mp hEarlier) hOther).2] at hMisread
  cases hMisread

/-- The key that is taken: the first one that has enough time or is misread. -/
theorem find?_taken_cases (counts : Bool) (answers : Bytes → TTLAnswer) (result : List Bytes) :
    (result.find? fun key => (answers key).taken) = none ∧
      (∀ key ∈ result, (answers key).enough counts = false ∧ (answers key).misread counts = false) ∨
    ∃ i key, (result.find? fun key => (answers key).taken) = some key ∧ result[i]? = some key ∧
      (∀ (j : Nat) key', j < i → result[j]? = some key' →
        (answers key').enough counts = false ∧ (answers key').misread counts = false) ∧
      ((answers key).enough counts = true ∨ (answers key).misread counts = true) := by
  cases hFind : result.find? fun key => (answers key).taken with
  | none =>
    refine Or.inl ⟨rfl, fun key hMem => ?_⟩
    have hNot := List.find?_eq_none.mp hFind key hMem
    rw [TTLAnswer.taken_iff counts, Bool.not_eq_true, Bool.or_eq_false_iff] at hNot
    exact hNot
  | some key =>
    obtain ⟨hTaken, i, hLt, hKey, hBefore⟩ := List.find?_eq_some_iff_getElem.mp hFind
    refine Or.inr ⟨i, key, rfl, by rw [List.getElem?_eq_getElem hLt, hKey],
      fun j key' hj hKey' => ?_, ?_⟩
    · obtain ⟨hLt', rfl⟩ := List.getElem?_eq_some_iff.mp hKey'
      have hNot := hBefore j hj
      rw [TTLAnswer.taken_iff counts, Bool.not_eq_true', Bool.or_eq_false_iff] at hNot
      exact hNot
    · rwa [TTLAnswer.taken_iff counts, Bool.or_eq_true] at hTaken

/-- The first key with enough time. -/
theorem find?_enough {i : Nat} {key : Bytes} (hKey : result[i]? = some key)
    (hEnough : (answers key).enough counts = true)
    (hBefore : ∀ (j : Nat) key', j < i → result[j]? = some key' →
      (answers key').enough counts = false) :
    (result.find? fun key => (answers key).enough counts) = some key := by
  obtain ⟨hLt, hGet⟩ := List.getElem?_eq_some_iff.mp hKey
  refine List.find?_eq_some_iff_getElem.mpr ⟨hEnough, i, hLt, hGet, fun j hj => ?_⟩
  rw [hBefore j _ hj (List.getElem?_eq_getElem (by omega))]
  rfl

/-- A misread key is the right choice only where the right one is the empty string, and it is
that itself. -/
theorem choosesLowLoad_of_misread {i : Nat} {key : Bytes} (hKey : result[i]? = some key)
    (hMisread : (answers key).misread counts = true) :
    ChoosesLowLoad counts answers result key ↔ key = [] ∧ answers key = .noExpiry ∧
      ∀ other ∈ result, (answers other).enough counts = false := by
  have hNotEnough := TTLAnswer.not_enough_of_misread hMisread
  constructor
  · rintro ⟨hFirst, hAlive⟩
    have hNoExpiry : answers key = .noExpiry := by
      cases hAnswer : answers key with
      | remaining seconds =>
        rw [hAnswer] at hMisread
        cases hMisread
      | noExpiry => rfl
      | gone => exact absurd rfl (hAlive key (List.mem_of_getElem? hKey) hAnswer)
    cases hRight : result.find? fun key => (answers key).enough counts with
    | some right =>
      have hEnough : (answers right).enough counts = true := by
        simpa using List.find?_some hRight
      rw [hRight, Option.getD_some] at hFirst
      rw [hFirst, hEnough] at hNotEnough
      cases hNotEnough
    | none =>
      rw [hRight, Option.getD_none] at hFirst
      refine ⟨hFirst, hNoExpiry, fun other hMem => ?_⟩
      simpa using List.find?_eq_none.mp hRight other hMem
  · rintro ⟨rfl, hNoExpiry, hNone⟩
    constructor
    · have hNothing : (result.find? fun key => (answers key).enough counts) = none :=
        List.find?_eq_none.mpr fun other hMem => by
          rw [hNone other hMem]
          exact Bool.false_ne_true
      rw [hNothing]
      rfl
    · intro other _ hGone
      rintro rfl
      rw [hNoExpiry] at hGone
      cases hGone

/-- The first key that is misread can only cover itself. -/
theorem covered_of_misread {i : Nat} {key : Bytes} (hKey : result[i]? = some key)
    (hBefore : ∀ (j : Nat) key', j < i → result[j]? = some key' →
      (answers key').enough counts = false ∧ (answers key').misread counts = false)
    (hMisread : (answers key).misread counts = true) :
    Covered counts answers result ↔ key = [] ∧ answers key = .noExpiry ∧
      ∀ other ∈ result, (answers other).enough counts = false := by
  constructor
  · intro hCovered
    obtain ⟨j, key', hj, hKey', hWhy⟩ := hCovered i key hKey hMisread
    have hPlain : (answers key').enough counts = true ∨ (answers key').misread counts = true := by
      rcases hWhy with hEnough | ⟨-, hNoExpiry, hNone⟩
      · exact Or.inl hEnough
      · have hNot := hNone key' (List.mem_of_getElem? hKey')
        rw [hNoExpiry] at hNot ⊢
        exact Or.inr (by rw [TTLAnswer.misread, show counts = false from hNot]; rfl)
    -- the covering key is the one that is taken
    obtain rfl : j = i := by
      by_contra hEarlier
      obtain ⟨hNo, hNo'⟩ := hBefore j key' (by omega) hKey'
      rw [hNo, hNo'] at hPlain
      simp at hPlain
    obtain rfl : key = key' := Option.some.inj (hKey.symm.trans hKey')
    rcases hWhy with hEnough | hEmpty
    · rw [TTLAnswer.not_enough_of_misread hMisread] at hEnough
      cases hEnough
    · exact hEmpty
  · exact fun hEmpty i' other hOther hMisread' =>
      ⟨i, key, le_of_misread hBefore hOther hMisread', hKey, Or.inr hEmpty⟩

/-- The choice of the loop is right exactly if no misread key comes first. -/
theorem choosesLowLoad_iff : ChoosesLowLoad counts answers result
      ((result.find? fun key => (answers key).taken).getD []) ↔
    Covered counts answers result := by
  rcases find?_taken_cases counts answers result with
    ⟨hFind, hNone⟩ | ⟨i, key, hFind, hKey, hBefore, hEnough | hMisread⟩
  · -- no key is taken, and none had to be
    rw [hFind]
    refine iff_of_true ⟨?_, fun key hMem hGone => ?_⟩ fun i key hKey hMisread => ?_
    · have hNothing : (result.find? fun key => (answers key).enough counts) = none :=
        List.find?_eq_none.mpr fun key hMem => by rw [(hNone key hMem).1]; exact Bool.false_ne_true
      rw [hNothing]
    · have hMisread := (hNone key hMem).2
      rw [hGone] at hMisread
      cases hMisread
    · rw [(hNone key (List.mem_of_getElem? hKey)).2] at hMisread
      cases hMisread
  · rw [hFind, Option.getD_some]
    refine iff_of_true ⟨?_, fun other hMem hGone => ?_⟩ fun i' other hOther hMisread => ?_
    · rw [find?_enough hKey hEnough fun j key' hj hKey' => (hBefore j key' hj hKey').1]
      rfl
    · rintro rfl
      rw [hGone] at hEnough
      cases hEnough
    · exact ⟨i, key, le_of_misread hBefore hOther hMisread, hKey, Or.inl hEnough⟩
  · rw [hFind, Option.getD_some, choosesLowLoad_of_misread hKey hMisread,
      covered_of_misread hKey hBefore hMisread]

end

/-- **The choice of a service**, for keys that `ZRANGEBYSCORE` returns and the answers of `TTL`:
the first one with enough time is chosen exactly if it covers all that are misread. -/
theorem low_load_iff {σ : Type} (d : Drivers σ) (serviceKey : Bytes) (counts : Bool)
    (answers : Bytes → TTLAnswer) (result : List Bytes) (s : σ)
    (hKeys : (d.zrangebyscore serviceKey).exec s = (.ok result, s))
    (hTtl : ∀ key ∈ result, (d.ttl key).exec s = (.ok (answers key).value, s)) :
    (∃ chosen, ((getLowLoadService d serviceKey).exec s).1 = .ok chosen ∧
      ChoosesLowLoad counts answers result chosen) ↔ Covered counts answers result := by
  have hExec : (getLowLoadService d serviceKey).exec s =
      (.ok ((result.find? fun key => (answers key).taken).getD []), s) := by
    rw [getLowLoadService, Job.exec_bind_ok hKeys]
    exact lowLoad_exec hTtl
  rw [hExec, ← choosesLowLoad_iff]
  constructor
  · rintro ⟨chosen, hChosen, hRight⟩
    rwa [Except.ok.inj hChosen]
  · exact fun hRight => ⟨_, rfl, hRight⟩

/-- A registry with two services. -/
def twoServices (first second : TTLAnswer) : Store :=
  { Store.empty with
    services := fun _ => [[1], [2]]
    ttls := fun key => if key = [1] then first.value else second.value }

/-- The first one is about to be lost. -/
theorem low_load_second :
    ∃ chosen, ((getLowLoadService (Store.drivers (fun _ => []) 0) GATEWAY_KEYS).exec
        (twoServices (.remaining 3) (.remaining 20))).1 = .ok chosen ∧
      ChoosesLowLoad true (fun key => if key = [1] then .remaining 3 else .remaining 20) [[1], [2]]
        chosen := by
  refine (low_load_iff (Store.drivers (fun _ => []) 0) GATEWAY_KEYS true _ [[1], [2]] _ rfl ?_).mpr ?_
  · intro key hMem
    rcases List.mem_pair.mp hMem with rfl | rfl
    · rfl
    · rfl
  · intro i key hKey hMisread
    rcases List.mem_pair.mp (List.mem_of_getElem? hKey) with rfl | rfl
    · cases hMisread
    · cases hMisread

/-- A key that is gone is chosen. -/
theorem not_low_load : ¬ ∀ (σ : Type) (d : Drivers σ) (serviceKey : Bytes) (counts : Bool)
    (answers : Bytes → TTLAnswer) (result : List Bytes) (s : σ),
    (d.zrangebyscore serviceKey).exec s = (.ok result, s) →
    (∀ key ∈ result, (d.ttl key).exec s = (.ok (answers key).value, s)) →
      ∃ chosen, ((getLowLoadService d serviceKey).exec s).1 = .ok chosen ∧
        ChoosesLowLoad counts answers result chosen := by
  intro h
  have hTtl : ∀ key ∈ [[1], [2]], ((Store.drivers (fun _ => []) 0).ttl key).exec
      (twoServices .gone (.remaining 20)) =
        (.ok (if key = [1] then TTLAnswer.gone else .remaining 20).value,
          twoServices .gone (.remaining 20)) := by
    intro key hMem
    rcases List.mem_pair.mp hMem with rfl | rfl
    · rfl
    · rfl
  obtain ⟨chosen, hChosen, -, hAlive⟩ := h Store (Store.drivers (fun _ => []) 0) GATEWAY_KEYS true
    (fun key => if key = [1] then .gone else .remaining 20) [[1], [2]]
    (twoServices .gone (.remaining 20)) rfl hTtl
  exact hAlive [1] List.mem_cons_self rfl (Except.ok.inj hChosen).symm

end WarringServer.DBServer
