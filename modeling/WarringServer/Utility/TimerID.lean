import Mathlib.Data.List.Nodup
import Mathlib.Tactic.Common
import WarringServer.Lib.Run

/-!
# Timer ids

`generateID` puts together the second of the wall clock and a counter, `mIncrPerSec`. The
counter is set back by every tick, and the ticks are not aligned with the seconds of the
clock: a tick in the middle of a second brings the counters of that second back.

* `timerID_injective` — ids differ where the second or the counter does;
* `unique_ids_iff` — the ids of a run are distinct exactly if the counter is always below
  those of the ids that have been generated in the same second before the latest tick.
-/

namespace WarringServer.Utility

open Run

/-- `std::to_string(secondsSinceEpoch) + '-' + std::to_string(mIncrPerSec)` -/
def timerID (secondsSinceEpoch : Int) (mIncrPerSec : Nat) : String :=
  toString secondsSinceEpoch ++ "-" ++ toString mIncrPerSec

/-- The part of a `TimeWheelTimer` that makes ids, and the wall clock. The last three
fields keep what has happened so far. -/
structure TimerClock where
  secondsSinceEpoch : Int
  mIncrPerSec : Nat
  /-- All ids so far. -/
  issued : List String
  /-- The lowest counter of an id of this second. -/
  lowest : Option Nat
  /-- The same, of the ids before the latest tick. -/
  lowestBefore : Option Nat
  deriving DecidableEq, Repr

inductive ClockEvent where
  /-- The wall clock moves on, or stands still. -/
  | advance (seconds : Nat)
  /-- A turn of the loop in `tick`. -/
  | tick
  | generateID
  deriving DecidableEq, Repr

namespace TimerClock

/-- Behind the constructor. -/
def init (secondsSinceEpoch : Int) : TimerClock :=
  { secondsSinceEpoch := secondsSinceEpoch
    mIncrPerSec := 0
    issued := []
    lowest := none
    lowestBefore := none }

/-- The counter is incremented first. -/
def generateID (s : TimerClock) : String × TimerClock :=
  let id := timerID s.secondsSinceEpoch (s.mIncrPerSec + 1)
  (id, { s with
    mIncrPerSec := s.mIncrPerSec + 1
    issued := id :: s.issued
    lowest := some ((s.lowest.map (min (s.mIncrPerSec + 1))).getD (s.mIncrPerSec + 1)) })

def step (s : TimerClock) : ClockEvent → TimerClock
  | .advance 0 => s
  | .advance (seconds + 1) =>
      { s with
        secondsSinceEpoch := s.secondsSinceEpoch + (seconds + 1)
        lowest := none
        lowestBefore := none }
  | .tick => { s with mIncrPerSec := 0, lowestBefore := s.lowest }
  | .generateID => s.generateID.2

/-- All ids are distinct. -/
def Unique (s : TimerClock) : Prop := s.issued.Nodup

/-- The counter is below those of the ids of the same second from before the latest
tick, if there are any. -/
def CounterBelow (s : TimerClock) : ClockEvent → Prop
  | .generateID => ∀ lowest, s.lowestBefore = some lowest → s.mIncrPerSec + 1 < lowest
  | _ => True

end TimerClock

-- ---------------------------------------------------------------------------
-- The ids
-- ---------------------------------------------------------------------------

/-- The part behind the last separator and the part before it. -/
theorem append_separator_inj {α : Type*} {a : α} {x₁ x₂ z₁ z₂ : List α} (h₁ : a ∉ z₁) (h₂ : a ∉ z₂)
    (h : x₁ ++ a :: z₁ = x₂ ++ a :: z₂) : x₁ = x₂ ∧ z₁ = z₂ := by
  rcases List.append_eq_append_iff.mp h with ⟨y, hx, hz⟩ | ⟨y, hx, hz⟩
  · cases y with
    | nil => exact ⟨by rw [hx, List.append_nil], (List.cons.inj hz).2⟩
    | cons b y =>
      -- the second separator would stand in the first counter
      rw [(List.cons.inj hz).2] at h₁
      exact absurd (List.mem_append_right y List.mem_cons_self) h₁
  · cases y with
    | nil => exact ⟨by rw [hx, List.append_nil], (List.cons.inj hz).2.symm⟩
    | cons b y =>
      rw [(List.cons.inj hz).2] at h₂
      exact absurd (List.mem_append_right y List.mem_cons_self) h₂

theorem notMem_repr {c : Char} (hDigit : c.isDigit = false) (n : Nat) :
    c ∉ (Nat.repr n).toList := by
  rw [Nat.toList_repr]
  intro hMem
  exact Bool.false_ne_true
    (hDigit.symm.trans (Nat.isDigit_of_mem_toDigits (by decide) (by decide) hMem))

/-- A counter can be read off its digits, and so can a descriptor. -/
theorem counter_injective {c c' : Nat} (h : (Nat.repr c).toList = (Nat.repr c').toList) :
    c = c' := by
  rw [Nat.toList_repr, Nat.toList_repr] at h
  rw [← Nat.ofDigitChars_ten_toDigits (n := c), h, Nat.ofDigitChars_ten_toDigits]

/-- So can a second, which has a sign. -/
theorem second_injective {t t' : Int} (h : (Int.repr t).toList = (Int.repr t').toList) :
    t = t' := by
  have hNegative (m : Nat) : (Int.repr (.negSucc m)).toList = '-' :: (Nat.repr (m + 1)).toList := by
    rw [Int.repr, String.toList_append]
    rfl
  have hSigns (n m : Nat) : (Int.repr (.ofNat n)).toList ≠ (Int.repr (.negSucc m)).toList := by
    intro hSame
    refine notMem_repr (c := '-') (by decide) n ?_
    rw [show Nat.repr n = Int.repr (.ofNat n) from rfl, hSame, hNegative]
    exact List.mem_cons_self
  rcases t with n | m <;> rcases t' with n' | m'
  · have hSame : n = n' := counter_injective h
    rw [hSame]
  · exact absurd h (hSigns n m')
  · exact absurd h.symm (hSigns n' m)
  · rw [hNegative, hNegative] at h
    rw [Nat.succ_inj.mp (counter_injective (List.cons.inj h).2)]

theorem timerID_injective {t t' : Int} {c c' : Nat} :
    timerID t c = timerID t' c' ↔ t = t' ∧ c = c' := by
  constructor
  · intro h
    have hList : (Int.repr t).toList ++ '-' :: (Nat.repr c).toList =
        (Int.repr t').toList ++ '-' :: (Nat.repr c').toList := by
      have hId := congrArg String.toList h
      simpa [timerID] using hId
    obtain ⟨hSecond, hCounter⟩ :=
      append_separator_inj (notMem_repr (by decide) c) (notMem_repr (by decide) c') hList
    exact ⟨second_injective hSecond, counter_injective hCounter⟩
  · rintro ⟨rfl, rfl⟩
    rfl

-- ---------------------------------------------------------------------------
-- Runs
-- ---------------------------------------------------------------------------

namespace TimerClock

/-- Every id so far is of an earlier second, or its counter has been passed since the
latest tick, or lies in the range from before it. -/
structure Accounted (s : TimerClock) : Prop where
  issued : ∀ id ∈ s.issued, ∃ t c, id = timerID t c ∧ t ≤ s.secondsSinceEpoch ∧
    (t = s.secondsSinceEpoch → (∃ lowest, s.lowest = some lowest ∧ lowest ≤ c) ∧
      (c ≤ s.mIncrPerSec ∨ ∃ lowest, s.lowestBefore = some lowest ∧ lowest ≤ c))
  lowest : ∀ c, s.lowest = some c → 0 < c ∧ timerID s.secondsSinceEpoch c ∈ s.issued
  lowestBefore : ∀ c, s.lowestBefore = some c →
    timerID s.secondsSinceEpoch c ∈ s.issued ∧ s.mIncrPerSec < c

section

variable {s : TimerClock}

theorem init_accounted (secondsSinceEpoch : Int) : (init secondsSinceEpoch).Accounted where
  issued _ hMem := absurd hMem List.not_mem_nil
  lowest _ h := nomatch h
  lowestBefore _ h := nomatch h

/-- The next id has not been issued exactly if the counter is below. -/
theorem notMem_issued_iff (h : s.Accounted) :
    timerID s.secondsSinceEpoch (s.mIncrPerSec + 1) ∉ s.issued ↔ s.CounterBelow .generateID := by
  constructor
  · -- a counter that is not below has reached the lowest, which has been issued
    intro hNew lowest hLowest
    obtain ⟨hIssued, hBelow⟩ := h.lowestBefore lowest hLowest
    by_contra hReached
    have hSame : s.mIncrPerSec + 1 = lowest := by omega
    rw [hSame] at hNew
    exact hNew hIssued
  · intro hBelow hMem
    obtain ⟨t, c, hID, -, hSecond⟩ := h.issued _ hMem
    obtain ⟨hTime, hCounter⟩ := timerID_injective.mp hID
    obtain ⟨-, hPassed | ⟨lowest, hLowest, hAbove⟩⟩ := hSecond hTime.symm
    · omega
    · have hFresh := hBelow lowest hLowest
      omega

theorem step_unique_iff (h : s.Accounted) (hUnique : s.Unique) (e : ClockEvent) :
    (s.step e).Unique ↔ s.CounterBelow e := by
  cases e with
  | generateID =>
    rw [← notMem_issued_iff h]
    exact List.nodup_cons.trans (and_iff_left hUnique)
  | advance seconds => cases seconds <;> exact iff_of_true hUnique trivial
  | tick => exact iff_of_true hUnique trivial

theorem Accounted.generateID (h : s.Accounted) (hBelow : s.CounterBelow .generateID) :
    s.generateID.2.Accounted := by
  have hLowest : ∃ lowest, s.generateID.2.lowest = some lowest ∧
      lowest ≤ s.mIncrPerSec + 1 ∧ (∀ c, s.lowest = some c → lowest ≤ c) ∧
      (lowest = s.mIncrPerSec + 1 ∨ s.lowest = some lowest) := by
    refine ⟨_, rfl, ?_⟩
    cases s.lowest with
    | none => simp
    | some c =>
      dsimp only [Option.map_some, Option.getD_some]
      refine ⟨Nat.min_le_left _ _, ?_, ?_⟩
      · intro c' hc'
        cases hc'
        exact Nat.min_le_right _ _
      · rw [Option.some.injEq]
        omega
  obtain ⟨lowest, hAfter, hNew, hOld, hOne⟩ := hLowest
  constructor
  · intro id hMem
    rcases List.mem_cons.mp hMem with rfl | hMem
    · exact ⟨_, _, rfl, Int.le_refl _, fun _ => ⟨⟨lowest, hAfter, hNew⟩, Or.inl (Nat.le_refl _)⟩⟩
    · obtain ⟨t, c, hID, hPast, hSecond⟩ := h.issued id hMem
      refine ⟨t, c, hID, hPast, fun hTime => ?_⟩
      obtain ⟨⟨l, hl, hc⟩, hRange⟩ := hSecond hTime
      exact ⟨⟨lowest, hAfter, Nat.le_trans (hOld l hl) hc⟩, hRange.imp_left Nat.le_succ_of_le⟩
  · intro c hc
    obtain rfl := Option.some.inj (hAfter.symm.trans hc)
    rcases hOne with rfl | hOne
    · exact ⟨Nat.succ_pos _, List.mem_cons_self⟩
    · obtain ⟨hPos, hMem⟩ := h.lowest _ hOne
      exact ⟨hPos, List.mem_cons_of_mem _ hMem⟩
  · intro c hc
    exact ⟨List.mem_cons_of_mem _ (h.lowestBefore c hc).1, hBelow c hc⟩

theorem Accounted.step (h : s.Accounted) {e : ClockEvent} (hBelow : s.CounterBelow e) :
    (s.step e).Accounted := by
  cases e with
  | generateID => exact h.generateID hBelow
  | advance seconds =>
    cases seconds with
    | zero => exact h
    | succ seconds =>
      -- all ids are of an earlier second
      refine ⟨fun id hMem => ?_, fun c hc => (nomatch hc), fun c hc => (nomatch hc)⟩
      obtain ⟨t, c, hID, hPast, -⟩ := h.issued id hMem
      refine ⟨t, c, hID, ?_, ?_⟩
      · simp only [TimerClock.step]
        omega
      · intro hTime
        simp only [TimerClock.step] at hTime
        omega
  | tick =>
    refine ⟨?_, h.lowest, ?_⟩
    · intro id hMem
      obtain ⟨t, c, hID, hPast, hSecond⟩ := h.issued id hMem
      refine ⟨t, c, hID, hPast, fun hTime => ?_⟩
      obtain ⟨hAbove, -⟩ := hSecond hTime
      exact ⟨hAbove, Or.inr hAbove⟩
    · intro c hc
      obtain ⟨hPos, hMem⟩ := h.lowest c hc
      exact ⟨hMem, hPos⟩

end

/-- **Timer ids.** In every run, from any second of the wall clock on and with ticks
at any moments, the ids are pairwise distinct exactly if the counter of each is below
those of the ids of its second from before the latest tick. -/
theorem unique_ids_iff (secondsSinceEpoch : Int) (es : List ClockEvent) :
    Always step Unique (init secondsSinceEpoch) es ↔
      Each step CounterBelow (init secondsSinceEpoch) es :=
  always_iff_each (fun s _ => s.Accounted) (fun _ _ _ hJ _ hC => hJ.step hC)
    (fun _ e _ hJ hUnique => step_unique_iff hJ hUnique e) List.nodup_nil
    (init_accounted secondsSinceEpoch)

/-- A tick between two calls in one second: both get the id "0-1". -/
theorem not_unique_ids :
    ¬ ∀ (secondsSinceEpoch : Int) (es : List ClockEvent),
      Always step Unique (init secondsSinceEpoch) es := by
  intro h
  have hTwice := (h 0 [.generateID, .tick, .generateID]).final
  exact (List.nodup_cons.mp hTwice).1 List.mem_cons_self

end TimerClock

end WarringServer.Utility
