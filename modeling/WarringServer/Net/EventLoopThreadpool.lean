import WarringServer.Lib.RoundRobin
import WarringServer.Lib.Run

/-!
# The pool of event loops

`roundRobinIndex` picks the event loop of a new connection: the first active one behind the
last pick. Its loop runs from `mNextIndex`, which it advances with every thread it passes
over, to a bound that was computed before `mNextIndex` was wrapped: once around, or twice.

The constructor makes `num` threads, and every one of them begins to loop by itself, but the
indices go round the first `mThreadNum` of them only, of which there are no more than the
hardware has. The others loop and are never picked.

* `roundRobinIndex_some` — a call picks the active index that comes next;
* `round_robin_fair_iff` — any series of as many calls as there are looping threads picks
  each of them once, in their cyclic order, exactly when all of them are among the first
  `mThreadNum`: always, for a pool of no more threads than the hardware has.
-/

namespace WarringServer.Net

open Run

-- ---------------------------------------------------------------------------
-- The pool
-- ---------------------------------------------------------------------------

/-- A thread, by what the pool asks its event loop. -/
structure EventLoopThread where
  isLooping : Bool
  deriving DecidableEq, Repr

/-- A null pointer is `none`. -/
structure EventLoopThreadpool where
  mThreadNum : Nat
  mNextIndex : Nat
  mEventLoopThreads : List (Option EventLoopThread)
  threadNum_le : mThreadNum ≤ mEventLoopThreads.length

namespace EventLoopThreadpool

/-- The constructor makes `num` threads, and uses no more than the hardware has:
`hardware_concurrency()`, which is 0 where it is not known. -/
def new (num hardwareNum : Nat) : EventLoopThreadpool where
  mThreadNum := if num > hardwareNum then hardwareNum else num
  mNextIndex := 0
  mEventLoopThreads := List.replicate num (some ⟨false⟩)
  threadNum_le := by
    rw [List.length_replicate]
    split <;> omega

def isInactive (t : EventLoopThreadpool) (i : Nat) : Bool :=
  match t.mEventLoopThreads[i]? with
  | some (some thd) => !thd.isLooping
  | _ => true

/-- The `for` loop of `roundRobinIndex`, with `k` rounds to go: `res` and `mNextIndex`. -/
def search (t : EventLoopThreadpool) (i mNextIndex : Nat) : Nat → Int × Nat
  | 0 => (-1, mNextIndex)
  | k + 1 =>
    if !t.isInactive (i % t.mThreadNum) then (↑(i % t.mThreadNum), mNextIndex)
    else search t (i + 1) ((mNextIndex + 1) % t.mThreadNum) k

def roundRobinIndex (t : EventLoopThreadpool) : Int × EventLoopThreadpool :=
  let tmp := t.mNextIndex + 1
  let mNextIndex := if tmp = t.mThreadNum then 0 else tmp
  let (res, mNextIndex) := t.search mNextIndex mNextIndex (tmp + t.mThreadNum - mNextIndex)
  (res, { t with mNextIndex := mNextIndex })

/-- The results of `k` calls in a row. -/
def indices (t : EventLoopThreadpool) : Nat → List Int
  | 0 => []
  | k + 1 => t.roundRobinIndex.1 :: indices t.roundRobinIndex.2 k

/-- The indices of the threads whose loops run, in ascending order. -/
def looping (t : EventLoopThreadpool) : List Nat :=
  (List.range t.mEventLoopThreads.length).filter fun i => !t.isInactive i

/-- Those of the threads in use, the first `mThreadNum`. -/
def active (t : EventLoopThreadpool) : List Nat :=
  (List.range t.mThreadNum).filter fun i => !t.isInactive i

/-- What happens to a pool. -/
inductive ThreadpoolEvent where
  | roundRobinIndex
  /-- The loop of a thread begins or ends, or the pointer is reset. -/
  | setThread (i : Nat) (thd : Option EventLoopThread)
  deriving DecidableEq, Repr

def step (t : EventLoopThreadpool) : ThreadpoolEvent → EventLoopThreadpool
  | .roundRobinIndex => t.roundRobinIndex.2
  | .setThread i thd =>
    { t with
      mEventLoopThreads := t.mEventLoopThreads.set i thd
      threadNum_le := by
        rw [List.length_set]
        exact t.threadNum_le }

/-- Calls return the indices of looping threads, if there are any, and a round of them takes
turns. -/
structure Fair (t : EventLoopThreadpool) : Prop where
  none_looping : t.looping = [] → ∀ k, ∀ index ∈ t.indices k, index = -1
  looping : t.looping ≠ [] → ∀ k, ∀ index ∈ t.indices k, ∃ i ∈ t.looping, index = ↑i
  round : t.looping ≠ [] →
    ∃ j, t.indices t.looping.length = (t.looping.rotate j).map fun i : Nat => (i : Int)

-- ---------------------------------------------------------------------------
-- One call
-- ---------------------------------------------------------------------------

section

variable {t : EventLoopThreadpool}

theorem mem_active {i : Nat} : i ∈ t.active ↔ i < t.mThreadNum ∧ t.isInactive i = false := by
  rw [active, List.mem_filter, List.mem_range, Bool.not_eq_true']

theorem active_sorted : t.active.Pairwise (· < ·) := List.pairwise_lt_range.filter _

/-- A position behind the vector is no thread, and inactive. -/
theorem mem_looping {i : Nat} : i ∈ t.looping ↔ t.isInactive i = false := by
  rw [looping, List.mem_filter, List.mem_range, Bool.not_eq_true']
  refine ⟨And.right, fun hActive => ⟨?_, hActive⟩⟩
  by_contra hBehind
  rw [isInactive, List.getElem?_eq_none (Nat.le_of_not_lt hBehind)] at hActive
  cases hActive

/-- Where every looping thread is in use, the two are the same list. -/
theorem looping_eq (hInUse : ∀ i ∈ t.looping, i < t.mThreadNum) : t.looping = t.active := by
  have hSplit : List.range t.mEventLoopThreads.length =
      List.range t.mThreadNum ++
        List.range' t.mThreadNum (t.mEventLoopThreads.length - t.mThreadNum) := by
    rw [List.range_eq_range', List.range_eq_range']
    have hAppend := List.range'_append_1 (s := 0) (m := t.mThreadNum)
      (n := t.mEventLoopThreads.length - t.mThreadNum)
    rw [Nat.zero_add, Nat.add_sub_cancel' t.threadNum_le] at hAppend
    exact hAppend.symm
  have hRest : (List.range' t.mThreadNum (t.mEventLoopThreads.length - t.mThreadNum)).filter
      (fun i => !t.isInactive i) = [] := by
    refine List.filter_eq_nil_iff.mpr ?_
    intro i hi hActive
    have hLt := hInUse i (mem_looping.mpr (by simpa using hActive))
    have hLe := (List.mem_range'_1.mp hi).1
    omega
  rw [looping, hSplit, List.filter_append, hRest, List.append_nil, active]

/-- The loop finds the first active index of its range, and takes `mNextIndex` along. -/
theorem search_eq (i k : Nat) :
    t.search i (i % t.mThreadNum) k =
      match (List.range' i k).find? fun i => !t.isInactive (i % t.mThreadNum) with
      | some x => (↑(x % t.mThreadNum), x % t.mThreadNum)
      | none => (-1, (i + k) % t.mThreadNum) := by
  induction k generalizing i with
  | zero => rfl
  | succ k ih =>
    rw [search, List.range'_succ]
    cases hInactive : t.isInactive (i % t.mThreadNum) with
    | false =>
      rw [List.find?_cons_of_pos (by simp [hInactive])]
      rfl
    | true =>
      rw [List.find?_cons_of_neg (by simp [hInactive]), Nat.mod_add_mod, if_neg (by decide), ih,
        Nat.add_assoc, Nat.add_comm 1 k]

theorem isInactive_of_notMem {i : Nat} (hi : i < t.mThreadNum) (h : i ∉ t.active) :
    t.isInactive i = true := by
  by_contra hActive
  exact h (mem_active.mpr ⟨hi, by simpa using hActive⟩)

/-- The first active index of the range is found. -/
theorem search_found {q k x i : Nat} (hq : q < t.mThreadNum) (hx : q ≤ x) (hxk : x < q + k)
    (hMod : x % t.mThreadNum = i) (hActive : i ∈ t.active)
    (hBefore : ∀ y, q ≤ y → y < x → y % t.mThreadNum ∉ t.active) :
    t.search q q k = (↑i, i) := by
  have hFind : ((List.range' q k).find? fun i => !t.isInactive (i % t.mThreadNum)) = some x := by
    refine List.find?_range'_eq_some.mpr ⟨?_, List.mem_range'_1.mpr ⟨hx, hxk⟩, fun y hy hyx => ?_⟩
    · rw [hMod, (mem_active.mp hActive).2]
      rfl
    · rw [isInactive_of_notMem (Nat.mod_lt y (by omega)) (hBefore y hy hyx)]
      rfl
  have hSearch := search_eq (t := t) q k
  rw [Nat.mod_eq_of_lt hq, hFind] at hSearch
  dsimp only at hSearch
  rw [hSearch, hMod]

theorem search_none {q k : Nat} (hq : q < t.mThreadNum) (hNone : t.active = []) :
    t.search q q k = (-1, (q + k) % t.mThreadNum) := by
  have hFind : ((List.range' q k).find? fun i => !t.isInactive (i % t.mThreadNum)) = none := by
    refine List.find?_range'_eq_none.mpr fun y _ _ => ?_
    rw [isInactive_of_notMem (Nat.mod_lt y (by omega)) (by simp [hNone])]
    rfl
  have hSearch := search_eq (t := t) q k
  rw [Nat.mod_eq_of_lt hq, hFind] at hSearch
  exact hSearch

variable (hNext : t.mNextIndex < t.mThreadNum)
include hNext

/-- The range of a call: once around from the index behind `mNextIndex`, or twice from 0. -/
theorem roundRobinIndex_cases : ∃ q k,
    (t.roundRobinIndex = ((t.search q q k).1, { t with mNextIndex := (t.search q q k).2 })) ∧
    (q = t.mNextIndex + 1 ∧ q < t.mThreadNum ∧ k = t.mThreadNum ∨
      q = 0 ∧ t.mNextIndex + 1 = t.mThreadNum ∧ k = t.mThreadNum + t.mThreadNum) := by
  refine ⟨_, _, rfl, ?_⟩
  by_cases hWrap : t.mNextIndex + 1 = t.mThreadNum
  · rw [if_pos hWrap]
    exact Or.inr ⟨rfl, hWrap, by omega⟩
  · rw [if_neg hWrap]
    exact Or.inl ⟨rfl, by omega, by omega⟩

/-- **One call** picks the next active index. -/
theorem roundRobinIndex_some {i : Nat} (h : RoundRobin.next t.active t.mNextIndex = some i) :
    t.roundRobinIndex = (↑i, { t with mNextIndex := i }) := by
  obtain ⟨q, k, hCall, hRange⟩ := roundRobinIndex_cases hNext
  have hMem := RoundRobin.next_mem h
  obtain ⟨hi, -⟩ := mem_active.mp hMem
  suffices hSearch : t.search q q k = (↑i, i) by rw [hCall, hSearch]
  rcases RoundRobin.next_cases active_sorted h with ⟨hAbove, hLowest⟩ | ⟨hNone, hLowest⟩
  · -- it is above the last pick, so nothing is wrapped
    have hq : q = t.mNextIndex + 1 := by omega
    refine search_found (x := i) (by omega) (by omega) (by omega) (Nat.mod_eq_of_lt hi) hMem ?_
    intro y hy hyi hActive
    rw [Nat.mod_eq_of_lt (by omega)] at hActive
    have hLe := hLowest y hActive (by omega)
    omega
  · have hLast := hNone i hMem
    rcases hRange with ⟨rfl, hq, rfl⟩ | ⟨rfl, hWrap, rfl⟩
    · -- past the end of the vector and on from its begin
      have hMod : (i + t.mThreadNum) % t.mThreadNum = i := by
        rw [Nat.add_mod_right, Nat.mod_eq_of_lt hi]
      refine search_found (x := i + t.mThreadNum) hq (by omega) (by omega) hMod hMem ?_
      intro y hy hyi hActive
      rcases Nat.lt_or_ge y t.mThreadNum with hLt | hGe
      · rw [Nat.mod_eq_of_lt hLt] at hActive
        have hLe := hNone y hActive
        omega
      · rw [Nat.mod_eq_sub_mod hGe, Nat.mod_eq_of_lt (by omega)] at hActive
        have hLe := hLowest _ hActive
        omega
    · refine search_found (x := i) (by omega) (by omega) (by omega) (Nat.mod_eq_of_lt hi) hMem ?_
      intro y hy hyi hActive
      rw [Nat.mod_eq_of_lt (by omega)] at hActive
      have hLe := hLowest y hActive
      omega

/-- Without an active thread it goes all the way round. -/
theorem roundRobinIndex_none (hNone : t.active = []) :
    ∃ m, t.roundRobinIndex = (-1, { t with mNextIndex := m }) ∧ m < t.mThreadNum := by
  obtain ⟨q, k, hCall, hRange⟩ := roundRobinIndex_cases hNext
  have hSearch : t.search q q k = (-1, (q + k) % t.mThreadNum) :=
    search_none (by omega) hNone
  refine ⟨(q + k) % t.mThreadNum, ?_, Nat.mod_lt _ (by omega)⟩
  rw [hCall, hSearch]

-- ---------------------------------------------------------------------------
-- Calls in a row
-- ---------------------------------------------------------------------------

/-- The calls take turns. -/
theorem indices_eq (k : Nat) (hActive : t.active ≠ []) :
    t.indices k = (RoundRobin.turns t.active k t.mNextIndex).map fun i : Nat => (i : Int) := by
  induction k generalizing t with
  | zero => rfl
  | succ k ih =>
    cases h : RoundRobin.next t.active t.mNextIndex with
    | none => exact absurd (RoundRobin.next_eq_none h) hActive
    | some i =>
      have hMem := mem_active.mp (RoundRobin.next_mem h)
      rw [RoundRobin.turns, indices, h, roundRobinIndex_some hNext h]
      dsimp only
      -- the threads are the same for the next call
      rw [List.map_cons, ih (t := { t with mNextIndex := i }) hMem.1 hActive]
      rfl

theorem indices_none (k : Nat) (hNone : t.active = []) : ∀ index ∈ t.indices k, index = -1 := by
  induction k generalizing t with
  | zero => exact fun index hMem => absurd hMem List.not_mem_nil
  | succ k ih =>
    obtain ⟨m, hCall, hm⟩ := roundRobinIndex_none hNext hNone
    intro index hMem
    rw [indices, hCall] at hMem
    rcases List.mem_cons.mp hMem with rfl | hMem
    · rfl
    · exact ih (t := { t with mNextIndex := m }) hm hNone index hMem

/-- A result is an active index or none. -/
theorem indices_active (k : Nat) :
    ∀ index ∈ t.indices k, index = -1 ∨ ∃ i ∈ t.active, index = ↑i := by
  intro index hMem
  by_cases hActive : t.active = []
  · exact Or.inl (indices_none hNext k hActive index hMem)
  · rw [indices_eq hNext k hActive] at hMem
    obtain ⟨i, hi, rfl⟩ := List.mem_map.mp hMem
    exact Or.inr ⟨i, RoundRobin.mem_of_mem_turns hi, rfl⟩

/-- A round of the active threads is a rotation of them. -/
theorem indices_round (hActive : t.active ≠ []) :
    ∃ j, t.indices t.active.length = (t.active.rotate j).map fun i : Nat => (i : Int) := by
  refine ⟨t.active.countP (· ≤ t.mNextIndex), ?_⟩
  rw [indices_eq hNext _ hActive, RoundRobin.turns_eq_rotate active_sorted hActive]

end

-- ---------------------------------------------------------------------------
-- Reachable pools
-- ---------------------------------------------------------------------------

/-- The last pick is an index, unless no thread is in use: then `mNextIndex` only counts the
calls, and nothing reads it. -/
def Within (t : EventLoopThreadpool) : Prop :=
  t.mNextIndex < t.mThreadNum ∨ t.mThreadNum = 0

section

variable {t : EventLoopThreadpool}

/-- Without a thread in use the loop of a call has no rounds. -/
theorem roundRobinIndex_zero (hZero : t.mThreadNum = 0) :
    t.roundRobinIndex = (-1, { t with mNextIndex := t.mNextIndex + 1 }) := by
  have hNe : t.mNextIndex + 1 ≠ t.mThreadNum := by omega
  have hRounds : t.mNextIndex + 1 + t.mThreadNum - (t.mNextIndex + 1) = 0 := by omega
  rw [roundRobinIndex]
  dsimp only
  rw [if_neg hNe, hRounds]
  rfl

theorem indices_zero (k : Nat) (hZero : t.mThreadNum = 0) :
    ∀ index ∈ t.indices k, index = -1 := by
  induction k generalizing t with
  | zero => exact fun index hMem => absurd hMem List.not_mem_nil
  | succ k ih =>
    intro index hMem
    rw [indices, roundRobinIndex_zero hZero] at hMem
    rcases List.mem_cons.mp hMem with rfl | hMem
    · rfl
    · exact ih (t := { t with mNextIndex := t.mNextIndex + 1 }) hZero index hMem

theorem active_zero (hZero : t.mThreadNum = 0) : t.active = [] := by
  rw [active, hZero]
  rfl

variable (h : t.Within)
include h

/-- In the whole pool too a result is an active index or none. -/
theorem Within.indices_active (k : Nat) :
    ∀ index ∈ t.indices k, index = -1 ∨ ∃ i ∈ t.active, index = ↑i := by
  rcases h with hNext | hZero
  · exact EventLoopThreadpool.indices_active hNext k
  · exact fun index hMem => Or.inl (indices_zero k hZero index hMem)

/-- Looping threads that are all in use are picked in turns. -/
theorem fair_of_inUse (hInUse : ∀ i ∈ t.looping, i < t.mThreadNum) : t.Fair := by
  have hEq := looping_eq hInUse
  refine ⟨fun hNone k index hMem => ?_, fun hSome k index hMem => ?_, fun hSome => ?_⟩
  · rcases h.indices_active k index hMem with hResult | ⟨i, hi, -⟩
    · exact hResult
    · rw [← hEq, hNone] at hi
      cases hi
  all_goals
    rw [hEq] at hSome
    have hNext : t.mNextIndex < t.mThreadNum := by
      rcases h with hNext | hZero
      · exact hNext
      · exact absurd (active_zero hZero) hSome
    rw [hEq]
  · rw [indices_eq hNext k hSome] at hMem
    obtain ⟨i, hi, rfl⟩ := List.mem_map.mp hMem
    exact ⟨i, RoundRobin.mem_of_mem_turns hi, rfl⟩
  · exact indices_round hNext hSome

/-- A looping thread that is not in use is left out of every round. -/
theorem inUse_of_fair (hFair : t.Fair) : ∀ i ∈ t.looping, i < t.mThreadNum := by
  intro i hLooping
  obtain ⟨j, hRound⟩ := hFair.round (List.ne_nil_of_mem hLooping)
  have hMem : (i : Int) ∈ t.indices t.looping.length := by
    rw [hRound]
    exact List.mem_map.mpr ⟨i, List.mem_rotate.mpr hLooping, rfl⟩
  rcases h.indices_active _ _ hMem with hNone | ⟨i', hActive, hEq⟩
  · omega
  · rw [Int.natCast_inj.mp hEq]
    exact (mem_active.mp hActive).1

theorem fair_iff : t.Fair ↔ ∀ i ∈ t.looping, i < t.mThreadNum :=
  ⟨inUse_of_fair h, fair_of_inUse h⟩

end

-- ---------------------------------------------------------------------------
-- Runs
-- ---------------------------------------------------------------------------

/-- The last pick is an index in every run. -/
theorem step_next_lt (t : EventLoopThreadpool) (e : ThreadpoolEvent)
    (h : t.mNextIndex < t.mThreadNum) : (t.step e).mNextIndex < (t.step e).mThreadNum := by
  cases e with
  | setThread i thd => exact h
  | roundRobinIndex =>
    rw [step]
    cases hNext : RoundRobin.next t.active t.mNextIndex with
    | none =>
      obtain ⟨m, hCall, hm⟩ := roundRobinIndex_none h (RoundRobin.next_eq_none hNext)
      rw [hCall]
      exact hm
    | some i =>
      rw [roundRobinIndex_some h hNext]
      exact (mem_active.mp (RoundRobin.next_mem hNext)).1

/-- No step makes a thread or takes one into use. -/
theorem step_sizes (t : EventLoopThreadpool) (e : ThreadpoolEvent) :
    (t.step e).mThreadNum = t.mThreadNum ∧
      (t.step e).mEventLoopThreads.length = t.mEventLoopThreads.length := by
  cases e with
  | setThread i thd => exact ⟨rfl, List.length_set⟩
  | roundRobinIndex => exact ⟨rfl, rfl⟩

theorem step_within (t : EventLoopThreadpool) (e : ThreadpoolEvent) (h : t.Within) :
    (t.step e).Within := by
  rcases h with hNext | hZero
  · exact Or.inl (step_next_lt t e hNext)
  · exact Or.inr ((step_sizes t e).1.trans hZero)

theorem new_within (num hardwareNum : Nat) : (new num hardwareNum).Within := by
  rcases Nat.eq_zero_or_pos (new num hardwareNum).mThreadNum with hZero | hPos
  · exact Or.inr hZero
  · exact Or.inl hPos

theorem final_within (num hardwareNum : Nat) (es : List ThreadpoolEvent) :
    (final step (new num hardwareNum) es).Within :=
  final_of_step step_within (new_within num hardwareNum)

theorem final_sizes (t : EventLoopThreadpool) (es : List ThreadpoolEvent) :
    (final step t es).mThreadNum = t.mThreadNum ∧
      (final step t es).mEventLoopThreads.length = t.mEventLoopThreads.length :=
  final_of_step
    (P := fun t' => t'.mThreadNum = t.mThreadNum ∧
      t'.mEventLoopThreads.length = t.mEventLoopThreads.length)
    (fun t' e h => ⟨(step_sizes t' e).1.trans h.1, (step_sizes t' e).2.trans h.2⟩) ⟨rfl, rfl⟩

/-- **Round robin.** Whatever has happened to the threads of a pool and however often it has
been asked, its calls are fair from then on exactly when every looping thread is one of the
first `mThreadNum`. They are fair in every run exactly when the pool has no more threads than
the hardware. -/
theorem round_robin_fair_iff (num hardwareNum : Nat) :
    (∀ es : List ThreadpoolEvent, (final step (new num hardwareNum) es).Fair ↔
      ∀ i ∈ (final step (new num hardwareNum) es).looping, i < hardwareNum) ∧
    ((∀ es : List ThreadpoolEvent, (final step (new num hardwareNum) es).Fair) ↔
      num ≤ hardwareNum) := by
  have hInUse : ∀ es, (final step (new num hardwareNum) es).Fair ↔
      ∀ i ∈ (final step (new num hardwareNum) es).looping, i < hardwareNum := by
    intro es
    rw [fair_iff (final_within num hardwareNum es)]
    refine forall₂_congr ?_
    intro i hi
    obtain ⟨hNum, hLength⟩ := final_sizes (new num hardwareNum) es
    have hMade : i < num := by
      have hLt := List.mem_range.mp (List.mem_filter.mp hi).1
      rwa [hLength, new, List.length_replicate] at hLt
    rw [hNum, new]
    dsimp only
    split <;> omega
  refine ⟨hInUse, ?_, fun hLe es => (hInUse es).mpr fun i hi => ?_⟩
  · intro hFair
    -- the first thread that is not in use begins to loop
    by_contra hMore
    have hLt : hardwareNum < num := Nat.lt_of_not_le hMore
    refine absurd ((hInUse [.setThread hardwareNum (some ⟨true⟩)]).mp (hFair _) hardwareNum ?_)
      (Nat.lt_irrefl _)
    refine mem_looping.mpr ?_
    simp [isInactive, step, new, hLt]
  · have hLt := List.mem_range.mp (List.mem_filter.mp hi).1
    rw [(final_sizes (new num hardwareNum) es).2, new, List.length_replicate] at hLt
    omega

/-- Four threads on two cores, all of them looping: the calls go round the first two. -/
theorem not_round_robin_fair :
    let t := final step (new 4 2) [.setThread 0 (some ⟨true⟩), .setThread 1 (some ⟨true⟩),
      .setThread 2 (some ⟨true⟩), .setThread 3 (some ⟨true⟩)]
    t.looping = [0, 1, 2, 3] ∧ t.indices t.looping.length = [1, 0, 1, 0] ∧ ¬ t.Fair := by
  refine ⟨by decide, by decide, fun hFair => ?_⟩
  exact absurd (inUse_of_fair (final_within 4 2 _) hFair 3 (by decide)) (by decide)

end EventLoopThreadpool

end WarringServer.Net
