import WarringServer.Utility.Timer

/-!
# Views of a timer

A view picks some of the tasks of a timer: those of one id (`ofId`), or the one with a
certain task function (`ofTask`). `only v t` is the timer with everything removed that
the view does not see. Tasks do not influence each other beyond their id, so for the
states a view is closed on (`Closed`) it is a simulation: what a tick does to the nodes
seen, and what it runs of them, it does and runs on `only v t` alone (`tick_only`).

Every operation comes with a pair of lemmas: on a task that is seen it commutes with
`only`, on another task it disappears.
-/

namespace WarringServer.Utility

/-- A view sees nodes by the id and the function of their task, and registered tasks by
their id. -/
structure View where
  task : String → Option Callback → Bool
  key : String → Bool

namespace View

/-- The tasks of one id. -/
def ofId (id : String) : View := ⟨fun k _ => k = id, fun k => k = id⟩

/-- The nodes that run one function. -/
def ofTask (f : Callback) : View := ⟨fun _ task => task = some f, fun _ => false⟩

/-- Of a task, its node and its run the view keeps all or nothing. -/
def sees (v : View) (task : TimerTask) : Bool := v.task task.mID task.mTask

def seesNode (v : View) (n : TimerNode) : Bool := v.sees n.mTimerTask

/-- The registered tasks that are seen. -/
def entries (v : View) (tasks : String → Option TimerTask) : String → Option TimerTask :=
  fun k => if v.key k then tasks k else none

def seesRun (v : View) (r : Firing) : Bool := v.task r.id (some r.task)

/-- The registered task of a node that is seen is seen as well, unless the node does not
come back to it. -/
structure Fits (v : View) (task : TimerTask) : Prop where
  seen : v.sees task → v.key task.mID ∨ task.mCycleNumber = 1
  keyed : v.key task.mID → v.sees task

end View

/-- An event does not register a task that is seen. -/
def TimerEvent.Unseen (v : View) : TimerEvent → Prop
  | .tick => True
  | .register task => v.sees task = false ∧ v.key task.mID = false

namespace TimeWheelTimer

/-- The timer as a view sees it. -/
def only (v : View) (t : TimeWheelTimer) : TimeWheelTimer :=
  { t with
    mTimeWheel := fun p => (t.mTimeWheel p).filter v.seesNode
    mRegisteredTasks := v.entries t.mRegisteredTasks
    registered_id := by
      intro k task h
      unfold View.entries at h
      split at h
      · exact t.registered_id k task h
      · cases h }

/-- The timer holds no task that the view sees in part only. -/
structure Closed (v : View) (t : TimeWheelTimer) : Prop where
  registered : ∀ k task, t.mRegisteredTasks k = some task → v.sees task = v.key k
  nodes : ∀ p, ∀ n ∈ t.mTimeWheel p, v.Fits n.mTimerTask

section

variable {v : View} {t : TimeWheelTimer}

@[simp] theorem only_mSeconds : (t.only v).mSeconds = t.mSeconds := rfl
@[simp] theorem only_mMinutes : (t.only v).mMinutes = t.mMinutes := rfl
@[simp] theorem only_mHours : (t.only v).mHours = t.mHours := rfl

/-- An entry that the view keeps. -/
theorem only_registered {k : String} (h : v.key k = true) :
    (t.only v).mRegisteredTasks k = t.mRegisteredTasks k := if_pos h

/-- Every timer is closed for the view of an id. -/
theorem closed_ofId (id : String) (t : TimeWheelTimer) : Closed (View.ofId id) t where
  registered k task h := by
    show decide (task.mID = id) = decide (k = id)
    rw [t.registered_id k task h]
  nodes p n _ := ⟨fun h => .inl h, fun h => h⟩

/-- There is nothing in a new timer that could be cut apart. -/
theorem closed_create : Closed v create where
  registered _ _ h := nomatch h
  nodes _ _ h := nomatch h

-- ---------------------------------------------------------------------------
-- Pushing and clearing
-- ---------------------------------------------------------------------------

/-- A slot that is set, as the view sees it. -/
theorem setSlot_only (p : Nat) (nodes : List TimerNode) :
    ({ t with mTimeWheel := Function.update t.mTimeWheel p nodes } : TimeWheelTimer).only v =
      { t.only v with
        mTimeWheel := Function.update (t.only v).mTimeWheel p (nodes.filter v.seesNode) } := by
  ext1
  · rfl
  · rfl
  · rfl
  · -- the filter goes past the update
    exact Function.comp_update (List.filter v.seesNode) t.mTimeWheel p nodes
  · rfl

/-- A node that is seen is pushed in the view as well. -/
theorem push_only {node : TimerNode} (h : v.seesNode node = true) (p : Nat) :
    (t.push p node).only v = (t.only v).push p node := by
  rw [push, setSlot_only, List.filter_append, List.filter_cons_of_pos h]
  rfl

/-- A node that is not seen leaves no trace. -/
theorem push_only_other {node : TimerNode} (h : v.seesNode node = false) (p : Nat) :
    (t.push p node).only v = t.only v := by
  rw [push, setSlot_only, List.filter_append, List.filter_cons_of_neg (by rw [h]; decide),
    List.filter_nil, List.append_nil]
  -- what is pushed is filtered out, and the slot set to what it held
  ext1
  · rfl
  · rfl
  · rfl
  · exact Function.update_eq_self p (t.only v).mTimeWheel
  · rfl

theorem clear_only (p : Nat) : (t.clear p).only v = (t.only v).clear p :=
  setSlot_only p []

/-- A slot may be given any nodes that fit. -/
theorem Closed.setSlot (h : Closed v t) (p : Nat) {nodes : List TimerNode}
    (hNodes : ∀ n ∈ nodes, v.Fits n.mTimerTask) :
    Closed v { t with mTimeWheel := Function.update t.mTimeWheel p nodes } where
  registered := h.registered
  nodes q n hn := by
    have hMem : n ∈ Function.update t.mTimeWheel p nodes q := hn
    by_cases hq : q = p
    · rw [hq, Function.update_self] at hMem
      exact hNodes n hMem
    · rw [Function.update_of_ne hq] at hMem
      exact h.nodes q n hMem

theorem Closed.push (h : Closed v t) {node : TimerNode} (hNode : v.Fits node.mTimerTask)
    (p : Nat) : Closed v (t.push p node) := by
  refine h.setSlot p ?_
  intro n hn
  rcases List.mem_append.mp hn with hOld | hNew
  · exact h.nodes p n hOld
  · rw [List.mem_singleton.mp hNew]
    exact hNode

theorem Closed.clear (h : Closed v t) (p : Nat) : Closed v (t.clear p) :=
  h.setSlot p nofun

theorem Closed.setClock (h : Closed v t) (s m hr : Nat) : Closed v (t.setClock s m hr) :=
  ⟨h.registered, h.nodes⟩

-- ---------------------------------------------------------------------------
-- Tasks
-- ---------------------------------------------------------------------------

/-- A task that is seen gets the same slot in the view: the slot is a matter of task and clock. -/
theorem addTimerNodeFor_only {task : TimerTask} (h : v.sees task = true) :
    (t.addTimerNodeFor task).only v = (t.only v).addTimerNodeFor task := by
  have hNode : v.seesNode (TimerNode.make
      (task.offset t.mHours t.mMinutes t.mSeconds)) = true := h
  unfold addTimerNodeFor
  dsimp only [only_mSeconds, only_mMinutes, only_mHours]
  split
  · rfl
  · split
    · exact push_only hNode _
    · split
      · exact push_only hNode _
      · exact push_only hNode _

/-- The node of another task is not seen. -/
theorem addTimerNodeFor_only_other {task : TimerTask} (h : v.sees task = false) :
    (t.addTimerNodeFor task).only v = t.only v := by
  have hNode : v.seesNode (TimerNode.make
      (task.offset t.mHours t.mMinutes t.mSeconds)) = false := h
  unfold addTimerNodeFor
  dsimp only
  split
  · rfl
  · split
    · exact push_only_other hNode _
    · split
      · exact push_only_other hNode _
      · exact push_only_other hNode _

/-- The node has the task in it, so it fits as the task does. -/
theorem Closed.addTimerNodeFor (h : Closed v t) {task : TimerTask} (hTask : v.Fits task) :
    Closed v (t.addTimerNodeFor task) := by
  have hNode : v.Fits (TimerNode.make
      (task.offset t.mHours t.mMinutes t.mSeconds)).mTimerTask := ⟨hTask.seen, hTask.keyed⟩
  unfold TimeWheelTimer.addTimerNodeFor
  dsimp only
  split
  · exact h
  · split
    · exact h.push hNode _
    · split
      · exact h.push hNode _
      · exact h.push hNode _

/-- An entry that the view keeps changes in the view. -/
theorem entries_update {key : String} (h : v.key key = true)
    (tasks : String → Option TimerTask) (entry : Option TimerTask) :
    v.entries (Function.update tasks key entry) =
      Function.update (v.entries tasks) key entry := by
  funext k
  by_cases hk : k = key
  · subst hk
    rw [View.entries, if_pos h, Function.update_self, Function.update_self]
  · rw [View.entries, Function.update_of_ne hk, Function.update_of_ne hk]
    rfl

/-- An entry that it does not keep may change unseen. -/
theorem entries_update_other {key : String} (h : v.key key = false)
    (tasks : String → Option TimerTask) (entry : Option TimerTask) :
    v.entries (Function.update tasks key entry) = v.entries tasks := by
  funext k
  unfold View.entries
  by_cases hk : k = key
  · subst hk
    rw [h]
    rfl
  · rw [Function.update_of_ne hk]

theorem eraseTimerTask_only_other {key : String} (h : v.key key = false) :
    (t.eraseTimerTask key).only v = t.only v := by
  ext1
  · rfl
  · rfl
  · rfl
  · rfl
  · exact entries_update_other h t.mRegisteredTasks none

/-- Erasing is seen for every key: where the view keeps none, there is nothing to erase. -/
theorem eraseTimerTask_only (key : String) :
    (t.eraseTimerTask key).only v = (t.only v).eraseTimerTask key := by
  ext1
  · rfl
  · rfl
  · rfl
  · rfl
  · show v.entries (Function.update t.mRegisteredTasks key none) =
      Function.update (v.entries t.mRegisteredTasks) key none
    cases h : v.key key with
    | true => exact entries_update h _ _
    | false =>
      -- the entry was not there for the view
      have hNone : v.entries t.mRegisteredTasks key = none := by
        rw [View.entries, h]
        rfl
      rw [entries_update_other h, ← hNone, Function.update_eq_self]

theorem Closed.eraseTimerTask (h : Closed v t) (key : String) :
    Closed v (t.eraseTimerTask key) where
  registered k task hk := by
    by_cases hKey : k = key
    · subst hKey
      have hNone : (t.eraseTimerTask k).mRegisteredTasks k = none := Function.update_self ..
      rw [hNone] at hk
      cases hk
    · refine h.registered k task ?_
      rw [← hk]
      exact (Function.update_of_ne hKey ..).symm
  nodes := h.nodes

theorem setTask_only {task : TimerTask} (h : v.key task.mID = true) :
    (t.setTask task).only v = (t.only v).setTask task := by
  ext1
  · rfl
  · rfl
  · rfl
  · rfl
  · exact entries_update h t.mRegisteredTasks (some task)

/-- Another task counts down unseen. -/
theorem setTask_only_other {task : TimerTask} (h : v.key task.mID = false) :
    (t.setTask task).only v = t.only v := by
  ext1
  · rfl
  · rfl
  · rfl
  · rfl
  · exact entries_update_other h t.mRegisteredTasks (some task)

/-- The task must be seen as its key is. -/
theorem Closed.setTask (h : Closed v t) {task : TimerTask} (hTask : v.sees task = v.key task.mID) :
    Closed v (t.setTask task) where
  registered k task' hk := by
    by_cases hKey : k = task.mID
    · have hSome : (t.setTask task).mRegisteredTasks k = some task := by
        rw [hKey]
        exact Function.update_self ..
      rw [hSome, Option.some.injEq] at hk
      rw [← hk, hKey, hTask]
    · -- another entry is as it was
      refine h.registered k task' ?_
      rw [← hk]
      exact (Function.update_of_ne hKey ..).symm
  nodes := h.nodes

/-- Counting down changes neither the id nor the callback. -/
theorem countDown_sees (task : TimerTask) : v.sees task.countDown = v.sees task := by
  simp only [View.sees, TimerTask.countDown_mID, TimerTask.countDown_mTask]

/-- A task counted down is seen as its entry is. -/
theorem Closed.countDown (h : Closed v t) {key : String} {task : TimerTask}
    (hTask : t.mRegisteredTasks key = some task) :
    task.countDown.mID = key ∧ v.sees task.countDown = v.key key :=
  ⟨(TimerTask.countDown_mID task).trans (t.registered_id key task hTask),
    (countDown_sees task).trans (h.registered key task hTask)⟩

/-- A seen key is looked up in the view with the same result. -/
theorem repeatTimerTask_only (hClosed : Closed v t) {key : String} (h : v.key key = true) :
    (t.repeatTimerTask key).only v = (t.only v).repeatTimerTask key := by
  unfold repeatTimerTask
  rw [only_registered h]
  split
  · rename_i task hTask
    obtain ⟨hId, hSees⟩ := hClosed.countDown hTask
    rw [addTimerNodeFor_only (hSees.trans h), setTask_only (hId ▸ h)]
  · rfl

/-- What an unseen key leads to is unseen as well, since the timer is closed. -/
theorem repeatTimerTask_only_other (hClosed : Closed v t) {key : String} (h : v.key key = false) :
    (t.repeatTimerTask key).only v = t.only v := by
  unfold repeatTimerTask
  split
  · rename_i task hTask
    obtain ⟨hId, hSees⟩ := hClosed.countDown hTask
    rw [addTimerNodeFor_only_other (hSees.trans h), setTask_only_other (hId ▸ h)]
  · rfl

theorem Closed.repeatTimerTask (h : Closed v t) (key : String) :
    Closed v (t.repeatTimerTask key) := by
  unfold TimeWheelTimer.repeatTimerTask
  split
  · rename_i task hTask
    obtain ⟨hId, hSees⟩ := h.countDown hTask
    -- the task that comes back was registered, so the view sees both or none
    have hKey : v.sees task.countDown = v.key task.countDown.mID := by rw [hId, hSees]
    exact (h.setTask hKey).addTimerNodeFor ⟨fun hs => .inl (hKey ▸ hs), fun hk => hKey ▸ hk⟩
  · exact h

/-- **Another task.** Registering it changes nothing that is seen. -/
theorem registerTask_only_other {task : TimerTask} (h : v.sees task = false)
    (hKey : v.key task.mID = false) : (t.registerTask task).only v = t.only v := by
  unfold registerTask
  dsimp only
  split
  · exact eraseTimerTask_only_other hKey
  · split
    · rw [addTimerNodeFor_only_other h]
      unfold insertTask
      split
      · rfl
      · exact setTask_only_other hKey
    · exact addTimerNodeFor_only_other h

/-- A new task is entered and put into the wheels, or takes an entry away. -/
theorem Closed.registerTask (h : Closed v t) {task : TimerTask} (hTask : v.Fits task) :
    Closed v (t.registerTask task) := by
  unfold TimeWheelTimer.registerTask
  dsimp only
  split
  · exact h.eraseTimerTask _
  · split
    · refine Closed.addTimerNodeFor ?_ hTask
      unfold insertTask
      split
      · exact h
      · -- only a task that repeats is kept
        refine h.setTask ?_
        rw [Bool.eq_iff_iff]
        constructor
        · intro hSees
          rcases hTask.seen hSees with hKey | hOnce
          · exact hKey
          · omega
        · exact hTask.keyed
    · exact h.addTimerNodeFor hTask

-- ---------------------------------------------------------------------------
-- Checks
-- ---------------------------------------------------------------------------

/-- **A node that has come to its second**, seen. -/
theorem expireNode_only (hClosed : Closed v t) {node : TimerNode} (hFits : v.Fits node.mTimerTask)
    (h : v.seesNode node = true) :
    (t.expireNode node).only v = (t.only v).expireNode node := by
  unfold expireNode
  dsimp only
  split
  · exact eraseTimerTask_only _
  · rename_i hCycle
    split
    · -- it comes back, so its entry is seen
      rcases hFits.seen h with hKey | hOnce
      · exact repeatTimerTask_only hClosed hKey
      · exact absurd hOnce hCycle
    · rfl

/-- **A node that has come to its second**, unseen: its task may ring and be put back elsewhere. -/
theorem expireNode_only_other (hClosed : Closed v t) {node : TimerNode}
    (hFits : v.Fits node.mTimerTask) (h : v.seesNode node = false) :
    (t.expireNode node).only v = t.only v := by
  have hKey : v.key node.getId = false := by
    -- a node that is not seen has no entry that is
    rw [Bool.eq_false_iff]
    intro hKey
    have hSees : v.seesNode node = true := hFits.keyed hKey
    rw [hSees] at h
    cases h
  unfold expireNode
  dsimp only
  split
  · exact eraseTimerTask_only_other hKey
  · split
    · exact repeatTimerTask_only_other hClosed hKey
    · rfl

theorem Closed.expireNode (h : Closed v t) (node : TimerNode) : Closed v (t.expireNode node) := by
  unfold TimeWheelTimer.expireNode
  dsimp only
  split
  · exact h.eraseTimerTask _
  · split
    · exact h.repeatTimerTask _
    · exact h

/-- A node that goes down to the seconds is made anew from its task. -/
theorem cascadeMinute_only {node : TimerNode} (h : v.seesNode node = true) :
    (t.cascadeMinute node).only v = (t.only v).cascadeMinute node := by
  have hNode : v.seesNode (TimerNode.make node.mTimerTask) = true := h
  unfold cascadeMinute
  split
  · rfl
  · exact push_only hNode _

/-- Another node goes down unseen. -/
theorem cascadeMinute_only_other {node : TimerNode} (h : v.seesNode node = false) :
    (t.cascadeMinute node).only v = t.only v := by
  have hNode : v.seesNode (TimerNode.make node.mTimerTask) = false := h
  unfold cascadeMinute
  split
  · rfl
  · exact push_only_other hNode _

theorem Closed.cascadeMinute (h : Closed v t) {node : TimerNode}
    (hFits : v.Fits node.mTimerTask) : Closed v (t.cascadeMinute node) := by
  have hNode : v.Fits (TimerNode.make node.mTimerTask).mTimerTask := hFits
  unfold TimeWheelTimer.cascadeMinute
  split
  · exact h
  · exact h.push hNode _

/-- A node of the hours goes down, or stays for another round. -/
theorem cascadeHour_only {node : TimerNode} (h : v.seesNode node = true) (p : Nat) :
    (t.cascadeHour p node).only v = (t.only v).cascadeHour p node := by
  have hNode : v.seesNode (TimerNode.make node.mTimerTask) = true := h
  have hSub : v.seesNode node.subRound = true := h
  unfold cascadeHour
  split
  · split
    · exact push_only hNode _
    · split
      · exact push_only hNode _
      · rfl
  · exact push_only hSub _

/-- Another node of the hours goes its way unseen. -/
theorem cascadeHour_only_other {node : TimerNode} (h : v.seesNode node = false)
    (p : Nat) : (t.cascadeHour p node).only v = t.only v := by
  have hNode : v.seesNode (TimerNode.make node.mTimerTask) = false := h
  have hSub : v.seesNode node.subRound = false := h
  unfold cascadeHour
  split
  · split
    · exact push_only_other hNode _
    · split
      · exact push_only_other hNode _
      · rfl
  · exact push_only_other hSub _

theorem Closed.cascadeHour (h : Closed v t) {node : TimerNode}
    (hFits : v.Fits node.mTimerTask) (p : Nat) : Closed v (t.cascadeHour p node) := by
  have hNode : v.Fits (TimerNode.make node.mTimerTask).mTimerTask := hFits
  have hSub : v.Fits node.subRound.mTimerTask := hFits
  unfold TimeWheelTimer.cascadeHour
  split
  · split
    · exact h.push hNode _
    · split
      · exact h.push hNode _
      · exact h
  · exact h.push hSub _

/-- A walk over nodes that keeps closed timers closed, as a view sees it: the walk over
the nodes seen. -/
theorem foldl_only {f : TimeWheelTimer → TimerNode → TimeWheelTimer}
    (hClosed : ∀ {t node}, Closed v t → v.Fits node.mTimerTask → Closed v (f t node))
    (hSeen : ∀ {t node}, Closed v t → v.Fits node.mTimerTask → v.seesNode node = true →
      (f t node).only v = f (t.only v) node)
    (hOther : ∀ {t node}, Closed v t → v.Fits node.mTimerTask → v.seesNode node = false →
      (f t node).only v = t.only v)
    {nodes : List TimerNode} (hNodes : ∀ n ∈ nodes, v.Fits n.mTimerTask)
    {t : TimeWheelTimer} (ht : Closed v t) :
    (nodes.foldl f t).only v =
        (nodes.filter v.seesNode).foldl f (t.only v) ∧
      Closed v (nodes.foldl f t) := by
  induction nodes generalizing t with
  | nil => exact ⟨rfl, ht⟩
  | cons node nodes ih =>
    have hNode : v.Fits node.mTimerTask := hNodes node List.mem_cons_self
    obtain ⟨hState, hStill⟩ := ih (fun n hn => hNodes n (List.mem_cons_of_mem _ hn))
      (hClosed ht hNode)
    rw [List.foldl_cons, hState]
    refine ⟨?_, hStill⟩
    cases h : v.seesNode node with
    | true =>
      -- the two sides step together, or the right side stays where it is
      rw [List.filter_cons_of_pos h, List.foldl_cons, hSeen ht hNode h]
    | false =>
      rw [List.filter_cons_of_neg (by rw [h]; decide), hOther ht hNode h]

/-- What is run of the nodes seen, where each node runs at most itself. -/
theorem flatMap_only {f : TimerNode → List Firing}
    (hRun : ∀ node, ∀ r ∈ f node, v.seesRun r = v.seesNode node) (nodes : List TimerNode) :
    (nodes.flatMap f).filter v.seesRun =
      (nodes.filter v.seesNode).flatMap f := by
  induction nodes with
  | nil => rfl
  | cons node nodes ih =>
    rw [List.flatMap_cons, List.filter_append, ih]
    -- all the node runs is seen, or nothing of it
    cases h : v.seesNode node with
    | true =>
      have hAll : (f node).filter v.seesRun = f node := by
        rw [List.filter_eq_self]
        intro r hr
        rw [hRun node r hr, h]
      rw [hAll, List.filter_cons_of_pos h, List.flatMap_cons]
    | false =>
      have hNone : (f node).filter v.seesRun = [] := by
        rw [List.filter_eq_nil_iff]
        intro r hr
        rw [hRun node r hr, h]
        decide
      rw [hNone, List.filter_cons_of_neg (by rw [h]; decide), List.nil_append]

/-- A run is seen if the node that makes it is. -/
theorem run_seen (node : TimerNode) : ∀ r ∈ node.run, v.seesRun r = v.seesNode node := by
  intro r hr
  unfold TimerNode.run at hr
  split at hr
  · rename_i f hTask
    rw [List.mem_singleton.mp hr, View.seesNode, View.sees, hTask]
    rfl
  · cases hr

/-- The second outcome is the first as the view sees it. -/
structure Views (v : View) (r r' : List Firing × TimeWheelTimer) : Prop where
  state : r.2.only v = r'.2
  runs : r.1.filter v.seesRun = r'.1
  closed : Closed v r.2

/-- The slot of a second: the nodes that ring, and those that come back. -/
theorem checkSecondWheel_only (h : Closed v t) (p : Nat) :
    Views v (t.checkSecondWheel p) ((t.only v).checkSecondWheel p) := by
  obtain ⟨hState, hClosed⟩ := foldl_only (f := expireNode) (fun ht _ => ht.expireNode _)
    (fun ht hn => expireNode_only ht hn) (fun ht hn => expireNode_only_other ht hn)
    (h.nodes p) (h.clear p)
  rw [clear_only] at hState
  exact ⟨hState, flatMap_only run_seen _, hClosed⟩

/-- The slot of a minute rings the nodes that have no seconds left. -/
theorem checkMinuteWheel_only (h : Closed v t) (p : Nat) :
    Views v (t.checkMinuteWheel p) ((t.only v).checkMinuteWheel p) := by
  obtain ⟨hState, hClosed⟩ := foldl_only (f := cascadeMinute) (fun ht hn => ht.cascadeMinute hn)
    (fun _ _ hn => cascadeMinute_only hn) (fun _ _ hn => cascadeMinute_only_other hn)
    (h.nodes p) (h.clear p)
  rw [clear_only] at hState
  refine ⟨hState, flatMap_only ?_ _, hClosed⟩
  intro node r hr
  split at hr
  · exact run_seen node r hr
  · cases hr

/-- The slot of an hour rings those without minutes and seconds. -/
theorem checkHourWheel_only (h : Closed v t) (p : Nat) :
    Views v (t.checkHourWheel p) ((t.only v).checkHourWheel p) := by
  obtain ⟨hState, hClosed⟩ := foldl_only (f := cascadeHour p) (fun ht hn => ht.cascadeHour hn p)
    (fun _ _ hn => cascadeHour_only hn p) (fun _ _ hn => cascadeHour_only_other hn p)
    (h.nodes p) (h.clear p)
  rw [clear_only] at hState
  refine ⟨hState, flatMap_only ?_ _, hClosed⟩
  intro node r hr
  split at hr
  · exact run_seen node r hr
  · cases hr

-- ---------------------------------------------------------------------------
-- Ticks
-- ---------------------------------------------------------------------------

theorem setClock_only (s m h : Nat) :
    (t.setClock s m h).only v = (t.only v).setClock s m h := rfl

/-- The block for a full hour. -/
theorem tickHour_only (h : Closed v t) : Views v t.tickHour (t.only v).tickHour := by
  unfold tickHour
  rw [only_mMinutes]
  split
  · obtain ⟨hState, hRuns, hClosed⟩ := checkHourWheel_only h
      (t.mHours % mHourSlotsNum + mMinuteSlotsNum + mSecondSlotsNum)
    refine ⟨?_, hRuns, hClosed.setClock _ _ _⟩
    dsimp only [only_mHours]
    rw [setClock_only, hState, ← hState]
    rfl
  · exact ⟨rfl, rfl, h⟩

/-- The block for a full minute. -/
theorem tickMinute_only (h : Closed v t) : Views v t.tickMinute (t.only v).tickMinute := by
  unfold tickMinute
  rw [only_mSeconds]
  split
  · obtain ⟨hState, hRuns, hClosed⟩ := checkMinuteWheel_only h (t.mMinutes + mSecondSlotsNum)
    -- the hour block starts from what the minute wheel leaves
    obtain ⟨hState', hRuns', hClosed'⟩ := tickHour_only (hClosed.setClock 0
      ((t.checkMinuteWheel (t.mMinutes + mSecondSlotsNum)).2.mMinutes + 1)
      (t.checkMinuteWheel (t.mMinutes + mSecondSlotsNum)).2.mHours)
    rw [setClock_only] at hState' hRuns'
    refine ⟨?_, ?_, hClosed'⟩
    · dsimp only [only_mMinutes]
      rw [hState', hState, ← hState]
      rfl
    · dsimp only [only_mMinutes]
      rw [List.filter_append, hRuns, hRuns', hState, ← hState]
      rfl
  · exact ⟨rfl, rfl, h⟩

/-- **A tick as a view sees it.** -/
theorem tick_only (h : Closed v t) : Views v t.tick (t.only v).tick := by
  obtain ⟨hState, hRuns, hClosed⟩ := checkSecondWheel_only h t.mSeconds
  -- the minute block starts from what the second wheel leaves
  obtain ⟨hState', hRuns', hClosed'⟩ := tickMinute_only (hClosed.setClock
    ((t.checkSecondWheel t.mSeconds).2.mSeconds + 1)
    (t.checkSecondWheel t.mSeconds).2.mMinutes (t.checkSecondWheel t.mSeconds).2.mHours)
  rw [setClock_only] at hState' hRuns'
  unfold tick
  refine ⟨?_, ?_, hClosed'⟩
  · dsimp only [only_mSeconds]
    rw [hState', hState, ← hState]
    rfl
  · dsimp only [only_mSeconds]
    rw [List.filter_append, hRuns, hRuns', hState, ← hState]
    rfl

/-- What is unseen in every respect fits. -/
theorem fits_of_unseen {task : TimerTask} (h : v.sees task = false)
    (hKey : v.key task.mID = false) : v.Fits task where
  seen hs := by
    rw [h] at hs
    cases hs
  keyed hk := by
    rw [hKey] at hk
    cases hk

/-- Events that the view does not see keep a timer closed. -/
theorem step_closed (h : Closed v t) {e : TimerEvent} (he : e.Unseen v) :
    Closed v (t.step e) := by
  cases e with
  | tick => exact (tick_only h).closed
  | register task => exact h.registerTask (fits_of_unseen he.1 he.2)

end

end TimeWheelTimer

end WarringServer.Utility
