/-
Sequences of operations on the task store, and its counters.

The counters are kept by hand in every operation that changes a slot. Whatever
the operations are, each counter is the number of tasks with its status in the
current table, the total is the number of slots that hold a task, and no
counter was ever lowered at zero (`counters_true`).
-/
import RxNetCap.Capture.Tasks

set_option autoImplicit false

namespace RxNetCap.Capture

open RxNetCap.Tally RxNetCap.Ledger RxNetCap.Pdef

/-! ## Operations -/

/-- One call from outside. The task that is added is a new object; `add_null`
passes a null pointer instead. -/
inductive StoreOp where
  | add (capture_id : ℤ) (key signature sid : CStr) (task : SRxCaptureTask)
  | add_null (capture_id : ℤ) (key signature sid : CStr)
  | remove (capture_id : ℤ)
  | update_status (capture_id : ℤ) (new_status : ECaptureTaskStatus)
  | update_task (capture_id : ℤ) (updater : SRxCaptureTask → SRxCaptureTask)
  | cleanup

/-- Allocate a task and add it. -/
def CRxSafeTaskMgr.add_new_task (capture_id : ℤ) (key signature sid : CStr)
    (task : SRxCaptureTask) (mgr : CRxSafeTaskMgr) : CRxSafeTaskMgr :=
  ((mgr.new_task task).2.add_task capture_id key signature sid (mgr.new_task task).1).2

/-- A new task may take the place of others, and changes none. -/
theorem add_new_task_keeps (capture_id : ℤ) (key signature sid : CStr) (task : SRxCaptureTask)
    (mgr : CRxSafeTaskMgr) :
    KeepsOthers capture_id mgr (mgr.add_new_task capture_id key signature sid task) := by
  intro c hc other hother
  exact add_task_keeps capture_id key signature sid _ (mgr.new_task task).2 c hc other hother

def StoreOp.perform (mgr : CRxSafeTaskMgr) : StoreOp → CRxSafeTaskMgr
  | .add capture_id key signature sid task => mgr.add_new_task capture_id key signature sid task
  | .add_null capture_id key signature sid => (mgr.add_task capture_id key signature sid none).2
  | .remove capture_id => mgr.remove_task capture_id
  | .update_status capture_id new_status => (mgr.update_status capture_id new_status).2
  | .update_task capture_id updater => (mgr.update_task capture_id updater).2
  | .cleanup => mgr.cleanup_pending_deletes

/-- The store after a sequence of calls. -/
def store_after (ops : List StoreOp) : CRxSafeTaskMgr := ops.foldl StoreOp.perform {}

/-- What every call keeps holds after every sequence of calls. -/
theorem store_after_induction {P : CRxSafeTaskMgr → Prop} (init : P {})
    (step : ∀ mgr op, P mgr → P (StoreOp.perform mgr op)) (ops : List StoreOp) :
    P (store_after ops) := by
  unfold store_after
  generalize ({} : CRxSafeTaskMgr) = mgr at init ⊢
  induction ops generalizing mgr with
  | nil => exact init
  | cons op rest ih => exact ih _ (step mgr op init)

/-- From one store to another by a sequence of calls. -/
def Performs (mgr mgr' : CRxSafeTaskMgr) : Prop :=
  ∃ ops : List StoreOp, mgr' = ops.foldl StoreOp.perform mgr

theorem Performs.refl (mgr : CRxSafeTaskMgr) : Performs mgr mgr := ⟨[], rfl⟩

theorem Performs.trans {mgr mgr' mgr'' : CRxSafeTaskMgr} (h : Performs mgr mgr')
    (h' : Performs mgr' mgr'') : Performs mgr mgr'' := by
  obtain ⟨ops, rfl⟩ := h
  obtain ⟨ops', rfl⟩ := h'
  exact ⟨ops ++ ops', List.foldl_append.symm⟩

theorem Performs.one (op : StoreOp) (mgr : CRxSafeTaskMgr) : Performs mgr (StoreOp.perform mgr op) :=
  ⟨[op], rfl⟩

/-! ## Counting slots -/

/-- The number of tasks in a table that pass a test. -/
def TaskTable.number (q : SRxCaptureTask → Bool) (table : TaskTable) : ℕ :=
  tally (fun slot => slot.any q) table.slots

/-- What the task of one slot adds to that number. -/
def one (q : SRxCaptureTask → Bool) (task : Option SRxCaptureTask) : ℕ :=
  if task.any q then 1 else 0

section Numbers

variable (q : SRxCaptureTask → Bool) (table : TaskTable) (capture_id : ℤ)

theorem weight_slot (slot : Option (Option SRxCaptureTask)) :
    weight (fun slot => slot.any q) slot = one q slot.join := by
  cases slot <;> rfl

theorem number_insert (slot : Option SRxCaptureTask) {table' : TaskTable}
    (h : table'.slots = table.slots.insert capture_id slot) :
    table'.number q + one q (table.task capture_id) = table.number q + one q slot := by
  have hinsert := tally_insert (fun slot => slot.any q) table.slots capture_id slot
  rw [weight_slot, weight_slot] at hinsert
  rw [TaskTable.number, h]
  exact hinsert

theorem number_exchange (task : SRxCaptureTask) :
    (table.exchange capture_id task).number q + one q (table.task capture_id)
      = table.number q + one q (some task) := number_insert q table capture_id _ rfl

theorem number_add_task (key signature sid : CStr) (task : SRxCaptureTask) :
    (table.add_task capture_id key signature sid task).number q
        + one q (table.task capture_id)
      = table.number q + one q (some { task with signature, sid }) :=
  number_insert q table capture_id _ rfl

theorem number_erase {table' : TaskTable} (h : table'.slots = table.slots.erase capture_id) :
    table'.number q + one q (table.task capture_id) = table.number q := by
  have herase := tally_erase (fun slot => slot.any q) table.slots capture_id
  rw [weight_slot] at herase
  rw [TaskTable.number, h]
  exact herase

theorem one_le_number : one q (table.task capture_id) ≤ table.number q := by
  have hle := weight_le (fun slot : Option SRxCaptureTask => slot.any q) table.slots capture_id
  rw [weight_slot] at hle
  exact hle

theorem number_remove_task :
    (table.remove_task capture_id).2.number q + one q (table.task capture_id)
      = table.number q := by
  unfold TaskTable.remove_task
  split
  · next hnone =>
    rw [TaskTable.task, hnone]
    rfl
  · exact number_erase q table capture_id rfl
  · exact number_erase q table capture_id rfl

end Numbers

/-! ## Changes of one task -/

/-- Calls that leave all tasks but that of `c` as they are; the numbers change
by what becomes of that one. -/
structure ChangesTask (c : ℤ) (mgr mgr' : CRxSafeTaskMgr) : Prop where
  ops : Performs mgr mgr'
  others : ∀ c' ≠ c, mgr'.task c' = mgr.task c'
  number : ∀ q, mgr'.curr.number q + one q (mgr.task c) = mgr.curr.number q + one q (mgr'.task c)

section Changes

variable {c : ℤ} {mgr mgr' mgr'' : CRxSafeTaskMgr}

theorem ChangesTask.refl (c : ℤ) (mgr : CRxSafeTaskMgr) : ChangesTask c mgr mgr :=
  ⟨Performs.refl mgr, fun _ _ => rfl, fun _ => rfl⟩

theorem ChangesTask.trans (h : ChangesTask c mgr mgr') (h' : ChangesTask c mgr' mgr'') :
    ChangesTask c mgr mgr'' where
  ops := h.ops.trans h'.ops
  others c' hc := (h'.others c' hc).trans (h.others c' hc)
  number q := by
    have hfirst := h.number q
    have hsecond := h'.number q
    omega

theorem ChangesTask.keeps (h : ChangesTask c mgr mgr') : KeepsOthers c mgr mgr' := by
  intro c' hc task htask
  rw [h.others c' hc] at htask
  exact htask

theorem replace_changes {old_task : SRxCaptureTask} (hold : mgr.task c = some old_task)
    (new_task : SRxCaptureTask) (stats : TaskStats) (q : SRxCaptureTask → Bool) :
    (mgr.replace c old_task new_task stats).curr.number q + one q (mgr.task c)
      = mgr.curr.number q + one q ((mgr.replace c old_task new_task stats).task c) := by
  rw [replace_task, if_pos rfl]
  exact number_exchange q mgr.curr c { new_task with ptr := mgr.heap.next }

theorem ChangesTask.update_task (c : ℤ) (updater : SRxCaptureTask → SRxCaptureTask)
    (mgr : CRxSafeTaskMgr) : ChangesTask c mgr (mgr.update_task c updater).2 where
  ops := Performs.one (.update_task c updater) mgr
  others c' hc := by rw [update_task_task, if_neg hc]
  number q := by
    unfold CRxSafeTaskMgr.update_task
    cases hold : mgr.task c with
    | none => rw [hold]
    | some old_task =>
      have hchange := fun new_task stats => replace_changes hold new_task stats q
      rw [hold] at hchange
      exact hchange _ _

theorem ChangesTask.update_status (c : ℤ) (status : ECaptureTaskStatus)
    (mgr : CRxSafeTaskMgr) : ChangesTask c mgr (mgr.update_status c status).2 where
  ops := Performs.one (.update_status c status) mgr
  others c' hc := by rw [update_status_task, if_neg hc]
  number q := by
    unfold CRxSafeTaskMgr.update_status
    cases hold : mgr.task c with
    | none => rw [hold]
    | some old_task =>
      have hchange := fun new_task stats => replace_changes hold new_task stats q
      rw [hold] at hchange
      exact hchange _ _

theorem ChangesTask.update_then (c : ℤ) (updater : SRxCaptureTask → SRxCaptureTask)
    (status : ECaptureTaskStatus) (mgr : CRxSafeTaskMgr) :
    ChangesTask c mgr (mgr.update_then c updater status).2 := by
  have hupdated := ChangesTask.update_task c updater mgr
  unfold CRxSafeTaskMgr.update_then
  split
  · next h =>
    rw [h] at hupdated
    exact hupdated.trans (ChangesTask.update_status c status _)
  · next h =>
    rw [h] at hupdated
    exact hupdated

theorem ChangesTask.append_capture_files (c : ℤ) (files : List CaptureFileInfo)
    (mgr : CRxSafeTaskMgr) : ChangesTask c mgr (mgr.append_capture_files c files).2 := by
  unfold CRxSafeTaskMgr.append_capture_files
  split
  · exact ChangesTask.refl c mgr
  · exact ChangesTask.update_task c _ mgr

end Changes

/-! ## The counters -/

@[simp] theorem count_increment (status s : ECaptureTaskStatus) (stats : TaskStats) :
    (increment_status_count status stats).count s
      = stats.count s + (if status = s then 1 else 0) := by
  cases status <;> cases s <;> rfl

@[simp] theorem count_decrement (status s : ECaptureTaskStatus) (stats : TaskStats) :
    (decrement_status_count status stats).count s
      = stats.count s - (if status = s then 1 else 0) := by
  cases status <;> cases s <;> rfl

@[simp] theorem total_increment (status : ECaptureTaskStatus) (stats : TaskStats) :
    (increment_status_count status stats).total_count = stats.total_count + 1 := by
  cases status <;> rfl

@[simp] theorem total_decrement (status : ECaptureTaskStatus) (stats : TaskStats) :
    (decrement_status_count status stats).total_count = stats.total_count - 1 := by
  cases status <;> rfl

@[simp] theorem wrapped_increment (status : ECaptureTaskStatus) (stats : TaskStats) :
    (increment_status_count status stats).wrapped = stats.wrapped := by
  cases status <;> rfl

theorem wrapped_decrement {status : ECaptureTaskStatus} {stats : TaskStats}
    (hwrapped : stats.wrapped = false) (htotal : 0 < stats.total_count)
    (hcount : 0 < stats.count status) :
    (decrement_status_count status stats).wrapped = false := by
  have hflag : (decrement_status_count status stats).wrapped
      = decide (stats.wrapped ∨ stats.total_count = 0 ∨ stats.count status = 0) := by
    cases status <;> rfl
  rw [hflag, decide_eq_false_iff_not, hwrapped]
  simp only [Bool.false_eq_true, false_or, not_or]
  exact ⟨Nat.ne_of_gt htotal, Nat.ne_of_gt hcount⟩

/-- The tasks with a status. -/
def has_status (s : ECaptureTaskStatus) (task : SRxCaptureTask) : Bool := task.status = s

/-- Every counter is the number of tasks it is meant to count, and none was
ever lowered at zero. -/
structure Tallied (table : TaskTable) (stats : TaskStats) : Prop where
  total : stats.total_count = table.number fun _ => true
  count : ∀ s, stats.count s = table.number (has_status s)
  sound : stats.wrapped = false

theorem Tallied.init : Tallied {} {} where
  total := rfl
  count s := by cases s <;> rfl
  sound := rfl

section Tallying

variable {table table' : TaskTable} {stats : TaskStats} {capture_id : ℤ}
  {old_task : SRxCaptureTask}

theorem one_true (task : SRxCaptureTask) : one (fun _ => true) (some task) = 1 := rfl

theorem one_status (s : ECaptureTaskStatus) (task : SRxCaptureTask) :
    one (has_status s) (some task) = if task.status = s then 1 else 0 := by
  simp only [one, has_status, Option.any_some, decide_eq_true_eq]

/-- Where a task is in the table, neither its counter nor the total is zero. -/
theorem Tallied.pos (h : Tallied table stats) (hold : table.task capture_id = some old_task) :
    0 < stats.total_count ∧ 0 < stats.count old_task.status := by
  have htotal := one_le_number (fun _ => true) table capture_id
  have hcount := one_le_number (has_status old_task.status) table capture_id
  rw [hold, one_true] at htotal
  rw [hold, one_status, if_pos rfl] at hcount
  rw [h.total, h.count]
  exact ⟨htotal, hcount⟩

/-- One task fewer, and its counts. -/
theorem Tallied.less (h : Tallied table stats) (hold : table.task capture_id = some old_task)
    (hless : ∀ q, table'.number q + one q (some old_task) = table.number q) :
    Tallied table' (decrement_status_count old_task.status stats) where
  total := by
    have htotal := hless fun _ => true
    rw [one_true] at htotal
    rw [total_decrement, h.total]
    omega
  count s := by
    have hcount := hless (has_status s)
    rw [one_status] at hcount
    rw [count_decrement, h.count]
    omega
  sound := wrapped_decrement h.sound (h.pos hold).1 (h.pos hold).2

/-- One task more, and its counts. -/
theorem Tallied.more (h : Tallied table stats) (task : SRxCaptureTask)
    (hmore : ∀ q, table'.number q = table.number q + one q (some task)) :
    Tallied table' (increment_status_count task.status stats) where
  total := by rw [total_increment, h.total, hmore, one_true]
  count s := by rw [count_increment, h.count, hmore, one_status]
  sound := (wrapped_increment _ _).trans h.sound

/-- A new version of a task, counted under its status. -/
theorem Tallied.exchange (h : Tallied table stats) (hold : table.task capture_id = some old_task)
    (new_task : SRxCaptureTask) :
    Tallied (table.exchange capture_id new_task)
      (increment_status_count new_task.status
        (decrement_status_count old_task.status stats)) := by
  have hempty : ∀ q, ({ table with slots := table.slots.erase capture_id } : TaskTable).number q
      + one q (some old_task) = table.number q := by
    intro q
    rw [← hold]
    exact number_erase q table capture_id rfl
  refine (h.less hold hempty).more new_task fun q => ?_
  have hinsert := number_exchange q table capture_id new_task
  have herase := hempty q
  rw [hold] at hinsert
  omega

/-- A new version of a task with the same status. -/
theorem Tallied.exchange_same (h : Tallied table stats)
    (hold : table.task capture_id = some old_task) {new_task : SRxCaptureTask}
    (hstatus : old_task.status = new_task.status) :
    Tallied (table.exchange capture_id new_task) stats := by
  have hnumber : ∀ q, one q (some old_task) = one q (some new_task) →
      (table.exchange capture_id new_task).number q = table.number q := by
    intro q hq
    have hinsert := number_exchange q table capture_id new_task
    rw [hold] at hinsert
    omega
  refine ⟨?_, fun s => ?_, h.sound⟩
  · rw [h.total, hnumber _ rfl]
  · rw [h.count, hnumber]
    rw [one_status, one_status, hstatus]

end Tallying

/-! ## The operations keep the counters -/

/-- The counters are true to the current table. -/
def CountersTrue (mgr : CRxSafeTaskMgr) : Prop := Tallied mgr.curr mgr.stats

section Operations

variable {mgr : CRxSafeTaskMgr} (capture_id : ℤ)

theorem drop_task_tallied (h : Tallied mgr.idle mgr.stats) :
    Tallied (mgr.drop_task capture_id).idle (mgr.drop_task capture_id).stats := by
  have htask := (remove_task_task mgr.idle capture_id).1
  have hnumber := fun q => number_remove_task q mgr.idle capture_id
  unfold CRxSafeTaskMgr.drop_task
  split
  · next idle hremove =>
    -- nothing was there, so nothing is uncounted
    rw [hremove] at htask hnumber
    have hsame : ∀ q, idle.number q = mgr.idle.number q := by
      intro q
      have hq := hnumber q
      rw [← htask] at hq
      exact hq
    exact ⟨h.total.trans (hsame _).symm, fun s => (h.count s).trans (hsame _).symm, h.sound⟩
  · next old_task idle hremove =>
    rw [hremove] at htask hnumber
    refine h.less htask.symm fun q => ?_
    have hq := hnumber q
    rw [← htask] at hq
    exact hq

theorem evict_tallied (h : Tallied mgr.idle mgr.stats) (index : TaskTable → Store CStr ℤ)
    (name : CStr) :
    Tallied (mgr.evict index name capture_id).idle (mgr.evict index name capture_id).stats := by
  unfold CRxSafeTaskMgr.evict
  split
  · exact h
  · split
    · exact drop_task_tallied _ h
    · exact h

theorem evict_names_tallied (h : Tallied mgr.idle mgr.stats) (key signature sid : CStr) :
    Tallied (mgr.evict_names capture_id key signature sid).idle
      (mgr.evict_names capture_id key signature sid).stats := by
  have hkey := evict_tallied capture_id h TaskTable.key_to_id key
  unfold CRxSafeTaskMgr.evict_names
  dsimp only
  split
  · apply evict_tallied
    split
    · exact evict_tallied _ hkey _ _
    · exact hkey
  · split
    · exact evict_tallied _ hkey _ _
    · exact hkey

theorem vacate_tallied (h : Tallied mgr.idle mgr.stats) :
    Tallied (mgr.vacate capture_id).idle (mgr.vacate capture_id).stats := by
  unfold CRxSafeTaskMgr.vacate
  split
  · exact h
  · next old_task hold =>
    refine h.less hold fun q => ?_
    rw [← hold]
    exact number_insert q mgr.idle capture_id none rfl

/-- After the evictions the slot of the new task is still empty. -/
theorem vacated (key signature sid : CStr) (mgr : CRxSafeTaskMgr) :
    ((mgr.vacate capture_id).evict_names capture_id key signature sid).idle.task capture_id
      = none := by
  cases h : ((mgr.vacate capture_id).evict_names capture_id key signature sid).idle.task
      capture_id with
  | none => rfl
  | some task =>
    have hkept := evict_names_keeps h
    rw [vacate_task, if_pos rfl] at hkept
    cases hkept

theorem add_task_true (h : CountersTrue mgr) (key signature sid : CStr)
    (task : Option SRxCaptureTask) :
    CountersTrue (mgr.add_task capture_id key signature sid task).2 := by
  cases task with
  | none => exact h
  | some task =>
    have hcopied : Tallied mgr.copy_table.idle mgr.copy_table.stats := h
    have hevicted := evict_names_tallied capture_id (vacate_tallied capture_id hcopied) key
      signature sid
    have hempty := vacated capture_id key signature sid mgr.copy_table
    refine Tallied.more hevicted { task with signature, sid } fun q => ?_
    refine Eq.trans ?_ (number_add_task q _ capture_id key signature sid task)
    rw [hempty]
    rfl

theorem remove_task_true (h : CountersTrue mgr) :
    CountersTrue (mgr.remove_task capture_id) := by
  have hcopied : Tallied mgr.copy_table.idle mgr.copy_table.stats := h
  exact drop_task_tallied capture_id hcopied

theorem update_status_true (h : CountersTrue mgr) (status : ECaptureTaskStatus) :
    CountersTrue (mgr.update_status capture_id status).2 := by
  unfold CRxSafeTaskMgr.update_status
  cases hold : mgr.task capture_id with
  | none => exact h
  | some old_task =>
    exact Tallied.exchange h hold { old_task with status, ptr := mgr.heap.next }

theorem update_task_true (h : CountersTrue mgr) (updater : SRxCaptureTask → SRxCaptureTask) :
    CountersTrue (mgr.update_task capture_id updater).2 := by
  unfold CRxSafeTaskMgr.update_task
  cases hold : mgr.task capture_id with
  | none => exact h
  | some old_task =>
    -- the updated clone, in its own object
    let new_task : SRxCaptureTask := { updater old_task with ptr := mgr.heap.next }
    by_cases hs : old_task.status = new_task.status
    · have hs' : old_task.status = (updater old_task).status := hs
      dsimp only
      rw [if_neg (not_not.mpr hs')]
      exact Tallied.exchange_same h hold hs
    · have hs' : old_task.status ≠ (updater old_task).status := hs
      dsimp only
      rw [if_pos hs']
      exact Tallied.exchange h hold new_task

end Operations

/-- Every call keeps the counters true. -/
theorem perform_true (mgr : CRxSafeTaskMgr) (op : StoreOp) (h : CountersTrue mgr) :
    CountersTrue (StoreOp.perform mgr op) := by
  cases op with
  | add capture_id key signature sid task =>
    have hnew : CountersTrue (mgr.new_task task).2 := h
    exact add_task_true capture_id hnew _ _ _ _
  | add_null capture_id key signature sid => exact h
  | remove capture_id => exact remove_task_true capture_id h
  | update_status capture_id new_status => exact update_status_true capture_id h new_status
  | update_task capture_id updater => exact update_task_true capture_id h updater
  | cleanup => exact h

/-- So do sequences of calls. -/
theorem Performs.counters {mgr mgr' : CRxSafeTaskMgr} (h : Performs mgr mgr')
    (htrue : CountersTrue mgr) : CountersTrue mgr' := by
  obtain ⟨ops, rfl⟩ := h
  induction ops generalizing mgr with
  | nil => exact htrue
  | cons op rest ih => exact ih (perform_true mgr op htrue)

/-- **The counters are true.** After any sequence of calls each counter is the
number of tasks with its status in the current table, the total is the number
of slots that hold a task, and no counter was ever lowered at zero. -/
theorem counters_true (ops : List StoreOp) :
    let mgr := store_after ops
    (∀ s, mgr.stats.count s
      = tally (fun slot => slot.any fun task => task.status = s) mgr.curr.slots) ∧
    mgr.stats.total_count = tally Option.isSome mgr.curr.slots ∧
    mgr.stats.wrapped = false := by
  have h := store_after_induction Tallied.init perform_true ops
  refine ⟨h.count, ?_, h.sound⟩
  have hsome : (fun slot : Option SRxCaptureTask => slot.any fun _ => true) = Option.isSome := by
    funext slot
    cases slot <;> rfl
  rw [← hsome]
  exact h.total

end RxNetCap.Capture
