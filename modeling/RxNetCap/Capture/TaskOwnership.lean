/-
Who owns the task objects.

A task object belongs to its slot in the current table or to the list of
pending deletes. The operations only move objects between the two: adding works
on a copy of the table, so what it evicts goes from the copy to the list before
the copy becomes the current table, and an update moves the object it replaces.
So each object ever allocated is in one slot, once in the list, or freed, and
deleting what is left frees each exactly once (`one_place`).
-/
import Mathlib.Algebra.Order.Group.Multiset
import Mathlib.Tactic.Abel
import RxNetCap.Capture.TaskStore

set_option autoImplicit false

namespace RxNetCap.Capture

open RxNetCap.Tally RxNetCap.Ledger RxNetCap.Pdef

/-! ## What a table holds -/

/-- The objects of a list of tasks. -/
def ptrs (tasks : List SRxCaptureTask) : Multiset ℕ := (tasks.map SRxCaptureTask.ptr : List ℕ)

/-- The object in a slot. -/
def slot_ptrs (slot : Option SRxCaptureTask) : Multiset ℕ := ptrs slot.toList

theorem ptrs_append (tasks tasks' : List SRxCaptureTask) :
    ptrs (tasks ++ tasks') = ptrs tasks + ptrs tasks' := by
  rw [ptrs, List.map_append]
  rfl

/-- The objects in the slots of a table. -/
def TaskTable.ptrs (table : TaskTable) : Multiset ℕ := Capture.ptrs table.tasks

section Slots

variable {table table' : TaskTable} {capture_id : ℤ}

/-- The tasks of a table in which one slot was erased. -/
theorem ptrs_erase (h : table'.slots = table.slots.erase capture_id) :
    table.ptrs = slot_ptrs (table.task capture_id) + table'.ptrs := by
  have hperm := (values_erase_perm table.slots capture_id).filterMap id
  have hptrs : table.ptrs = Capture.ptrs (((table.slots.lookup capture_id).toList
      ++ values (table.slots.erase capture_id)).filterMap id) :=
    Multiset.coe_eq_coe.mpr (hperm.map _)
  rw [hptrs, List.filterMap_append, ptrs_append, TaskTable.ptrs, TaskTable.tasks, h]
  congr 1
  rw [slot_ptrs, TaskTable.task]
  cases table.slots.lookup capture_id with
  | none => rfl
  | some slot => cases slot <;> rfl

/-- A write to a slot takes its object out and puts another in. -/
theorem ptrs_insert {slot : Option SRxCaptureTask}
    (h : table'.slots = table.slots.insert capture_id slot) :
    table'.ptrs + slot_ptrs (table.task capture_id) = table.ptrs + slot_ptrs slot := by
  let left : TaskTable := { table with slots := table.slots.erase capture_id }
  have herase : table.ptrs = slot_ptrs (table.task capture_id) + left.ptrs := ptrs_erase rfl
  have hnew : table'.ptrs = slot_ptrs slot + left.ptrs := by
    rw [TaskTable.ptrs, TaskTable.tasks, h, values_insert]
    cases slot <;> rfl
  rw [herase, hnew]
  abel

theorem table_ptr_mem {task : SRxCaptureTask} (h : table.task capture_id = some task) :
    task.ptr ∈ table.ptrs := by
  let left : TaskTable := { table with slots := table.slots.erase capture_id }
  have herase : table.ptrs = slot_ptrs (table.task capture_id) + left.ptrs := ptrs_erase rfl
  rw [herase, h]
  exact Multiset.mem_add.mpr (.inl (Multiset.mem_singleton_self _))

theorem ptrs_remove_task (table : TaskTable) (capture_id : ℤ) :
    table.ptrs = slot_ptrs (table.task capture_id) + (table.remove_task capture_id).2.ptrs := by
  unfold TaskTable.remove_task
  split
  · next hnone =>
    rw [TaskTable.task, hnone]
    exact (zero_add _).symm
  · exact ptrs_erase rfl
  · exact ptrs_erase rfl

end Slots

/-! ## Ownership -/

/-- The objects of `table`, those in the list and those of `others` are what
is allocated and not freed, and nothing freed was touched. -/
def OwnsTasks (mgr : CRxSafeTaskMgr) (table : TaskTable) (others : Multiset ℕ) : Prop :=
  Owns mgr.heap (table.ptrs + ptrs mgr.pending_deletes + others)

section Operations

variable {mgr : CRxSafeTaskMgr} {others : Multiset ℕ}

/-- An object that left the table goes to the list. -/
theorem discard_owns {table table' : TaskTable} {old_task : SRxCaptureTask}
    (h : OwnsTasks mgr table others) (hleft : table.ptrs = {old_task.ptr} + table'.ptrs) :
    OwnsTasks (mgr.discard old_task) table' others := by
  have hmoved : table.ptrs + ptrs mgr.pending_deletes + others
      = table'.ptrs + ptrs (mgr.pending_deletes ++ [old_task]) + others := by
    rw [hleft, ptrs_append]
    have hlast : ptrs [old_task] = {old_task.ptr} := rfl
    rw [hlast]
    abel
  have howned : Owns mgr.heap (table'.ptrs + ptrs (mgr.pending_deletes ++ [old_task]) + others) :=
    hmoved ▸ h
  refine howned.consult ?_
  rw [← hmoved, hleft]
  simp

theorem drop_task_owns (h : OwnsTasks mgr mgr.idle others) (capture_id : ℤ) :
    OwnsTasks (mgr.drop_task capture_id) (mgr.drop_task capture_id).idle others := by
  have htask := (remove_task_task mgr.idle capture_id).1
  have hptrs := ptrs_remove_task mgr.idle capture_id
  unfold CRxSafeTaskMgr.drop_task
  split
  · next idle hremove =>
    rw [hremove] at htask hptrs
    rw [← htask] at hptrs
    have hsame : idle.ptrs = mgr.idle.ptrs := by
      rw [hptrs]
      exact (zero_add _).symm
    unfold OwnsTasks
    rw [hsame]
    exact h
  · next old_task idle hremove =>
    rw [hremove] at htask hptrs
    rw [← htask] at hptrs
    exact discard_owns h hptrs

theorem evict_owns (h : OwnsTasks mgr mgr.idle others) (index : TaskTable → Store CStr ℤ)
    (name : CStr) (capture_id : ℤ) :
    OwnsTasks (mgr.evict index name capture_id) (mgr.evict index name capture_id).idle
      others := by
  unfold CRxSafeTaskMgr.evict
  split
  · exact h
  · split
    · exact drop_task_owns h _
    · exact h

theorem evict_names_owns (h : OwnsTasks mgr mgr.idle others) (capture_id : ℤ)
    (key signature sid : CStr) :
    OwnsTasks (mgr.evict_names capture_id key signature sid)
      (mgr.evict_names capture_id key signature sid).idle others := by
  have hkey := evict_owns h TaskTable.key_to_id key capture_id
  unfold CRxSafeTaskMgr.evict_names
  dsimp only
  split
  · apply evict_owns
    split
    · exact evict_owns hkey _ _ _
    · exact hkey
  · split
    · exact evict_owns hkey _ _ _
    · exact hkey

theorem vacate_owns (h : OwnsTasks mgr mgr.idle others) (capture_id : ℤ) :
    OwnsTasks (mgr.vacate capture_id) (mgr.vacate capture_id).idle others := by
  unfold CRxSafeTaskMgr.vacate
  split
  · exact h
  · next old_task hold =>
    refine discard_owns h ?_
    let left : TaskTable := { mgr.idle with slots := mgr.idle.slots.insert capture_id none }
    have hinsert : left.ptrs + slot_ptrs (mgr.idle.task capture_id)
        = mgr.idle.ptrs + slot_ptrs none := ptrs_insert rfl
    rw [hold] at hinsert
    rw [add_comm]
    exact (hinsert.trans (add_zero _)).symm

/-- The new object, which the caller owned, is in its slot afterwards. -/
theorem add_task_owns {task : SRxCaptureTask} (h : OwnsTasks mgr mgr.curr {task.ptr})
    (capture_id : ℤ) (key signature sid : CStr) :
    OwnsTasks (mgr.add_task capture_id key signature sid (some task)).2
      (mgr.add_task capture_id key signature sid (some task)).2.curr 0 := by
  have hcopied : OwnsTasks mgr.copy_table mgr.copy_table.idle {task.ptr} := h
  have hevicted := evict_names_owns (vacate_owns hcopied capture_id) capture_id key signature sid
  have hempty := vacated capture_id key signature sid mgr.copy_table
  generalize hmgr : (mgr.copy_table.vacate capture_id).evict_names capture_id key signature sid
    = evicted at hevicted hempty
  have hinsert : (evicted.idle.add_task capture_id key signature sid task).ptrs
      + slot_ptrs (evicted.idle.task capture_id)
      = evicted.idle.ptrs + slot_ptrs (some { task with signature, sid }) := ptrs_insert rfl
  rw [hempty] at hinsert
  have hptrs : evicted.idle.ptrs + ptrs evicted.pending_deletes + {task.ptr}
      = (evicted.idle.add_task capture_id key signature sid task).ptrs
        + ptrs evicted.pending_deletes + 0 := by
    have hsum : (evicted.idle.add_task capture_id key signature sid task).ptrs
        = evicted.idle.ptrs + {task.ptr} := by
      rw [slot_ptrs, Option.toList_none] at hinsert
      exact (add_zero _).symm.trans hinsert
    rw [hsum]
    abel
  have hmem : task.ptr ∈ evicted.idle.ptrs + ptrs evicted.pending_deletes + {task.ptr} :=
    Multiset.mem_add.mpr (.inr (Multiset.mem_singleton_self _))
  have howned := Owns.consult hevicted hmem
  rw [hptrs] at howned
  unfold CRxSafeTaskMgr.add_task
  dsimp only
  rw [hmgr]
  exact howned

theorem add_new_task_owns (h : OwnsTasks mgr mgr.curr 0) (capture_id : ℤ)
    (key signature sid : CStr) (task : SRxCaptureTask) :
    OwnsTasks (mgr.add_new_task capture_id key signature sid task)
      (mgr.add_new_task capture_id key signature sid task).curr 0 := by
  have hnew : OwnsTasks (mgr.new_task task).2 (mgr.new_task task).2.curr
      {(mgr.new_task task).1.ptr} := by
    have howned := h.malloc
    rw [add_zero, ← Multiset.singleton_add, add_comm] at howned
    exact howned
  exact add_task_owns hnew capture_id key signature sid

theorem remove_task_owns (h : OwnsTasks mgr mgr.curr 0) (capture_id : ℤ) :
    OwnsTasks (mgr.remove_task capture_id) (mgr.remove_task capture_id).curr 0 := by
  have hcopied : OwnsTasks mgr.copy_table mgr.copy_table.idle 0 := h
  exact drop_task_owns hcopied capture_id

/-- An update allocates the clone, and moves the old object to the list. -/
theorem replace_owns (h : OwnsTasks mgr mgr.curr 0) {capture_id : ℤ} {old_task : SRxCaptureTask}
    (hold : mgr.task capture_id = some old_task) (new_task : SRxCaptureTask)
    (stats : TaskStats) :
    OwnsTasks (mgr.replace capture_id old_task new_task stats)
      (mgr.replace capture_id old_task new_task stats).curr 0 := by
  let new_task' : SRxCaptureTask := { new_task with ptr := mgr.heap.next }
  have hinsert : (mgr.curr.exchange capture_id new_task').ptrs
      + slot_ptrs (mgr.curr.task capture_id) = mgr.curr.ptrs + slot_ptrs (some new_task') :=
    ptrs_insert rfl
  have hslot : mgr.curr.task capture_id = some old_task := hold
  rw [hslot] at hinsert
  have hmem : old_task.ptr ∈ mgr.curr.ptrs + ptrs mgr.pending_deletes + 0 := by
    rw [add_zero]
    exact Multiset.mem_add.mpr (.inl (table_ptr_mem hslot))
  have howned := ((Owns.consult h hmem).malloc).consult (Multiset.mem_cons_of_mem hmem)
  have hmoved : mgr.heap.next ::ₘ (mgr.curr.ptrs + ptrs mgr.pending_deletes + 0)
      = (mgr.curr.exchange capture_id new_task').ptrs
        + ptrs (mgr.pending_deletes ++ [old_task]) + 0 := by
    have hnext : ({mgr.heap.next} : Multiset ℕ) = slot_ptrs (some new_task') := rfl
    have hlast : ptrs [old_task] = slot_ptrs (some old_task) := rfl
    rw [← Multiset.singleton_add, hnext, ptrs_append, hlast]
    calc slot_ptrs (some new_task') + (mgr.curr.ptrs + ptrs mgr.pending_deletes + 0)
        = mgr.curr.ptrs + slot_ptrs (some new_task') + ptrs mgr.pending_deletes := by abel
      _ = _ := by
        rw [← hinsert]
        abel
  rw [show (mgr.heap.consult old_task.ptr).malloc.1 = mgr.heap.next from rfl, hmoved] at howned
  exact howned

theorem cleanup_owns (h : OwnsTasks mgr mgr.curr 0) :
    OwnsTasks mgr.cleanup_pending_deletes mgr.cleanup_pending_deletes.curr 0 := by
  have hsplit : mgr.curr.ptrs + ptrs mgr.pending_deletes + 0
      = ptrs mgr.pending_deletes + (mgr.curr.ptrs + 0 + 0) := by abel
  have howned : Owns mgr.heap (ptrs mgr.pending_deletes + (mgr.curr.ptrs + 0 + 0)) := hsplit ▸ h
  exact howned.freeAll

end Operations

theorem perform_owns (mgr : CRxSafeTaskMgr) (op : StoreOp) (h : OwnsTasks mgr mgr.curr 0) :
    OwnsTasks (StoreOp.perform mgr op) (StoreOp.perform mgr op).curr 0 := by
  cases op with
  | add capture_id key signature sid task => exact add_new_task_owns h _ _ _ _ _
  | add_null capture_id key signature sid => exact h
  | remove capture_id => exact remove_task_owns h capture_id
  | update_status capture_id new_status =>
    simp only [StoreOp.perform, CRxSafeTaskMgr.update_status]
    cases hold : mgr.task capture_id with
    | none => exact h
    | some old_task => exact replace_owns h hold _ _
  | update_task capture_id updater =>
    simp only [StoreOp.perform, CRxSafeTaskMgr.update_task]
    cases hold : mgr.task capture_id with
    | none => exact h
    | some old_task => exact replace_owns h hold _ _
  | cleanup => exact cleanup_owns h

/-- After the destructor nothing is owned. -/
theorem destroy_owns {mgr : CRxSafeTaskMgr} (h : OwnsTasks mgr mgr.curr 0) :
    Owns mgr.destroy 0 := by
  have hsplit : mgr.curr.ptrs + ptrs mgr.pending_deletes + 0
      = ptrs mgr.curr.tasks + (ptrs mgr.pending_deletes + 0) := add_assoc _ _ _
  have howned : Owns mgr.heap (ptrs mgr.curr.tasks + (ptrs mgr.pending_deletes + 0)) :=
    hsplit ▸ h
  exact howned.freeAll.freeAll

/-- **Every object is in one place.** After any sequence of calls each task
object ever allocated is in one slot of the current table, once in the list of
pending deletes, or freed; what the table and the list hold is allocated and
not freed; nothing freed was touched or freed again. When the store has been
destroyed, every object was freed exactly once. -/
theorem one_place (ops : List StoreOp) :
    let mgr := store_after ops
    let log := mgr.heap.log
    (∀ p, .alloc p ∈ log → (mgr.curr.tasks.map SRxCaptureTask.ptr).count p
      + (mgr.pending_deletes.map SRxCaptureTask.ptr).count p + log.count (.free p) = 1) ∧
    (∀ task ∈ mgr.curr.tasks ++ mgr.pending_deletes,
      .alloc task.ptr ∈ log ∧ .free task.ptr ∉ log) ∧
    Disciplined log ∧ Disciplined mgr.destroy.log ∧ ReleasedOnce mgr.destroy.log := by
  have h := store_after_induction (P := fun mgr => OwnsTasks mgr mgr.curr 0) Owns.init
    perform_owns ops
  have hend := destroy_owns h
  refine ⟨fun p halloc => ?_, fun task htask => ?_, h.disciplined, hend.disciplined,
    hend.released_once⟩
  · have hone := h.one_owner halloc
    rw [add_zero, Multiset.count_add, TaskTable.ptrs, ptrs, ptrs, Multiset.coe_count,
      Multiset.coe_count] at hone
    exact hone
  · refine (h.live task.ptr).mp ?_
    rw [add_zero, TaskTable.ptrs, ← ptrs_append]
    exact List.mem_map_of_mem htask

end RxNetCap.Capture
