/-
The task store `CRxSafeTaskMgr` of `src/rxsafetaskmgr.h`.

The store keeps its tasks by capture id, three indexes into them, and a counter
for each status; admission reads the counters, never the tasks. A task is an
object on the heap: an update clones it, puts the clone in its slot and leaves
the old object to be deleted later, so that a reader on another thread may
finish with it. Adding and removing work on a copy of the whole table, which
then becomes the current one; the other table holds stale pointers until the
next copy. Operations are performed one at a time.

The heap records what happens to the objects. Queries read through the slots
and record nothing.
-/
import RxNetCap.Lib.Tally
import RxNetCap.Lib.Ledger
import RxNetCap.Pdef.Types

set_option autoImplicit false

namespace RxNetCap.Capture

open RxNetCap.Tally RxNetCap.Ledger RxNetCap.Pdef

/-! ## Tasks -/

inductive ECaptureTaskStatus where
  | PENDING | RESOLVING | RUNNING | COMPLETED | FAILED | STOPPED
  deriving DecidableEq, Repr

def is_active_status (status : ECaptureTaskStatus) : Bool :=
  status = .PENDING ∨ status = .RESOLVING ∨ status = .RUNNING

/-- What is recorded about a file; the fields that the capture's own messages
leave at their defaults are left out. -/
structure CaptureFileInfo where
  file_path : CStr
  file_size : ℕ
  file_ready_ts : ℤ
  deriving DecidableEq, Repr

/-- A task, with the object it lives in. The fields are those that some handler
reads or writes after the task was created; the others echo the request. -/
structure SRxCaptureTask where
  ptr : ℕ := 0
  capture_id : ℤ := -1
  key : CStr := []
  signature : CStr := []
  sid : CStr := []
  status : ECaptureTaskStatus := .PENDING
  capture_pid : ℤ := -1
  output_file : CStr := []
  start_time : ℤ := 0
  end_time : ℤ := 0
  worker_thread_index : ℕ := 0
  stop_requested : Bool := false
  cancel_requested : Bool := false
  packet_count : ℕ := 0
  bytes_captured : ℕ := 0
  error_message : CStr := []
  captured_files : List CaptureFileInfo := []
  request_user : CStr := []
  deriving DecidableEq, Repr

/-! ## Counters -/

/-- The counters. `wrapped` is set once one of them was lowered at zero, where
a `size_t` wraps; the source has no such flag. -/
structure TaskStats where
  total_count : ℕ := 0
  pending_count : ℕ := 0
  resolving_count : ℕ := 0
  running_count : ℕ := 0
  completed_count : ℕ := 0
  failed_count : ℕ := 0
  stopped_count : ℕ := 0
  wrapped : Bool := false
  deriving DecidableEq, Repr

/-- The counter of a status. -/
def TaskStats.count (stats : TaskStats) : ECaptureTaskStatus → ℕ
  | .PENDING => stats.pending_count
  | .RESOLVING => stats.resolving_count
  | .RUNNING => stats.running_count
  | .COMPLETED => stats.completed_count
  | .FAILED => stats.failed_count
  | .STOPPED => stats.stopped_count

def increment_status_count (status : ECaptureTaskStatus) (stats : TaskStats) : TaskStats :=
  let stats := { stats with total_count := stats.total_count + 1 }
  match status with
  | .PENDING => { stats with pending_count := stats.pending_count + 1 }
  | .RESOLVING => { stats with resolving_count := stats.resolving_count + 1 }
  | .RUNNING => { stats with running_count := stats.running_count + 1 }
  | .COMPLETED => { stats with completed_count := stats.completed_count + 1 }
  | .FAILED => { stats with failed_count := stats.failed_count + 1 }
  | .STOPPED => { stats with stopped_count := stats.stopped_count + 1 }

def decrement_status_count (status : ECaptureTaskStatus) (stats : TaskStats) : TaskStats :=
  let wrapped : Bool := stats.wrapped ∨ stats.total_count = 0 ∨ stats.count status = 0
  let stats := { stats with total_count := stats.total_count - 1, wrapped }
  match status with
  | .PENDING => { stats with pending_count := stats.pending_count - 1 }
  | .RESOLVING => { stats with resolving_count := stats.resolving_count - 1 }
  | .RUNNING => { stats with running_count := stats.running_count - 1 }
  | .COMPLETED => { stats with completed_count := stats.completed_count - 1 }
  | .FAILED => { stats with failed_count := stats.failed_count - 1 }
  | .STOPPED => { stats with stopped_count := stats.stopped_count - 1 }

/-! ## The table -/

/-- A slot holds a task, or the null pointer. -/
structure TaskTable where
  slots : Store ℤ (Option SRxCaptureTask) := ∅
  key_to_id : Store CStr ℤ := ∅
  signature_to_id : Store CStr ℤ := ∅
  sid_to_id : Store CStr ℤ := ∅

/-- The task in the slot of a capture. -/
def TaskTable.task (table : TaskTable) (capture_id : ℤ) : Option SRxCaptureTask :=
  (table.slots.lookup capture_id).join

/-- Erase an index entry, if it leads to `capture_id`. -/
def unlink (name : CStr) (capture_id : ℤ) (index : Store CStr ℤ) : Store CStr ℤ :=
  if name ≠ [] ∧ index.lookup name = some capture_id then index.erase name else index

def TaskTable.add_task (capture_id : ℤ) (key signature sid : CStr) (task : SRxCaptureTask)
    (table : TaskTable) : TaskTable where
  slots := table.slots.insert capture_id (some { task with signature, sid })
  key_to_id := table.key_to_id.insert key capture_id
  signature_to_id :=
    if signature ≠ [] ∧ is_active_status task.status then
      table.signature_to_id.insert signature capture_id
    else table.signature_to_id
  sid_to_id := if sid ≠ [] then table.sid_to_id.insert sid capture_id else table.sid_to_id

def TaskTable.remove_task (capture_id : ℤ) (table : TaskTable) :
    Option SRxCaptureTask × TaskTable :=
  match table.slots.lookup capture_id with
  | none => (none, table)
  | some none => (none, { table with slots := table.slots.erase capture_id })
  | some (some old_task) =>
    (some old_task,
      { slots := table.slots.erase capture_id
        key_to_id := table.key_to_id.erase old_task.key
        signature_to_id := unlink old_task.signature capture_id table.signature_to_id
        sid_to_id := unlink old_task.sid capture_id table.sid_to_id })

/-- The index changes that `update_status` and `update_task` make for a new
version of a task. -/
def TaskTable.reindex (capture_id : ℤ) (task : SRxCaptureTask) (table : TaskTable) :
    TaskTable :=
  { table with
    signature_to_id :=
      if task.signature ≠ [] ∧ is_active_status task.status then
        table.signature_to_id.insert task.signature capture_id
      else unlink task.signature capture_id table.signature_to_id
    sid_to_id :=
      if task.sid ≠ [] then table.sid_to_id.insert task.sid capture_id else table.sid_to_id }

/-- A new version of a task in the slot of the old one. -/
def TaskTable.exchange (capture_id : ℤ) (task : SRxCaptureTask) (table : TaskTable) :
    TaskTable :=
  let table := table.reindex capture_id task
  { table with slots := table.slots.insert capture_id (some task) }

/-! ## The store -/

/-- `curr` is the table at `_curr` and `idle` the other one. -/
structure CRxSafeTaskMgr where
  curr : TaskTable := {}
  idle : TaskTable := {}
  stats : TaskStats := {}
  pending_deletes : List SRxCaptureTask := []
  heap : Heap := {}

/-- The task of a capture. -/
def CRxSafeTaskMgr.task (mgr : CRxSafeTaskMgr) (capture_id : ℤ) : Option SRxCaptureTask :=
  mgr.curr.task capture_id

/-- `query_task_by_key` and its siblings: the task an index leads to. -/
def CRxSafeTaskMgr.query_by (mgr : CRxSafeTaskMgr) (index : TaskTable → Store CStr ℤ)
    (name : CStr) : Option SRxCaptureTask :=
  ((index mgr.curr).lookup name).bind mgr.task

def CRxSafeTaskMgr.query_task_by_key (mgr : CRxSafeTaskMgr) (key : CStr) :
    Option SRxCaptureTask :=
  mgr.query_by TaskTable.key_to_id key

def CRxSafeTaskMgr.is_key_active (mgr : CRxSafeTaskMgr) (key : CStr) : Bool :=
  match mgr.query_task_by_key key with
  | none => false
  | some task => is_active_status task.status

def CRxSafeTaskMgr.query_active_task_by_signature (mgr : CRxSafeTaskMgr) (signature : CStr) :
    Option SRxCaptureTask :=
  match mgr.query_by TaskTable.signature_to_id signature with
  | none => none
  | some task => if is_active_status task.status then some task else none

/-- A task that is no longer in the table: uncounted, and left to be deleted. -/
def CRxSafeTaskMgr.discard (old_task : SRxCaptureTask) (mgr : CRxSafeTaskMgr) : CRxSafeTaskMgr :=
  { mgr with
    stats := decrement_status_count old_task.status mgr.stats
    pending_deletes := mgr.pending_deletes ++ [old_task]
    heap := mgr.heap.consult old_task.ptr }

/-- `_tables[idle_idx] = _tables[curr_idx]` -/
def CRxSafeTaskMgr.copy_table (mgr : CRxSafeTaskMgr) : CRxSafeTaskMgr :=
  { mgr with idle := mgr.curr }

/-- `_curr = idle_idx` -/
def CRxSafeTaskMgr.switch_table (mgr : CRxSafeTaskMgr) : CRxSafeTaskMgr :=
  { mgr with curr := mgr.idle, idle := mgr.curr }

/-- Take a task out of the idle table. -/
def CRxSafeTaskMgr.drop_task (capture_id : ℤ) (mgr : CRxSafeTaskMgr) : CRxSafeTaskMgr :=
  match mgr.idle.remove_task capture_id with
  | (none, idle) => { mgr with idle }
  | (some old_task, idle) => { mgr with idle }.discard old_task

/-- Take the task out of the idle table that an index gives a new task's name
to, unless it is the new task itself. -/
def CRxSafeTaskMgr.evict (index : TaskTable → Store CStr ℤ) (name : CStr) (capture_id : ℤ)
    (mgr : CRxSafeTaskMgr) : CRxSafeTaskMgr :=
  match (index mgr.idle).lookup name with
  | none => mgr
  | some other => if other ≠ capture_id then mgr.drop_task other else mgr

/-- Leave the null pointer in the slot that a new task will take. -/
def CRxSafeTaskMgr.vacate (capture_id : ℤ) (mgr : CRxSafeTaskMgr) : CRxSafeTaskMgr :=
  match mgr.idle.task capture_id with
  | none => mgr
  | some old_task =>
    { mgr with
      idle := { mgr.idle with slots := mgr.idle.slots.insert capture_id none } }.discard old_task

/-- The three evictions of `add_task`. -/
def CRxSafeTaskMgr.evict_names (capture_id : ℤ) (key signature sid : CStr)
    (mgr : CRxSafeTaskMgr) : CRxSafeTaskMgr :=
  let mgr := mgr.evict TaskTable.key_to_id key capture_id
  let mgr :=
    if signature ≠ [] then mgr.evict TaskTable.signature_to_id signature capture_id else mgr
  if sid ≠ [] then mgr.evict TaskTable.sid_to_id sid capture_id else mgr

/-- `none` is the null pointer. -/
def CRxSafeTaskMgr.add_task (capture_id : ℤ) (key signature sid : CStr)
    (task : Option SRxCaptureTask) (mgr : CRxSafeTaskMgr) : Bool × CRxSafeTaskMgr :=
  match task with
  | none => (false, mgr)
  | some task =>
    let mgr := (mgr.copy_table.vacate capture_id).evict_names capture_id key signature sid
    let mgr := { mgr with
      idle := mgr.idle.add_task capture_id key signature sid task
      heap := mgr.heap.consult task.ptr }.switch_table
    (true, { mgr with stats := increment_status_count task.status mgr.stats })

def CRxSafeTaskMgr.remove_task (capture_id : ℤ) (mgr : CRxSafeTaskMgr) : CRxSafeTaskMgr :=
  (mgr.copy_table.drop_task capture_id).switch_table

/-- `new SRxCaptureTask`, by the caller or by an update: the object, and the
store with the object allocated. -/
def CRxSafeTaskMgr.new_task (task : SRxCaptureTask) (mgr : CRxSafeTaskMgr) :
    SRxCaptureTask × CRxSafeTaskMgr :=
  let (ptr, heap) := mgr.heap.malloc
  ({ task with ptr }, { mgr with heap })

/-- Put `new_task`, a clone of `old_task`, in its slot. -/
def CRxSafeTaskMgr.replace (capture_id : ℤ) (old_task new_task : SRxCaptureTask)
    (stats : TaskStats) (mgr : CRxSafeTaskMgr) : CRxSafeTaskMgr :=
  let (new_task, mgr) := { mgr with heap := mgr.heap.consult old_task.ptr }.new_task new_task
  { mgr with
    curr := mgr.curr.exchange capture_id new_task
    stats
    pending_deletes := mgr.pending_deletes ++ [old_task]
    heap := mgr.heap.consult old_task.ptr }

def CRxSafeTaskMgr.update_status (capture_id : ℤ) (new_status : ECaptureTaskStatus)
    (mgr : CRxSafeTaskMgr) : Bool × CRxSafeTaskMgr :=
  match mgr.task capture_id with
  | none => (false, mgr)
  | some old_task =>
    (true, mgr.replace capture_id old_task { old_task with status := new_status }
      (increment_status_count new_status (decrement_status_count old_task.status mgr.stats)))

def CRxSafeTaskMgr.update_task (capture_id : ℤ) (updater : SRxCaptureTask → SRxCaptureTask)
    (mgr : CRxSafeTaskMgr) : Bool × CRxSafeTaskMgr :=
  match mgr.task capture_id with
  | none => (false, mgr)
  | some old_task =>
    let new_task := updater old_task
    (true, mgr.replace capture_id old_task new_task
      (if old_task.status ≠ new_task.status then
        increment_status_count new_task.status
          (decrement_status_count old_task.status mgr.stats)
      else mgr.stats))

/-- Delete a list of objects. -/
def delete_tasks (tasks : List SRxCaptureTask) (heap : Heap) : Heap :=
  heap.freeAll (tasks.map SRxCaptureTask.ptr)

def CRxSafeTaskMgr.cleanup_pending_deletes (mgr : CRxSafeTaskMgr) : CRxSafeTaskMgr :=
  { mgr with pending_deletes := [], heap := delete_tasks mgr.pending_deletes mgr.heap }

/-- The tasks in the slots of a table. -/
def TaskTable.tasks (table : TaskTable) : List SRxCaptureTask := (values table.slots).reduceOption

/-- `~CRxSafeTaskMgr`: what is left is the heap. -/
def CRxSafeTaskMgr.destroy (mgr : CRxSafeTaskMgr) : Heap :=
  delete_tasks mgr.pending_deletes (delete_tasks mgr.curr.tasks mgr.heap)

/-! ## Updates of a task -/

/-- An update and, if the task exists, its status. -/
def CRxSafeTaskMgr.update_then (capture_id : ℤ) (updater : SRxCaptureTask → SRxCaptureTask)
    (new_status : ECaptureTaskStatus) (mgr : CRxSafeTaskMgr) : Bool × CRxSafeTaskMgr :=
  match mgr.update_task capture_id updater with
  | (true, mgr) => (true, (mgr.update_status capture_id new_status).2)
  | (false, mgr) => (false, mgr)

/-- Seconds of a time in microseconds; 0 when there is none. -/
def usec_to_sec (ts_usec : ℤ) : ℤ := if ts_usec ≤ 0 then 0 else ts_usec / 1000000

def TaskUpdaterStart (ts_usec capture_pid : ℤ) (output_file : CStr) (task : SRxCaptureTask) :
    SRxCaptureTask :=
  { task with
    start_time := usec_to_sec ts_usec
    capture_pid := capture_pid
    output_file := if output_file ≠ [] then output_file else task.output_file }

def TaskUpdaterFinished (ts_usec : ℤ) (packets bytes : ℕ) (final_path : CStr)
    (task : SRxCaptureTask) : SRxCaptureTask :=
  { task with
    end_time := usec_to_sec ts_usec
    packet_count := packets
    bytes_captured := bytes
    output_file := if final_path ≠ [] then final_path else task.output_file }

/-- `now` is `time(NULL)`. -/
def TaskUpdaterFailed (message : CStr) (now : ℤ) (task : SRxCaptureTask) : SRxCaptureTask :=
  { task with error_message := message, end_time := now }

/-- Replace the entry with the path of `file`, or append it. -/
def append_file (files : List CaptureFileInfo) (file : CaptureFileInfo) : List CaptureFileInfo :=
  match files with
  | [] => [file]
  | first :: rest =>
    if first.file_path = file.file_path then file :: rest else first :: append_file rest file

def TaskAppendFiles (files : List CaptureFileInfo) (task : SRxCaptureTask) : SRxCaptureTask :=
  { task with captured_files := files.foldl append_file task.captured_files }

def CRxSafeTaskMgr.set_capture_started (capture_id start_ts_usec capture_pid : ℤ)
    (output_file : CStr) (mgr : CRxSafeTaskMgr) : Bool × CRxSafeTaskMgr :=
  mgr.update_then capture_id (TaskUpdaterStart start_ts_usec capture_pid output_file) .RUNNING

def CRxSafeTaskMgr.set_capture_finished (capture_id finish_ts_usec : ℤ) (packets bytes : ℕ)
    (final_path : CStr) (mgr : CRxSafeTaskMgr) : Bool × CRxSafeTaskMgr :=
  mgr.update_then capture_id (TaskUpdaterFinished finish_ts_usec packets bytes final_path)
    .COMPLETED

def CRxSafeTaskMgr.set_capture_failed (capture_id : ℤ) (error_message : CStr) (now : ℤ)
    (mgr : CRxSafeTaskMgr) : Bool × CRxSafeTaskMgr :=
  mgr.update_then capture_id (TaskUpdaterFailed error_message now) .FAILED

def CRxSafeTaskMgr.append_capture_files (capture_id : ℤ) (files : List CaptureFileInfo)
    (mgr : CRxSafeTaskMgr) : Bool × CRxSafeTaskMgr :=
  if files = [] then (false, mgr) else mgr.update_task capture_id (TaskAppendFiles files)

/-! ## What the operations do to the tasks -/

section Tables

variable {table : TaskTable} {capture_id : ℤ} (c : ℤ)

theorem task_insert {slots : Store ℤ (Option SRxCaptureTask)} (slot : Option SRxCaptureTask) :
    ((slots.insert capture_id slot).lookup c).join
      = if c = capture_id then slot else (slots.lookup c).join := by
  by_cases hc : c = capture_id
  · rw [if_pos hc, hc, AList.lookup_insert]
    rfl
  · rw [if_neg hc, AList.lookup_insert_ne hc]

theorem task_erase {slots : Store ℤ (Option SRxCaptureTask)} :
    ((slots.erase capture_id).lookup c).join
      = if c = capture_id then none else (slots.lookup c).join := by
  by_cases hc : c = capture_id
  · rw [if_pos hc, hc, AList.lookup_erase]
    rfl
  · rw [if_neg hc, AList.lookup_erase_ne hc]

theorem exchange_task (task : SRxCaptureTask) :
    (table.exchange capture_id task).task c
      = if c = capture_id then some task else table.task c := task_insert c (some task)

theorem add_task_task (key signature sid : CStr) (task : SRxCaptureTask) :
    (table.add_task capture_id key signature sid task).task c
      = if c = capture_id then some { task with signature, sid } else table.task c :=
  task_insert c _

/-- What `remove_task` returns and what it leaves. -/
theorem remove_task_task (table : TaskTable) (capture_id : ℤ) :
    (table.remove_task capture_id).1 = table.task capture_id ∧
    ∀ c, (table.remove_task capture_id).2.task c
      = if c = capture_id then none else table.task c := by
  unfold TaskTable.remove_task
  split
  · next hnone =>
    have htask : table.task capture_id = none := by
      rw [TaskTable.task, hnone]
      rfl
    refine ⟨htask.symm, fun c => ?_⟩
    by_cases hc : c = capture_id
    · rw [if_pos hc, hc, htask]
    · rw [if_neg hc]
  · next hnull =>
    refine ⟨?_, fun c => task_erase c⟩
    rw [TaskTable.task, hnull]
    rfl
  · next old_task hold =>
    refine ⟨?_, fun c => task_erase c⟩
    rw [TaskTable.task, hold]
    rfl

end Tables

/-- No task but that of `capture_id` is new or changed. -/
def KeepsOthers (capture_id : ℤ) (mgr mgr' : CRxSafeTaskMgr) : Prop :=
  ∀ c ≠ capture_id, ∀ task, mgr'.task c = some task → mgr.task c = some task

section Updates

variable (capture_id : ℤ) (mgr : CRxSafeTaskMgr)

theorem replace_task (old_task new_task : SRxCaptureTask) (stats : TaskStats) (c : ℤ) :
    (mgr.replace capture_id old_task new_task stats).task c
      = if c = capture_id then some { new_task with ptr := mgr.heap.next } else mgr.task c :=
  exchange_task c _

/-- The task of the capture is updated, in a new object; the others stay. -/
theorem update_task_task (updater : SRxCaptureTask → SRxCaptureTask) (c : ℤ) :
    (mgr.update_task capture_id updater).2.task c
      = if c = capture_id then
          (mgr.task c).map fun task => { updater task with ptr := mgr.heap.next }
        else mgr.task c := by
  unfold CRxSafeTaskMgr.update_task
  by_cases hc : c = capture_id
  · subst hc
    cases h : mgr.task c with
    | none => simp [h]
    | some task => simp [replace_task]
  · cases mgr.task capture_id with
    | none => simp [hc]
    | some task => simp [replace_task, hc]

theorem update_status_task (status : ECaptureTaskStatus) (c : ℤ) :
    (mgr.update_status capture_id status).2.task c
      = if c = capture_id then
          (mgr.task c).map fun task => { task with status, ptr := mgr.heap.next }
        else mgr.task c := by
  unfold CRxSafeTaskMgr.update_status
  by_cases hc : c = capture_id
  · subst hc
    cases h : mgr.task c with
    | none => simp [h]
    | some task => simp [replace_task]
  · cases mgr.task capture_id with
    | none => simp [hc]
    | some task => simp [replace_task, hc]

/-- The object a second update of the same task puts it in. -/
def second_ptr (updater : SRxCaptureTask → SRxCaptureTask) : ℕ :=
  (mgr.update_task capture_id updater).2.heap.next

/-- The task of the capture is updated and gets the status, the others stay. -/
theorem update_then_task (updater : SRxCaptureTask → SRxCaptureTask)
    (status : ECaptureTaskStatus) (c : ℤ) :
    (mgr.update_then capture_id updater status).2.task c
      = if c = capture_id then
          (mgr.task c).map fun task =>
            { updater task with status, ptr := second_ptr capture_id mgr updater }
        else mgr.task c := by
  have htask := update_task_task capture_id mgr updater
  unfold second_ptr CRxSafeTaskMgr.update_then
  cases hupdate : mgr.update_task capture_id updater with
  | mk updated mgr' =>
    rw [hupdate] at htask
    cases updated with
    | true =>
      rw [update_status_task, htask c]
      by_cases hc : c = capture_id
      · simp only [if_pos hc, Option.map_map]
        rfl
      · simp only [if_neg hc]
    | false =>
      -- there is no such task
      have hnone : mgr.task capture_id = none := by
        cases h : mgr.task capture_id with
        | none => rfl
        | some task => simp [CRxSafeTaskMgr.update_task, h] at hupdate
      rw [htask c]
      by_cases hc : c = capture_id
      · simp [hc, hnone]
      · simp only [if_neg hc]

/-- A reading of a task that depends neither on its object nor on its status. -/
def Lasting {α : Type} (f : SRxCaptureTask → α) : Prop :=
  ∀ task status ptr, f { task with status, ptr } = f task

section Fields

variable {α : Type} {f : SRxCaptureTask → α}

theorem update_task_field (hf : Lasting f) (updater : SRxCaptureTask → SRxCaptureTask)
    (hkeeps : ∀ task, f (updater task) = f task) (c : ℤ) :
    ((mgr.update_task capture_id updater).2.task c).map f = (mgr.task c).map f := by
  rw [update_task_task]
  split
  · rw [Option.map_map]
    refine congrArg (fun g => (mgr.task c).map g) (funext fun task => ?_)
    exact (hf (updater task) (updater task).status _).trans (hkeeps task)
  · rfl

theorem update_status_field (hf : Lasting f) (status : ECaptureTaskStatus) (c : ℤ) :
    ((mgr.update_status capture_id status).2.task c).map f = (mgr.task c).map f := by
  rw [update_status_task]
  split
  · rw [Option.map_map]
    exact congrArg (fun g => (mgr.task c).map g) (funext fun task => hf task status _)
  · rfl

theorem update_then_field (hf : Lasting f) (updater : SRxCaptureTask → SRxCaptureTask)
    (hkeeps : ∀ task, f (updater task) = f task) (status : ECaptureTaskStatus) (c : ℤ) :
    ((mgr.update_then capture_id updater status).2.task c).map f = (mgr.task c).map f := by
  rw [update_then_task]
  split
  · rw [Option.map_map]
    refine congrArg (fun g => (mgr.task c).map g) (funext fun task => ?_)
    exact (hf (updater task) status _).trans (hkeeps task)
  · rfl

end Fields

end Updates

/-- Dropping a task from the idle table. -/
theorem drop_task_idle (capture_id : ℤ) (mgr : CRxSafeTaskMgr) :
    (mgr.drop_task capture_id).idle = (mgr.idle.remove_task capture_id).2 := by
  unfold CRxSafeTaskMgr.drop_task
  split
  · next h => rw [h]
  · next h => rw [h]; rfl

theorem drop_task_task (capture_id : ℤ) (mgr : CRxSafeTaskMgr) (c : ℤ) :
    (mgr.drop_task capture_id).idle.task c
      = if c = capture_id then none else mgr.idle.task c := by
  rw [drop_task_idle]
  exact (remove_task_task mgr.idle capture_id).2 c

theorem evict_keeps {index : TaskTable → Store CStr ℤ} {name : CStr} {capture_id : ℤ}
    {mgr : CRxSafeTaskMgr} {c : ℤ} {task : SRxCaptureTask}
    (h : (mgr.evict index name capture_id).idle.task c = some task) :
    mgr.idle.task c = some task := by
  unfold CRxSafeTaskMgr.evict at h
  split at h
  · exact h
  · split at h
    · rw [drop_task_task] at h
      split at h
      · cases h
      · exact h
    · exact h

theorem evict_names_keeps {capture_id : ℤ} {key signature sid : CStr} {mgr : CRxSafeTaskMgr}
    {c : ℤ} {task : SRxCaptureTask}
    (h : (mgr.evict_names capture_id key signature sid).idle.task c = some task) :
    mgr.idle.task c = some task := by
  unfold CRxSafeTaskMgr.evict_names at h
  dsimp only at h
  split at h
  · replace h := evict_keeps h
    split at h
    · exact evict_keeps (evict_keeps h)
    · exact evict_keeps h
  · split at h
    · exact evict_keeps (evict_keeps h)
    · exact evict_keeps h

theorem vacate_task (capture_id : ℤ) (mgr : CRxSafeTaskMgr) (c : ℤ) :
    (mgr.vacate capture_id).idle.task c = if c = capture_id then none else mgr.idle.task c := by
  unfold CRxSafeTaskMgr.vacate
  split
  · next hnone =>
    by_cases hc : c = capture_id
    · rw [if_pos hc, hc, hnone]
    · rw [if_neg hc]
  · exact task_insert c none

/-- A new task may take the place of others, and changes none. -/
theorem add_task_keeps (capture_id : ℤ) (key signature sid : CStr)
    (task : Option SRxCaptureTask) (mgr : CRxSafeTaskMgr) :
    KeepsOthers capture_id mgr (mgr.add_task capture_id key signature sid task).2 := by
  intro c hc other h
  cases task with
  | none => exact h
  | some task =>
    replace h := (add_task_task c key signature sid task).symm.trans h
    rw [if_neg hc] at h
    have hidle := evict_names_keeps h
    rw [vacate_task, if_neg hc] at hidle
    exact hidle

/-- The new task itself. -/
theorem add_task_self (capture_id : ℤ) (key signature sid : CStr) (task : SRxCaptureTask)
    (mgr : CRxSafeTaskMgr) :
    (mgr.add_task capture_id key signature sid (some task)).2.task capture_id
      = some { task with signature, sid } := by
  refine (add_task_task capture_id key signature sid task).trans ?_
  rw [if_pos rfl]

end RxNetCap.Capture
