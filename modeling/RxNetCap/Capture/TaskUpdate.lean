/-
Task updates: `handle_task_update` of `src/rxcapturemanagerthread.cpp`.

A message names a status and flags the fields it sets. Three branches are for
special cases (a capture that starts, one that makes progress, one that ends),
and only when none of them has been taken does `UpdateTaskFunctor` set all that
is flagged. A branch that is taken sets what it is for, in its own way, and what
else the message flags is dropped. So a message has its full effect where no
special branch is taken, or where each flagged field is one that the branches
set to the value, or has the value already (`update_applied_iff`).

The log is left out.
-/
import RxNetCap.Capture.TaskStore

set_option autoImplicit false

namespace RxNetCap.Capture

open RxNetCap.Tally RxNetCap.Ledger RxNetCap.Pdef

/-! ## Messages and updates -/

structure SRxTaskUpdateMsg where
  capture_id : ℤ := -1
  new_status : ECaptureTaskStatus := .PENDING
  update_capture_pid : Bool := false
  capture_pid : ℤ := -1
  update_output_file : Bool := false
  output_file : CStr := []
  update_start_time : Bool := false
  start_time : ℤ := 0
  update_end_time : Bool := false
  end_time : ℤ := 0
  update_stats : Bool := false
  packet_count : ℕ := 0
  bytes_captured : ℕ := 0
  update_error : Bool := false
  error_message : CStr := []
  deriving DecidableEq, Repr

/-- Seconds to microseconds in an `int64_t`. -/
def to_usec (secs : ℤ) : ℤ := (secs * 1000000).bmod (2 ^ 64)

def TaskUpdaterProgress (packets bytes : ℕ) (ts_usec : ℤ) (task : SRxCaptureTask) : SRxCaptureTask :=
  { task with
    packet_count := if packets > 0 then packets else task.packet_count
    bytes_captured := if bytes > 0 then bytes else task.bytes_captured
    end_time := if ts_usec > 0 then ts_usec / 1000000 else task.end_time }

def CRxSafeTaskMgr.update_progress (capture_id : ℤ) (packets bytes : ℕ) (last_ts_usec : ℤ)
    (mgr : CRxSafeTaskMgr) : Bool × CRxSafeTaskMgr :=
  mgr.update_task capture_id (TaskUpdaterProgress packets bytes last_ts_usec)

def UpdateTaskFunctor (msg : SRxTaskUpdateMsg) (task : SRxCaptureTask) : SRxCaptureTask :=
  { task with
    status := msg.new_status
    capture_pid := if msg.update_capture_pid then msg.capture_pid else task.capture_pid
    output_file := if msg.update_output_file then msg.output_file else task.output_file
    start_time := if msg.update_start_time then msg.start_time else task.start_time
    end_time := if msg.update_end_time then msg.end_time else task.end_time
    packet_count := if msg.update_stats then msg.packet_count else task.packet_count
    bytes_captured := if msg.update_stats then msg.bytes_captured else task.bytes_captured
    error_message := if msg.update_error then msg.error_message else task.error_message }

/-- The path a special branch passes on. -/
def SRxTaskUpdateMsg.path (msg : SRxTaskUpdateMsg) : CStr :=
  if msg.update_output_file then msg.output_file else []

/-- The branches for a capture that has ended. `now_usec` is
`rx_capture_now_usec()`, and `now` is `time(NULL)`. -/
def end_capture (msg : SRxTaskUpdateMsg) (now_usec now : ℤ) (mgr : CRxSafeTaskMgr) :
    Bool × CRxSafeTaskMgr :=
  if msg.new_status = .COMPLETED then
    mgr.set_capture_finished msg.capture_id
      (if msg.update_end_time then to_usec msg.end_time else now_usec)
      msg.packet_count msg.bytes_captured msg.path
  else if msg.new_status = .FAILED ∧ msg.update_error = true then
    mgr.set_capture_failed msg.capture_id msg.error_message now
  else (false, mgr)

def handle_task_update (msg : SRxTaskUpdateMsg) (now_usec now : ℤ) (mgr : CRxSafeTaskMgr) :
    CRxSafeTaskMgr :=
  let (started, mgr) :=
    if msg.new_status = .RUNNING ∧ msg.update_start_time = true then
      mgr.set_capture_started msg.capture_id (to_usec msg.start_time)
        (if msg.update_capture_pid then msg.capture_pid else -1) msg.path
    else (false, mgr)
  let (progressed, mgr) :=
    if msg.update_stats = true then
      mgr.update_progress msg.capture_id msg.packet_count msg.bytes_captured
        (if msg.update_end_time then to_usec msg.end_time else 0)
    else (false, mgr)
  let (ended, mgr) := end_capture msg now_usec now mgr
  if started ∨ progressed ∨ ended then mgr
  else (mgr.update_task msg.capture_id (UpdateTaskFunctor msg)).2

/-! ## What is asked of an update -/

/-- The task has the status of the message, and every flagged field its value. -/
structure Applied (msg : SRxTaskUpdateMsg) (task : SRxCaptureTask) : Prop where
  status : task.status = msg.new_status
  capture_pid : msg.update_capture_pid = true → task.capture_pid = msg.capture_pid
  output_file : msg.update_output_file = true → task.output_file = msg.output_file
  start_time : msg.update_start_time = true → task.start_time = msg.start_time
  end_time : msg.update_end_time = true → task.end_time = msg.end_time
  stats : msg.update_stats = true →
    task.packet_count = msg.packet_count ∧ task.bytes_captured = msg.bytes_captured
  error : msg.update_error = true → task.error_message = msg.error_message

/-- The branch of a capture that starts. -/
def SRxTaskUpdateMsg.starts (msg : SRxTaskUpdateMsg) : Bool :=
  msg.new_status = .RUNNING ∧ msg.update_start_time

/-- The branch of a capture that fails. -/
def SRxTaskUpdateMsg.fails (msg : SRxTaskUpdateMsg) : Bool :=
  msg.new_status = .FAILED ∧ msg.update_error

/-- No special branch is for the message. -/
def SRxTaskUpdateMsg.plain (msg : SRxTaskUpdateMsg) : Bool :=
  !msg.starts && !msg.update_stats && msg.new_status ≠ .COMPLETED && !msg.fails

/-- A time that comes back from microseconds. -/
def FitsUsec (secs : ℤ) : Prop := 0 ≤ secs ∧ secs ≤ 9223372036854

instance (secs : ℤ) : Decidable (FitsUsec secs) := by
  unfold FitsUsec
  infer_instance

/-- What the branches set, or the task has already, field by field. -/
structure Covered (msg : SRxTaskUpdateMsg) (now : ℤ) (task : SRxCaptureTask) : Prop where
  status : msg.starts ∨ msg.new_status = .COMPLETED ∨ msg.fails ∨ task.status = msg.new_status
  capture_pid : msg.update_capture_pid = true → msg.starts ∨ task.capture_pid = msg.capture_pid
  output_file : msg.update_output_file = true →
    ((msg.starts ∨ msg.new_status = .COMPLETED) ∧ msg.output_file ≠ []) ∨
      task.output_file = msg.output_file
  start_time : msg.update_start_time = true →
    if msg.starts then FitsUsec msg.start_time else task.start_time = msg.start_time
  end_time : msg.update_end_time = true →
    if msg.new_status = .COMPLETED then FitsUsec msg.end_time
    else if msg.fails then msg.end_time = now
    else if msg.update_stats ∧ 0 < to_usec msg.end_time then FitsUsec msg.end_time
    else task.end_time = msg.end_time
  stats : msg.update_stats = true → msg.new_status = .COMPLETED ∨
    ((0 < msg.packet_count ∨ task.packet_count = msg.packet_count) ∧
      (0 < msg.bytes_captured ∨ task.bytes_captured = msg.bytes_captured))
  error : msg.update_error = true → msg.fails ∨ task.error_message = msg.error_message

theorem starts_iff {msg : SRxTaskUpdateMsg} :
    msg.starts = true ↔ msg.new_status = .RUNNING ∧ msg.update_start_time = true :=
  decide_eq_true_iff

theorem fails_iff {msg : SRxTaskUpdateMsg} :
    msg.fails = true ↔ msg.new_status = .FAILED ∧ msg.update_error = true :=
  decide_eq_true_iff

theorem plain_iff {msg : SRxTaskUpdateMsg} : msg.plain = true ↔
    msg.starts ≠ true ∧ msg.update_stats ≠ true ∧ msg.new_status ≠ .COMPLETED ∧ msg.fails ≠ true := by
  simp [SRxTaskUpdateMsg.plain, and_assoc]

/-! ## What the handler does to the task -/

def SRxCaptureTask.with_status (status : ECaptureTaskStatus) (task : SRxCaptureTask) : SRxCaptureTask :=
  { task with status }

section Branches

variable (msg : SRxTaskUpdateMsg) (now_usec now : ℤ) (task : SRxCaptureTask)

def after_start : SRxCaptureTask :=
  if msg.new_status = .RUNNING ∧ msg.update_start_time = true then
    (TaskUpdaterStart (to_usec msg.start_time)
      (if msg.update_capture_pid then msg.capture_pid else -1) msg.path task).with_status .RUNNING
  else task

def after_progress : SRxCaptureTask :=
  if msg.update_stats = true then
    TaskUpdaterProgress msg.packet_count msg.bytes_captured
      (if msg.update_end_time then to_usec msg.end_time else 0) task
  else task

def after_failure : SRxCaptureTask :=
  if msg.new_status = .FAILED ∧ msg.update_error = true then
    (TaskUpdaterFailed msg.error_message now task).with_status .FAILED
  else task

def after_end : SRxCaptureTask :=
  if msg.new_status = .COMPLETED then
    (TaskUpdaterFinished (if msg.update_end_time then to_usec msg.end_time else now_usec)
      msg.packet_count msg.bytes_captured msg.path task).with_status .COMPLETED
  else after_failure msg now task

/-- The task after the special branches. -/
def specially_updated : SRxCaptureTask :=
  after_end msg now_usec now (after_progress msg (after_start msg task))

/-- The task after the message. -/
def updated : SRxCaptureTask :=
  if msg.plain then UpdateTaskFunctor msg task else specially_updated msg now_usec now task

end Branches

/-- The store has the task, in some object. -/
def Has (c : ℤ) (task : SRxCaptureTask) (mgr : CRxSafeTaskMgr) : Prop :=
  ∃ ptr, mgr.task c = some { task with ptr }

section Store

variable {c : ℤ} {task : SRxCaptureTask} {mgr : CRxSafeTaskMgr}
  {updater : SRxCaptureTask → SRxCaptureTask}

theorem update_task_has (h : Has c task mgr)
    (hupdater : ∀ ptr, ∃ ptr', updater { task with ptr } = { updater task with ptr := ptr' }) :
    (mgr.update_task c updater).1 = true ∧ Has c (updater task) (mgr.update_task c updater).2 := by
  obtain ⟨ptr, hptr⟩ := h
  obtain ⟨ptr', hptr'⟩ := hupdater ptr
  constructor
  · simp [CRxSafeTaskMgr.update_task, hptr]
  · refine ⟨mgr.heap.next, ?_⟩
    rw [update_task_task, if_pos rfl, hptr, Option.map_some, hptr']

theorem update_then_has {status : ECaptureTaskStatus} (h : Has c task mgr)
    (hupdater : ∀ ptr, ∃ ptr', updater { task with ptr } = { updater task with ptr := ptr' }) :
    (mgr.update_then c updater status).1 = true ∧
      Has c ((updater task).with_status status) (mgr.update_then c updater status).2 := by
  obtain ⟨hdone, -⟩ := update_task_has h hupdater
  obtain ⟨ptr, hptr⟩ := h
  obtain ⟨ptr', hptr'⟩ := hupdater ptr
  constructor
  · unfold CRxSafeTaskMgr.update_then
    split
    · rfl
    · next hfalse =>
      rw [hfalse] at hdone
      cases hdone
  · refine ⟨second_ptr c mgr updater, ?_⟩
    rw [update_then_task, if_pos rfl, hptr, Option.map_some, hptr']
    rfl

theorem set_capture_started_has (h : Has c task mgr) (start_ts_usec capture_pid : ℤ)
    (output_file : CStr) :
    (mgr.set_capture_started c start_ts_usec capture_pid output_file).1 = true ∧
      Has c ((TaskUpdaterStart start_ts_usec capture_pid output_file task).with_status .RUNNING)
        (mgr.set_capture_started c start_ts_usec capture_pid output_file).2 :=
  update_then_has h fun ptr => ⟨ptr, rfl⟩

theorem update_progress_has (h : Has c task mgr) (packets bytes : ℕ) (last_ts_usec : ℤ) :
    (mgr.update_progress c packets bytes last_ts_usec).1 = true ∧
      Has c (TaskUpdaterProgress packets bytes last_ts_usec task)
        (mgr.update_progress c packets bytes last_ts_usec).2 :=
  update_task_has h fun ptr => ⟨ptr, rfl⟩

theorem set_capture_finished_has (h : Has c task mgr) (finish_ts_usec : ℤ) (packets bytes : ℕ)
    (final_path : CStr) :
    (mgr.set_capture_finished c finish_ts_usec packets bytes final_path).1 = true ∧
      Has c ((TaskUpdaterFinished finish_ts_usec packets bytes final_path task).with_status .COMPLETED)
        (mgr.set_capture_finished c finish_ts_usec packets bytes final_path).2 :=
  update_then_has h fun ptr => ⟨ptr, rfl⟩

theorem set_capture_failed_has (h : Has c task mgr) (error_message : CStr) (now : ℤ) :
    (mgr.set_capture_failed c error_message now).1 = true ∧
      Has c ((TaskUpdaterFailed error_message now task).with_status .FAILED)
        (mgr.set_capture_failed c error_message now).2 :=
  update_then_has h fun ptr => ⟨ptr, rfl⟩

/-- A call that is made where `b` holds, and answers that the task is there. -/
theorem branch_has (b : Prop) [Decidable b] {call : Bool × CRxSafeTaskMgr} {task' : SRxCaptureTask}
    (h : Has c task mgr) (hcall : call.1 = true ∧ Has c task' call.2) :
    (if b then call else (false, mgr)).1 = decide b ∧
      Has c (if b then task' else task) (if b then call else (false, mgr)).2 := by
  by_cases hb : b
  · rw [decide_eq_true hb]
    simpa only [if_pos hb] using hcall
  · rw [decide_eq_false hb]
    simpa only [if_neg hb, true_and] using h

theorem end_capture_has {msg : SRxTaskUpdateMsg} (now_usec now : ℤ) (h : Has msg.capture_id task mgr) :
    (end_capture msg now_usec now mgr).1 = decide (msg.new_status = .COMPLETED ∨ msg.fails = true) ∧
      Has msg.capture_id (after_end msg now_usec now task) (end_capture msg now_usec now mgr).2 := by
  unfold end_capture after_end
  by_cases hcompleted : msg.new_status = .COMPLETED
  · simp only [hcompleted, if_true, true_or, decide_true]
    exact set_capture_finished_has h _ _ _ _
  · simp only [hcompleted, if_false, false_or]
    have hfail := branch_has (msg.new_status = .FAILED ∧ msg.update_error = true) h
      (set_capture_failed_has h msg.error_message now)
    refine ⟨hfail.1.trans ?_, hfail.2⟩
    simp [SRxTaskUpdateMsg.fails]

end Store

/-- **The handler.** It leaves the updated task. -/
theorem handle_task_update_has {msg : SRxTaskUpdateMsg} {task : SRxCaptureTask} {mgr : CRxSafeTaskMgr}
    (now_usec now : ℤ) (h : Has msg.capture_id task mgr) :
    Has msg.capture_id (updated msg now_usec now task) (handle_task_update msg now_usec now mgr) := by
  unfold handle_task_update
  -- each branch in turn: what it answers, and the task it leaves
  have hstart := branch_has (msg.new_status = .RUNNING ∧ msg.update_start_time = true) h
    (set_capture_started_has h (to_usec msg.start_time)
      (if msg.update_capture_pid then msg.capture_pid else -1) msg.path)
  revert hstart
  generalize (if msg.new_status = .RUNNING ∧ msg.update_start_time = true then _ else (false, mgr)) = r1
  obtain ⟨started, mgr1⟩ := r1
  rintro ⟨hstarted, h1⟩
  have hprogress := branch_has (msg.update_stats = true) h1
    (update_progress_has h1 msg.packet_count msg.bytes_captured
      (if msg.update_end_time then to_usec msg.end_time else 0))
  revert hprogress
  dsimp only
  generalize (if msg.update_stats = true then _ else (false, mgr1)) = r2
  obtain ⟨progressed, mgr2⟩ := r2
  rintro ⟨hprogressed, h2⟩
  have hend := end_capture_has now_usec now h2
  revert hend
  dsimp only
  generalize end_capture msg now_usec now mgr2 = r3
  obtain ⟨ended, mgr3⟩ := r3
  rintro ⟨hended, h3⟩
  dsimp only at hstarted hprogressed hended h3 ⊢
  have hplain : (started = true ∨ progressed = true ∨ ended = true) ↔ ¬ msg.plain = true := by
    rw [hstarted, hprogressed, hended, plain_iff, decide_eq_true_iff, decide_eq_true_iff,
      decide_eq_true_iff, ← starts_iff]
    tauto
  rw [updated]
  by_cases hp : msg.plain = true
  · -- no branch was taken, so the task is still as it was
    rw [if_pos hp, if_neg (mt hplain.mp (not_not_intro hp))]
    have hsame : after_end msg now_usec now (after_progress msg (after_start msg task)) = task := by
      obtain ⟨hstarts, hstats, hcompleted, hfails⟩ := plain_iff.mp hp
      rw [after_end, if_neg hcompleted, after_failure, if_neg (mt fails_iff.mpr hfails), after_progress,
        if_neg hstats, after_start, if_neg (mt starts_iff.mpr hstarts)]
    have h3' : Has msg.capture_id task mgr3 := hsame ▸ h3
    exact (update_task_has h3' fun ptr => ⟨ptr, rfl⟩).2
  · rw [if_neg hp, if_pos (hplain.mpr hp)]
    exact h3

/-! ## Field by field -/

/-- Whole seconds come back where their microseconds fit. -/
theorem usec_to_sec_to_usec (secs : ℤ) : usec_to_sec (to_usec secs) = secs ↔ FitsUsec secs := by
  have hlow := Int.le_bmod (x := secs * 1000000) (m := 2 ^ 64) (by decide)
  have hhigh := Int.bmod_lt (x := secs * 1000000) (m := 2 ^ 64) (by decide)
  unfold usec_to_sec FitsUsec
  constructor
  · intro h
    unfold to_usec at h
    split at h <;> omega
  · rintro ⟨hpos, hmax⟩
    have hsame : to_usec secs = secs * 1000000 := Int.bmod_eq_of_le (by omega) (by omega)
    rw [hsame]
    split <;> omega

/-- The same for a time that is only taken when it is positive. -/
theorem to_usec_div {secs : ℤ} (h : 0 < to_usec secs) : to_usec secs / 1000000 = secs ↔ FitsUsec secs := by
  rw [← usec_to_sec_to_usec, usec_to_sec, if_neg (not_le.mpr h)]

section Fields

variable {msg : SRxTaskUpdateMsg} {now_usec now : ℤ} {task : SRxCaptureTask}

theorem special_status : (specially_updated msg now_usec now task).status = msg.new_status ↔
    msg.starts ∨ msg.new_status = .COMPLETED ∨ msg.fails ∨ task.status = msg.new_status := by
  have hvalue : (specially_updated msg now_usec now task).status
      = if msg.new_status = .COMPLETED then .COMPLETED
        else if msg.new_status = .FAILED ∧ msg.update_error = true then .FAILED
        else if msg.new_status = .RUNNING ∧ msg.update_start_time = true then .RUNNING
        else task.status := by
    unfold specially_updated after_end after_failure after_progress after_start
    split_ifs <;> rfl
  rw [hvalue, starts_iff, fails_iff]
  split
  · next hcompleted => exact iff_of_true hcompleted.symm (.inr (.inl hcompleted))
  · next hcompleted =>
    split
    · next hfails => exact iff_of_true hfails.1.symm (.inr (.inr (.inl hfails)))
    · next hfails =>
      split
      · next hstarts => exact iff_of_true hstarts.1.symm (.inl hstarts)
      · next hstarts => rw [or_iff_right hstarts, or_iff_right hcompleted, or_iff_right hfails]

theorem special_capture_pid (h : msg.update_capture_pid = true) :
    (specially_updated msg now_usec now task).capture_pid = msg.capture_pid ↔
      msg.starts ∨ task.capture_pid = msg.capture_pid := by
  have hvalue : (specially_updated msg now_usec now task).capture_pid
      = if msg.starts then msg.capture_pid else task.capture_pid := by
    simp only [starts_iff]
    unfold specially_updated after_end after_failure after_progress after_start
    split_ifs <;> rfl
  rw [hvalue]
  split
  · next hstarts => exact iff_of_true rfl (.inl hstarts)
  · next hstarts => rw [or_iff_right hstarts]

theorem special_output_file (h : msg.update_output_file = true) :
    (specially_updated msg now_usec now task).output_file = msg.output_file ↔
      ((msg.starts ∨ msg.new_status = .COMPLETED) ∧ msg.output_file ≠ []) ∨
        task.output_file = msg.output_file := by
  have hvalue : (specially_updated msg now_usec now task).output_file
      = if (msg.starts ∨ msg.new_status = .COMPLETED) ∧ msg.output_file ≠ [] then msg.output_file
        else task.output_file := by
    have hpath : msg.path = msg.output_file := if_pos h
    simp only [starts_iff]
    unfold specially_updated after_end after_failure after_progress after_start
    split_ifs <;> simp_all [SRxCaptureTask.with_status, TaskUpdaterProgress, TaskUpdaterStart,
      TaskUpdaterFinished, TaskUpdaterFailed]
  rw [hvalue]
  split
  · next hbranch => exact iff_of_true rfl (.inl hbranch)
  · next hbranch => rw [or_iff_right hbranch]

theorem special_start_time : (specially_updated msg now_usec now task).start_time = msg.start_time ↔
    if msg.starts then FitsUsec msg.start_time else task.start_time = msg.start_time := by
  have hvalue : (specially_updated msg now_usec now task).start_time
      = if msg.starts then usec_to_sec (to_usec msg.start_time) else task.start_time := by
    simp only [starts_iff]
    unfold specially_updated after_end after_failure after_progress after_start
    split_ifs <;> rfl
  rw [hvalue]
  split
  · exact usec_to_sec_to_usec _
  · rfl

theorem special_end_time (h : msg.update_end_time = true) :
    (specially_updated msg now_usec now task).end_time = msg.end_time ↔
      if msg.new_status = .COMPLETED then FitsUsec msg.end_time
      else if msg.fails then msg.end_time = now
      else if msg.update_stats ∧ 0 < to_usec msg.end_time then FitsUsec msg.end_time
      else task.end_time = msg.end_time := by
  have hvalue : (specially_updated msg now_usec now task).end_time
      = if msg.new_status = .COMPLETED then usec_to_sec (to_usec msg.end_time)
        else if msg.fails then now
        else if msg.update_stats ∧ 0 < to_usec msg.end_time then to_usec msg.end_time / 1000000
        else task.end_time := by
    simp only [fails_iff]
    unfold specially_updated after_end after_failure after_progress after_start
    split_ifs <;> simp_all [SRxCaptureTask.with_status, TaskUpdaterProgress, TaskUpdaterStart,
      TaskUpdaterFinished, TaskUpdaterFailed]
  rw [hvalue]
  split
  · exact usec_to_sec_to_usec _
  · split
    · exact eq_comm
    · split
      · next hpos => exact to_usec_div hpos.2
      · rfl

theorem special_stats (h : msg.update_stats = true) :
    ((specially_updated msg now_usec now task).packet_count = msg.packet_count ∧
      (specially_updated msg now_usec now task).bytes_captured = msg.bytes_captured) ↔
      msg.new_status = .COMPLETED ∨
        ((0 < msg.packet_count ∨ task.packet_count = msg.packet_count) ∧
          (0 < msg.bytes_captured ∨ task.bytes_captured = msg.bytes_captured)) := by
  have hpackets : (specially_updated msg now_usec now task).packet_count
      = if msg.new_status = .COMPLETED ∨ 0 < msg.packet_count then msg.packet_count
        else task.packet_count := by
    unfold specially_updated after_end after_failure after_progress after_start
    split_ifs <;> simp_all [SRxCaptureTask.with_status, TaskUpdaterProgress, TaskUpdaterStart,
      TaskUpdaterFinished, TaskUpdaterFailed]
  have hbytes : (specially_updated msg now_usec now task).bytes_captured
      = if msg.new_status = .COMPLETED ∨ 0 < msg.bytes_captured then msg.bytes_captured
        else task.bytes_captured := by
    unfold specially_updated after_end after_failure after_progress after_start
    split_ifs <;> simp_all [SRxCaptureTask.with_status, TaskUpdaterProgress, TaskUpdaterStart,
      TaskUpdaterFinished, TaskUpdaterFailed]
  rw [hpackets, hbytes]
  by_cases hcompleted : msg.new_status = .COMPLETED
  · simp [hcompleted]
  · simp only [hcompleted, false_or]
    have hkept (new old : ℕ) : (if 0 < new then new else old) = new ↔ 0 < new ∨ old = new := by
      split
      · next hnew => exact iff_of_true rfl (.inl hnew)
      · next hnew => rw [or_iff_right hnew]
    rw [hkept, hkept]

theorem special_error : (specially_updated msg now_usec now task).error_message = msg.error_message ↔
    msg.fails ∨ task.error_message = msg.error_message := by
  have hvalue : (specially_updated msg now_usec now task).error_message
      = if msg.fails then msg.error_message else task.error_message := by
    simp only [fails_iff]
    unfold specially_updated after_end after_failure after_progress after_start
    split_ifs <;> simp_all [SRxCaptureTask.with_status, TaskUpdaterProgress, TaskUpdaterStart,
      TaskUpdaterFinished, TaskUpdaterFailed]
  rw [hvalue]
  split
  · next hfails => exact iff_of_true rfl (.inl hfails)
  · next hfails => rw [or_iff_right hfails]

/-- Without a special branch, all that is flagged is set. -/
theorem functor_applied (msg : SRxTaskUpdateMsg) (task : SRxCaptureTask) :
    Applied msg (UpdateTaskFunctor msg task) where
  status := rfl
  capture_pid h := if_pos h
  output_file h := if_pos h
  start_time h := if_pos h
  end_time h := if_pos h
  stats h := ⟨if_pos h, if_pos h⟩
  error h := if_pos h

/-- The special branches set all that is covered. -/
theorem special_applied_iff :
    Applied msg (specially_updated msg now_usec now task) ↔ Covered msg now task := by
  constructor
  · intro h
    exact ⟨special_status.mp h.status, fun hf => (special_capture_pid hf).mp (h.capture_pid hf),
      fun hf => (special_output_file hf).mp (h.output_file hf),
      fun hf => special_start_time.mp (h.start_time hf), fun hf => (special_end_time hf).mp (h.end_time hf),
      fun hf => (special_stats hf).mp (h.stats hf), fun hf => special_error.mp (h.error hf)⟩
  · intro h
    exact ⟨special_status.mpr h.status, fun hf => (special_capture_pid hf).mpr (h.capture_pid hf),
      fun hf => (special_output_file hf).mpr (h.output_file hf),
      fun hf => special_start_time.mpr (h.start_time hf), fun hf => (special_end_time hf).mpr (h.end_time hf),
      fun hf => (special_stats hf).mpr (h.stats hf), fun hf => special_error.mpr (h.error hf)⟩

end Fields

/-! ## All messages -/

/-- The task of the message is there, as the message says. -/
def UpdateApplied (msg : SRxTaskUpdateMsg) (mgr : CRxSafeTaskMgr) : Prop :=
  ∃ task, mgr.task msg.capture_id = some task ∧ Applied msg task

/-- **The updates that have their full effect.** For a task that exists these are
the messages that no special branch is for, and those whose flagged fields the
branches set to the value or the task has already. -/
theorem update_applied_iff {msg : SRxTaskUpdateMsg} {mgr : CRxSafeTaskMgr} {task : SRxCaptureTask}
    (h : mgr.task msg.capture_id = some task) (now_usec now : ℤ) :
    UpdateApplied msg (handle_task_update msg now_usec now mgr) ↔
      msg.plain = true ∨ Covered msg now task := by
  obtain ⟨ptr, hptr⟩ := handle_task_update_has now_usec now (show Has msg.capture_id task mgr from ⟨task.ptr, h⟩)
  have happlied : UpdateApplied msg (handle_task_update msg now_usec now mgr) ↔
      Applied msg (updated msg now_usec now task) := by
    constructor
    · rintro ⟨task', htask', ha⟩
      cases Option.some.inj (hptr.symm.trans htask')
      exact ⟨ha.status, ha.capture_pid, ha.output_file, ha.start_time, ha.end_time, ha.stats, ha.error⟩
    · intro ha
      exact ⟨_, hptr, ha.status, ha.capture_pid, ha.output_file, ha.start_time, ha.end_time, ha.stats,
        ha.error⟩
  rw [happlied, updated]
  by_cases hplain : msg.plain = true
  · rw [if_pos hplain]
    exact iff_of_true (functor_applied msg task) (.inl hplain)
  · rw [if_neg hplain, special_applied_iff, or_iff_right hplain]

/-- A store with one task, which is running. -/
def running_store : CRxSafeTaskMgr :=
  ({} : CRxSafeTaskMgr).add_new_task 7 "k".toList [] "s".toList { capture_id := 7, status := .RUNNING }

theorem running_store_task : (running_store.task 7).map SRxCaptureTask.status = some .RUNNING := by
  decide

/-- A capture that has finished, with its file and its counts. -/
def finished_update : SRxTaskUpdateMsg where
  capture_id := 7
  new_status := .COMPLETED
  update_output_file := true
  output_file := "a.pcap".toList
  update_end_time := true
  end_time := 1700000000
  update_stats := true
  packet_count := 12
  bytes_captured := 3400

theorem finished_update_applied :
    UpdateApplied finished_update (handle_task_update finished_update 0 0 running_store) := by
  obtain ⟨task, htask, -⟩ := Option.map_eq_some_iff.mp running_store_task
  refine (update_applied_iff htask 0 0).mpr (.inr ?_)
  have hend : FitsUsec finished_update.end_time := by decide
  exact {
    status := .inr (.inl rfl)
    capture_pid := fun h => absurd h (by decide)
    output_file := fun _ => .inl ⟨.inr rfl, by decide⟩
    start_time := fun h => absurd h (by decide)
    end_time := fun _ => (if_pos rfl).mpr hend
    stats := fun _ => .inl rfl
    error := fun h => absurd h (by decide) }

/-- A capture that is stopped, with its counts so far. -/
def stopped_update : SRxTaskUpdateMsg where
  capture_id := 7
  new_status := .STOPPED
  update_stats := true
  packet_count := 12
  bytes_captured := 3400

theorem stopped_update_dropped : (running_store.task 7).isSome ∧
    ¬ UpdateApplied stopped_update (handle_task_update stopped_update 0 0 running_store) := by
  refine ⟨by decide, ?_⟩
  rintro ⟨task, htask, happlied⟩
  have hstatus : ((handle_task_update stopped_update 0 0 running_store).task 7).map SRxCaptureTask.status
      = some .RUNNING := by
    decide
  have hstopped := hstatus.symm.trans (congrArg (Option.map SRxCaptureTask.status) htask)
  rw [Option.map_some, happlied.status] at hstopped
  cases hstopped

end RxNetCap.Capture
