/-
A worker's capture: `CRxCaptureJob` of `src/rxcapturesession.cpp`, and
`build_task_cfg` and `execute_capture` of `src/rxcapturethread.cpp`.

`usleep` and the log are left out, and so is the job's filter thread, which no
job has. The value that `run_once` returns only says how long to sleep. What
`pcap_compile` makes of the filter shows in the packets that arrive.
-/
import RxNetCap.Capture.Storage
import RxNetCap.Capture.System
import RxNetCap.Lib.Until

set_option autoImplicit false

namespace RxNetCap.Capture

open RxNetCap.Pdef RxNetCap.Until

/-! ## The task -/

structure CRxCaptureTaskCfg where
  iface : CStr := []
  bpf : CStr := []
  outfile : CStr := []
  duration_sec : ℤ := 0
  category : CStr := []
  file_pattern : CStr := []
  max_bytes : ℤ := 0
  proc_name : CStr := []
  protocol_filter : CStr := []
  protocol_filter_inline : CStr := []
  port : ℤ := 0
  deriving DecidableEq, Repr

/-- A number, or 0 when it is negative. -/
def not_negative (n : ℤ) : ℤ := if n < 0 then 0 else n

def build_task_cfg (spec : CaptureSpec) (config : CaptureConfigSnapshot) : CRxCaptureTaskCfg where
  iface := non_empty_or spec.resolved_iface spec.iface
  bpf := spec.filter
  outfile := []
  duration_sec := not_negative (positive_or spec.max_duration_sec config.max_duration_sec)
  category := spec.category
  file_pattern :=
    non_empty_or (non_empty_or spec.output_pattern config.filename_template) default_pattern
  max_bytes := not_negative (positive_or spec.max_bytes config.max_bytes)
  proc_name := spec.proc_name
  protocol_filter := spec.protocol_filter
  protocol_filter_inline := spec.protocol_filter_inline
  port := spec.port_filter

/-- What a job reads of its task. -/
structure CRxCaptureTaskInfo where
  base_dir : CStr := []
  stopping : Bool := false
  deriving DecidableEq, Repr

/-! ## The job -/

structure CRxCaptureJob where
  cfg_ : CRxCaptureTaskCfg
  parent_task_info_ : CRxCaptureTaskInfo
  dumper_context_ : CRxDumpCtx := {}
  done_ : Bool := false
  packets_ : ℕ := 0
  end_time_sec_ : ℕ := 0
  deriving DecidableEq

/-- Whether `pcap_open_live` succeeds, how the first file is opened,
`time(NULL)` for the context and `now_sec()`. -/
structure PrepareWorld where
  live : Bool := true
  file : OpenWorld := {}
  start_time : ℤ := 0
  now_sec : ℕ := 0

/-- The context of a job before a file is open. -/
def CRxCaptureJob.new_context (world : PrepareWorld) (job : CRxCaptureJob) : CRxDumpCtx where
  max_bytes := job.cfg_.max_bytes
  start_time := world.start_time
  base_dir := job.parent_task_info_.base_dir
  pattern := job.cfg_.file_pattern
  category := job.cfg_.category
  iface := job.cfg_.iface
  proc := job.cfg_.proc_name
  port := job.cfg_.port
  protocol_filter_path := job.cfg_.protocol_filter

/-- The context with the first file, which may not be open. -/
def CRxCaptureJob.first_context (world : PrepareWorld) (job : CRxCaptureJob) : CRxDumpCtx :=
  let dc := job.new_context world
  if job.cfg_.file_pattern ≠ [] ∨ job.parent_task_info_.base_dir ≠ [] then
    rotate_open world.file dc
  else if job.cfg_.outfile ≠ [] then
    { dc with
      d := pcap_dump_open world.file job.cfg_.outfile
      current_path := job.cfg_.outfile }
  else dc

def CRxCaptureJob.prepare (world : PrepareWorld) (job : CRxCaptureJob) : Option CRxCaptureJob :=
  let dc := job.first_context world
  if world.live = false ∨ dc.d = none then none
  else
    some { job with
      dumper_context_ := dc
      end_time_sec_ :=
        if job.cfg_.duration_sec > 0 then world.now_sec + job.cfg_.duration_sec.toNat
        else job.end_time_sec_ }

/-- What one `pcap_dispatch` hands to `dump_cb`, whether it reports an error,
and `now_sec()` after it. It hands over 100 packets at most, on which nothing
depends here. -/
structure DispatchTurn where
  packets : List Delivery := []
  failed : Bool := false
  now_sec : ℕ

/-- The end time is set and has come. -/
def due (end_time_sec now_sec : ℕ) : Bool := end_time_sec > 0 ∧ now_sec ≥ end_time_sec

/-- `run_once` of a job that is not done. -/
def CRxCaptureJob.dispatch (job : CRxCaptureJob) (turn : DispatchTurn) : Option CRxCaptureJob :=
  (turn.packets.foldlM dump_cb job.dumper_context_).map fun dc =>
    { job with
      dumper_context_ := dc
      packets_ := if turn.failed then job.packets_ else job.packets_ + turn.packets.length
      done_ := job.parent_task_info_.stopping || due job.end_time_sec_ turn.now_sec }

/-- There is no job when the program ends in `dump_cb`. -/
def CRxCaptureJob.run_once (job : CRxCaptureJob) (turn : DispatchTurn) : Option CRxCaptureJob :=
  if job.done_ then some job else job.dispatch turn

def CRxCaptureJob.cleanup (job : CRxCaptureJob) : CRxCaptureJob :=
  { job with
    dumper_context_ :=
      { job.dumper_context_ with
        closed := job.dumper_context_.closed ++ job.dumper_context_.d.toList
        d := none }
    done_ := true }

def CRxCaptureJob.get_bytes_written (job : CRxCaptureJob) : ℕ :=
  job.dumper_context_.written.toNat

/-! ## The worker -/

/-- The job of a start message. -/
def job_of (start_msg : SRxCaptureStartMsgV2) : CRxCaptureJob where
  cfg_ := build_task_cfg start_msg.spec start_msg.config
  parent_task_info_ :=
    { base_dir := non_empty_or start_msg.config.output_dir "capture_output".toList }

/-- What a capture meets: the turns go on as long as it asks for them. -/
structure CaptureWorld where
  prepare : PrepareWorld := {}
  turns : ℕ → DispatchTurn
  start_ts : ℤ := 0
  capture_pid : ℤ := 0
  finish_ts : ℤ := 0
  stat_size : Option ℕ := none

/-- How `execute_capture` ends, if it does: without a job when it could not be
prepared, or else with the job as it is after its cleanup. -/
inductive execute_capture (start_msg : SRxCaptureStartMsgV2) (world : CaptureWorld) :
    Option CRxCaptureJob → Prop where
  | failure (unprepared : (job_of start_msg).prepare world.prepare = none) :
      execute_capture start_msg world none
  | result {job job' : CRxCaptureJob}
      (prepared : (job_of start_msg).prepare world.prepare = some job)
      (ends : EndsIn CRxCaptureJob.run_once CRxCaptureJob.done_ world.turns job job') :
      execute_capture start_msg world (some job'.cleanup)

/-- An end that some rounds lead to. -/
theorem execute_capture_of_rounds (start_msg : SRxCaptureStartMsgV2) (world : CaptureWorld)
    {P : CRxCaptureJob → Prop} [DecidablePred P] (k : ℕ)
    (h : (((job_of start_msg).prepare world.prepare).bind fun job =>
      rounds CRxCaptureJob.run_once CRxCaptureJob.done_ world.turns job k).any
        (fun job' => job'.done_ && decide (P job'.cleanup)) = true) :
    ∃ job, execute_capture start_msg world (some job) ∧ P job := by
  obtain ⟨job', hrounds, hend⟩ := (Option.any_eq_true _ _).mp h
  obtain ⟨job, hprepared, hjob'⟩ := Option.bind_eq_some_iff.mp hrounds
  rw [Bool.and_eq_true, decide_eq_true_eq] at hend
  exact ⟨job'.cleanup, .result hprepared ⟨k, hjob', hend.1⟩, hend.2⟩

def result_of (world : CaptureWorld) (job : CRxCaptureJob) : JobResult where
  final_path := job.dumper_context_.current_path
  total_packets := job.packets_
  total_bytes := job.get_bytes_written
  finish_ts := world.finish_ts
  stat_size := world.stat_size

/-- The first file of a job, when it is prepared. -/
def initial_file (start_msg : SRxCaptureStartMsgV2) (world : CaptureWorld) : CStr :=
  ((job_of start_msg).first_context world.prepare).current_path

/-- What the worker posts on the way. -/
def capture_sends (threads : List ℕ) (worker : ℕ) (start_msg : SRxCaptureStartMsgV2)
    (world : CaptureWorld) : Option CRxCaptureJob → Mail
  | none =>
    send_failure threads worker start_msg .START_TCPDUMP_FAILED "pcap_prepare_failed".toList
  | some job =>
    send_started threads worker start_msg world.start_ts world.capture_pid
        (initial_file start_msg world)
      ++ send_result threads worker start_msg (result_of world job)

/-- The steps of a worker are those of `execute_capture`: when it ends, they
lead on to the end of the capture, with what it posts. -/
theorem execute_capture_run {cfg : Config} {history : List Entry} {s : System} {c : ℤ}
    {worker : ℕ} {start_msg : SRxCaptureStartMsgV2} {world : CaptureWorld}
    {outcome : Option CRxCaptureJob} (h : execute_capture start_msg world outcome)
    (run : Run cfg history s) (phase : s.phase c = .dispatched worker start_msg) :
    ∃ more s', Run cfg (history ++ more) s' ∧ s'.phase c = .over ∧ s'.manager = s.manager ∧
      s'.letters = s.letters ++ capture_sends cfg.threads worker start_msg world outcome := by
  cases h with
  | failure =>
    exact ⟨_, _, run.step (.abort phase), phase_post _ _, rfl, rfl⟩
  | @result job job' =>
    have begun := run.step (.begin world.start_ts world.capture_pid (initial_file start_msg world)
      phase)
    have ended := begun.step (.finish (result_of world job'.cleanup) (phase_post _ _))
    rw [List.append_assoc] at ended
    refine ⟨_, _, ended, phase_post _ _, rfl, ?_⟩
    exact List.append_assoc s.letters _ _

/-! ## What a job does with its turns -/

/-- The packets of some turns are written one after another. -/
theorem foldlM_dispatch (turns : List DispatchTurn) (job : CRxCaptureJob) :
    (turns.foldlM CRxCaptureJob.dispatch job).map CRxCaptureJob.dumper_context_
      = (turns.flatMap DispatchTurn.packets).foldlM dump_cb job.dumper_context_ := by
  induction turns generalizing job with
  | nil => rfl
  | cons turn turns ih =>
    rw [List.foldlM_cons, List.flatMap_cons, List.foldlM_append, CRxCaptureJob.dispatch]
    cases turn.packets.foldlM dump_cb job.dumper_context_ with
    | none => rfl
    | some dc => exact ih _

/-- What stays as it is while a job runs. -/
def Runs (end_time_sec : ℕ) (job : CRxCaptureJob) : Prop :=
  job.end_time_sec_ = end_time_sec ∧ job.parent_task_info_.stopping = false

/-- Only the clock ends a job. -/
theorem dispatch_step {end_time_sec : ℕ} {job job' : CRxCaptureJob} {turn : DispatchTurn}
    (hruns : Runs end_time_sec job) (h : job.dispatch turn = some job') :
    Runs end_time_sec job' ∧ job'.done_ = due end_time_sec turn.now_sec := by
  obtain ⟨dc, -, rfl⟩ := Option.map_eq_some_iff.mp h
  refine ⟨hruns, ?_⟩
  simp only [hruns.1, hruns.2, Bool.false_or]

/-- The first file has a name from a pattern, if only the default one. -/
theorem first_context_eq (world : PrepareWorld) (start_msg : SRxCaptureStartMsgV2) :
    (job_of start_msg).first_context world
      = rotate_open world.file ((job_of start_msg).new_context world) := by
  have hpattern : (job_of start_msg).cfg_.file_pattern ≠ [] := non_empty_or_ne_nil (by decide)
  exact if_pos (.inl hpattern)

/-- A prepared job has an open file, and nothing in it. -/
theorem prepare_spec {world : PrepareWorld} {start_msg : SRxCaptureStartMsgV2}
    {job : CRxCaptureJob} (h : (job_of start_msg).prepare world = some job) :
    job.dumper_context_.d.isSome = true ∧ job.dumper_context_.packets = [] ∧
      job.dumper_context_.written = 0 ∧
      job.dumper_context_.max_bytes = (build_task_cfg start_msg.spec start_msg.config).max_bytes ∧
      job.done_ = false ∧ Runs job.end_time_sec_ job := by
  rw [CRxCaptureJob.prepare, first_context_eq] at h
  split at h
  · cases h
  · next hopened =>
    rw [← Option.some.inj h]
    refine ⟨?_, rotate_open_packets _ _, rfl, rfl, rfl, rfl, rfl⟩
    exact Option.isSome_iff_ne_none.mpr (not_or.mp hopened).2

/-- And it knows when to end, if it has a duration. -/
theorem prepare_end_time {world : PrepareWorld} {start_msg : SRxCaptureStartMsgV2}
    {job : CRxCaptureJob} (h : (job_of start_msg).prepare world = some job)
    (hduration : 0 < (build_task_cfg start_msg.spec start_msg.config).duration_sec) :
    job.end_time_sec_ = world.now_sec
      + (build_task_cfg start_msg.spec start_msg.config).duration_sec.toNat := by
  rw [CRxCaptureJob.prepare] at h
  split at h
  · cases h
  · rw [← Option.some.inj h]
    exact if_pos hduration

end RxNetCap.Capture
