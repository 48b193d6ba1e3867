/-
The manager thread of `src/rxcapturemanagerthread.cpp`: its handlers for
requests, sample alerts and the messages of a capture.

`CRxProcData::instance()` makes the object it is asked for, or ends the
process, so the null checks on it have no branch here.

`notices` is the part of the log that reports the end of a capture: the line
each handler writes when it has put a task into a final status. `writebacks`
are the calls of `writeback_endian_to_file` so far, with what they returned.
-/
import RxNetCap.Capture.FilterThread
import RxNetCap.Capture.Sample
import RxNetCap.Capture.TaskStore
import RxNetCap.Capture.Usage

set_option autoImplicit false

namespace RxNetCap.Capture

open RxNetCap.Mailbox RxNetCap.Tally RxNetCap.Pdef

/-! ## State -/

/-- A call of `writeback_endian_to_file` and whether it succeeded. -/
structure Writeback where
  pdef_path : CStr
  endian : EndianType
  succeeded : Bool
  deriving DecidableEq, Repr

structure Manager where
  task_mgr : CRxSafeTaskMgr := {}
  pdef_usage_map : UsageMap := ∅
  module_last_trigger : Store CStr ℤ := ∅
  next_filter : ℕ := 0
  next_worker : ℕ := 0
  next_capture_id : ℤ := 1000
  notices : List (ℤ × ECaptureTaskStatus) := []
  writebacks : List Writeback := []

/-- The threads of the process: the manager's index, its filter threads (a
null pointer is `none`) and workers, the cleanup thread if there is one, and
the indexes of all running threads. -/
structure Config where
  manager : ℕ
  filter_threads : List (Option ℕ)
  workers : List ℕ
  cleanup : Option ℕ
  threads : List ℕ
  max_concurrent_captures : ℤ
  manager_pos : 0 < manager
  manager_runs : manager ∈ threads
  manager_apart : some manager ∉ filter_threads
  cleanup_apart : ∀ t, cleanup = some t → t ≠ manager ∧ some t ∉ filter_threads

/-- What a handler of the manager meets: the clock, whether the PDEF file
could be rewritten, and the configuration in force. -/
structure ManagerWorld where
  now_usec : ℤ := 0
  now : ℤ := 0
  writeback_ok : Bool := false
  strategy : Option CRxStrategyConfigManager := none

/-! ## Cooldown -/

/-- The cooldown of an alert. -/
def cooldown_of (strategy : Option CRxStrategyConfigManager) (alert : SRxSampleMsg) : ℤ :=
  let cooldown_sec :=
    match strategy with
    | none => alert.cooldown_sec
    | some cfg => positive_or alert.cooldown_sec cfg.per_key_cooldown_sec
  positive_or cooldown_sec 60

def should_throttle_module (module_name : CStr) (cooldown_sec now : ℤ) (m : Manager) : Bool :=
  match m.module_last_trigger.lookup module_name with
  | none => false
  | some last => cooldown_sec > 0 ∧ now ≥ last ∧ now - last < cooldown_sec

/-- The module that a request user stands for, if it stands for one. -/
def user_module (request_user : CStr) : Option CStr :=
  if request_user.length ≤ kModulePrefix.length then none
  else if kModulePrefix.isPrefixOf request_user = false then none
  else some (request_user.drop kModulePrefix.length)

def clear_module_cooldown_for_capture (capture_id : ℤ) (m : Manager) : Manager :=
  match (m.task_mgr.task capture_id).bind fun task => user_module task.request_user with
  | none => m
  | some module_name =>
    { m with module_last_trigger := m.module_last_trigger.erase module_name }

/-! ## Messages of a capture -/

def handle_capture_started_v2 (started : SRxCaptureStartedMsgV2) (m : Manager) : Manager :=
  { m with
    task_mgr := (m.task_mgr.set_capture_started started.capture_id started.start_ts
      started.capture_pid started.output_file).2 }

def handle_capture_file_ready_v2 (cfg : Config) (ready : SRxCaptureFileReadyMsgV2)
    (world : ManagerWorld) (m : Manager) : Manager × Mail :=
  if ready.files = [] then (m, [])
  else
    let m := { m with
      task_mgr := (m.task_mgr.append_capture_files ready.capture_id ready.files).2 }
    match cfg.cleanup with
    | none => (m, [])
    | some cleanup_thread =>
      (m, put_obj_msg cfg.threads cfg.manager cleanup_thread
        (.file_enqueue
          { capture_id := ready.capture_id
            key := ready.key
            sid := ready.sid
            sender_thread_index := cfg.manager
            files := ready.files
            clean_policy := get_capture_config_snapshot world.strategy }))

def MarkStoppedFunctor (ts_usec : ℤ) (packets bytes : ℕ) (message : CStr) (now : ℤ)
    (task : SRxCaptureTask) : SRxCaptureTask :=
  { task with
    end_time := if ts_usec ≤ 0 then now else ts_usec / 1000000
    packet_count := packets
    bytes_captured := bytes
    error_message := message
    stop_requested := false }

/-- Note the final status of a capture. -/
def Manager.notice (capture_id : ℤ) (status : ECaptureTaskStatus) (m : Manager) : Manager :=
  { m with notices := m.notices ++ [(capture_id, status)] }

/-- The final status that a result leads to, and its change of the tasks. -/
def finish_task (capture_id : ℤ) (result : CaptureResultStats) (now : ℤ) (mgr : CRxSafeTaskMgr) :
    ECaptureTaskStatus × CRxSafeTaskMgr :=
  if result.exit_code = 0 then
    (.COMPLETED, (mgr.set_capture_finished capture_id result.finish_ts result.total_packets
      result.total_bytes []).2)
  else if result.exit_code = ERR_RUN_CANCELLED then
    let updater := MarkStoppedFunctor result.finish_ts result.total_packets result.total_bytes
      (non_empty_or result.error_message "stopped".toList) now
    (.STOPPED, ((mgr.update_task capture_id updater).2.update_status capture_id .STOPPED).2)
  else
    (.FAILED, (mgr.set_capture_failed capture_id
      (non_empty_or result.error_message "capture_failed".toList) now).2)

def handle_capture_finished_v2 (finished : SRxCaptureFinishedMsgV2) (world : ManagerWorld)
    (m : Manager) : Manager :=
  let (status, task_mgr) := finish_task finished.capture_id finished.result world.now m.task_mgr
  clear_module_cooldown_for_capture finished.capture_id
    ({ m with task_mgr }.notice finished.capture_id status)

def handle_capture_failed_v2 (failed : SRxCaptureFailedMsgV2) (world : ManagerWorld)
    (m : Manager) : Manager :=
  let task_mgr := (m.task_mgr.set_capture_failed failed.capture_id
    (non_empty_or failed.error_message (rx_capture_error_to_string failed.error_code))
    world.now).2
  clear_module_cooldown_for_capture failed.capture_id
    ({ m with task_mgr }.notice failed.capture_id .FAILED)

/-- The filter thread whose turn it is; `none` for a null pointer. -/
def filter_thread_for (filter_threads : List (Option ℕ)) (next_filter : ℕ) : Option ℕ :=
  filter_threads.getD (next_filter % filter_threads.length) none

/-- The use of the PDEF file is noted first, and taken back when there is no
filter thread at all, but not when the one whose turn it is is a null pointer. -/
def handle_capture_raw_file_v2 (cfg : Config) (raw : SRxCaptureRawFileMsgV2) (m : Manager) :
    Manager × Mail :=
  let usage := track_pdef_usage_start raw.capture_id raw.pdef_file_path m.pdef_usage_map
  if cfg.filter_threads = [] then
    ({ m with
      pdef_usage_map := track_pdef_usage_end raw.capture_id raw.pdef_file_path usage }, [])
  else
    let m' := { m with pdef_usage_map := usage, next_filter := m.next_filter + 1 }
    match filter_thread_for cfg.filter_threads m.next_filter with
    | none => (m', [])
    | some filter_thread =>
      (m', put_obj_msg cfg.threads cfg.manager filter_thread
        (.raw_file { raw with manager_thread_index := cfg.manager }))

/-- `writeback_ok` is what `writeback_endian_to_file` returns. -/
def try_writeback_pdef_endian (pdef_path : CStr) (writeback_ok : Bool) (m : Manager) : Manager :=
  match writeback_due pdef_path m.pdef_usage_map with
  | none => m
  | some endian =>
    { m with
      writebacks := m.writebacks ++ [⟨pdef_path, endian, writeback_ok⟩]
      pdef_usage_map :=
        if writeback_ok then mark_written pdef_path m.pdef_usage_map else m.pdef_usage_map }

/-- The file of a filtered capture. -/
def filtered_files (filtered : SRxCaptureFilteredFileMsgV2) (world : ManagerWorld) :
    List CaptureFileInfo :=
  [{ file_path := filtered.filtered_pcap_path
     file_size := filtered.file_size
     file_ready_ts := world.now_usec }]

def handle_capture_filtered_file_v2 (filtered : SRxCaptureFilteredFileMsgV2)
    (world : ManagerWorld) (m : Manager) : Manager :=
  let task_mgr := (m.task_mgr.append_capture_files filtered.capture_id
    (filtered_files filtered world)).2
  let task_mgr := (task_mgr.set_capture_finished filtered.capture_id world.now_usec
    filtered.total_packets filtered.file_size filtered.filtered_pcap_path).2
  let m := clear_module_cooldown_for_capture filtered.capture_id
    ({ m with task_mgr }.notice filtered.capture_id .COMPLETED)
  if filtered.pdef_file_path = [] then m
  else
    try_writeback_pdef_endian filtered.pdef_file_path world.writeback_ok
      { m with
        pdef_usage_map :=
          track_pdef_usage_end filtered.capture_id filtered.pdef_file_path m.pdef_usage_map }

def handle_pdef_endian_detected (msg : SRxPdefEndianMsg) (world : ManagerWorld) (m : Manager) :
    Manager :=
  if msg.pdef_file_path = [] then m
  else
    let info := (m.pdef_usage_map.lookup msg.pdef_file_path).getD {}
    if info.writeback_done then
      { m with pdef_usage_map := m.pdef_usage_map.insert msg.pdef_file_path info }
    else
      try_writeback_pdef_endian msg.pdef_file_path world.writeback_ok
        { m with
          pdef_usage_map := m.pdef_usage_map.insert msg.pdef_file_path
            (learn_usage_endian msg.detected_endian info) }

/-- `handle_msg` of the manager, for the messages of a capture. -/
def manager_handle_msg (cfg : Config) (msg : Msg) (world : ManagerWorld) (m : Manager) :
    Manager × Mail :=
  match msg with
  | .started msg => (handle_capture_started_v2 msg m, [])
  | .file_ready msg => handle_capture_file_ready_v2 cfg msg world m
  | .finished msg => (handle_capture_finished_v2 msg world m, [])
  | .failed msg => (handle_capture_failed_v2 msg world m, [])
  | .raw_file msg => handle_capture_raw_file_v2 cfg msg m
  | .filtered_file msg => (handle_capture_filtered_file_v2 msg world m, [])
  | .endian_detected msg => (handle_pdef_endian_detected msg world m, [])
  | .file_enqueue _ => (m, [])

/-! ## Requests and alerts -/

/-- `count_active_tasks`: the number that is held against the limit. -/
def running_tasks (mgr : CRxSafeTaskMgr) : ℕ :=
  mgr.stats.running_count + mgr.stats.resolving_count

def get_max_concurrent_limit (cfg : Config) : ℕ :=
  if cfg.max_concurrent_captures ≤ 0 then 1 else cfg.max_concurrent_captures.toNat

/-- The active task that a request would duplicate: by its signature, or else
by its key. -/
def duplicate_of (request : StartRequest) (mgr : CRxSafeTaskMgr) : Option SRxCaptureTask :=
  match mgr.query_active_task_by_signature request.signature with
  | some task => some task
  | none => if mgr.is_key_active request.key then mgr.query_task_by_key request.key else none

/-- Neither a duplicate nor over the limit. -/
def accepts_start (cfg : Config) (request : StartRequest) (m : Manager) : Bool :=
  (duplicate_of request m.task_mgr).isNone
    ∧ running_tasks m.task_mgr < get_max_concurrent_limit cfg

/-- The task of a request as it is created. -/
def new_task_of (capture_id : ℤ) (request : StartRequest) (now : ℤ) : SRxCaptureTask where
  capture_id := capture_id
  key := request.key
  signature := request.signature
  sid := request.sid
  request_user := request.start_msg.request_user
  status := .PENDING
  start_time := now

def create_and_add_capture_task (request : StartRequest) (now : ℤ) (m : Manager) :
    ℤ × Manager :=
  (m.next_capture_id,
    { m with
      task_mgr := m.task_mgr.add_new_task m.next_capture_id request.key request.signature
        request.sid (new_task_of m.next_capture_id request now)
      next_capture_id := m.next_capture_id + 1 })

def AssignWorkerFunctor (worker_id : ℕ) (task : SRxCaptureTask) : SRxCaptureTask :=
  { task with
    worker_thread_index := worker_id
    stop_requested := false
    cancel_requested := false
    status := if task.status = .PENDING then .RESOLVING else task.status }

/-- A start message and the worker that it goes to. -/
abbrev Dispatch := ℕ × SRxCaptureStartMsgV2

/-- No worker gets the capture when there is none. -/
def dispatch_task_to_worker (cfg : Config) (capture_id : ℤ) (request : StartRequest)
    (m : Manager) : Option Dispatch × Manager :=
  if cfg.workers = [] then (none, m)
  else
    let worker := cfg.workers.getD (m.next_worker % cfg.workers.length) 0
    (some (worker,
      { capture_id
        key := request.key
        sid := request.sid
        sender_thread_index := cfg.manager
        config := request.config
        spec := request.spec
        worker_id := worker }),
      { m with
        next_worker := m.next_worker + 1
        task_mgr := (m.task_mgr.update_task capture_id (AssignWorkerFunctor worker)).2 })

/-- The end of `handle_start_capture`: a new task, and a worker for it. -/
def add_and_dispatch (cfg : Config) (request : StartRequest) (now : ℤ) (m : Manager) :
    Option Dispatch × Manager :=
  let (capture_id, m) := create_and_add_capture_task request now m
  dispatch_task_to_worker cfg capture_id request m

def handle_start_capture (cfg : Config) (start_msg : SRxStartCaptureMsg) (world : RequestWorld)
    (m : Manager) : Option Dispatch × Manager :=
  match prepare_start world start_msg with
  | none => (none, m)
  | some request =>
    if accepts_start cfg request m then add_and_dispatch cfg request world.now m else (none, m)

/-- `now` is the time at which the cooldown is looked at. -/
def handle_sample_alert (cfg : Config) (alert : SRxSampleMsg) (world : RequestWorld) (now : ℤ)
    (m : Manager) : Option Dispatch × Manager :=
  let module_name := module_of alert
  if alert.capture_hint = [] then (none, m)
  else if should_throttle_module module_name (cooldown_of world.strategy alert) now m then
    (none, m)
  else
    match prepare_capture_from_sample alert world.strategy with
    | none => (none, m)
    | some start_msg =>
      handle_start_capture cfg start_msg world
        { m with module_last_trigger := m.module_last_trigger.insert module_name now }

/-! ## What the handlers do -/

/-- The number of notices about a capture. -/
def noticed (c : ℤ) (m : Manager) : ℕ := m.notices.countP fun notice => notice.1 = c

@[simp] theorem noticed_notice (c c' : ℤ) (status : ECaptureTaskStatus) (m : Manager) :
    noticed c (m.notice c' status) = noticed c m + (if c' = c then 1 else 0) := by
  rw [noticed, Manager.notice, List.countP_append, List.countP_singleton, noticed]
  simp only [decide_eq_true_eq]

/-- Clearing a cooldown changes nothing else. -/
theorem clear_module_cooldown_eq (capture_id : ℤ) (m : Manager) :
    ∃ module_last_trigger, clear_module_cooldown_for_capture capture_id m
      = { m with module_last_trigger } := by
  unfold clear_module_cooldown_for_capture
  split
  · exact ⟨_, rfl⟩
  · exact ⟨_, rfl⟩

/-- Writing back touches the files only: what is used stays in use. -/
theorem try_writeback_eq (pdef_path : CStr) (writeback_ok : Bool) (m : Manager) :
    ∃ pdef_usage_map writebacks, try_writeback_pdef_endian pdef_path writeback_ok m
      = { m with pdef_usage_map, writebacks } ∧
      ∀ p, active_in pdef_usage_map p = active_in m.pdef_usage_map p := by
  unfold try_writeback_pdef_endian
  split
  · exact ⟨_, _, rfl, fun _ => rfl⟩
  · refine ⟨_, _, rfl, fun p => ?_⟩
    split
    · rw [active_in_mark_written]
    · rfl

/-- Only capture `c` is concerned: no other task is changed, no other capture
noticed, the others use the files they used, and no id is taken. -/
structure Touches (c : ℤ) (m m' : Manager) : Prop where
  tasks : ChangesTask c m.task_mgr m'.task_mgr
  noticed : ∀ c' ≠ c, noticed c' m' = noticed c' m
  active : ∀ c' ≠ c, ∀ p,
    c' ∈ active_in m'.pdef_usage_map p ↔ c' ∈ active_in m.pdef_usage_map p
  next : m'.next_capture_id = m.next_capture_id

theorem Touches.refl (c : ℤ) (m : Manager) : Touches c m m :=
  ⟨ChangesTask.refl c m.task_mgr, fun _ _ => rfl, fun _ _ _ => Iff.rfl, rfl⟩

theorem Touches.trans {c : ℤ} {m m' m'' : Manager} (h : Touches c m m') (h' : Touches c m' m'') :
    Touches c m m'' where
  tasks := h.tasks.trans h'.tasks
  noticed c' hc := (h'.noticed c' hc).trans (h.noticed c' hc)
  active c' hc p := (h'.active c' hc p).trans (h.active c' hc p)
  next := h'.next.trans h.next

theorem touches_clear (c capture_id : ℤ) (m : Manager) :
    Touches c m (clear_module_cooldown_for_capture capture_id m) := by
  obtain ⟨last, hclear⟩ := clear_module_cooldown_eq capture_id m
  rw [hclear]
  exact ⟨ChangesTask.refl c _, fun _ _ => rfl, fun _ _ _ => Iff.rfl, rfl⟩

theorem touches_writeback (c : ℤ) (pdef_path : CStr) (writeback_ok : Bool) (m : Manager) :
    Touches c m (try_writeback_pdef_endian pdef_path writeback_ok m) := by
  obtain ⟨usage, writebacks, hwriteback, hactive⟩ :=
    try_writeback_eq pdef_path writeback_ok m
  rw [hwriteback]
  refine ⟨ChangesTask.refl c _, fun _ _ => rfl, fun c' _ p => ?_, rfl⟩
  rw [hactive p]

/-- A new state of the tasks that concerns `c` alone. -/
theorem touches_tasks {c : ℤ} {m : Manager} {task_mgr : CRxSafeTaskMgr}
    (h : ChangesTask c m.task_mgr task_mgr) : Touches c m { m with task_mgr } :=
  ⟨h, fun _ _ => rfl, fun _ _ _ => Iff.rfl, rfl⟩

/-- A notice about `c`. -/
theorem touches_notice (c : ℤ) (status : ECaptureTaskStatus) (m : Manager) :
    Touches c m (m.notice c status) where
  tasks := ChangesTask.refl c _
  noticed c' hc := by rw [noticed_notice, if_neg (Ne.symm hc), Nat.add_zero]
  active _ _ _ := Iff.rfl
  next := rfl

/-- Another map in which the other captures use what they used. -/
theorem touches_usage {c : ℤ} {m : Manager} {pdef_usage_map : UsageMap}
    (h : ∀ c' ≠ c, ∀ p, c' ∈ active_in pdef_usage_map p ↔ c' ∈ active_in m.pdef_usage_map p) :
    Touches c m { m with pdef_usage_map } :=
  ⟨ChangesTask.refl c _, fun _ _ => rfl, h, rfl⟩

theorem mem_active_start {c c' : ℤ} (hc : c' ≠ c) (pdef_path : CStr) (usage : UsageMap)
    (p : CStr) :
    c' ∈ active_in (track_pdef_usage_start c pdef_path usage) p ↔ c' ∈ active_in usage p := by
  rw [active_in_start]
  split
  · rw [Finset.mem_insert, or_iff_right hc]
  · rfl

theorem mem_active_end {c c' : ℤ} (hc : c' ≠ c) (pdef_path : CStr) (usage : UsageMap)
    (p : CStr) :
    c' ∈ active_in (track_pdef_usage_end c pdef_path usage) p ↔ c' ∈ active_in usage p := by
  rw [active_in_end]
  split
  · rw [Finset.mem_erase, and_iff_right hc]
  · rfl

theorem finish_task_changes (capture_id : ℤ) (result : CaptureResultStats) (now : ℤ)
    (mgr : CRxSafeTaskMgr) :
    ChangesTask capture_id mgr (finish_task capture_id result now mgr).2 := by
  unfold finish_task
  split
  · exact ChangesTask.update_then _ _ _ _
  · split
    · exact (ChangesTask.update_task _ _ _).trans (ChangesTask.update_status _ _ _)
    · exact ChangesTask.update_then _ _ _ _

theorem finish_task_field {α : Type} {f : SRxCaptureTask → α} (hf : Lasting f)
    (hfinished : ∀ ts packets bytes path task,
      f (TaskUpdaterFinished ts packets bytes path task) = f task)
    (hstopped : ∀ ts packets bytes message now task,
      f (MarkStoppedFunctor ts packets bytes message now task) = f task)
    (hfailed : ∀ message now task, f (TaskUpdaterFailed message now task) = f task)
    (capture_id : ℤ) (result : CaptureResultStats) (now : ℤ) (mgr : CRxSafeTaskMgr) (c : ℤ) :
    ((finish_task capture_id result now mgr).2.task c).map f = (mgr.task c).map f := by
  unfold finish_task
  split
  · exact update_then_field _ _ hf _ (hfinished _ _ _ _) _ c
  · split
    · exact (update_status_field _ _ hf _ c).trans
        (update_task_field _ _ hf _ (hstopped _ _ _ _ _) c)
    · exact update_then_field _ _ hf _ (hfailed _ _) _ c

/-- **Frame.** A handler touches the capture that its message reports on, and
no other. -/
theorem manager_handle_touches (cfg : Config) {msg : Msg} {c : ℤ} (hmsg : msg.capture? = some c)
    (world : ManagerWorld) (m : Manager) :
    Touches c m (manager_handle_msg cfg msg world m).1 := by
  cases msg with
  | started msg =>
    obtain rfl : msg.capture_id = c := Option.some.inj hmsg
    exact touches_tasks (ChangesTask.update_then _ _ _ _)
  | file_ready msg =>
    obtain rfl : msg.capture_id = c := Option.some.inj hmsg
    simp only [manager_handle_msg, handle_capture_file_ready_v2]
    split
    · exact Touches.refl _ _
    · split
      · exact touches_tasks (ChangesTask.append_capture_files _ _ _)
      · exact touches_tasks (ChangesTask.append_capture_files _ _ _)
  | finished msg =>
    obtain rfl : msg.capture_id = c := Option.some.inj hmsg
    have htasks := touches_tasks (m := m)
      (finish_task_changes msg.capture_id msg.result world.now m.task_mgr)
    exact (htasks.trans (touches_notice _ _ _)).trans (touches_clear _ _ _)
  | failed msg =>
    obtain rfl : msg.capture_id = c := Option.some.inj hmsg
    have htasks := touches_tasks (m := m) (ChangesTask.update_then msg.capture_id
      (TaskUpdaterFailed (non_empty_or msg.error_message
        (rx_capture_error_to_string msg.error_code)) world.now) .FAILED m.task_mgr)
    exact (htasks.trans (touches_notice _ _ _)).trans (touches_clear _ _ _)
  | raw_file msg =>
    obtain rfl : msg.capture_id = c := Option.some.inj hmsg
    have hstart : ∀ c' ≠ msg.capture_id, ∀ p,
        c' ∈ active_in (track_pdef_usage_start msg.capture_id msg.pdef_file_path
          m.pdef_usage_map) p ↔ c' ∈ active_in m.pdef_usage_map p :=
      fun c' hc p => mem_active_start hc _ _ p
    simp only [manager_handle_msg, handle_capture_raw_file_v2]
    split
    · exact touches_usage fun c' hc p => (mem_active_end hc _ _ p).trans (hstart c' hc p)
    · split
      · exact ⟨ChangesTask.refl _ _, fun _ _ => rfl, hstart, rfl⟩
      · exact ⟨ChangesTask.refl _ _, fun _ _ => rfl, hstart, rfl⟩
  | filtered_file msg =>
    obtain rfl : msg.capture_id = c := Option.some.inj hmsg
    have htasks := touches_tasks (m := m)
      ((ChangesTask.append_capture_files msg.capture_id (filtered_files msg world) m.task_mgr).trans
        (ChangesTask.update_then _ (TaskUpdaterFinished world.now_usec msg.total_packets msg.file_size
          msg.filtered_pcap_path) .COMPLETED _))
    have hended := (htasks.trans (touches_notice msg.capture_id .COMPLETED _)).trans
      (touches_clear _ msg.capture_id _)
    simp only [manager_handle_msg, handle_capture_filtered_file_v2]
    split
    · exact hended
    · refine (hended.trans (touches_usage ?_)).trans (touches_writeback _ _ _ _)
      exact fun c' hc p => mem_active_end hc _ _ p
  | endian_detected msg => cases hmsg
  | file_enqueue msg => cases hmsg

/-- A detected byte order concerns no capture at all. -/
theorem endian_detected_touches (msg : SRxPdefEndianMsg) (world : ManagerWorld) (m : Manager) :
    let m' := handle_pdef_endian_detected msg world m
    m'.task_mgr = m.task_mgr ∧ m'.notices = m.notices ∧
      m'.next_capture_id = m.next_capture_id ∧
      ∀ p, active_in m'.pdef_usage_map p = active_in m.pdef_usage_map p := by
  simp only [handle_pdef_endian_detected]
  split
  · exact ⟨rfl, rfl, rfl, fun _ => rfl⟩
  · split
    · exact ⟨rfl, rfl, rfl, fun p => active_in_over _ _ _ (active_in_getD _ _)⟩
    · obtain ⟨usage, writebacks, hwriteback, hactive⟩ :=
        try_writeback_eq msg.pdef_file_path world.writeback_ok
          { m with
            pdef_usage_map := m.pdef_usage_map.insert msg.pdef_file_path
              (learn_usage_endian msg.detected_endian
                ((m.pdef_usage_map.lookup msg.pdef_file_path).getD {})) }
      rw [hwriteback]
      refine ⟨rfl, rfl, rfl, fun p => ?_⟩
      rw [hactive p, active_in_learn]

/-! ## What admission does -/

/-- A request is refused, or it is admitted. -/
theorem handle_start_cases (cfg : Config) (start_msg : SRxStartCaptureMsg) (world : RequestWorld)
    (m : Manager) :
    handle_start_capture cfg start_msg world m = (none, m) ∨
    ∃ request, prepare_start world start_msg = some request ∧ accepts_start cfg request m = true ∧
      handle_start_capture cfg start_msg world m = add_and_dispatch cfg request world.now m := by
  unfold handle_start_capture
  split
  · exact .inl rfl
  · next request hrequest =>
    split
    · next haccepts => exact .inr ⟨request, hrequest, haccepts, rfl⟩
    · exact .inl rfl

/-- Admission adds one task under a new id and changes no other. -/
structure Added (m m' : Manager) : Prop where
  ops : Performs m.task_mgr m'.task_mgr
  tasks : KeepsOthers m.next_capture_id m.task_mgr m'.task_mgr
  next : m'.next_capture_id = m.next_capture_id + 1
  usage : m'.pdef_usage_map = m.pdef_usage_map
  notices : m'.notices = m.notices
  writebacks : m'.writebacks = m.writebacks
  cooldown : m'.module_last_trigger = m.module_last_trigger

/-- The start message that goes out is the request's, from the manager. -/
structure DispatchedFor (cfg : Config) (capture_id : ℤ) (request : StartRequest)
    (dispatch : Option Dispatch) : Prop where
  dispatched : ∀ worker start_msg, dispatch = some (worker, start_msg) →
    start_msg.capture_id = capture_id ∧ start_msg.sender_thread_index = cfg.manager ∧
      start_msg.spec = request.spec ∧ start_msg.config = request.config

theorem add_and_dispatch_spec (cfg : Config) (request : StartRequest) (now : ℤ) (m : Manager) :
    Added m (add_and_dispatch cfg request now m).2 ∧
      DispatchedFor cfg m.next_capture_id request (add_and_dispatch cfg request now m).1 := by
  let task := new_task_of m.next_capture_id request now
  have hops : Performs m.task_mgr (m.task_mgr.add_new_task m.next_capture_id request.key
      request.signature request.sid task) := Performs.one (.add _ _ _ _ task) _
  have hadd : KeepsOthers m.next_capture_id m.task_mgr (m.task_mgr.add_new_task
      m.next_capture_id request.key request.signature request.sid task) :=
    add_new_task_keeps _ _ _ _ _ _
  unfold add_and_dispatch create_and_add_capture_task dispatch_task_to_worker
  by_cases hworkers : cfg.workers = []
  · simp only [hworkers, if_true]
    exact ⟨⟨hops, hadd, rfl, rfl, rfl, rfl, rfl⟩, ⟨fun worker start_msg h => by cases h⟩⟩
  · simp only [hworkers, if_false]
    have hassign := ChangesTask.update_task m.next_capture_id
      (AssignWorkerFunctor (cfg.workers.getD (m.next_worker % cfg.workers.length) 0))
      (m.task_mgr.add_new_task m.next_capture_id request.key request.signature request.sid task)
    refine ⟨⟨hops.trans hassign.ops, ?_, rfl, rfl, rfl, rfl, rfl⟩, ⟨?_⟩⟩
    · intro c hc other hother
      exact hadd c hc other (hassign.keeps c hc other hother)
    · intro worker start_msg h
      obtain ⟨rfl, rfl⟩ := Prod.mk.inj (Option.some.inj h)
      exact ⟨rfl, rfl, rfl, rfl⟩

/-- An alert does nothing, or it is noted and its request handled. -/
theorem handle_alert_cases (cfg : Config) (alert : SRxSampleMsg) (world : RequestWorld) (now : ℤ)
    (m : Manager) :
    handle_sample_alert cfg alert world now m = (none, m) ∨
    ∃ start_msg, prepare_capture_from_sample alert world.strategy = some start_msg ∧
      should_throttle_module (module_of alert) (cooldown_of world.strategy alert) now m = false ∧
      handle_sample_alert cfg alert world now m
        = handle_start_capture cfg start_msg world
          { m with module_last_trigger := m.module_last_trigger.insert (module_of alert) now } := by
  simp only [handle_sample_alert]
  split
  · exact .inl rfl
  · split
    · exact .inl rfl
    · next hfree =>
      split
      · exact .inl rfl
      · next start_msg hmsg => exact .inr ⟨start_msg, hmsg, Bool.not_eq_true _ ▸ hfree, rfl⟩

/-- What a request or an alert can lead to: perhaps a new trigger time, and
perhaps the admission of a request. -/
inductive Outcome (cfg : Config) (m : Manager) : Option Dispatch × Manager → Prop where
  | refused (module_last_trigger : Store CStr ℤ) :
      Outcome cfg m (none, { m with module_last_trigger })
  | accepted (module_last_trigger : Store CStr ℤ) (request : StartRequest) (now : ℤ)
      (accepts : accepts_start cfg request m = true) :
      Outcome cfg m (add_and_dispatch cfg request now { m with module_last_trigger })

theorem handle_start_outcome (cfg : Config) (start_msg : SRxStartCaptureMsg)
    (world : RequestWorld) (m : Manager) :
    Outcome cfg m (handle_start_capture cfg start_msg world m) := by
  rcases handle_start_cases cfg start_msg world m with h | ⟨request, -, haccepts, h⟩
  · rw [h]
    exact .refused m.module_last_trigger
  · rw [h]
    exact .accepted m.module_last_trigger request world.now haccepts

theorem handle_alert_outcome (cfg : Config) (alert : SRxSampleMsg) (world : RequestWorld)
    (now : ℤ) (m : Manager) : Outcome cfg m (handle_sample_alert cfg alert world now m) := by
  rcases handle_alert_cases cfg alert world now m with h | ⟨start_msg, -, -, h⟩
  · rw [h]
    exact .refused m.module_last_trigger
  · rw [h]
    let last := m.module_last_trigger.insert (module_of alert) now
    rcases handle_start_cases cfg start_msg world { m with module_last_trigger := last } with
      h' | ⟨request, -, haccepts, h'⟩
    · rw [h']
      exact .refused last
    · rw [h']
      exact .accepted last request world.now haccepts

end RxNetCap.Capture
