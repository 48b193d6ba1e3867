/-
The manager is a careful user of its task store.

Ids count up, a task is added under the key that is in it, and the updates
leave the names of a task alone. That no update makes a task active again is
due to the order of the messages: a start that is reported finds its task
active, since no end of it was noticed (`Run.ends_seen`). So the indexes are
true in every run (`Run.managed`), and what a task is called never changes
(`manager_handle_constant`).
-/
import RxNetCap.Capture.Limit
import RxNetCap.Capture.TaskIndexes

set_option autoImplicit false

namespace RxNetCap.Capture

open RxNetCap.Mailbox RxNetCap.Tally RxNetCap.Index RxNetCap.Pdef

/-! ## Fields that no handler changes -/

/-- A reading of a task that every update of the manager leaves alone. -/
structure Constant {α : Type} (f : SRxCaptureTask → α) : Prop where
  lasting : Lasting f
  started : ∀ ts pid file task, f (TaskUpdaterStart ts pid file task) = f task
  finished : ∀ ts packets bytes path task,
    f (TaskUpdaterFinished ts packets bytes path task) = f task
  failed : ∀ message now task, f (TaskUpdaterFailed message now task) = f task
  stopped : ∀ ts packets bytes message now task,
    f (MarkStoppedFunctor ts packets bytes message now task) = f task
  files : ∀ files task, f (TaskAppendFiles files task) = f task
  assigned : ∀ worker task, f (AssignWorkerFunctor worker task) = f task

section Fields

variable {α : Type} {f : SRxCaptureTask → α}

theorem append_capture_files_field (hf : Constant f) (capture_id : ℤ)
    (files : List CaptureFileInfo) (mgr : CRxSafeTaskMgr) (c : ℤ) :
    ((mgr.append_capture_files capture_id files).2.task c).map f = (mgr.task c).map f := by
  unfold CRxSafeTaskMgr.append_capture_files
  split
  · rfl
  · exact update_task_field capture_id mgr hf.lasting (TaskAppendFiles files) (hf.files files) c

theorem clear_module_cooldown_tasks (capture_id : ℤ) (m : Manager) :
    (clear_module_cooldown_for_capture capture_id m).task_mgr = m.task_mgr := by
  obtain ⟨last, hclear⟩ := clear_module_cooldown_eq capture_id m
  rw [hclear]

/-- The tasks after the message of a filtered file. -/
theorem filtered_file_tasks (filtered : SRxCaptureFilteredFileMsgV2) (world : ManagerWorld)
    (m : Manager) :
    (handle_capture_filtered_file_v2 filtered world m).task_mgr
      = ((m.task_mgr.append_capture_files filtered.capture_id
          (filtered_files filtered world)).2.set_capture_finished filtered.capture_id
            world.now_usec filtered.total_packets filtered.file_size
            filtered.filtered_pcap_path).2 := by
  simp only [handle_capture_filtered_file_v2]
  split
  · exact clear_module_cooldown_tasks _ _
  · obtain ⟨usage, writebacks, hwriteback, -⟩ :=
      try_writeback_eq filtered.pdef_file_path world.writeback_ok _
    exact (congrArg Manager.task_mgr hwriteback).trans (clear_module_cooldown_tasks _ _)

/-- **No message** changes a constant field of a task. -/
theorem manager_handle_constant (hf : Constant f) (cfg : Config) (msg : Msg)
    (world : ManagerWorld) (m : Manager) (c : ℤ) :
    ((manager_handle_msg cfg msg world m).1.task_mgr.task c).map f
      = (m.task_mgr.task c).map f := by
  cases msg with
  | started msg =>
    exact update_then_field msg.capture_id m.task_mgr hf.lasting _ (hf.started _ _ _) .RUNNING c
  | file_ready msg =>
    simp only [manager_handle_msg, handle_capture_file_ready_v2]
    split
    · rfl
    · split
      · exact append_capture_files_field hf _ _ _ c
      · exact append_capture_files_field hf _ _ _ c
  | finished msg =>
    simp only [manager_handle_msg, handle_capture_finished_v2, clear_module_cooldown_tasks]
    exact finish_task_field hf.lasting hf.finished hf.stopped hf.failed msg.capture_id msg.result
      world.now m.task_mgr c
  | failed msg =>
    simp only [manager_handle_msg, handle_capture_failed_v2, clear_module_cooldown_tasks]
    exact update_then_field msg.capture_id m.task_mgr hf.lasting _ (hf.failed _ _) .FAILED c
  | raw_file msg =>
    simp only [manager_handle_msg, handle_capture_raw_file_v2]
    split
    · rfl
    · split
      · rfl
      · rfl
  | filtered_file msg =>
    simp only [manager_handle_msg, filtered_file_tasks]
    exact (update_then_field msg.capture_id _ hf.lasting _ (hf.finished _ _ _ _) .COMPLETED c).trans
      (append_capture_files_field hf msg.capture_id (filtered_files msg world) m.task_mgr c)
  | endian_detected msg =>
    obtain ⟨htasks, -⟩ := endian_detected_touches msg world m
    simp only [manager_handle_msg, htasks]
  | file_enqueue msg => rfl

/-- A task that a message leaves was there before, with the same field. -/
theorem manager_handle_before (hf : Constant f) {cfg : Config} {msg : Msg} {world : ManagerWorld}
    {m : Manager} {c : ℤ} {task' : SRxCaptureTask}
    (h : (manager_handle_msg cfg msg world m).1.task_mgr.task c = some task') :
    ∃ task, m.task_mgr.task c = some task ∧ f task = f task' := by
  have hfield := manager_handle_constant hf cfg msg world m c
  rw [h, Option.map_some] at hfield
  exact Option.map_eq_some_iff.mp hfield.symm

end Fields

/-! ## Careful use -/

section Store

variable {used : List ℤ} {mgr : CRxSafeTaskMgr}

/-- An update that leaves names and status alone, and then a status. -/
theorem Managed.update_then (h : Managed used mgr) {capture_id : ℤ}
    {updater : SRxCaptureTask → SRxCaptureTask} {status : ECaptureTaskStatus}
    (names : ∀ task, SameNames (updater task) task)
    (same : ∀ task, (updater task).status = task.status)
    (move : ∀ task, mgr.task capture_id = some task →
      is_active_status status → is_active_status task.status) :
    Managed used (mgr.update_then capture_id updater status).2 := by
  have hupdated : Managed used (mgr.update_task capture_id updater).2 :=
    h.update_task capture_id updater (fun task _ => names task)
      fun task _ hactive => (same task) ▸ hactive
  have htask := update_task_task capture_id mgr updater capture_id
  rw [if_pos rfl] at htask
  unfold CRxSafeTaskMgr.update_then
  split
  · next mgr' hupdate =>
    rw [hupdate] at hupdated htask
    refine hupdated.update_status capture_id status fun task hafter hactive => ?_
    obtain ⟨before, hbefore, rfl⟩ := Option.map_eq_some_iff.mp (htask.symm.trans hafter)
    have hstatus : (updater before).status = before.status := same before
    rw [hstatus]
    exact move before hbefore hactive
  · next hupdate =>
    rw [hupdate] at hupdated
    exact hupdated

theorem same_names (task : SRxCaptureTask) : SameNames task task := ⟨rfl, rfl, rfl, rfl⟩

theorem Managed.append_capture_files (h : Managed used mgr) (capture_id : ℤ)
    (files : List CaptureFileInfo) :
    Managed used (mgr.append_capture_files capture_id files).2 := by
  unfold CRxSafeTaskMgr.append_capture_files
  split
  · exact h
  · exact h.update_task capture_id (TaskAppendFiles files) (fun _ _ => ⟨rfl, rfl, rfl, rfl⟩)
      fun _ _ hactive => hactive

/-- No update to a final status makes a task active. -/
theorem final_moves {status : ECaptureTaskStatus} (h : is_active_status status = false)
    {mgr : CRxSafeTaskMgr} {capture_id : ℤ} (task : SRxCaptureTask)
    (_ : mgr.task capture_id = some task) (hactive : is_active_status status = true) :
    is_active_status task.status = true := by
  rw [h] at hactive
  cases hactive

theorem Managed.finish_task (h : Managed used mgr) (capture_id : ℤ) (result : CaptureResultStats)
    (now : ℤ) : Managed used (finish_task capture_id result now mgr).2 := by
  unfold Capture.finish_task
  split
  · exact h.update_then (fun _ => ⟨rfl, rfl, rfl, rfl⟩) (fun _ => rfl) (final_moves rfl)
  · split
    · have hmarked := h.update_task capture_id
        (MarkStoppedFunctor result.finish_ts result.total_packets result.total_bytes
          (non_empty_or result.error_message "stopped".toList) now)
        (fun _ _ => ⟨rfl, rfl, rfl, rfl⟩) fun _ _ hactive => hactive
      exact hmarked.update_status capture_id .STOPPED (final_moves rfl)
    · exact h.update_then (fun _ => ⟨rfl, rfl, rfl, rfl⟩) (fun _ => rfl) (final_moves rfl)

end Store

/-- **One message** is a careful use, when it finds its task active. -/
theorem manager_handle_managed {used : List ℤ} (cfg : Config) (msg : Msg) (world : ManagerWorld)
    {m : Manager} (h : Managed used m.task_mgr)
    (hactive : ∀ c task, msg.capture? = some c → m.task_mgr.task c = some task →
      is_active_status task.status = true) :
    Managed used (manager_handle_msg cfg msg world m).1.task_mgr := by
  cases msg with
  | started msg =>
    exact h.update_then (fun _ => ⟨rfl, rfl, rfl, rfl⟩) (fun _ => rfl)
      fun task htask _ => hactive _ task rfl htask
  | file_ready msg =>
    simp only [manager_handle_msg, handle_capture_file_ready_v2]
    split
    · exact h
    · split
      · exact h.append_capture_files _ _
      · exact h.append_capture_files _ _
  | finished msg =>
    simp only [manager_handle_msg, handle_capture_finished_v2, clear_module_cooldown_tasks]
    exact h.finish_task _ _ _
  | failed msg =>
    simp only [manager_handle_msg, handle_capture_failed_v2, clear_module_cooldown_tasks]
    exact h.update_then (fun _ => ⟨rfl, rfl, rfl, rfl⟩) (fun _ => rfl) (final_moves rfl)
  | raw_file msg =>
    simp only [manager_handle_msg, handle_capture_raw_file_v2]
    split
    · exact h
    · split
      · exact h
      · exact h
  | filtered_file msg =>
    simp only [manager_handle_msg, filtered_file_tasks]
    exact (h.append_capture_files _ _).update_then (fun _ => ⟨rfl, rfl, rfl, rfl⟩) (fun _ => rfl)
      (final_moves rfl)
  | endian_detected msg =>
    obtain ⟨htasks, -⟩ := endian_detected_touches msg world m
    simp only [manager_handle_msg, htasks]
    exact h
  | file_enqueue msg => exact h

/-! ## Runs -/

section Runs

variable {cfg : Config} {s s' : System}

/-- The store was used with care, and the next id is above those used. -/
def CarefulUse (m : Manager) : Prop :=
  ∃ used, Managed used m.task_mgr ∧ ∀ c ∈ used, c < m.next_capture_id

theorem CarefulUse.launched (h : CarefulUse s.manager) {outcome : Option Dispatch × Manager}
    (houtcome : Outcome cfg s.manager outcome) : CarefulUse (s.launch cfg outcome).manager := by
  rw [launch_manager]
  cases houtcome with
  | refused last => exact h
  | accepted last request now accepts =>
    obtain ⟨used, hmanaged, hbelow⟩ := h
    have hfresh : s.manager.next_capture_id ∉ used := fun hmem => lt_irrefl _ (hbelow _ hmem)
    have hadded := hmanaged.add s.manager.next_capture_id request.key request.signature request.sid
      (new_task_of s.manager.next_capture_id request now) hfresh rfl
    have hused : ∀ c ∈ s.manager.next_capture_id :: used, c < s.manager.next_capture_id + 1 := by
      intro c hmem
      rcases List.mem_cons.mp hmem with rfl | hmem
      · omega
      · have hc := hbelow c hmem
        omega
    unfold add_and_dispatch create_and_add_capture_task dispatch_task_to_worker
    by_cases hworkers : cfg.workers = []
    · simp only [if_pos hworkers]
      exact ⟨_, hadded, hused⟩
    · simp only [if_neg hworkers]
      refine ⟨_, hadded.update_task _ _ (fun _ _ => ⟨rfl, rfl, rfl, rfl⟩) ?_, hused⟩
      intro task _ hassigned
      unfold AssignWorkerFunctor at hassigned
      dsimp only at hassigned
      split at hassigned
      · next hpending => rw [hpending]; rfl
      · exact hassigned

theorem Step.careful {event : Event} (h : Step cfg s event s') (hinv : Inv cfg s)
    (hseen : EndsSeen s.manager) (hcareful : CarefulUse s.manager) : CarefulUse s'.manager := by
  cases h with
  | start start_msg world =>
    exact hcareful.launched (handle_start_outcome cfg start_msg world s.manager)
  | alert alert world now =>
    exact hcareful.launched (handle_alert_outcome cfg alert world now s.manager)
  | tick =>
    obtain ⟨used, hmanaged, hbelow⟩ := hcareful
    exact ⟨used, hmanaged.cleanup, hbelow⟩
  | abort phase => exact hcareful
  | begin _ _ _ phase => exact hcareful
  | finish _ phase => exact hcareful
  | @manager sender msg rest world takes =>
    obtain ⟨used, hmanaged, hbelow⟩ := hcareful
    have hnext : (manager_handle_msg cfg msg world s.manager).1.next_capture_id
        = s.manager.next_capture_id := by
      cases hmsg : msg.capture? with
      | some c => exact (manager_handle_touches cfg hmsg world s.manager).next
      | none =>
        cases msg with
        | endian_detected msg =>
          obtain ⟨-, -, hnext, -⟩ := endian_detected_touches msg world s.manager
          exact hnext
        | file_enqueue msg => rfl
        | _ => cases hmsg
    refine ⟨used, manager_handle_managed cfg msg world hmanaged ?_, ?_⟩
    · intro c task hmsg htask
      exact Bool.not_eq_false _ ▸ hseen.active (hinv.noticed_of_takes takes hmsg) htask
    · intro c hmem
      exact lt_of_lt_of_eq (hbelow c hmem) hnext.symm
  | filter running takes handled => exact hcareful

/-- **Every run** uses the store with care. -/
theorem Run.careful {history : List Entry} (h : Run cfg history s) : CarefulUse s.manager := by
  induction h with
  | start => exact ⟨[], Managed.init, fun c hmem => by cases hmem⟩
  | step run step ih => exact step.careful run.inv run.ends_seen ih

/-- In every run the indexes are true. -/
theorem Run.indexed {history : List Entry} (h : Run cfg history s) :
    Indexed s.manager.task_mgr.curr := by
  obtain ⟨used, hmanaged, -⟩ := h.careful
  exact hmanaged.indexesTrue.indexed

end Runs

end RxNetCap.Capture
