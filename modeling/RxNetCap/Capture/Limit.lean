/-
The limit on concurrent captures.

Admission compares two counters with the limit, and no status setter looks at
the status it overwrites. That the number of running captures stays within the
limit all the same is due to the order of the messages: nothing about a capture
is on the way after its end was noticed (`Inv.noticed_of_takes`), so a start
that is reported late cannot revive a task that has ended.
-/
import RxNetCap.Capture.HandOff

set_option autoImplicit false

namespace RxNetCap.Capture

open RxNetCap.Mailbox RxNetCap.Tally RxNetCap.Pdef

/-- The tasks that are held against the limit. -/
def busy (task : SRxCaptureTask) : Bool :=
  has_status .RESOLVING task || has_status .RUNNING task

theorem busy_eq (task : SRxCaptureTask) :
    busy task = true ↔ task.status = .RESOLVING ∨ task.status = .RUNNING := by
  rw [busy, Bool.or_eq_true, has_status, has_status, decide_eq_true_eq, decide_eq_true_eq]

/-- A task whose status is final is not held against the limit. -/
theorem one_busy_of_final {task : SRxCaptureTask} (h : is_active_status task.status = false) :
    one busy (some task) = 0 := by
  rw [one, Option.any_some, if_neg]
  rintro hbusy
  rcases (busy_eq task).mp hbusy with hstatus | hstatus
  · rw [hstatus] at h
    cases h
  · rw [hstatus] at h
    cases h

theorem one_busy_status {task task' : SRxCaptureTask} (h : task'.status = task.status) :
    one busy (some task') = one busy (some task) := by
  have hbusy : busy task' = busy task := by
    unfold busy has_status
    rw [h]
  rw [one, one, Option.any_some, Option.any_some, hbusy]

theorem one_le_one (q : SRxCaptureTask → Bool) (task : Option SRxCaptureTask) :
    one q task ≤ 1 := by
  unfold one
  split
  · exact le_rfl
  · exact Nat.zero_le 1

/-- The counters that admission reads say how many tasks are busy. -/
theorem running_tasks_eq {mgr : CRxSafeTaskMgr} (h : CountersTrue mgr) :
    running_tasks mgr = mgr.curr.number busy := by
  have hdisjoint : ∀ slot : Option SRxCaptureTask, slot.any (has_status .RUNNING) = true →
      slot.any (has_status .RESOLVING) = false := by
    intro slot hslot
    cases slot with
    | none => rfl
    | some task =>
      rw [Option.any_some, has_status, decide_eq_true_eq] at hslot
      rw [Option.any_some, has_status, hslot]
      rfl
  have hboth : (fun slot : Option SRxCaptureTask => slot.any busy)
      = fun slot => slot.any (has_status .RUNNING) || slot.any (has_status .RESOLVING) := by
    funext slot
    cases slot with
    | none => rfl
    | some task => exact Bool.or_comm _ _
  have hrunning : mgr.stats.running_count = mgr.curr.number (has_status .RUNNING) :=
    h.count .RUNNING
  have hresolving : mgr.stats.resolving_count = mgr.curr.number (has_status .RESOLVING) :=
    h.count .RESOLVING
  rw [running_tasks, hrunning, hresolving, TaskTable.number, TaskTable.number, TaskTable.number,
    hboth, tally_or _ hdisjoint]

/-! ## The number of busy tasks -/

section Numbers

variable (q : SRxCaptureTask → Bool) (capture_id : ℤ)

theorem number_drop_task (mgr : CRxSafeTaskMgr) :
    (mgr.drop_task capture_id).idle.number q ≤ mgr.idle.number q := by
  have hnumber := number_remove_task q mgr.idle capture_id
  rw [drop_task_idle]
  omega

theorem number_evict (index : TaskTable → Store CStr ℤ) (name : CStr) (mgr : CRxSafeTaskMgr) :
    (mgr.evict index name capture_id).idle.number q ≤ mgr.idle.number q := by
  unfold CRxSafeTaskMgr.evict
  split
  · exact le_rfl
  · split
    · exact number_drop_task q _ mgr
    · exact le_rfl

theorem number_evict_names (key signature sid : CStr) (mgr : CRxSafeTaskMgr) :
    (mgr.evict_names capture_id key signature sid).idle.number q ≤ mgr.idle.number q := by
  have hevict := number_evict q capture_id
  unfold CRxSafeTaskMgr.evict_names
  dsimp only
  refine le_trans ?_ (hevict TaskTable.key_to_id key mgr)
  split
  · refine le_trans (hevict _ _ _) ?_
    split
    · exact hevict _ _ _
    · exact le_rfl
  · split
    · exact hevict _ _ _
    · exact le_rfl

theorem number_vacate (mgr : CRxSafeTaskMgr) :
    (mgr.vacate capture_id).idle.number q ≤ mgr.idle.number q := by
  unfold CRxSafeTaskMgr.vacate
  split
  · exact le_rfl
  · let emptied : TaskTable :=
      { mgr.idle with slots := mgr.idle.slots.insert capture_id none }
    have hnumber : emptied.number q + one q (mgr.idle.task capture_id)
        = mgr.idle.number q + 0 := number_insert q mgr.idle capture_id none rfl
    exact le_trans (Nat.le_add_right _ _) (le_of_eq hnumber)

/-- A new task takes the place of others and counts for itself at most. -/
theorem number_add_new_task (key signature sid : CStr) (task : SRxCaptureTask)
    (mgr : CRxSafeTaskMgr) (hq : q { task with signature, sid, ptr := mgr.heap.next } = false) :
    (mgr.add_new_task capture_id key signature sid task).curr.number q ≤ mgr.curr.number q := by
  let fresh := (mgr.new_task task).2
  let vacated := fresh.copy_table.vacate capture_id
  have hadd := number_add_task q (vacated.evict_names capture_id key signature sid).idle
    capture_id key signature sid (mgr.new_task task).1
  have hself : one q (some { (mgr.new_task task).1 with signature, sid }) = 0 := by
    rw [one, Option.any_some]
    exact if_neg (Bool.eq_false_iff.mp hq)
  have hnames := number_evict_names q capture_id key signature sid vacated
  have hvacate := number_vacate q capture_id fresh.copy_table
  rw [hself] at hadd
  calc (mgr.add_new_task capture_id key signature sid task).curr.number q
      ≤ (vacated.evict_names capture_id key signature sid).idle.number q :=
        le_trans (Nat.le_add_right _ _) (le_of_eq hadd)
    _ ≤ fresh.copy_table.idle.number q := le_trans hnames hvacate
    _ = mgr.curr.number q := rfl

end Numbers

/-! ## What a message does to the status of its task -/

section Status

variable {cfg : Config} {c : ℤ} {s s' : System}

/-- No letter about a capture is on the way after its end was noticed. -/
theorem Inv.noticed_of_takes (hinv : Inv cfg s) {route : Route} {msg : Msg} {rest : Mail}
    (htakes : Takes route msg s.letters rest) (hmsg : msg.capture? = some c) :
    noticed c s.manager = 0 := by
  have htake := takes_report htakes hmsg
  rcases hinv.course c with hcourse | hlost
  · unfold OnCourse at hcourse
    split at hcourse
    · exact hcourse.2.noticed
    · exact hcourse.2.2.noticed
    · exact hcourse.2.2.noticed
    · rcases hcourse with handed | settled
      · exact handed.onTheWay.noticed
      · rw [settled.reports] at htake
        exact absurd htake Takes.not_nil
  · exact hlost.noticed

/-- The task keeps its status or is running, or its status is final and one
more end was noticed. -/
def StatusChange (c : ℤ) (m m' : Manager) (task' : SRxCaptureTask) : Prop :=
  (∃ task, m.task_mgr.task c = some task ∧
    (task'.status = task.status ∨ task'.status = .RUNNING)) ∨
  (is_active_status task'.status = false ∧ noticed c m' = noticed c m + 1)

theorem StatusChange.same {m m' : Manager} {task' : SRxCaptureTask}
    (h : m.task_mgr.task c = some task') : StatusChange c m m' task' :=
  .inl ⟨task', h, .inl rfl⟩

theorem append_capture_files_status (capture_id : ℤ) (files : List CaptureFileInfo)
    (mgr : CRxSafeTaskMgr) {task' : SRxCaptureTask}
    (h : (mgr.append_capture_files capture_id files).2.task capture_id = some task') :
    ∃ task, mgr.task capture_id = some task ∧ task'.status = task.status := by
  unfold CRxSafeTaskMgr.append_capture_files at h
  split at h
  · exact ⟨task', h, rfl⟩
  · rw [update_task_task, if_pos rfl] at h
    obtain ⟨task, htask, rfl⟩ := Option.map_eq_some_iff.mp h
    exact ⟨task, htask, rfl⟩

/-- **One message.** What a message does to the status of its task. -/
theorem manager_handle_status (cfg : Config) {msg : Msg} (hmsg : msg.capture? = some c)
    (world : ManagerWorld) (m : Manager) {task' : SRxCaptureTask}
    (h : (manager_handle_msg cfg msg world m).1.task_mgr.task c = some task') :
    StatusChange c m (manager_handle_msg cfg msg world m).1 task' := by
  cases msg with
  | started msg =>
    obtain rfl : msg.capture_id = c := Option.some.inj hmsg
    simp only [manager_handle_msg, handle_capture_started_v2, CRxSafeTaskMgr.set_capture_started]
      at h
    rw [update_then_task, if_pos rfl] at h
    obtain ⟨task, htask, rfl⟩ := Option.map_eq_some_iff.mp h
    exact .inl ⟨task, htask, .inr rfl⟩
  | file_ready msg =>
    obtain rfl : msg.capture_id = c := Option.some.inj hmsg
    simp only [manager_handle_msg, handle_capture_file_ready_v2] at h
    split at h
    · exact StatusChange.same h
    · split at h
      · obtain ⟨task, htask, hstatus⟩ := append_capture_files_status _ _ _ h
        exact .inl ⟨task, htask, .inl hstatus⟩
      · obtain ⟨task, htask, hstatus⟩ := append_capture_files_status _ _ _ h
        exact .inl ⟨task, htask, .inl hstatus⟩
  | finished msg =>
    obtain rfl : msg.capture_id = c := Option.some.inj hmsg
    have hends := ends_finished cfg msg world m
    exact .inr ⟨hends.final _ h, hends.noticed⟩
  | failed msg =>
    obtain rfl : msg.capture_id = c := Option.some.inj hmsg
    have hends := ends_failed cfg msg world m
    exact .inr ⟨hends.final _ h, hends.noticed⟩
  | raw_file msg =>
    simp only [manager_handle_msg, handle_capture_raw_file_v2] at h
    split at h
    · exact StatusChange.same h
    · split at h
      · exact StatusChange.same h
      · exact StatusChange.same h
  | filtered_file msg =>
    obtain rfl : msg.capture_id = c := Option.some.inj hmsg
    have hends := (ends_filtered cfg msg world m).1
    exact .inr ⟨hends.final _ h, hends.noticed⟩
  | endian_detected msg => cases hmsg
  | file_enqueue msg => cases hmsg

end Status

/-! ## Ends are noticed -/

/-- The end of every task whose status is final was noticed. -/
def EndsSeen (m : Manager) : Prop :=
  ∀ c task, m.task_mgr.task c = some task → is_active_status task.status = false → 0 < noticed c m

section EndsSeen

variable {cfg : Config} {c : ℤ} {s s' : System}

theorem EndsSeen.same {m m' : Manager} (h : EndsSeen m) (htasks : m'.task_mgr = m.task_mgr)
    (hnotices : m'.notices = m.notices) : EndsSeen m' := by
  intro c task htask hfinal
  rw [noticed, hnotices]
  rw [htasks] at htask
  exact h c task htask hfinal

/-- A task whose end was not noticed is active. -/
theorem EndsSeen.active {m : Manager} (h : EndsSeen m) (hnoticed : noticed c m = 0)
    {task : SRxCaptureTask} (htask : m.task_mgr.task c = some task) :
    is_active_status task.status ≠ false := by
  intro hfinal
  have hpos := h c task htask hfinal
  omega

theorem EndsSeen.managed {m : Manager} (h : EndsSeen m) {msg : Msg} (hmsg : msg.capture? = some c)
    (hnoticed : noticed c m = 0) (world : ManagerWorld) :
    EndsSeen (manager_handle_msg cfg msg world m).1 := by
  have htouches := manager_handle_touches cfg hmsg world m
  intro c' task' htask' hfinal
  by_cases hc : c' = c
  · subst hc
    rcases manager_handle_status cfg hmsg world m htask' with
      ⟨task, htask, hkept | hrunning⟩ | ⟨-, hmore⟩
    · rw [hkept] at hfinal
      exact absurd hfinal (h.active hnoticed htask)
    · rw [hrunning] at hfinal
      cases hfinal
    · rw [hmore]
      exact Nat.succ_pos _
  · rw [htouches.noticed c' hc]
    exact h c' task' (htouches.tasks.keeps c' hc task' htask') hfinal

/-- A new task is active. -/
theorem add_and_dispatch_active (cfg : Config) (request : StartRequest) (now : ℤ) (m : Manager)
    {task : SRxCaptureTask}
    (h : (add_and_dispatch cfg request now m).2.task_mgr.task m.next_capture_id = some task) :
    is_active_status task.status = true := by
  have hself := add_task_self m.next_capture_id request.key request.signature request.sid
    (m.task_mgr.new_task (new_task_of m.next_capture_id request now)).1
    (m.task_mgr.new_task (new_task_of m.next_capture_id request now)).2
  unfold add_and_dispatch create_and_add_capture_task dispatch_task_to_worker at h
  by_cases hworkers : cfg.workers = []
  · simp only [if_pos hworkers] at h
    rw [← Option.some.inj (hself.symm.trans h)]
    rfl
  · simp only [if_neg hworkers] at h
    rw [update_task_task, if_pos rfl, CRxSafeTaskMgr.add_new_task, hself] at h
    rw [← Option.some.inj h]
    rfl

theorem EndsSeen.launched (h : EndsSeen s.manager) {outcome : Option Dispatch × Manager}
    (houtcome : Outcome cfg s.manager outcome) : EndsSeen (s.launch cfg outcome).manager := by
  cases houtcome with
  | refused last => exact h.same rfl rfl
  | accepted last request now accepts =>
    obtain ⟨hadded, -⟩ :=
      add_and_dispatch_spec cfg request now { s.manager with module_last_trigger := last }
    rw [launch_manager]
    intro c task htask hfinal
    by_cases hc : c = s.manager.next_capture_id
    · subst hc
      have hactive := add_and_dispatch_active cfg request now
        { s.manager with module_last_trigger := last } htask
      rw [hactive] at hfinal
      cases hfinal
    · rw [noticed, hadded.notices]
      exact h c task (hadded.tasks c hc task htask) hfinal

theorem Step.ends_seen {event : Event} (h : Step cfg s event s') (hinv : Inv cfg s)
    (hseen : EndsSeen s.manager) : EndsSeen s'.manager := by
  cases h with
  | start start_msg world =>
    exact hseen.launched (handle_start_outcome cfg start_msg world s.manager)
  | alert alert world now =>
    exact hseen.launched (handle_alert_outcome cfg alert world now s.manager)
  | tick => exact hseen
  | abort phase => exact hseen
  | begin _ _ _ phase => exact hseen
  | finish _ phase => exact hseen
  | @manager sender msg rest world takes =>
    cases hmsg : msg.capture? with
    | some c => exact hseen.managed hmsg (hinv.noticed_of_takes takes hmsg) world
    | none =>
      cases msg with
      | endian_detected msg =>
        obtain ⟨htasks, hnotices, -, -⟩ := endian_detected_touches msg world s.manager
        exact hseen.same htasks hnotices
      | file_enqueue msg => exact hseen
      | _ => cases hmsg
  | filter running takes handled => exact hseen

theorem Run.ends_seen {history : List Entry} (h : Run cfg history s) : EndsSeen s.manager := by
  induction h with
  | start =>
    intro c task htask
    cases htask
  | step run step ih => exact step.ends_seen run.inv ih

end EndsSeen

/-! ## The limit -/

/-- The counters are true and within the limit, every task has a worker, and
the end of every task whose status is final was noticed. -/
structure Bounded (cfg : Config) (m : Manager) : Prop where
  counters : CountersTrue m.task_mgr
  within : m.task_mgr.curr.number busy ≤ get_max_concurrent_limit cfg
  assigned : ∀ c task, m.task_mgr.task c = some task → task.status ≠ .PENDING
  ends_seen : ∀ c task, m.task_mgr.task c = some task → is_active_status task.status = false →
    0 < noticed c m

section Bound

variable {cfg : Config} {c : ℤ} {s s' : System}

theorem Bounded.same {m m' : Manager} (h : Bounded cfg m) (htasks : m'.task_mgr = m.task_mgr)
    (hnotices : m'.notices = m.notices) : Bounded cfg m' where
  counters := htasks ▸ h.counters
  within := htasks ▸ h.within
  assigned := htasks ▸ h.assigned
  ends_seen := EndsSeen.same h.ends_seen htasks hnotices

/-- A busy task, from one that is active and not pending. -/
theorem busy_of_active {task : SRxCaptureTask} (hactive : is_active_status task.status ≠ false)
    (hassigned : task.status ≠ .PENDING) : one busy (some task) = 1 := by
  have hbusy : busy task = true := by
    rw [busy_eq]
    cases hstatus : task.status with
    | PENDING => exact absurd hstatus hassigned
    | RESOLVING => exact .inl rfl
    | RUNNING => exact .inr rfl
    | _ =>
      rw [hstatus] at hactive
      exact absurd rfl hactive
  rw [one, Option.any_some, if_pos hbusy]

/-- A message about a capture whose end was not noticed keeps the bound. -/
theorem Bounded.managed (h : Bounded cfg s.manager) {msg : Msg} (hmsg : msg.capture? = some c)
    (hnoticed : noticed c s.manager = 0) (world : ManagerWorld) :
    Bounded cfg (manager_handle_msg cfg msg world s.manager).1 := by
  have htouches := manager_handle_touches cfg hmsg world s.manager
  have hstatus : ∀ task', (manager_handle_msg cfg msg world s.manager).1.task_mgr.task c
      = some task' → StatusChange c s.manager (manager_handle_msg cfg msg world s.manager).1 task' :=
    fun task' => manager_handle_status cfg hmsg world s.manager
  have hseen : EndsSeen (manager_handle_msg cfg msg world s.manager).1 :=
    EndsSeen.managed h.ends_seen hmsg hnoticed world
  generalize (manager_handle_msg cfg msg world s.manager).1 = m' at htouches hstatus hseen ⊢
  have hactive : ∀ task, s.manager.task_mgr.task c = some task →
      is_active_status task.status ≠ false := fun _ => EndsSeen.active h.ends_seen hnoticed
  refine ⟨htouches.tasks.ops.counters h.counters, ?_, ?_, hseen⟩
  · have hnumber := htouches.tasks.number busy
    have hone : one busy (m'.task_mgr.task c) ≤ one busy (s.manager.task_mgr.task c) := by
      cases htask' : m'.task_mgr.task c with
      | none => exact Nat.zero_le _
      | some task' =>
        rcases hstatus task' htask' with ⟨task, htask, hkept | hrunning⟩ | ⟨hfinal, -⟩
        · rw [htask, one_busy_status hkept]
        · rw [htask, busy_of_active (hactive task htask) (h.assigned c task htask)]
          exact one_le_one busy (some task')
        · rw [one_busy_of_final hfinal]
          exact Nat.zero_le _
    have hwithin := h.within
    omega
  · intro c' task' htask'
    by_cases hc : c' = c
    · subst hc
      rcases hstatus task' htask' with ⟨task, htask, hkept | hrunning⟩ | ⟨hfinal, -⟩
      · rw [hkept]
        exact h.assigned c' task htask
      · rw [hrunning]
        exact ECaptureTaskStatus.noConfusion
      · rintro hpending
        rw [hpending] at hfinal
        cases hfinal
    · exact h.assigned c' task' (htouches.tasks.keeps c' hc task' htask')

/-- With a worker, a new capture is busy at once, and the only new one. -/
theorem add_and_dispatch_busy (hworkers : cfg.workers ≠ []) (request : StartRequest) (now : ℤ)
    (m : Manager) :
    (add_and_dispatch cfg request now m).2.task_mgr.curr.number busy
      ≤ m.task_mgr.curr.number busy + 1 ∧
    ∀ task, (add_and_dispatch cfg request now m).2.task_mgr.task m.next_capture_id = some task →
      task.status = .RESOLVING := by
  let added := m.task_mgr.add_new_task m.next_capture_id request.key request.signature
    request.sid (new_task_of m.next_capture_id request now)
  let worker := cfg.workers.getD (m.next_worker % cfg.workers.length) 0
  have hmgr : (add_and_dispatch cfg request now m).2.task_mgr
      = (added.update_task m.next_capture_id (AssignWorkerFunctor worker)).2 := by
    simp only [add_and_dispatch, create_and_add_capture_task, dispatch_task_to_worker,
      if_neg hworkers]
    rfl
  have hself : added.task m.next_capture_id = some { (m.task_mgr.new_task
      (new_task_of m.next_capture_id request now)).1 with
        signature := request.signature, sid := request.sid } := add_task_self _ _ _ _ _ _
  rw [hmgr]
  constructor
  · have hadd : added.curr.number busy ≤ m.task_mgr.curr.number busy :=
      number_add_new_task busy _ _ _ _ _ _ rfl
    have hassign := (ChangesTask.update_task m.next_capture_id (AssignWorkerFunctor worker)
      added).number busy
    have hone := one_le_one busy ((added.update_task m.next_capture_id
      (AssignWorkerFunctor worker)).2.task m.next_capture_id)
    omega
  · intro task htask
    rw [update_task_task, if_pos rfl, hself] at htask
    rw [← Option.some.inj htask]
    rfl

/-- A request or an alert keeps the bound: it is refused at the limit. -/
theorem Bounded.launched (h : Bounded cfg s.manager) (hworkers : cfg.workers ≠ [])
    {outcome : Option Dispatch × Manager} (houtcome : Outcome cfg s.manager outcome) :
    Bounded cfg (s.launch cfg outcome).manager := by
  have hseen : EndsSeen (s.launch cfg outcome).manager := EndsSeen.launched h.ends_seen houtcome
  cases houtcome with
  | refused last => exact h.same rfl rfl
  | accepted last request now accepts =>
    let m : Manager := { s.manager with module_last_trigger := last }
    have hbelow : running_tasks s.manager.task_mgr < get_max_concurrent_limit cfg := by
      rw [accepts_start, decide_eq_true_eq] at accepts
      exact accepts.2
    rw [running_tasks_eq h.counters] at hbelow
    obtain ⟨hadded, -⟩ := add_and_dispatch_spec cfg request now m
    obtain ⟨hnumber, hresolving⟩ := add_and_dispatch_busy hworkers request now m
    rw [launch_manager] at hseen ⊢
    refine ⟨hadded.ops.counters h.counters, hnumber.trans hbelow, ?_, hseen⟩
    intro c task htask
    by_cases hc : c = m.next_capture_id
    · subst hc
      rw [hresolving task htask]
      exact ECaptureTaskStatus.noConfusion
    · exact h.assigned c task (hadded.tasks c hc task htask)

/-- **One step** keeps the bound. -/
theorem Step.bounded {event : Event} (h : Step cfg s event s') (hinv : Inv cfg s)
    (hworkers : cfg.workers ≠ []) (hbounded : Bounded cfg s.manager) :
    Bounded cfg s'.manager := by
  cases h with
  | start start_msg world =>
    exact hbounded.launched hworkers (handle_start_outcome cfg start_msg world s.manager)
  | alert alert world now =>
    exact hbounded.launched hworkers (handle_alert_outcome cfg alert world now s.manager)
  | tick =>
    have hcounters : CountersTrue s.manager.task_mgr.cleanup_pending_deletes :=
      ⟨hbounded.counters.total, hbounded.counters.count, hbounded.counters.sound⟩
    exact ⟨hcounters, hbounded.within, hbounded.assigned, hbounded.ends_seen⟩
  | abort phase => exact hbounded
  | begin _ _ _ phase => exact hbounded
  | finish _ phase => exact hbounded
  | @manager sender msg rest world takes =>
    cases hmsg : msg.capture? with
    | some c => exact hbounded.managed hmsg (hinv.noticed_of_takes takes hmsg) world
    | none =>
      cases msg with
      | endian_detected msg =>
        obtain ⟨htasks, hnotices, -, -⟩ := endian_detected_touches msg world s.manager
        exact hbounded.same htasks hnotices
      | file_enqueue msg => exact hbounded
      | _ => cases hmsg
  | filter running takes handled => exact hbounded

theorem bounded_start (cfg : Config) : Bounded cfg {} where
  counters := Tallied.init
  within := Nat.zero_le _
  assigned _ _ htask := by cases htask
  ends_seen _ _ htask := by cases htask

/-- **Every run** keeps the bound. -/
theorem Run.bounded {history : List Entry} (h : Run cfg history s) (hworkers : cfg.workers ≠ []) :
    Bounded cfg s.manager := by
  induction h with
  | start => exact bounded_start cfg
  | step run step ih => exact step.bounded run.inv hworkers ih

end Bound

/-! ## The end is final -/

section Final

variable {cfg : Config} {c : ℤ} {s s' : System} {history : List Entry}

/-- The worker is done and the capture settled. -/
def Ended (c : ℤ) (s : System) : Prop := s.phase c = .over ∧ Settled c s

/-- A capture whose end was noticed has ended. -/
theorem Inv.ended (hinv : Inv cfg s) (hnoticed : 0 < noticed c s.manager) : Ended c s := by
  have hcourse := (hinv.course c).resolve_right fun hlost => by
    rw [hlost.noticed] at hnoticed
    exact Nat.lt_irrefl 0 hnoticed
  have hzero : noticed c s.manager ≠ 0 := Nat.ne_of_gt hnoticed
  unfold OnCourse at hcourse
  split at hcourse
  · exact absurd hcourse.2.noticed hzero
  · exact absurd hcourse.2.2.noticed hzero
  · exact absurd hcourse.2.2.noticed hzero
  · next hover =>
    rcases hcourse with handed | settled
    · exact absurd handed.onTheWay.noticed hzero
    · exact ⟨hover, settled⟩

/-- And it stays so. -/
theorem Ended.step {event : Event} (hended : Ended c s) (h : Step cfg s event s')
    (hinv : Inv cfg s) : Ended c s' := by
  obtain ⟨hover, hsettled⟩ := hended
  have hview := h.sameView hinv (h.not_about hinv hover hsettled.reports)
  exact ⟨hview.phase.trans hover, hsettled.same hview⟩

/-- A task whose status was final in a state of a run is not active at its end. -/
theorem Run.final (h : Run cfg history s) (hworkers : cfg.workers ≠ []) {entry : Entry}
    (hmem : entry ∈ history) {task task' : SRxCaptureTask}
    (htask : entry.before.task c = some task) (hfinal : is_active_status task.status = false)
    (htask' : s.task c = some task') : is_active_status task'.status = false := by
  obtain ⟨front, back, hsplit⟩ := List.append_of_mem hmem
  obtain ⟨hrun, hstep⟩ := h.entry hsplit
  have hended : Ended c entry.before :=
    hrun.inv.ended ((hrun.bounded hworkers).ends_seen c task htask hfinal)
  have hlast : Ended c s := by
    refine h.after hsplit (hended.step hstep hrun.inv) ?_
    intro later _ past hpast hlater hbefore
    exact hbefore.step hlater hpast.inv
  exact hlast.2.final task' htask'

/-- **The limit is kept.** With a worker, in every run and in every state it
reaches, at most as many tasks as the limit allows are resolving or running,
and a task whose status was once final is not active again. -/
theorem limit_kept (h : Run cfg history s) (hworkers : cfg.workers ≠ []) :
    s.manager.task_mgr.curr.number busy ≤ get_max_concurrent_limit cfg ∧
    ∀ entry ∈ history, ∀ c task, entry.before.task c = some task →
      is_active_status task.status = false →
      ∀ task', s.task c = some task' → is_active_status task'.status = false :=
  ⟨(h.bounded hworkers).within, fun _ hmem _ _ htask hfinal _ htask' =>
    h.final hworkers hmem htask hfinal htask'⟩

end Final

set_option maxRecDepth 100000 in
/-- Two captures, the first of which has ended. -/
theorem limit_kept_two_captures : ∃ history s, Run one_of_each history s ∧
    one_of_each.workers ≠ [] ∧
    ((s.task 1000).map SRxCaptureTask.status = some .COMPLETED ∧
      (s.task 1001).map SRxCaptureTask.status = some .RESOLVING) ∧
    s.manager.task_mgr.curr.number busy ≤ get_max_concurrent_limit one_of_each ∧
    ∀ entry ∈ history, ∀ c task, entry.before.task c = some task →
      is_active_status task.status = false →
      ∀ task', s.task c = some task' → is_active_status task'.status = false := by
  obtain ⟨history, s, hrun, hstatus⟩ := run_of_replay one_of_each
    (P := fun _ s => (s.task 1000).map SRxCaptureTask.status = some .COMPLETED ∧
      (s.task 1001).map SRxCaptureTask.status = some .RESOLVING)
    [.start { iface := "eth0".toList } {},
      .begin 1000 0 (-1) "a.pcap".toList,
      .manager 2 {},
      .finish 1000 ⟨"a.pcap".toList, 0, 24, 0, none⟩,
      .manager 2 {},
      .manager 2 {},
      .start { iface := "eth1".toList } {}] (by decide +kernel)
  have hworkers : one_of_each.workers ≠ [] := by decide
  exact ⟨history, s, hrun, hworkers, hstatus, limit_kept hrun hworkers⟩

end RxNetCap.Capture
