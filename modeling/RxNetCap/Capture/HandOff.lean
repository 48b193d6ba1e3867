/-
Does every capture that asks for filtering come to an end?

The hand-off of a capture goes from its worker to the manager, to a filter
thread and back. Every step keeps a capture on course or loses it, a lost
capture stays lost, and a step loses one exactly when a condition of the
hand-off fails (`Able`).

So in a run every capture whose worker is done is on the way or settled if and
only if every hand-off met its condition (`hand_off_iff`). The handlers that
drop a capture have no failure to report: a text that does not parse leaves the
task running, in the count and in the use of the PDEF file for good.
-/
import RxNetCap.Capture.Progress
import RxNetCap.Capture.Replay

set_option autoImplicit false

namespace RxNetCap.Capture

open RxNetCap.Mailbox RxNetCap.Tally RxNetCap.Pdef

/-- The condition on an event: a raw file that comes to the manager finds a
running filter thread whose turn it is; one that comes to a filter thread finds
a PDEF that parses, a raw file that opens and an output that opens. -/
def Able (cfg : Config) (s : System) : Event → Prop
  | .manager _ (.raw_file _) _ =>
    ∃ thread, filter_thread_for cfg.filter_threads s.manager.next_filter = some thread ∧
      thread ∈ cfg.threads
  | .filter _ _ (.raw_file raw_msg) world =>
    (∃ pdef, load_pdef raw_msg world = .accepted pdef) ∧ world.raw_pcap ≠ none ∧
      world.output_opens = true
  | _ => True

/-! ## The worker -/

section Worker

variable {cfg : Config} {c : ℤ} {s : System}

theorem about_all {letters : Mail} (h : ∀ letter ∈ letters, letter.2.capture? = some c) :
    about (Msg.is_about c) letters = letters := by
  rw [about, List.filter_eq_self]
  intro letter hmem
  exact is_about_iff.mpr (h letter hmem)

theorem about_singleton {route : Route} {msg : Msg} (h : msg.capture? = some c) :
    about (Msg.is_about c) [(route, msg)] = [(route, msg)] := by
  apply about_all
  intro letter hmem
  rw [List.mem_singleton.mp hmem]
  exact h

/-- A worker's message to the manager arrives. -/
theorem send_to_manager_eq {start_msg : SRxCaptureStartMsgV2} (h : StartedBy cfg c start_msg)
    (worker : ℕ) (msg : Msg) :
    send_to_manager cfg.threads worker start_msg msg = [(⟨worker, cfg.manager⟩, msg)] := by
  rw [send_to_manager, h.sender, if_neg (Nat.ne_of_gt cfg.manager_pos),
    put_obj_msg_of_mem cfg.manager_runs]

theorem Announced.nil (cfg : Config) (c : ℤ) (worker : ℕ) : Announced cfg c worker [] := by
  intro letter hmem
  simp at hmem

theorem Announced.append {worker : ℕ} {front front' : Mail} (h : Announced cfg c worker front)
    (h' : Announced cfg c worker front') : Announced cfg c worker (front ++ front') := by
  intro letter hmem
  rcases List.mem_append.mp hmem with hmem | hmem
  · exact h letter hmem
  · exact h' letter hmem

theorem Announced.singleton {worker : ℕ} {msg : Msg} (hmsg : msg.capture? = some c)
    (hpre : msg.is_preliminary = true) : Announced cfg c worker [(⟨worker, cfg.manager⟩, msg)] := by
  intro letter hmem
  rw [List.mem_singleton.mp hmem]
  exact ⟨rfl, hmsg, hpre⟩

theorem Announced.about {worker : ℕ} {front : Mail} (h : Announced cfg c worker front) :
    about (Msg.is_about c) front = front := about_all fun letter hmem => (h letter hmem).2.1

theorem Result.capture {msg : Msg} (h : Result c msg) : msg.capture? = some c := by
  cases h with
  | finished msg id => exact congrArg some id
  | failed msg id => exact congrArg some id
  | raw_file msg id _ => exact congrArg some id

/-- At the end a worker sends the result of its capture, perhaps after saying
that its file is ready. -/
theorem send_result_eq {start_msg : SRxCaptureStartMsgV2} (h : StartedBy cfg c start_msg)
    (worker : ℕ) (job : JobResult) :
    ∃ front msg, Announced cfg c worker front ∧ Result c msg ∧
      send_result cfg.threads worker start_msg job
        = front ++ [(⟨worker, cfg.manager⟩, msg)] := by
  unfold send_result
  split
  · next hfilter =>
    exact ⟨[], _, Announced.nil _ _ _, .raw_file _ h.id (decide_eq_true hfilter),
      send_to_manager_eq h worker _⟩
  · refine ⟨send_file_ready cfg.threads worker start_msg (result_files job), _, ?_,
      .finished _ h.id, congrArg _ (send_to_manager_eq h worker _)⟩
    unfold send_file_ready
    split
    · exact Announced.nil _ _ _
    · rw [send_to_manager_eq h]
      exact Announced.singleton (congrArg some h.id) rfl

theorem reports_post (sent : Mail) (phase : Phase) :
    reports c (s.post c sent phase) = reports c s ++ about (Msg.is_about c) sent :=
  about_append s.letters sent

theorem quiet_post (h : Quiet c s) (sent : Mail) (phase : Phase) :
    Quiet c (s.post c sent phase) := ⟨h.noticed, h.inactive⟩

/-- The worker's last message puts its capture on the way. -/
theorem onCourse_post {worker : ℕ} {front : Mail} {msg : Msg}
    (hannounced : Announced cfg c worker (reports c s ++ front)) (hresult : Result c msg)
    (hquiet : Quiet c s) :
    OnCourse cfg c (s.post c (front ++ [(⟨worker, cfg.manager⟩, msg)]) .over) := by
  have hfront : Announced cfg c worker front := fun letter hmem =>
    hannounced letter (List.mem_append_right _ hmem)
  rw [OnCourse, phase_post]
  refine .inl (.ending worker (reports c s ++ front) msg hannounced hresult ?_
    (quiet_post hquiet _ _))
  rw [reports_post, about_append, hfront.about, about_singleton hresult.capture,
    List.append_assoc]

end Worker

/-! ## The manager -/

section Deliveries

variable {cfg : Config} {c : ℤ} {s : System} {rest : Mail} {world : ManagerWorld}

/-- A letter about the capture is taken from the reports on it. -/
theorem takes_report {route : Route} {msg : Msg} (htakes : Takes route msg s.letters rest)
    (hmsg : msg.capture? = some c) :
    Takes route msg (reports c s) (about (Msg.is_about c) rest) :=
  htakes.about_same (is_about_iff.mpr hmsg)

/-- A preliminary message is noted in the task and settles nothing. -/
theorem managed_preliminary (cfg : Config) (c : ℤ) (s : System) (rest : Mail)
    (world : ManagerWorld) {msg : Msg} (hpre : msg.is_preliminary = true) :
    reports c (s.managed cfg msg world rest) = about (Msg.is_about c) rest ∧
    (Quiet c s → Quiet c (s.managed cfg msg world rest)) := by
  cases msg with
  | started msg =>
    refine ⟨?_, fun h => ⟨h.noticed, h.inactive⟩⟩
    rw [reports, System.managed, about_append]
    exact List.append_nil _
  | file_ready msg =>
    have hsent : about (Msg.is_about c) (handle_capture_file_ready_v2 cfg msg world s.manager).2
        = [] := by
      apply about_eq_nil
      intro letter hmem
      unfold handle_capture_file_ready_v2 at hmem
      split at hmem
      · simp at hmem
      · split at hmem
        · simp at hmem
        · rw [mem_put_obj_msg hmem]
          exact not_about_none rfl c
    have hsame : (handle_capture_file_ready_v2 cfg msg world s.manager).1.notices
          = s.manager.notices ∧
        (handle_capture_file_ready_v2 cfg msg world s.manager).1.pdef_usage_map
          = s.manager.pdef_usage_map := by
      unfold handle_capture_file_ready_v2
      split
      · exact ⟨rfl, rfl⟩
      · split
        · exact ⟨rfl, rfl⟩
        · exact ⟨rfl, rfl⟩
    refine ⟨?_, fun h => ⟨?_, fun p hp => h.inactive p ?_⟩⟩
    · rw [reports, System.managed, about_append, manager_handle_msg, hsent, List.append_nil]
    · rw [noticed, System.managed, manager_handle_msg, hsame.1]
      exact h.noticed
    · rw [active, System.managed, manager_handle_msg, hsame.2] at hp
      exact hp
  | _ => cases hpre

theorem final_of_update {capture_id : ℤ} {mgr : CRxSafeTaskMgr} {status : ECaptureTaskStatus}
    (hstatus : is_active_status status = false) (updater : SRxCaptureTask → SRxCaptureTask) :
    ∀ task, (mgr.update_then capture_id updater status).2.task capture_id = some task →
      is_active_status task.status = false := by
  intro task htask
  rw [update_then_task, if_pos rfl] at htask
  obtain ⟨old, -, rfl⟩ := Option.map_eq_some_iff.mp htask
  exact hstatus

theorem finish_task_final (capture_id : ℤ) (result : CaptureResultStats) (now : ℤ)
    (mgr : CRxSafeTaskMgr) :
    ∀ task, (finish_task capture_id result now mgr).2.task capture_id = some task →
      is_active_status task.status = false := by
  unfold finish_task
  split
  · exact final_of_update rfl _
  · split
    · intro task htask
      rw [update_status_task, if_pos rfl] at htask
      obtain ⟨old, -, rfl⟩ := Option.map_eq_some_iff.mp htask
      rfl
    · exact final_of_update rfl _

/-- A message that ends the capture: one notice, a final status, nothing sent
on, and the PDEF files as before or one fewer. -/
structure Ends (c : ℤ) (m : Manager) (r : Manager × Mail) : Prop where
  sent : r.2 = []
  noticed : noticed c r.1 = noticed c m + 1
  final : ∀ task, r.1.task_mgr.task c = some task → is_active_status task.status = false
  active : ∀ p, c ∈ active_in r.1.pdef_usage_map p → c ∈ active_in m.pdef_usage_map p

/-- New tasks and a notice, with the cooldown cleared. -/
theorem ends_notice (m : Manager) {task_mgr : CRxSafeTaskMgr} (status : ECaptureTaskStatus)
    (hfinal : ∀ task, task_mgr.task c = some task → is_active_status task.status = false) :
    Ends c m (clear_module_cooldown_for_capture c ({ m with task_mgr }.notice c status), []) := by
  obtain ⟨last, hclear⟩ := clear_module_cooldown_eq c ({ m with task_mgr }.notice c status)
  rw [hclear]
  refine ⟨rfl, ?_, hfinal, fun _ h => h⟩
  refine (noticed_notice c c status { m with task_mgr }).trans ?_
  rw [if_pos rfl]
  rfl

theorem ends_finished (cfg : Config) (msg : SRxCaptureFinishedMsgV2) (world : ManagerWorld) (m : Manager) :
    Ends msg.capture_id m (manager_handle_msg cfg (.finished msg) world m) :=
  ends_notice _ _ (finish_task_final _ _ _ _)

theorem ends_failed (cfg : Config) (msg : SRxCaptureFailedMsgV2) (world : ManagerWorld) (m : Manager) :
    Ends msg.capture_id m (manager_handle_msg cfg (.failed msg) world m) :=
  ends_notice _ _ (final_of_update rfl _)

/-- Leaving the PDEF file and writing to it leave the end as it is. -/
theorem ends_usage {m m' : Manager} {pdef_path : CStr} (hpath : pdef_path ≠ [])
    (writeback_ok : Bool) (hends : Ends c m (m', [])) :
    let left := try_writeback_pdef_endian pdef_path writeback_ok
      { m' with pdef_usage_map := track_pdef_usage_end c pdef_path m'.pdef_usage_map }
    Ends c m (left, []) ∧ c ∉ active_in left.pdef_usage_map pdef_path := by
  obtain ⟨usage, writebacks, hwriteback, hactive⟩ := try_writeback_eq pdef_path writeback_ok
    { m' with pdef_usage_map := track_pdef_usage_end c pdef_path m'.pdef_usage_map }
  simp only [hwriteback]
  refine ⟨⟨rfl, hends.noticed, hends.final, fun p hp => hends.active p ?_⟩, fun hp => ?_⟩
  · rw [hactive p, active_in_end] at hp
    split at hp
    · exact Finset.mem_of_mem_erase hp
    · exact hp
  · rw [hactive, active_in_end, if_pos ⟨rfl, hpath⟩] at hp
    exact Finset.notMem_erase _ _ hp

/-- With the filtered file the capture ends and ceases to use its PDEF file. -/
theorem ends_filtered (cfg : Config) (msg : SRxCaptureFilteredFileMsgV2) (world : ManagerWorld)
    (m : Manager) :
    Ends msg.capture_id m (manager_handle_msg cfg (.filtered_file msg) world m) ∧
    (msg.pdef_file_path ≠ [] → msg.capture_id ∉ active_in
      (manager_handle_msg cfg (.filtered_file msg) world m).1.pdef_usage_map
        msg.pdef_file_path) := by
  let appended := (m.task_mgr.append_capture_files msg.capture_id (filtered_files msg world)).2
  let updater := TaskUpdaterFinished world.now_usec msg.total_packets msg.file_size
    msg.filtered_pcap_path
  have hfinal : ∀ task, (appended.update_then msg.capture_id updater .COMPLETED).2.task
      msg.capture_id = some task → is_active_status task.status = false :=
    final_of_update rfl updater
  have hends := ends_notice m .COMPLETED hfinal
  simp only [manager_handle_msg, handle_capture_filtered_file_v2]
  split
  · next hpath => exact ⟨hends, fun hne => absurd hpath hne⟩
  · next hpath =>
    obtain ⟨hended, hunused⟩ := ends_usage hpath world.writeback_ok hends
    exact ⟨hended, fun _ => hunused⟩

/-- The capture is settled by a message that ends it, if that was the last one
about it and no PDEF file is used afterwards. -/
theorem settled_of_ends {msg : Msg}
    (hends : Ends c s.manager (manager_handle_msg cfg msg world s.manager))
    (hrest : about (Msg.is_about c) rest = []) (hnoticed : noticed c s.manager = 0)
    (hinactive : ∀ p, c ∉ active (s.managed cfg msg world rest) p) :
    Settled c (s.managed cfg msg world rest) where
  reports := by
    rw [reports, System.managed, about_append, hends.sent, hrest]
    rfl
  noticed := by
    have hone := hends.noticed
    rw [hnoticed] at hone
    exact hone
  inactive := hinactive
  final := hends.final

theorem inactive_of_ends {msg : Msg}
    (hends : Ends c s.manager (manager_handle_msg cfg msg world s.manager))
    (hquiet : Quiet c s) (p : CStr) : c ∉ active (s.managed cfg msg world rest) p :=
  fun hp => hquiet.inactive p (hends.active p hp)

/-- What the manager does with a raw file when a filter thread is there. -/
theorem handle_raw_file_turn (raw : SRxCaptureRawFileMsgV2) {m : Manager} {thread : ℕ}
    (hturn : filter_thread_for cfg.filter_threads m.next_filter = some thread) :
    some thread ∈ cfg.filter_threads ∧ handle_capture_raw_file_v2 cfg raw m
      = ({ m with
          pdef_usage_map := track_pdef_usage_start raw.capture_id raw.pdef_file_path
            m.pdef_usage_map
          next_filter := m.next_filter + 1 },
        put_obj_msg cfg.threads cfg.manager thread
          (.raw_file { raw with manager_thread_index := cfg.manager })) := by
  have hmem : some thread ∈ cfg.filter_threads := by
    have hget := hturn
    rw [filter_thread_for, List.getD_eq_getElem?_getD] at hget
    cases hentry : cfg.filter_threads[m.next_filter % cfg.filter_threads.length]? with
    | none =>
      rw [hentry] at hget
      cases hget
    | some entry =>
      rw [hentry] at hget
      obtain rfl : entry = some thread := hget
      exact List.mem_of_getElem? hentry
  refine ⟨hmem, ?_⟩
  simp only [handle_capture_raw_file_v2, if_neg (List.ne_nil_of_mem hmem), hturn]

/-- And what it does with any: no notice, and no letter unless a running filter
thread is there. -/
theorem handle_raw_file_drops (raw : SRxCaptureRawFileMsgV2) {m : Manager}
    (hunable : ¬ ∃ thread, filter_thread_for cfg.filter_threads m.next_filter = some thread ∧
      thread ∈ cfg.threads) :
    (handle_capture_raw_file_v2 cfg raw m).2 = [] ∧
    (handle_capture_raw_file_v2 cfg raw m).1.notices = m.notices := by
  simp only [handle_capture_raw_file_v2]
  split
  · exact ⟨rfl, rfl⟩
  · split
    · exact ⟨rfl, rfl⟩
    · next thread hturn =>
      refine ⟨if_neg fun hrunning => hunable ⟨thread, hturn, hrunning⟩, rfl⟩

/-- A raw file that comes to the manager: on to the filter thread whose turn it
is, or lost. -/
theorem managed_raw_file {sender : ℕ} (raw : SRxCaptureRawFileMsgV2)
    (hover : s.phase raw.capture_id = .over) (hfilter : raw.has_pdef_filter = true)
    (hquiet : Quiet raw.capture_id s) (hrest : about (Msg.is_about raw.capture_id) rest = []) :
    (Able cfg s (.manager sender (.raw_file raw) world) →
      OnCourse cfg raw.capture_id (s.managed cfg (.raw_file raw) world rest)) ∧
    (¬ Able cfg s (.manager sender (.raw_file raw) world) →
      Lost raw.capture_id (s.managed cfg (.raw_file raw) world rest)) := by
  constructor
  · rintro ⟨thread, hturn, hrunning⟩
    obtain ⟨hmem, hhandled⟩ := handle_raw_file_turn raw hturn
    have hphase : (s.managed cfg (.raw_file raw) world rest).phase raw.capture_id = .over := hover
    rw [OnCourse, hphase]
    refine .inl (.filtering thread { raw with manager_thread_index := cfg.manager } hmem rfl
      hfilter rfl ?_ ?_ ?_)
    · rw [reports, System.managed, manager_handle_msg, hhandled, about_append, hrest,
        put_obj_msg_of_mem hrunning, about_singleton rfl]
      rfl
    · rw [noticed, System.managed, manager_handle_msg, hhandled]
      exact hquiet.noticed
    · intro p hp
      rw [active, System.managed, manager_handle_msg, hhandled, active_in_start] at hp
      split at hp
      · next hpath => exact ⟨hpath.1, hpath.1 ▸ hpath.2⟩
      · exact absurd hp (hquiet.inactive p)
  · intro hunable
    obtain ⟨hsent, hnotices⟩ := handle_raw_file_drops raw hunable
    refine ⟨hover, ?_, ?_⟩
    · rw [reports, System.managed, manager_handle_msg, about_append, hsent, hrest]
      rfl
    · rw [noticed, System.managed, manager_handle_msg, hnotices]
      exact hquiet.noticed

/-- A worker's last message settles its capture, or hands it on. -/
theorem managed_result {sender : ℕ} {msg : Msg} (hresult : Result c msg)
    (hover : s.phase c = .over) (hquiet : Quiet c s)
    (hrest : about (Msg.is_about c) rest = []) :
    (Able cfg s (.manager sender msg world) → OnCourse cfg c (s.managed cfg msg world rest)) ∧
    (¬ Able cfg s (.manager sender msg world) → Lost c (s.managed cfg msg world rest)) := by
  have hphase : (s.managed cfg msg world rest).phase c = .over := hover
  cases hresult with
  | finished msg id =>
    subst id
    have hends := ends_finished cfg msg world s.manager
    refine ⟨fun _ => ?_, fun hunable => absurd trivial hunable⟩
    rw [OnCourse, hphase]
    exact .inr (settled_of_ends hends hrest hquiet.noticed (inactive_of_ends hends hquiet))
  | failed msg id =>
    subst id
    have hends := ends_failed cfg msg world s.manager
    refine ⟨fun _ => ?_, fun hunable => absurd trivial hunable⟩
    rw [OnCourse, hphase]
    exact .inr (settled_of_ends hends hrest hquiet.noticed (inactive_of_ends hends hquiet))
  | raw_file raw id hfilter =>
    subst id
    exact managed_raw_file raw hover hfilter hquiet hrest

/-- The filtered file settles its capture. -/
theorem managed_filtered_file (msg : SRxCaptureFilteredFileMsgV2)
    (hrest : about (Msg.is_about msg.capture_id) rest = [])
    (hnoticed : noticed msg.capture_id s.manager = 0)
    (huses : UsesOnly msg.capture_id msg.pdef_file_path s) :
    Settled msg.capture_id (s.managed cfg (.filtered_file msg) world rest) := by
  obtain ⟨hends, hunused⟩ := ends_filtered cfg msg world s.manager
  refine settled_of_ends hends hrest hnoticed fun p hp => ?_
  obtain ⟨rfl, hpath⟩ := huses p (hends.active p hp)
  exact hunused hpath hp

/-- Of the letters of a worker, the first is taken: a preliminary one, or, when
there is none, the one behind. -/
theorem takes_announced {worker sender target : ℕ} {front back : Mail} {msg : Msg} {left : Mail}
    (hannounced : Announced cfg c worker front)
    (hback : ∀ letter ∈ back, letter.1 = ⟨worker, cfg.manager⟩)
    (htakes : Takes ⟨sender, target⟩ msg (front ++ back) left) :
    target = cfg.manager ∧
    ((msg.is_preliminary = true ∧ ∃ front', Announced cfg c worker front' ∧
        left = front' ++ back) ∨
      (front = [] ∧ Takes ⟨sender, target⟩ msg back left)) := by
  have hroute : ∀ letter ∈ front ++ back, letter.1 = ⟨worker, cfg.manager⟩ := by
    intro letter hmem
    rcases List.mem_append.mp hmem with hmem | hmem
    · exact (hannounced letter hmem).1
    · exact hback letter hmem
  have htarget : target = cfg.manager := congrArg Route.target (hroute _ htakes.mem)
  refine ⟨htarget, ?_⟩
  cases front with
  | nil => exact .inr ⟨rfl, htakes⟩
  | cons first front' =>
    obtain ⟨rfl, rfl⟩ := htakes.along hroute
    refine .inl ⟨(hannounced _ List.mem_cons_self).2.2, front', ?_, rfl⟩
    exact fun letter hmem => hannounced letter (List.mem_cons_of_mem _ hmem)

/-- Every message but a raw file meets its condition. -/
theorem able_preliminary {sender : ℕ} {msg : Msg} (hpre : msg.is_preliminary = true) :
    Able cfg s (.manager sender msg world) := by
  cases msg with
  | raw_file _ => cases hpre
  | _ => trivial

/-- **The manager.** A message about a capture on course keeps it on course if
its condition holds, and loses it otherwise. -/
theorem OnCourse.managed {sender : ℕ} {msg : Msg} (h : OnCourse cfg c s)
    (htakes : Takes ⟨sender, cfg.manager⟩ msg s.letters rest) (hmsg : msg.capture? = some c) :
    (Able cfg s (.manager sender msg world) → OnCourse cfg c (s.managed cfg msg world rest)) ∧
    (¬ Able cfg s (.manager sender msg world) → Lost c (s.managed cfg msg world rest)) := by
  have htake := takes_report htakes hmsg
  unfold OnCourse at h
  split at h
  · rw [h.1] at htake
    exact absurd htake Takes.not_nil
  · rw [h.2.1] at htake
    exact absurd htake Takes.not_nil
  · next worker start_msg hphase =>
    obtain ⟨hstarted, hannounced, hquiet⟩ := h
    rw [← List.append_nil (reports c s)] at htake
    obtain ⟨-, ⟨hpre, front, hfront, hrest⟩ | ⟨-, hnone⟩⟩ :=
      takes_announced hannounced (by simp) htake
    · refine ⟨fun _ => ?_, fun hunable => absurd (able_preliminary hpre) hunable⟩
      obtain ⟨hreports, hkeeps⟩ := managed_preliminary cfg c s rest world hpre
      have hphase' : (s.managed cfg msg world rest).phase c = .capturing worker start_msg := hphase
      rw [OnCourse, hphase', hreports, hrest, List.append_nil]
      exact ⟨hstarted, hfront, hkeeps hquiet⟩
    · exact absurd hnone Takes.not_nil
  · next hover =>
    have hphase : (s.managed cfg msg world rest).phase c = .over := hover
    rcases h with handed | settled
    · cases handed with
      | ending worker front result hannounced hresult hreports hquiet =>
        rw [hreports] at htake
        obtain ⟨-, ⟨hpre, front', hfront, hrest⟩ | ⟨-, hlast⟩⟩ :=
          takes_announced hannounced (by simp) htake
        · -- a letter before the result
          refine ⟨fun _ => ?_, fun hunable => absurd (able_preliminary hpre) hunable⟩
          obtain ⟨hafter, hkeeps⟩ := managed_preliminary cfg c s rest world hpre
          rw [OnCourse, hphase]
          exact .inl (.ending worker front' result hfront hresult (hafter.trans hrest)
            (hkeeps hquiet))
        · obtain ⟨hletter, hrest⟩ := hlast.only
          obtain rfl : result = msg := (Prod.mk.inj hletter).2
          exact managed_result hresult hover hquiet hrest
      | filtering thread raw running id filter sender hreports hnoticed huses =>
        rw [hreports] at htake
        have hroute := (Prod.mk.inj htake.only.1).1
        obtain rfl : thread = cfg.manager := congrArg Route.target hroute
        exact absurd running cfg.manager_apart
      | filtered thread filtered id hreports hnoticed huses =>
        rw [hreports] at htake
        obtain ⟨hletter, hrest⟩ := htake.only
        obtain rfl : Msg.filtered_file filtered = msg := (Prod.mk.inj hletter).2
        subst id
        refine ⟨fun _ => ?_, fun hunable => absurd trivial hunable⟩
        rw [OnCourse, hphase]
        exact .inr (managed_filtered_file filtered hrest hnoticed huses)
    · rw [settled.reports] at htake
      exact absurd htake Takes.not_nil

/-! ## The filter threads -/

/-- What a filter thread posts about the raw file of a capture: the filtered
file, or nothing. -/
theorem filter_sends (s : System) {thread : ℕ} (sender : ℕ) {raw : SRxCaptureRawFileMsgV2} {world : FilterWorld}
    {result : Filtering} (hfilter : raw.has_pdef_filter = true)
    (hsender : raw.manager_thread_index = cfg.manager)
    (h : handle_raw_file cfg.threads thread raw world = some result) :
    (Able cfg s (.filter thread sender (.raw_file raw) world) →
      ∃ msg : SRxCaptureFilteredFileMsgV2, msg.capture_id = raw.capture_id ∧
        msg.pdef_file_path = raw.pdef_file_path ∧
        about (Msg.is_about raw.capture_id) result.sent
          = [(⟨thread, cfg.manager⟩, .filtered_file msg)]) ∧
    (¬ Able cfg s (.filter thread sender (.raw_file raw) world) → result.sent = []) := by
  unfold handle_raw_file at h
  rw [if_neg (by rw [hfilter]; decide)] at h
  constructor
  · rintro ⟨⟨pdef, hpdef⟩, hraw, houtput⟩
    obtain ⟨packets, hpackets⟩ := Option.ne_none_iff_exists'.mp hraw
    simp only [hpdef, hpackets, houtput, Bool.true_eq_false, if_false] at h
    obtain ⟨⟨kept, pdef'⟩, -, hresult⟩ := Option.bind_eq_some_iff.mp h
    rw [← Option.some.inj hresult]
    let msg : SRxCaptureFilteredFileMsgV2 :=
      { capture_id := raw.capture_id
        key := raw.key
        sid := raw.sid
        sender_thread_index := thread
        filtered_pcap_path := filtered_path raw.raw_pcap_path
        total_packets := packets.length
        filtered_packets := kept.length
        file_size := world.file_size
        pdef_file_path := raw.pdef_file_path }
    refine ⟨msg, rfl, rfl, ?_⟩
    rw [send_filtered, hsender, put_obj_msg_of_mem cfg.manager_runs, about_append,
      about_singleton rfl]
    -- the byte order, if it is sent, is no report on the capture
    have hendian : ∀ letters : Mail, (∀ letter ∈ letters, letter.2.capture? = none) →
        about (Msg.is_about raw.capture_id) letters = [] := by
      intro letters hletters
      apply about_eq_nil
      intro letter hmem
      exact not_about_none (hletters letter hmem) _
    rw [hendian, List.append_nil]
    intro letter hmem
    split at hmem
    · rw [mem_put_obj_msg hmem]
      rfl
    · simp at hmem
  · intro hunable
    split at h
    · cases h
    · rw [← Option.some.inj h]
    · next pdef hpdef =>
      split at h
      · rw [← Option.some.inj h]
      · next packets hpackets =>
        split at h
        · rw [← Option.some.inj h]
        · next houtput =>
          refine absurd ⟨⟨pdef, hpdef⟩, ?_, ?_⟩ hunable
          · rw [hpackets]
            exact Option.some_ne_none packets
          · exact Bool.eq_true_of_not_eq_false houtput

/-- **A filter thread.** A message about a capture on course keeps it on course
if its condition holds, and loses it otherwise. -/
theorem OnCourse.filtered {thread sender : ℕ} {msg : Msg} {world : FilterWorld}
    {result : Filtering} (h : OnCourse cfg c s) (hrunning : some thread ∈ cfg.filter_threads)
    (htakes : Takes ⟨sender, thread⟩ msg s.letters rest) (hmsg : msg.capture? = some c)
    (hhandled : filter_handle_msg cfg.threads thread msg world = some result) :
    (Able cfg s (.filter thread sender msg world) →
      OnCourse cfg c { s with letters := rest ++ result.sent }) ∧
    (¬ Able cfg s (.filter thread sender msg world) →
      Lost c { s with letters := rest ++ result.sent }) := by
  have htake := takes_report htakes hmsg
  have hapart : thread ≠ cfg.manager := by
    rintro rfl
    exact cfg.manager_apart hrunning
  unfold OnCourse at h
  split at h
  · rw [h.1] at htake
    exact absurd htake Takes.not_nil
  · rw [h.2.1] at htake
    exact absurd htake Takes.not_nil
  · obtain ⟨-, hannounced, -⟩ := h
    rw [← List.append_nil (reports c s)] at htake
    exact absurd (takes_announced hannounced (by simp) htake).1 hapart
  · next hover =>
    rcases h with handed | settled
    · cases handed with
      | ending worker front last hannounced hresult hreports hquiet =>
        rw [hreports] at htake
        exact absurd (takes_announced hannounced (by simp) htake).1 hapart
      | filtering thread' raw running id filter sender hreports hnoticed huses =>
        rw [hreports] at htake
        obtain ⟨hletter, hrest⟩ := htake.only
        obtain ⟨hroute, rfl⟩ := Prod.mk.inj hletter
        obtain ⟨rfl, rfl⟩ := Route.mk.inj hroute
        subst id
        obtain ⟨hable, hunable⟩ := filter_sends s cfg.manager filter sender hhandled
        constructor
        · intro h
          obtain ⟨msg, hid, hpath, hsent⟩ := hable h
          rw [OnCourse]
          simp only [hover]
          refine .inl (.filtered thread' msg hid ?_ hnoticed ?_)
          · rw [reports, about_append, hrest, hsent]
            rfl
          · rw [hpath]
            exact huses
        · intro h
          refine ⟨hover, ?_, hnoticed⟩
          rw [reports, about_append, hrest, hunable h]
          rfl
      | filtered thread' filtered id hreports hnoticed huses =>
        rw [hreports] at htake
        have hroute := (Prod.mk.inj htake.only.1).1
        exact absurd (congrArg Route.target hroute).symm hapart
    · rw [settled.reports] at htake
      exact absurd htake Takes.not_nil

end Deliveries

/-! ## A step of the system -/

section Steps

variable {cfg : Config} {c : ℤ} {s s' : System} {event : Event}

/-- A new capture is dispatched, or stays idle when no worker takes it. -/
theorem OnCourse.launched {outcome : Option Dispatch × Manager}
    (h : OnCourse cfg s.manager.next_capture_id s)
    (hidle : s.phase s.manager.next_capture_id = .idle)
    (houtcome : Outcome cfg s.manager outcome) :
    OnCourse cfg s.manager.next_capture_id (s.launch cfg outcome) := by
  rw [OnCourse, hidle] at h
  obtain ⟨hreports, hquiet⟩ := h
  cases houtcome with
  | refused last =>
    have hphase : (s.launch cfg (none, { s.manager with module_last_trigger := last })).phase
        s.manager.next_capture_id = .idle := hidle
    rw [OnCourse, hphase]
    exact ⟨hreports, hquiet.noticed, hquiet.inactive⟩
  | accepted last request now accepts =>
    obtain ⟨hadded, hdispatched⟩ :=
      add_and_dispatch_spec cfg request now { s.manager with module_last_trigger := last }
    cases houtcome : add_and_dispatch cfg request now { s.manager with module_last_trigger := last } with
    | mk dispatch m =>
      rw [houtcome] at hadded hdispatched
      have hnoticed : noticed s.manager.next_capture_id m = 0 := by
        rw [noticed, hadded.notices]
        exact hquiet.noticed
      have hinactive : ∀ p, s.manager.next_capture_id ∉ active_in m.pdef_usage_map p := by
        intro p
        rw [hadded.usage]
        exact hquiet.inactive p
      cases dispatch with
      | none =>
        have hphase : (s.launch cfg (none, m)).phase s.manager.next_capture_id = .idle := hidle
        rw [OnCourse, hphase]
        exact ⟨hreports, hnoticed, hinactive⟩
      | some d =>
        obtain ⟨worker, start_msg⟩ := d
        obtain ⟨hid, hsender, -⟩ := hdispatched.dispatched worker start_msg rfl
        by_cases hworker : worker ∈ cfg.threads
        · have hphase : (s.launch cfg (some (worker, start_msg), m)).phase
              s.manager.next_capture_id = .dispatched worker start_msg := by
            simp only [System.launch, if_pos hworker]
            rw [← hid]
            exact Function.update_self _ _ _
          rw [OnCourse, hphase]
          exact ⟨⟨hid, hsender⟩, hreports, hnoticed, hinactive⟩
        · have hphase : (s.launch cfg (some (worker, start_msg), m)).phase
              s.manager.next_capture_id = .idle := by
            simp only [System.launch, if_neg hworker]
            exact hidle
          rw [OnCourse, hphase]
          exact ⟨hreports, hnoticed, hinactive⟩

/-- **One step.** The capture that a step is about stays on course if the
condition of the step holds, and is lost otherwise. -/
theorem Step.own (h : Step cfg s event s') (hinv : Inv cfg s) (hc : event.concerns s = some c)
    (hcourse : OnCourse cfg c s) :
    (Able cfg s event → OnCourse cfg c s') ∧ (¬ Able cfg s event → Lost c s') := by
  cases h with
  | start start_msg world =>
    obtain rfl := Option.some.inj hc
    refine ⟨fun _ => ?_, fun hunable => absurd trivial hunable⟩
    exact hcourse.launched (hinv.fresh _ le_rfl)
      (handle_start_outcome cfg start_msg world s.manager)
  | alert alert world now =>
    obtain rfl := Option.some.inj hc
    refine ⟨fun _ => ?_, fun hunable => absurd trivial hunable⟩
    exact hcourse.launched (hinv.fresh _ le_rfl)
      (handle_alert_outcome cfg alert world now s.manager)
  | tick => cases hc
  | @abort c' worker start_msg phase =>
    obtain rfl := Option.some.inj hc
    obtain ⟨hstarted, hreports, hquiet⟩ := hinv.dispatched phase
    refine ⟨fun _ => ?_, fun hunable => absurd trivial hunable⟩
    have hannounced : Announced cfg c' worker (reports c' s ++ []) := by
      rw [hreports]
      exact Announced.nil _ _ _
    rw [send_failure, send_to_manager_eq hstarted]
    exact onCourse_post hannounced (.failed _ hstarted.id) hquiet
  | @begin c' worker start_msg start_ts capture_pid output_file phase =>
    obtain rfl := Option.some.inj hc
    obtain ⟨hstarted, hreports, hquiet⟩ := hinv.dispatched phase
    refine ⟨fun _ => ?_, fun hunable => absurd trivial hunable⟩
    rw [OnCourse, phase_post]
    refine ⟨hstarted, ?_, quiet_post hquiet _ _⟩
    have hid : (Msg.started { reply_base worker start_msg with
        start_ts, capture_pid, output_file }).capture? = some c' := congrArg some hstarted.id
    rw [reports_post, hreports, List.nil_append, send_started, send_to_manager_eq hstarted,
      about_singleton hid]
    exact Announced.singleton hid rfl
  | @finish _ worker start_msg job phase =>
    obtain rfl := Option.some.inj hc
    obtain ⟨hstarted, hannounced, hquiet⟩ := hinv.capturing phase
    refine ⟨fun _ => ?_, fun hunable => absurd trivial hunable⟩
    obtain ⟨front, msg, hfront, hresult, hsent⟩ := send_result_eq hstarted worker job
    rw [hsent]
    exact onCourse_post (hannounced.append hfront) hresult hquiet
  | manager world takes => exact hcourse.managed takes hc
  | filter running takes handled => exact hcourse.filtered running takes hc handled

/-- No step is about a capture whose worker is done when no letter about it is
on the way. -/
theorem Step.not_about (h : Step cfg s event s') (hinv : Inv cfg s) (hover : s.phase c = .over)
    (hreports : reports c s = []) : event.concerns s ≠ some c := by
  intro hc
  have hno_letter : ∀ {route : Route} {msg : Msg} {rest : Mail},
      Takes route msg s.letters rest → msg.capture? ≠ some c := by
    intro route msg rest htakes hmsg
    have htake := takes_report htakes hmsg
    rw [hreports] at htake
    exact Takes.not_nil htake
  cases h with
  | start =>
    obtain rfl := Option.some.inj hc
    rw [hinv.fresh _ le_rfl] at hover
    cases hover
  | alert =>
    obtain rfl := Option.some.inj hc
    rw [hinv.fresh _ le_rfl] at hover
    cases hover
  | tick => cases hc
  | abort phase =>
    obtain rfl := Option.some.inj hc
    rw [phase] at hover
    cases hover
  | begin _ _ _ phase =>
    obtain rfl := Option.some.inj hc
    rw [phase] at hover
    cases hover
  | finish _ phase =>
    obtain rfl := Option.some.inj hc
    rw [phase] at hover
    cases hover
  | manager world takes => exact hno_letter takes hc
  | filter running takes handled => exact hno_letter takes hc

/-- Messages take no id. -/
theorem manager_handle_next (cfg : Config) (msg : Msg) (world : ManagerWorld) (m : Manager) :
    (manager_handle_msg cfg msg world m).1.next_capture_id = m.next_capture_id := by
  cases hmsg : msg.capture? with
  | some c => exact (manager_handle_touches cfg hmsg world m).next
  | none =>
    cases msg with
    | endian_detected msg => exact (endian_detected_touches msg world m).2.2.1
    | file_enqueue msg => rfl
    | _ => cases hmsg

theorem launch_fresh {outcome : Option Dispatch × Manager}
    (hfresh : ∀ c, s.manager.next_capture_id ≤ c → s.phase c = .idle)
    (houtcome : Outcome cfg s.manager outcome) :
    ∀ c, (s.launch cfg outcome).manager.next_capture_id ≤ c →
      (s.launch cfg outcome).phase c = .idle := by
  cases houtcome with
  | refused last => exact hfresh
  | accepted last request now accepts =>
    obtain ⟨hadded, hdispatched⟩ :=
      add_and_dispatch_spec cfg request now { s.manager with module_last_trigger := last }
    cases houtcome : add_and_dispatch cfg request now { s.manager with module_last_trigger := last } with
    | mk dispatch m =>
      rw [houtcome] at hadded hdispatched
      intro c hc
      have hnext : m.next_capture_id = s.manager.next_capture_id + 1 := hadded.next
      rw [launch_manager, hnext] at hc
      cases dispatch with
      | none => exact hfresh c (by omega)
      | some d =>
        obtain ⟨worker, start_msg⟩ := d
        obtain ⟨hid, -⟩ := hdispatched.dispatched worker start_msg rfl
        have hid' : start_msg.capture_id = s.manager.next_capture_id := hid
        simp only [System.launch]
        split
        · rw [Function.update_of_ne (by omega)]
          exact hfresh c (by omega)
        · exact hfresh c (by omega)

theorem post_fresh (hfresh : ∀ c, s.manager.next_capture_id ≤ c → s.phase c = .idle)
    (hphase : s.phase c ≠ .idle) (sent : Mail) (phase : Phase) :
    ∀ c', s.manager.next_capture_id ≤ c' → (s.post c sent phase).phase c' = .idle := by
  intro c' hc'
  have hne : c' ≠ c := by
    rintro rfl
    exact hphase (hfresh c' hc')
  rw [System.post]
  simp only [Function.update_of_ne hne]
  exact hfresh c' hc'

/-- The ids from the next one on stay unused. -/
theorem Step.fresh (h : Step cfg s event s') (hinv : Inv cfg s) :
    ∀ c, s'.manager.next_capture_id ≤ c → s'.phase c = .idle := by
  cases h with
  | start start_msg world =>
    exact launch_fresh hinv.fresh (handle_start_outcome cfg start_msg world s.manager)
  | alert alert world now =>
    exact launch_fresh hinv.fresh (handle_alert_outcome cfg alert world now s.manager)
  | tick => exact hinv.fresh
  | abort phase => exact post_fresh hinv.fresh (by rw [phase]; exact Phase.noConfusion) _ _
  | begin _ _ _ phase => exact post_fresh hinv.fresh (by rw [phase]; exact Phase.noConfusion) _ _
  | finish _ phase => exact post_fresh hinv.fresh (by rw [phase]; exact Phase.noConfusion) _ _
  | manager world takes =>
    intro c hc
    rw [System.managed, manager_handle_next] at hc
    exact hinv.fresh c hc
  | filter running takes handled => exact hinv.fresh

/-- Every step keeps the invariant. -/
theorem Step.inv (h : Step cfg s event s') (hinv : Inv cfg s) : Inv cfg s' where
  fresh := h.fresh hinv
  course c := by
    by_cases hc : event.concerns s = some c
    · rcases hinv.course c with hcourse | hlost
      · obtain ⟨hable, hunable⟩ := h.own hinv hc hcourse
        by_cases habled : Able cfg s event
        · exact .inl (hable habled)
        · exact .inr (hunable habled)
      · exact absurd hc (h.not_about hinv hlost.phase hlost.reports)
    · have hview := h.sameView hinv hc
      exact (hinv.course c).imp (·.same hview) (·.same hview)

theorem inv_start (cfg : Config) : Inv cfg {} where
  course _ := .inl ⟨rfl, rfl, fun _ => Finset.notMem_empty _⟩
  fresh _ _ := rfl

/-- **Every run.** A capture is on course or lost in every state reached. -/
theorem Run.inv {history : List Entry} (h : Run cfg history s) : Inv cfg s :=
  h.induction (inv_start cfg) fun step hinv => step.inv hinv

/-- A lost capture stays lost. -/
theorem Lost.step (hlost : Lost c s) (h : Step cfg s event s') (hinv : Inv cfg s) : Lost c s' :=
  hlost.same (h.sameView hinv (h.not_about hinv hlost.phase hlost.reports))

/-- A step that does not meet its condition loses the capture it is about. -/
theorem Step.loses (h : Step cfg s event s') (hinv : Inv cfg s) (hunable : ¬ Able cfg s event) :
    ∃ c, Lost c s' := by
  have hconcerns : ∃ c, event.concerns s = some c := by
    cases event with
    | manager sender msg world =>
      cases msg with
      | raw_file raw => exact ⟨raw.capture_id, rfl⟩
      | _ => exact absurd trivial hunable
    | filter thread sender msg world =>
      cases msg with
      | raw_file raw => exact ⟨raw.capture_id, rfl⟩
      | _ => exact absurd trivial hunable
    | _ => exact absurd trivial hunable
  obtain ⟨c, hc⟩ := hconcerns
  have hcourse := (hinv.course c).resolve_right fun hlost =>
    h.not_about hinv hlost.phase hlost.reports hc
  exact ⟨c, (h.own hinv hc hcourse).2 hunable⟩

end Steps

/-! ## A run of the system -/

section Runs

variable {cfg : Config} {history : List Entry} {s : System}

/-- When every hand-off meets its condition no capture is lost. -/
theorem Run.onCourse (h : Run cfg history s)
    (hable : ∀ entry ∈ history, Able cfg entry.before entry.event) (c : ℤ) :
    OnCourse cfg c s := by
  induction h with
  | start => exact ⟨rfl, rfl, fun _ => Finset.notMem_empty _⟩
  | @step history s s' event run step ih =>
    have hcourse := ih fun entry hmem => hable entry (List.mem_append_left _ hmem)
    have hlast : Able cfg s event := hable ⟨s, event, s'⟩ (List.mem_append_right _ (by simp))
    by_cases hc : event.concerns s = some c
    · exact (step.own run.inv hc hcourse).1 hlast
    · exact hcourse.same (step.sameView run.inv hc)

/-- A hand-off that does not meet its condition leaves a capture lost for the
rest of the run. -/
theorem Run.lost (h : Run cfg history s)
    (hunable : ∃ entry ∈ history, ¬ Able cfg entry.before entry.event) : ∃ c, Lost c s := by
  induction h with
  | start => simp at hunable
  | @step history s s' event run step ih =>
    obtain ⟨entry, hmem, hentry⟩ := hunable
    rcases List.mem_append.mp hmem with hmem | hmem
    · obtain ⟨c, hlost⟩ := ih ⟨entry, hmem, hentry⟩
      exact ⟨c, hlost.step step run.inv⟩
    · obtain rfl := List.mem_singleton.mp hmem
      exact step.loses run.inv hentry

/-- **Filtered captures come to an end** exactly as long as every hand-off
meets its condition: then every capture whose worker is done has one letter on
the way that decides about it, or its end was noticed once, its task is not
active and it is in the active set of no PDEF file. -/
theorem hand_off_iff (h : Run cfg history s) :
    (∀ c, s.phase c = .over → OnTheWay c s ∨ Settled c s) ↔
      ∀ entry ∈ history, Able cfg entry.before entry.event := by
  constructor
  · intro hcarried
    by_contra hunable
    push Not at hunable
    obtain ⟨c, hlost⟩ := h.lost hunable
    exact hlost.not_carried (hcarried c hlost.phase)
  · intro hable c hover
    exact (h.onCourse hable c).carried hover

end Runs

set_option maxRecDepth 100000 in
/-- With a PDEF that is accepted the capture ends. -/
theorem hand_off_iff_accepted : ∃ history s, Run one_of_each history s ∧
    (s.phase 1000 = .over ∧ reports 1000 s = [] ∧ noticed 1000 s.manager = 1) ∧
    ((∀ c, s.phase c = .over → OnTheWay c s ∨ Settled c s) ↔
      ∀ entry ∈ history, Able one_of_each entry.before entry.event) := by
  obtain ⟨history, s, hrun, hended⟩ := run_of_replay one_of_each
    (P := fun _ s => s.phase 1000 = .over ∧ reports 1000 s = [] ∧ noticed 1000 s.manager = 1)
    (filtered_capture game_request ⟨some plain_pdef, some [], true, 0⟩ ++ [.manager 3 {}]) (by decide +kernel)
  exact ⟨history, s, hrun, hended, hand_off_iff hrun⟩

set_option maxRecDepth 100000 in
/-- With the text `}` nothing is on the way when the filter thread is done, no
end was noticed, and the capture keeps its place in the active set and in the
count of running tasks. -/
theorem rejected_text_never_ends : ∃ history s, Run one_of_each history s ∧
    s.phase 1000 = .over ∧ ¬ (OnTheWay 1000 s ∨ Settled 1000 s) ∧
    1000 ∈ active s "game.pdef".toList ∧ running_tasks s.manager.task_mgr = 1 := by
  obtain ⟨history, s, hrun, hover, hreports, hnoticed, hactive, hrunning⟩ :=
    run_of_replay one_of_each
      (P := fun _ s => s.phase 1000 = .over ∧ reports 1000 s = [] ∧ noticed 1000 s.manager = 0 ∧
        1000 ∈ active s "game.pdef".toList ∧ running_tasks s.manager.task_mgr = 1)
      (filtered_capture game_request ⟨some "\x7d".toList, some [], true, 0⟩) (by decide +kernel)
  have hlost : Lost 1000 s := ⟨hover, hreports, hnoticed⟩
  exact ⟨history, s, hrun, hover, hlost.not_carried, hactive, hrunning⟩

end RxNetCap.Capture
