/-
Which files are handed to the cleanup thread.

A capture's file is recorded in its task in one of two ways: its worker says
that the file is ready, or a filter thread says that it was filtered. On the
first way the manager also posts the file to the cleanup thread, on the second
it does not. `Filing` says where a capture is on either way; every step keeps
it (`Step.filing`), so the files of the first way are posted exactly once, and
those of the second never (`all_enqueued_iff`).
-/
import RxNetCap.Capture.HandOff

set_option autoImplicit false

namespace RxNetCap.Capture

open RxNetCap.Mailbox RxNetCap.Tally RxNetCap.Pdef

/-! ## Letters about files -/

/-- A message about a file of its capture. -/
def Msg.is_telling : Msg → Bool
  | .file_ready _ => true
  | .raw_file _ => true
  | .filtered_file _ => true
  | _ => false

def Msg.is_ready : Msg → Bool
  | .file_ready _ => true
  | _ => false

/-- A message that hands files of capture `c` to the cleanup thread. -/
def Msg.hands_over (c : ℤ) : Msg → Bool
  | .file_enqueue msg => msg.capture_id = c
  | _ => false

/-- It hands over the file with this path. -/
def Msg.hands_path (c : ℤ) (path : CStr) : Msg → Bool
  | .file_enqueue msg => msg.capture_id = c ∧ (msg.files.any fun file => file.file_path = path)
  | _ => false

/-- The letters about files of a capture. -/
def told (c : ℤ) (s : System) : Mail := about Msg.is_telling (reports c s)

/-- The letters that hand its files to the cleanup thread. -/
def enqueued (c : ℤ) (s : System) : Mail := about (Msg.hands_over c) s.letters

/-- The files recorded for a capture, if it has a task. -/
def files_of (c : ℤ) (mgr : CRxSafeTaskMgr) : Option (List CaptureFileInfo) :=
  (mgr.task c).map SRxCaptureTask.captured_files

/-- No file is recorded. -/
def Unrecorded (c : ℤ) (s : System) : Prop :=
  ∀ files, files_of c s.manager.task_mgr = some files → files = []

/-- Each file recorded for a task is handed to the cleanup thread by exactly
one letter. -/
def AllEnqueued (cfg : Config) (s : System) : Prop :=
  ∀ c task, s.task c = some task → ∀ file ∈ task.captured_files,
    (s.letters.countP fun letter =>
      cfg.cleanup = some letter.1.target ∧ letter.2.hands_path c file.file_path) = 1

/-- The manager handles a filtered file whose capture has a task. -/
def RecordsFiltered (s : System) (event : Event) : Prop :=
  ∃ sender msg world, event = .manager sender (.filtered_file msg) world ∧
    s.task msg.capture_id ≠ none

/-! ## The ways of a file -/

/-- How far the file of a capture is: nothing is said about it, or it is ready,
or it was handed over, or it takes the way through a filter thread. On that way
nothing is recorded as long as `ok` holds. -/
inductive Filing (cfg : Config) (ok : Prop) (c : ℤ) (s : System) : Prop where
  | untold (told : told c s = []) (enqueued : enqueued c s = []) (unrecorded : Unrecorded c s)
  | ready (worker : ℕ) (msg : SRxCaptureFileReadyMsgV2) (file : CaptureFileInfo)
      (ended : s.phase c = .over) (id : msg.capture_id = c)
      (told : told c s = [(⟨worker, cfg.manager⟩, .file_ready msg)]) (files : msg.files = [file])
      (enqueued : enqueued c s = []) (unrecorded : Unrecorded c s)
  | handed (route : Route) (msg : SRxFileEnqueueMsgV2) (file : CaptureFileInfo)
      (ended : s.phase c = .over) (told : told c s = [])
      (enqueued : enqueued c s = [(route, .file_enqueue msg)]) (files : msg.files = [file])
      (recorded : ∀ files, files_of c s.manager.task_mgr = some files → files = [file])
  | detour (ended : s.phase c = .over) (told : ∀ letter ∈ told c s, letter.2.is_ready = false)
      (enqueued : enqueued c s = []) (unrecorded : ok → Unrecorded c s)

/-- Letters to the cleanup thread come from `file_enqueue` only, and go there. -/
def Delivered (cfg : Config) (s : System) : Prop :=
  ∀ letter ∈ s.letters, ∀ msg, letter.2 = .file_enqueue msg →
    cfg.cleanup = some letter.1.target

section Ways

variable {cfg : Config} {ok ok' : Prop} {c : ℤ} {s s' : System}

theorem files_of_subset {mgr mgr' : CRxSafeTaskMgr}
    (h : ∀ task, mgr'.task c = some task → mgr.task c = some task)
    {files : List CaptureFileInfo} (hfiles : files_of c mgr' = some files) :
    files_of c mgr = some files := by
  obtain ⟨task, htask, rfl⟩ := Option.map_eq_some_iff.mp hfiles
  rw [files_of, h task htask]
  rfl

/-- A capture stays on its way when nothing changes that it depends on. -/
theorem Filing.carry (h : Filing cfg ok c s) (hphase : s'.phase c = s.phase c)
    (htold : Capture.told c s' = Capture.told c s)
    (henqueued : Capture.enqueued c s' = Capture.enqueued c s)
    (hfiles : ∀ files, files_of c s'.manager.task_mgr = some files →
      files_of c s.manager.task_mgr = some files) (hok : ok' → ok) : Filing cfg ok' c s' := by
  have hunrecorded : Unrecorded c s → Unrecorded c s' := fun h files hfiles' =>
    h files (hfiles files hfiles')
  cases h with
  | untold told enqueued unrecorded =>
    exact .untold (htold.trans told) (henqueued.trans enqueued) (hunrecorded unrecorded)
  | ready worker msg file ended id told files enqueued unrecorded =>
    exact .ready worker msg file (hphase.trans ended) id (htold.trans told) files
      (henqueued.trans enqueued) (hunrecorded unrecorded)
  | handed route msg file ended told enqueued files recorded =>
    exact .handed route msg file (hphase.trans ended) (htold.trans told)
      (henqueued.trans enqueued) files fun files hfiles' =>
        recorded files (hfiles files hfiles')
  | detour ended told enqueued unrecorded =>
    refine .detour (hphase.trans ended) ?_ (henqueued.trans enqueued)
      fun hok' => hunrecorded (unrecorded (hok hok'))
    rw [htold]
    exact told

/-- A step about another capture. -/
theorem Filing.same (h : Filing cfg ok c s) (v : SameView c s s')
    (henqueued : Capture.enqueued c s' = Capture.enqueued c s) (hok : ok' → ok) :
    Filing cfg ok' c s' := by
  have htold : Capture.told c s' = Capture.told c s := by
    rw [Capture.told, v.reports, Capture.told]
  exact h.carry v.phase htold henqueued (fun _ => files_of_subset v.tasks) hok

/-- Before its worker is done nothing is said about a file. -/
theorem Filing.before_over (h : Filing cfg ok c s) (hphase : s.phase c ≠ .over) :
    Capture.told c s = [] ∧ Capture.enqueued c s = [] ∧ Unrecorded c s := by
  cases h with
  | untold told enqueued unrecorded => exact ⟨told, enqueued, unrecorded⟩
  | ready worker msg file ended id told files enqueued unrecorded => exact absurd ended hphase
  | handed route msg file ended told enqueued files recorded => exact absurd ended hphase
  | detour ended told enqueued unrecorded => exact absurd ended hphase

/-- A letter about a file is taken from those about the files of its capture. -/
theorem takes_told {route : Route} {msg : Msg} {rest : Mail} (htakes : Takes route msg s.letters rest)
    (hmsg : msg.capture? = some c) (htelling : msg.is_telling = true) :
    Takes route msg (Capture.told c s) (about Msg.is_telling (about (Msg.is_about c) rest)) :=
  (takes_report htakes hmsg).about_same htelling

/-- Another letter leaves those about files as they are. -/
theorem takes_untold {route : Route} {msg : Msg} {rest : Mail}
    (htakes : Takes route msg s.letters rest) (hmsg : msg.capture? = some c)
    (htelling : msg.is_telling = false) :
    about Msg.is_telling (about (Msg.is_about c) rest) = Capture.told c s :=
  (takes_report htakes hmsg).about_other htelling

theorem told_append (m : Manager) (rest sent : Mail) (phase : ℤ → Phase) :
    Capture.told c ⟨m, rest ++ sent, phase⟩
      = about Msg.is_telling (about (Msg.is_about c) rest)
        ++ about Msg.is_telling (about (Msg.is_about c) sent) := by
  rw [Capture.told, reports, about_append, about_append]

theorem enqueued_append (m : Manager) (rest sent : Mail) (phase : ℤ → Phase) :
    Capture.enqueued c ⟨m, rest ++ sent, phase⟩
      = about (Msg.hands_over c) rest ++ about (Msg.hands_over c) sent := about_append _ _

end Ways

/-! ## Letters to the cleanup thread -/

section Delivery

variable {cfg : Config} {c : ℤ} {s s' : System} {event : Event}

/-- What reports on a capture is not for the cleanup thread. -/
theorem reports_hand_nothing {msg : Msg} (h : msg.capture? ≠ none) (c : ℤ) :
    msg.hands_over c = false := by
  cases msg with
  | file_enqueue msg => exact absurd rfl h
  | _ => rfl

theorem Reporting.hands_nothing {c' : ℤ} {sent : Mail} (h : Reporting c' sent) (c : ℤ) :
    about (Msg.hands_over c) sent = [] := by
  apply about_eq_nil
  intro letter hmem
  refine reports_hand_nothing ?_ c
  rw [h letter hmem]
  exact Option.some_ne_none c'

/-- A filter thread sends nothing to the cleanup thread. -/
theorem filter_sends_no_enqueue {threads : List ℕ} {thread : ℕ} {msg : Msg} {world : FilterWorld}
    {result : Filtering} (h : filter_handle_msg threads thread msg world = some result) :
    ∀ letter ∈ result.sent, ∀ m, letter.2 ≠ .file_enqueue m := by
  intro letter hmem m hletter
  rcases filter_handle_cases h with hnone | ⟨raw, rfl, hraw⟩
  · rw [hnone] at hmem
    simp at hmem
  · rcases handle_raw_file_sends hraw with hnone | ⟨pdef, packets, kept, pdef', -, -, -, hsent⟩
    · rw [hnone] at hmem
      simp at hmem
    · rw [hsent, send_filtered] at hmem
      rcases List.mem_append.mp hmem with hmem | hmem
      · rw [mem_put_obj_msg hmem] at hletter
        cases hletter
      · split at hmem
        · rw [mem_put_obj_msg hmem] at hletter
          cases hletter
        · simp at hmem

/-- The manager sends nothing to the cleanup thread, except for a file that is
ready. -/
theorem manager_sends_no_enqueue (cfg : Config) {msg : Msg} (hready : msg.is_ready = false)
    (world : ManagerWorld) (m : Manager) :
    ∀ letter ∈ (manager_handle_msg cfg msg world m).2, ∀ e, letter.2 ≠ .file_enqueue e := by
  intro letter hmem e hletter
  cases msg with
  | file_ready msg => cases hready
  | raw_file msg =>
    simp only [manager_handle_msg, handle_capture_raw_file_v2] at hmem
    split at hmem
    · simp at hmem
    · split at hmem
      · simp at hmem
      · rw [mem_put_obj_msg hmem] at hletter
        cases hletter
  | _ => simp [manager_handle_msg] at hmem

theorem hands_nothing {sent : Mail} (h : ∀ letter ∈ sent, ∀ e, letter.2 ≠ .file_enqueue e)
    (c : ℤ) : about (Msg.hands_over c) sent = [] := by
  apply about_eq_nil
  intro letter hmem
  cases hmsg : letter.2 with
  | file_enqueue e => exact absurd hmsg (h letter hmem e)
  | _ => rfl

/-- The letter that the manager posts for a file that is ready. -/
theorem mem_file_ready {msg : SRxCaptureFileReadyMsgV2} {world : ManagerWorld} {m : Manager}
    {letter : Route × Msg}
    (h : letter ∈ (manager_handle_msg cfg (.file_ready msg) world m).2) :
    cfg.cleanup = some letter.1.target ∧ ∃ e, letter.2 = .file_enqueue e ∧
      e.capture_id = msg.capture_id := by
  simp only [manager_handle_msg, handle_capture_file_ready_v2] at h
  split at h
  · simp at h
  · split at h
    · simp at h
    · next t hcleanup =>
      rw [mem_put_obj_msg h]
      exact ⟨hcleanup, _, rfl, rfl⟩

/-- Nobody else takes what goes to the cleanup thread. -/
theorem Delivered.not_taken (h : Delivered cfg s) {sender target : ℕ} {msg : Msg} {rest : Mail}
    (htakes : Takes ⟨sender, target⟩ msg s.letters rest) (htarget : cfg.cleanup ≠ some target)
    (c : ℤ) : about (Msg.hands_over c) rest = enqueued c s := by
  apply htakes.about_other
  cases msg with
  | file_enqueue e => exact absurd (h _ htakes.mem e rfl) htarget
  | _ => rfl

theorem cleanup_ne_manager (cfg : Config) : cfg.cleanup ≠ some cfg.manager := by
  intro h
  exact (cfg.cleanup_apart _ h).1 rfl

theorem cleanup_ne_filter {thread : ℕ} (hrunning : some thread ∈ cfg.filter_threads) :
    cfg.cleanup ≠ some thread := by
  intro h
  exact (cfg.cleanup_apart _ h).2 hrunning

theorem Delivered.posted {m : Manager} {rest sent : Mail} (h : Delivered cfg s)
    (hrest : ∀ letter ∈ rest, letter ∈ s.letters)
    (hsent : ∀ letter ∈ sent, ∀ e, letter.2 = .file_enqueue e →
      cfg.cleanup = some letter.1.target) (phase : ℤ → Phase) :
    Delivered cfg ⟨m, rest ++ sent, phase⟩ := by
  intro letter hmem e hletter
  rcases List.mem_append.mp hmem with hmem | hmem
  · exact h letter (hrest letter hmem) e hletter
  · exact hsent letter hmem e hletter

theorem Reporting.not_enqueue {c' : ℤ} {sent : Mail} (h : Reporting c' sent) :
    ∀ letter ∈ sent, ∀ e, letter.2 = .file_enqueue e → cfg.cleanup = some letter.1.target := by
  intro letter hmem e hletter
  have hcapture := h letter hmem
  rw [hletter] at hcapture
  cases hcapture

/-- Every step keeps the letters to the cleanup thread on their way there. -/
theorem Step.delivered (h : Step cfg s event s') (hdelivered : Delivered cfg s) :
    Delivered cfg s' := by
  have hall : ∀ letter ∈ s.letters, letter ∈ s.letters := fun _ hmem => hmem
  cases h with
  | start start_msg world =>
    rw [Delivered, launch_letters]
    exact hdelivered
  | alert alert world now =>
    rw [Delivered, launch_letters]
    exact hdelivered
  | tick => exact hdelivered
  | abort phase => exact hdelivered.posted hall (Reporting.worker rfl _ _ _).not_enqueue _
  | begin _ _ _ phase => exact hdelivered.posted hall (Reporting.worker rfl _ _ _).not_enqueue _
  | finish _ phase => exact hdelivered.posted hall (Reporting.result _ _ _ _).not_enqueue _
  | @manager sender msg rest world takes =>
    refine hdelivered.posted (fun _ => takes.mem_of_rest) ?_ s.phase
    intro letter hmem e hletter
    by_cases hready : msg.is_ready = true
    · cases msg with
      | file_ready msg => exact (mem_file_ready hmem).1
      | _ => cases hready
    · exact absurd hletter
        (manager_sends_no_enqueue cfg (Bool.eq_false_iff.mpr hready) world s.manager letter hmem e)
  | filter running takes handled =>
    refine hdelivered.posted (fun _ => takes.mem_of_rest) ?_ s.phase
    intro letter hmem e hletter
    exact absurd hletter (filter_sends_no_enqueue handled letter hmem e)

/-- A worker hands nothing over itself. -/
theorem enqueued_post {c' : ℤ} {sent : Mail} (h : Reporting c' sent) (worker_of : ℤ)
    (phase : Phase) : enqueued c (s.post worker_of sent phase) = enqueued c s := by
  refine (about_append s.letters sent).trans ?_
  rw [h.hands_nothing c, List.append_nil]
  rfl

/-- A step hands over files of the capture it is about only. -/
theorem Step.enqueued_other (h : Step cfg s event s') (hdelivered : Delivered cfg s)
    (hc : event.concerns s ≠ some c) : enqueued c s' = enqueued c s := by
  cases h with
  | start start_msg world => rw [enqueued, launch_letters, enqueued]
  | alert alert world now => rw [enqueued, launch_letters, enqueued]
  | tick => rfl
  | abort phase => exact enqueued_post (Reporting.worker rfl _ _ _) _ _
  | begin _ _ _ phase => exact enqueued_post (Reporting.worker rfl _ _ _) _ _
  | finish _ phase => exact enqueued_post (Reporting.result _ _ _ _) _ _
  | @manager sender msg rest world takes =>
    refine (enqueued_append _ _ _ _).trans ?_
    rw [hdelivered.not_taken takes (cleanup_ne_manager cfg)]
    have hsent : about (Msg.hands_over c) (manager_handle_msg cfg msg world s.manager).2 = [] := by
      by_cases hready : msg.is_ready = true
      · cases msg with
        | file_ready msg =>
          apply about_eq_nil
          intro letter hmem
          obtain ⟨-, e, hletter, hid⟩ := mem_file_ready hmem
          rw [hletter]
          refine decide_eq_false ?_
          rw [hid]
          exact fun hsame => hc (congrArg some hsame)
        | _ => cases hready
      · exact hands_nothing
          (manager_sends_no_enqueue cfg (Bool.eq_false_iff.mpr hready) world s.manager) c
    rw [hsent, List.append_nil]
  | @filter thread sender msg rest world result running takes handled =>
    refine (enqueued_append _ _ _ _).trans ?_
    rw [hdelivered.not_taken takes (cleanup_ne_filter running),
      hands_nothing (filter_sends_no_enqueue handled) c, List.append_nil]

end Delivery

/-! ## The files of a task -/

section Files

variable {c : ℤ}

theorem captured_files_lasting : Lasting SRxCaptureTask.captured_files := fun _ _ _ => rfl

theorem files_of_append (capture_id : ℤ) (files : List CaptureFileInfo) (mgr : CRxSafeTaskMgr) :
    files_of capture_id (mgr.append_capture_files capture_id files).2
      = (files_of capture_id mgr).map fun old => files.foldl append_file old := by
  unfold CRxSafeTaskMgr.append_capture_files
  split
  · next hnone =>
    rw [hnone]
    exact (congrFun Option.map_id _).symm
  · rw [files_of, update_task_task, if_pos rfl, files_of, Option.map_map, Option.map_map]
    rfl

theorem files_of_finished (capture_id : ℤ) (ts : ℤ) (packets bytes : ℕ) (path : CStr)
    (mgr : CRxSafeTaskMgr) :
    files_of c (mgr.set_capture_finished capture_id ts packets bytes path).2 = files_of c mgr :=
  update_then_field capture_id mgr captured_files_lasting
    (TaskUpdaterFinished ts packets bytes path) (fun _ => rfl) .COMPLETED c

/-- Only a file that is ready or was filtered is recorded. -/
theorem files_of_managed (cfg : Config) {msg : Msg} (hready : msg.is_ready = false)
    (hfiltered : ∀ filtered, msg ≠ .filtered_file filtered) (world : ManagerWorld) (m : Manager) :
    files_of c (manager_handle_msg cfg msg world m).1.task_mgr = files_of c m.task_mgr := by
  have hcleared : ∀ (capture_id : ℤ) (task_mgr : CRxSafeTaskMgr) (status : ECaptureTaskStatus),
      (clear_module_cooldown_for_capture capture_id
        ({ m with task_mgr }.notice capture_id status)).task_mgr = task_mgr := by
    intro capture_id task_mgr status
    obtain ⟨last, hlast⟩ := clear_module_cooldown_eq capture_id
      ({ m with task_mgr }.notice capture_id status)
    rw [hlast]
    rfl
  cases msg with
  | started msg =>
    exact update_then_field msg.capture_id m.task_mgr captured_files_lasting
      (TaskUpdaterStart msg.start_ts msg.capture_pid msg.output_file) (fun _ => rfl) .RUNNING c
  | file_ready msg => cases hready
  | finished msg =>
    simp only [manager_handle_msg, handle_capture_finished_v2, hcleared]
    exact finish_task_field captured_files_lasting (fun _ _ _ _ _ => rfl)
      (fun _ _ _ _ _ _ => rfl) (fun _ _ _ => rfl) _ _ _ _ c
  | failed msg =>
    simp only [manager_handle_msg, handle_capture_failed_v2, hcleared]
    exact update_then_field msg.capture_id m.task_mgr captured_files_lasting
      (TaskUpdaterFailed _ world.now) (fun _ => rfl) .FAILED c
  | raw_file msg =>
    simp only [manager_handle_msg, handle_capture_raw_file_v2]
    split
    · rfl
    · split
      · rfl
      · rfl
  | filtered_file msg => exact absurd rfl (hfiltered msg)
  | endian_detected msg =>
    rw [manager_handle_msg, (endian_detected_touches msg world m).1]
  | file_enqueue msg => rfl

/-- A filtered file is recorded, if the capture has a task. -/
theorem files_of_filtered (cfg : Config) (msg : SRxCaptureFilteredFileMsgV2)
    (world : ManagerWorld) (m : Manager) :
    files_of msg.capture_id (manager_handle_msg cfg (.filtered_file msg) world m).1.task_mgr
      = (files_of msg.capture_id m.task_mgr).map fun old =>
          (filtered_files msg world).foldl append_file old := by
  let appended := (m.task_mgr.append_capture_files msg.capture_id (filtered_files msg world)).2
  let finished := (appended.set_capture_finished msg.capture_id world.now_usec msg.total_packets
    msg.file_size msg.filtered_pcap_path).2
  have hmgr : (manager_handle_msg cfg (.filtered_file msg) world m).1.task_mgr = finished := by
    obtain ⟨last, hlast⟩ := clear_module_cooldown_eq msg.capture_id
      ({ m with task_mgr := finished }.notice msg.capture_id .COMPLETED)
    simp only [manager_handle_msg, handle_capture_filtered_file_v2]
    split
    · exact congrArg Manager.task_mgr hlast
    · obtain ⟨usage, writebacks, hwriteback, -⟩ :=
        try_writeback_eq msg.pdef_file_path world.writeback_ok
          { clear_module_cooldown_for_capture msg.capture_id
              ({ m with task_mgr := finished }.notice msg.capture_id .COMPLETED) with
            pdef_usage_map := track_pdef_usage_end msg.capture_id msg.pdef_file_path
              (clear_module_cooldown_for_capture msg.capture_id
                ({ m with task_mgr := finished }.notice msg.capture_id
                  .COMPLETED)).pdef_usage_map }
      exact (congrArg Manager.task_mgr hwriteback).trans (congrArg Manager.task_mgr hlast)
  rw [hmgr]
  exact (files_of_finished _ _ _ _ _ _).trans (files_of_append _ _ _)

/-- A new task has no files. -/
theorem files_of_new (cfg : Config) (request : StartRequest) (now : ℤ) (m : Manager) :
    files_of m.next_capture_id (add_and_dispatch cfg request now m).2.task_mgr = some [] := by
  have hself : (m.task_mgr.add_new_task m.next_capture_id request.key request.signature
      request.sid (new_task_of m.next_capture_id request now)).task m.next_capture_id
        = some { (m.task_mgr.new_task (new_task_of m.next_capture_id request now)).1 with
            signature := request.signature, sid := request.sid } := add_task_self _ _ _ _ _ _
  unfold add_and_dispatch create_and_add_capture_task dispatch_task_to_worker
  by_cases hworkers : cfg.workers = []
  · simp only [if_pos hworkers]
    rw [files_of, hself]
    rfl
  · simp only [if_neg hworkers]
    refine (update_task_field _ _ captured_files_lasting
      (AssignWorkerFunctor (cfg.workers.getD (m.next_worker % cfg.workers.length) 0))
      (fun _ => rfl) _).trans ?_
    rw [hself]
    rfl

end Files

/-! ## One step -/

section Steps

variable {cfg : Config} {ok ok' : Prop} {c : ℤ} {s s' : System} {event : Event}

/-- A new capture: nothing is said about its files, and none is recorded. -/
theorem Filing.launched (h : Filing cfg ok s.manager.next_capture_id s)
    (hidle : s.phase s.manager.next_capture_id = .idle) {outcome : Option Dispatch × Manager}
    (houtcome : Outcome cfg s.manager outcome) :
    Filing cfg ok' s.manager.next_capture_id (s.launch cfg outcome) := by
  obtain ⟨htold, henqueued, hunrecorded⟩ := h.before_over (by rw [hidle]; exact Phase.noConfusion)
  refine .untold ?_ ?_ ?_
  · rw [Capture.told, reports, launch_letters]
    exact htold
  · rw [Capture.enqueued, launch_letters]
    exact henqueued
  · rw [Unrecorded, launch_manager]
    cases houtcome with
    | refused last => exact hunrecorded
    | accepted last request now accepts =>
      intro files hfiles
      have hnew := files_of_new cfg request now { s.manager with module_last_trigger := last }
      rw [hnew] at hfiles
      exact (Option.some.inj hfiles).symm

/-- What is said about files when a worker has posted its letters. -/
theorem told_post (htold : told c s = []) (sent : Mail) (phase : Phase) :
    told c (s.post c sent phase) = about Msg.is_telling (about (Msg.is_about c) sent) := by
  rw [told, reports_post, about_append]
  exact congrArg (· ++ _) htold

/-- Letters that are not about files leave the capture where it is. -/
theorem Filing.posted (h : Filing cfg ok c s) (hphase : s.phase c ≠ .over) {sent : Mail}
    (hreporting : Reporting c sent) (hsent : ∀ letter ∈ sent, letter.2.is_telling = false)
    (phase : Phase) : Filing cfg ok' c (s.post c sent phase) := by
  obtain ⟨htold, henqueued, hunrecorded⟩ := h.before_over hphase
  refine .untold ?_ ((enqueued_post hreporting c phase).trans henqueued) hunrecorded
  rw [told_post htold]
  apply about_eq_nil
  intro letter hmem
  exact hsent letter (List.mem_of_mem_filter hmem)

theorem worker_letter {start_msg : SRxCaptureStartMsgV2} (hstarted : StartedBy cfg c start_msg)
    (worker : ℕ) {msg : Msg} (htelling : msg.is_telling = false) :
    ∀ letter ∈ send_to_manager cfg.threads worker start_msg msg, letter.2.is_telling = false := by
  intro letter hmem
  rw [send_to_manager_eq hstarted, List.mem_singleton] at hmem
  rw [hmem]
  exact htelling

/-- The worker is done: its file is ready, or goes to be filtered, or there is
none. -/
theorem Filing.finished (h : Filing cfg ok c s) {worker : ℕ} {start_msg : SRxCaptureStartMsgV2}
    (hstarted : StartedBy cfg c start_msg) (hphase : s.phase c ≠ .over) (job : JobResult) :
    Filing cfg ok' c (s.post c (send_result cfg.threads worker start_msg job) .over) := by
  obtain ⟨htold, henqueued, hunrecorded⟩ := h.before_over hphase
  have hreporting : Reporting c (send_result cfg.threads worker start_msg job) :=
    hstarted.id ▸ Reporting.result cfg.threads worker start_msg job
  have henqueued' := (enqueued_post hreporting c .over).trans henqueued
  have htold' := told_post htold (send_result cfg.threads worker start_msg job) .over
  have hover := phase_post (c := c) (s := s) (send_result cfg.threads worker start_msg job) .over
  by_cases hfilter : start_msg.spec.protocol_filter ≠ [] ∨ start_msg.spec.protocol_filter_inline ≠ []
  · refine .detour hover ?_ henqueued' fun _ => hunrecorded
    rw [htold', send_result, if_pos hfilter, send_raw_file_for_filter, send_to_manager_eq hstarted]
    intro letter hmem
    rw [List.mem_singleton.mp (List.mem_of_mem_filter (List.mem_of_mem_filter hmem))]
    rfl
  · rw [send_result, if_neg hfilter, send_file_ready] at hover henqueued' htold' ⊢
    by_cases hpath : job.final_path = []
    · have hfiles : result_files job = [] := if_pos hpath
      refine .untold (htold'.trans ?_) henqueued' hunrecorded
      rw [if_pos hfiles, List.nil_append]
      apply about_eq_nil
      intro letter hmem
      exact worker_letter hstarted worker rfl letter (List.mem_of_mem_filter hmem)
    · let file : CaptureFileInfo :=
        { file_path := job.final_path
          file_size := job.stat_size.getD job.total_bytes
          file_ready_ts := job.finish_ts }
      have hfiles : result_files job = [file] := if_neg hpath
      let ready : SRxCaptureFileReadyMsgV2 :=
        { reply_base worker start_msg with files := result_files job }
      have hid : (Msg.file_ready ready).capture? = some c := congrArg some hstarted.id
      refine .ready worker ready file hover hstarted.id (htold'.trans ?_) hfiles henqueued'
        hunrecorded
      rw [if_neg (by rw [hfiles]; exact List.cons_ne_nil _ _), send_finished,
        send_to_manager_eq hstarted, send_to_manager_eq hstarted, about_append, about_append,
        about_singleton hid]
      refine congrArg (_ :: ·) (about_eq_nil fun letter hmem => ?_)
      rw [List.mem_singleton.mp (List.mem_of_mem_filter hmem)]
      rfl

/-- Nothing about files is lost when a letter is left that is not about them. -/
theorem told_rest {route : Route} {msg : Msg} {rest : Mail} (htakes : Takes route msg s.letters rest)
    {letter : Route × Msg} (hmem : letter ∈ about Msg.is_telling (about (Msg.is_about c) rest)) :
    letter ∈ told c s := by
  obtain ⟨hmem, htelling⟩ := List.mem_filter.mp hmem
  obtain ⟨hmem, habout⟩ := List.mem_filter.mp hmem
  exact List.mem_filter.mpr ⟨List.mem_filter.mpr ⟨htakes.mem_of_rest hmem, habout⟩, htelling⟩

/-- The manager says nothing of its own about a file that is ready. -/
theorem manager_sends_no_ready (cfg : Config) (msg : Msg) (world : ManagerWorld) (m : Manager) :
    ∀ letter ∈ (manager_handle_msg cfg msg world m).2, letter.2.is_ready = false := by
  intro letter hmem
  cases msg with
  | raw_file msg =>
    simp only [manager_handle_msg, handle_capture_raw_file_v2] at hmem
    split at hmem
    · simp at hmem
    · split at hmem
      · simp at hmem
      · rw [mem_put_obj_msg hmem]
        rfl
  | file_ready msg =>
    obtain ⟨-, e, hletter, -⟩ := mem_file_ready hmem
    rw [hletter]
    rfl
  | _ => simp [manager_handle_msg] at hmem

/-- A message that is not about files. -/
theorem Filing.managed_other (h : Filing cfg ok c s) (hdelivered : Delivered cfg s) {sender : ℕ}
    {msg : Msg} {rest : Mail} (htakes : Takes ⟨sender, cfg.manager⟩ msg s.letters rest)
    (hmsg : msg.capture? = some c) (htelling : msg.is_telling = false) (world : ManagerWorld)
    (hok : ok' → ok) : Filing cfg ok' c (s.managed cfg msg world rest) := by
  have hsent : (manager_handle_msg cfg msg world s.manager).2 = [] := by
    cases msg with
    | file_ready msg => cases htelling
    | raw_file msg => cases htelling
    | _ => rfl
  have hready : msg.is_ready = false := by
    cases msg with
    | file_ready msg => cases htelling
    | _ => rfl
  have hfiltered : ∀ filtered, msg ≠ .filtered_file filtered := by
    rintro filtered rfl
    cases htelling
  have hsame := files_of_managed (c := c) cfg hready hfiltered world s.manager
  refine h.carry rfl ?_ ?_ (fun files hfiles => hsame ▸ hfiles) hok
  · refine (told_append _ _ _ _).trans ?_
    rw [hsent, takes_untold htakes hmsg htelling]
    exact List.append_nil _
  · refine (enqueued_append _ _ _ _).trans ?_
    rw [hsent, hdelivered.not_taken htakes (cleanup_ne_manager cfg)]
    exact List.append_nil _

/-- A file that is ready is recorded and handed to the cleanup thread. -/
theorem Filing.managed_ready (h : Filing cfg ok c s) (hdelivered : Delivered cfg s) {t : ℕ}
    (hcleanup : cfg.cleanup = some t) (hruns : t ∈ cfg.threads) {sender : ℕ}
    {msg : SRxCaptureFileReadyMsgV2} {rest : Mail}
    (htakes : Takes ⟨sender, cfg.manager⟩ (.file_ready msg) s.letters rest)
    (hmsg : msg.capture_id = c) (world : ManagerWorld) :
    Filing cfg ok' c (s.managed cfg (.file_ready msg) world rest) := by
  have htake := takes_told htakes (congrArg some hmsg) rfl
  cases h with
  | untold told enqueued unrecorded =>
    rw [told] at htake
    exact absurd htake Takes.not_nil
  | handed route msg' file ended told enqueued files recorded =>
    rw [told] at htake
    exact absurd htake Takes.not_nil
  | detour ended told enqueued unrecorded => cases told _ htake.mem
  | ready worker msg' file ended id told files enqueued unrecorded =>
    rw [told] at htake
    obtain ⟨hletter, hrest⟩ := htake.only
    obtain rfl : msg' = msg := Msg.file_ready.inj (Prod.mk.inj hletter).2
    let enqueue : SRxFileEnqueueMsgV2 :=
      { capture_id := msg'.capture_id
        key := msg'.key
        sid := msg'.sid
        sender_thread_index := cfg.manager
        files := msg'.files
        clean_policy := get_capture_config_snapshot world.strategy }
    have hsome : msg'.files ≠ [] := by
      rw [files]
      exact List.cons_ne_nil _ _
    have hhandled : manager_handle_msg cfg (.file_ready msg') world s.manager
        = ({ s.manager with
            task_mgr := (s.manager.task_mgr.append_capture_files msg'.capture_id msg'.files).2 },
          [(⟨cfg.manager, t⟩, .file_enqueue enqueue)]) := by
      simp only [manager_handle_msg, handle_capture_file_ready_v2, if_neg hsome, hcleanup,
        put_obj_msg_of_mem hruns]
      rfl
    have hhands : Msg.hands_over c (.file_enqueue enqueue) = true := decide_eq_true id
    refine .handed ⟨cfg.manager, t⟩ enqueue file ended ?_ ?_ files ?_
    · refine (told_append _ _ _ _).trans ?_
      rw [hhandled, hrest]
      rfl
    · refine (enqueued_append _ _ _ _).trans ?_
      rw [hhandled, hdelivered.not_taken htakes (cleanup_ne_manager cfg), enqueued, about,
        List.filter_singleton, hhands]
      rfl
    · intro recorded hrecorded
      rw [System.managed, hhandled] at hrecorded
      simp only at hrecorded
      rw [hmsg, files_of_append] at hrecorded
      obtain ⟨old, hold, rfl⟩ := Option.map_eq_some_iff.mp hrecorded
      rw [unrecorded old hold, files]
      rfl

/-- On the way through a filter thread the letters that come are no files that
are ready. -/
theorem Filing.detoured (h : Filing cfg ok c s) {route : Route} {msg : Msg} {rest sent : Mail}
    (htakes : Takes route msg s.letters rest) (hmsg : msg.capture? = some c)
    (htelling : msg.is_telling = true) (hready : msg.is_ready = false) {m : Manager}
    (hsent : ∀ letter ∈ sent, letter.2.is_ready = false)
    (henqueued : Capture.enqueued c ⟨m, rest ++ sent, s.phase⟩ = Capture.enqueued c s)
    (hunrecorded : ok' → ok → Unrecorded c s → Unrecorded c ⟨m, rest ++ sent, s.phase⟩)
    (hok : ok' → ok) : Filing cfg ok' c ⟨m, rest ++ sent, s.phase⟩ := by
  have htake := takes_told htakes hmsg htelling
  cases h with
  | untold told enqueued unrecorded =>
    rw [told] at htake
    exact absurd htake Takes.not_nil
  | handed route msg' file ended told enqueued files recorded =>
    rw [told] at htake
    exact absurd htake Takes.not_nil
  | ready worker msg' file ended id told files enqueued unrecorded =>
    rw [told] at htake
    obtain rfl := (Prod.mk.inj htake.only.1).2
    cases hready
  | detour ended told enqueued unrecorded =>
    refine .detour ended ?_ (henqueued.trans enqueued) fun hok' =>
      hunrecorded hok' (hok hok') (unrecorded (hok hok'))
    intro letter hmem
    rw [told_append] at hmem
    rcases List.mem_append.mp hmem with hmem | hmem
    · exact told letter (told_rest htakes hmem)
    · exact hsent letter (List.mem_of_mem_filter (List.mem_of_mem_filter hmem))

/-- A message about a capture that comes to the manager. -/
theorem Filing.managed (h : Filing cfg ok c s) (hdelivered : Delivered cfg s) {t : ℕ}
    (hcleanup : cfg.cleanup = some t) (hruns : t ∈ cfg.threads) {sender : ℕ} {msg : Msg}
    {rest : Mail} (htakes : Takes ⟨sender, cfg.manager⟩ msg s.letters rest)
    (hmsg : msg.capture? = some c) (world : ManagerWorld) (hok : ok' → ok)
    (hfiltered : ok' → ¬ RecordsFiltered s (.manager sender msg world)) :
    Filing cfg ok' c (s.managed cfg msg world rest) := by
  by_cases htelling : msg.is_telling = false
  · exact h.managed_other hdelivered htakes hmsg htelling world hok
  · rw [Bool.not_eq_false] at htelling
    by_cases hready : msg.is_ready = true
    · cases msg with
      | file_ready msg =>
        exact h.managed_ready hdelivered hcleanup hruns htakes (Option.some.inj hmsg) world
      | _ => cases hready
    · rw [Bool.not_eq_true] at hready
      refine h.detoured htakes hmsg htelling hready
        (manager_sends_no_ready cfg msg world s.manager) ?_ ?_ hok
      · rw [enqueued_append, hdelivered.not_taken htakes (cleanup_ne_manager cfg),
          hands_nothing (manager_sends_no_enqueue cfg hready world s.manager), List.append_nil]
      · intro hok' _ hunrecorded
        cases msg with
        | raw_file msg =>
          intro files hfiles
          have hsame : files_of c (manager_handle_msg cfg (.raw_file msg) world
              s.manager).1.task_mgr = files_of c s.manager.task_mgr :=
            files_of_managed cfg rfl (fun _ => Msg.noConfusion) world s.manager
          exact hunrecorded files (hsame ▸ hfiles)
        | filtered_file msg =>
          obtain rfl : msg.capture_id = c := Option.some.inj hmsg
          have hnone : s.task msg.capture_id = none := by
            by_contra hsome
            exact hfiltered hok' ⟨sender, msg, world, rfl, hsome⟩
          intro files hfiles
          have hno_files : files_of msg.capture_id s.manager.task_mgr = none := by
            rw [files_of]
            exact congrArg _ hnone
          have hfiltered := files_of_filtered cfg msg world s.manager
          rw [hno_files] at hfiltered
          rw [hfiltered] at hfiles
          cases hfiles
        | file_ready msg => cases hready
        | _ => cases htelling

/-- A message about a capture that comes to a filter thread. -/
theorem Filing.filtered (h : Filing cfg ok c s) (hdelivered : Delivered cfg s)
    {thread sender : ℕ} {msg : Msg} {rest : Mail} {world : FilterWorld} {result : Filtering}
    (hrunning : some thread ∈ cfg.filter_threads)
    (htakes : Takes ⟨sender, thread⟩ msg s.letters rest) (hmsg : msg.capture? = some c)
    (hhandled : filter_handle_msg cfg.threads thread msg world = some result) (hok : ok' → ok) :
    Filing cfg ok' c { s with letters := rest ++ result.sent } := by
  have henqueued : enqueued c { s with letters := rest ++ result.sent } = enqueued c s := by
    rw [enqueued_append, hdelivered.not_taken htakes (cleanup_ne_filter hrunning),
      hands_nothing (filter_sends_no_enqueue hhandled), List.append_nil]
  by_cases htelling : msg.is_telling = false
  · have hsent : result.sent = [] := by
      rcases filter_handle_cases hhandled with hnone | ⟨raw, rfl, -⟩
      · exact hnone
      · cases htelling
    refine h.carry rfl ?_ henqueued (fun _ hfiles => hfiles) hok
    rw [told_append, hsent, takes_untold htakes hmsg htelling]
    exact List.append_nil _
  · rw [Bool.not_eq_false] at htelling
    by_cases hready : msg.is_ready = true
    · -- such letters go to the manager
      have htake := takes_told htakes hmsg htelling
      exfalso
      cases h with
      | untold told enqueued unrecorded =>
        rw [told] at htake
        exact Takes.not_nil htake
      | handed route msg' file ended told enqueued files recorded =>
        rw [told] at htake
        exact Takes.not_nil htake
      | detour ended told enqueued unrecorded =>
        have hno := told _ htake.mem
        rw [hready] at hno
        cases hno
      | ready worker msg' file ended id told files enqueued unrecorded =>
        rw [told] at htake
        have hroute := (Prod.mk.inj htake.only.1).1
        obtain rfl : cfg.manager = thread := congrArg Route.target hroute
        exact cfg.manager_apart hrunning
    · rw [Bool.not_eq_true] at hready
      refine h.detoured htakes hmsg htelling hready ?_ henqueued (fun _ _ hun => hun) hok
      intro letter hmem
      rcases filter_handle_cases hhandled with hnone | ⟨raw, rfl, hraw⟩
      · rw [hnone] at hmem
        simp at hmem
      · rcases handle_raw_file_sends hraw with hnone | ⟨pdef, packets, kept, pdef', -, -, -, hsent⟩
        · rw [hnone] at hmem
          simp at hmem
        · rw [hsent, send_filtered] at hmem
          rcases List.mem_append.mp hmem with hmem | hmem
          · rw [mem_put_obj_msg hmem]
            rfl
          · split at hmem
            · rw [mem_put_obj_msg hmem]
              rfl
            · simp at hmem

/-- **One step** moves a capture along its way. -/
theorem Step.filing (h : Step cfg s event s') (hinv : Inv cfg s) (hdelivered : Delivered cfg s)
    {t : ℕ} (hcleanup : cfg.cleanup = some t) (hruns : t ∈ cfg.threads)
    (hfiling : Filing cfg ok c s) : Filing cfg (ok ∧ ¬ RecordsFiltered s event) c s' := by
  by_cases hc : event.concerns s = some c
  · cases h with
    | start start_msg world =>
      obtain rfl := Option.some.inj hc
      exact hfiling.launched (hinv.fresh _ le_rfl)
        (handle_start_outcome cfg start_msg world s.manager)
    | alert alert world now =>
      obtain rfl := Option.some.inj hc
      exact hfiling.launched (hinv.fresh _ le_rfl)
        (handle_alert_outcome cfg alert world now s.manager)
    | tick => cases hc
    | @abort c' worker start_msg phase =>
      obtain rfl := Option.some.inj hc
      obtain ⟨hstarted, -, -⟩ := hinv.dispatched phase
      have hreporting : Reporting start_msg.capture_id (send_failure cfg.threads worker start_msg
          .START_TCPDUMP_FAILED "pcap_prepare_failed".toList) := Reporting.worker rfl _ _ _
      rw [hstarted.id] at hreporting
      exact hfiling.posted (by rw [phase]; exact Phase.noConfusion) hreporting
        (worker_letter hstarted worker rfl) _
    | @begin c' worker start_msg start_ts capture_pid output_file phase =>
      obtain rfl := Option.some.inj hc
      obtain ⟨hstarted, -, -⟩ := hinv.dispatched phase
      have hreporting : Reporting start_msg.capture_id (send_started cfg.threads worker start_msg
          start_ts capture_pid output_file) := Reporting.worker rfl _ _ _
      rw [hstarted.id] at hreporting
      exact hfiling.posted (by rw [phase]; exact Phase.noConfusion) hreporting
        (worker_letter hstarted worker rfl) _
    | @finish c' worker start_msg job phase =>
      obtain rfl := Option.some.inj hc
      obtain ⟨hstarted, -, -⟩ := hinv.capturing phase
      exact hfiling.finished hstarted (by rw [phase]; exact Phase.noConfusion) job
    | manager world takes =>
      exact hfiling.managed hdelivered hcleanup hruns takes hc world And.left And.right
    | filter running takes handled =>
      exact hfiling.filtered hdelivered running takes hc handled And.left
  · exact hfiling.same (h.sameView hinv hc) (h.enqueued_other hdelivered hc) And.left

end Steps

/-! ## Every run -/

section Runs

variable {cfg : Config} {c : ℤ} {s : System} {history : List Entry} {t : ℕ}

theorem filing_start (cfg : Config) (ok : Prop) (c : ℤ) : Filing cfg ok c {} :=
  .untold rfl rfl fun _ hfiles => by cases hfiles

/-- In every run each capture is on one of the ways, and as long as no filtered
file was recorded, none is recorded on the way through a filter thread. -/
theorem Run.filing (h : Run cfg history s) (hcleanup : cfg.cleanup = some t)
    (hruns : t ∈ cfg.threads) :
    Delivered cfg s ∧ ∀ c, Filing cfg
      (∀ entry ∈ history, ¬ RecordsFiltered entry.before entry.event) c s := by
  induction h with
  | start =>
    refine ⟨fun letter hmem => ?_, filing_start cfg _⟩
    simp at hmem
  | @step history s s' event run step ih =>
    obtain ⟨hdelivered, hfiling⟩ := ih
    refine ⟨step.delivered hdelivered, fun c => ?_⟩
    have hnext := step.filing run.inv hdelivered hcleanup hruns (hfiling c)
    refine hnext.carry rfl rfl rfl (fun _ hfiles => hfiles) fun hall => ⟨?_, ?_⟩
    · exact fun entry hmem => hall entry (List.mem_append_left _ hmem)
    · exact hall ⟨s, event, s'⟩ (List.mem_append_right _ (by simp))

theorem hands_over_of_path {msg : Msg} {path : CStr} (h : msg.hands_path c path = true) :
    msg.hands_over c = true := by
  cases msg with
  | file_enqueue msg => exact decide_eq_true (of_decide_eq_true h).1
  | _ => cases h

/-- On its way a capture has its files handed over once. -/
theorem Filing.all_enqueued {ok : Prop} (h : Filing cfg ok c s) (hok : ok)
    (hdelivered : Delivered cfg s) {task : SRxCaptureTask} (htask : s.task c = some task)
    {file : CaptureFileInfo} (hfile : file ∈ task.captured_files) :
    (s.letters.countP fun letter =>
      cfg.cleanup = some letter.1.target ∧ letter.2.hands_path c file.file_path) = 1 := by
  have hfiles : files_of c s.manager.task_mgr = some task.captured_files := by
    rw [files_of]
    exact congrArg (Option.map SRxCaptureTask.captured_files) htask
  have hnot : ¬ Unrecorded c s := by
    intro hunrecorded
    rw [hunrecorded _ hfiles] at hfile
    simp at hfile
  cases h with
  | untold told enqueued unrecorded => exact absurd unrecorded hnot
  | ready worker msg file ended id told files enqueued unrecorded => exact absurd unrecorded hnot
  | detour ended told enqueued unrecorded => exact absurd (unrecorded hok) hnot
  | handed route msg recorded_file ended told enqueued files recorded =>
    rw [recorded _ hfiles, List.mem_singleton] at hfile
    subst hfile
    have hmem : (route, Msg.file_enqueue msg) ∈ Capture.enqueued c s := by
      rw [enqueued]
      exact List.mem_singleton_self _
    obtain ⟨hletter, hhands⟩ := List.mem_filter.mp hmem
    have hroute := hdelivered _ hletter msg rfl
    -- only the letters that hand over a file of this capture can count
    have hcount : (s.letters.countP fun letter => decide (cfg.cleanup = some letter.1.target ∧
          letter.2.hands_path c file.file_path = true))
        = (Capture.enqueued c s).countP fun letter => decide (cfg.cleanup = some letter.1.target ∧
          letter.2.hands_path c file.file_path = true) := by
      rw [Capture.enqueued, about, List.countP_filter]
      apply List.countP_congr
      intro letter _
      simp only [Bool.and_eq_true, decide_eq_true_eq]
      exact ⟨fun h => ⟨h, hands_over_of_path h.2⟩, fun h => h.1⟩
    have hpath : Msg.hands_path c file.file_path (.file_enqueue msg) = true := by
      refine decide_eq_true ⟨of_decide_eq_true hhands, ?_⟩
      rw [files, List.any_cons, decide_eq_true rfl, Bool.true_or]
    rw [hcount, enqueued, List.countP_singleton, if_pos (decide_eq_true ⟨hroute, hpath⟩)]

theorem mem_append_file (files : List CaptureFileInfo) (file : CaptureFileInfo) :
    file ∈ append_file files file := by
  induction files with
  | nil => exact List.mem_singleton_self file
  | cons first rest ih =>
    rw [append_file]
    split
    · exact List.mem_cons_self
    · exact List.mem_cons_of_mem _ ih

/-- A filtered file that is recorded is not handed over. -/
theorem Step.not_all_enqueued {s' : System} {event : Event} (h : Step cfg s event s') {ok : Prop}
    (hdelivered : Delivered cfg s) (hfiling : ∀ c, Filing cfg ok c s)
    (hrecords : RecordsFiltered s event) : ¬ AllEnqueued cfg s' := by
  obtain ⟨sender, msg, world, rfl, htask⟩ := hrecords
  cases h with
  | @manager _ _ rest _ takes =>
    intro hall
    have hnone : enqueued msg.capture_id s = [] := by
      have htake := takes_told takes (c := msg.capture_id) rfl rfl
      cases hfiling msg.capture_id with
      | untold told enqueued unrecorded => exact enqueued
      | ready worker msg file ended id told files enqueued unrecorded => exact enqueued
      | detour ended told enqueued unrecorded => exact enqueued
      | handed route msg' file ended told enqueued files recorded =>
        rw [told] at htake
        exact absurd htake Takes.not_nil
    have hafter : enqueued msg.capture_id (s.managed cfg (.filtered_file msg) world rest) = [] := by
      refine (enqueued_append _ _ _ _).trans ?_
      rw [hdelivered.not_taken takes (cleanup_ne_manager cfg), hnone]
      rfl
    obtain ⟨task, htask⟩ := Option.ne_none_iff_exists'.mp htask
    have hfiles := files_of_filtered cfg msg world s.manager
    have hold : files_of msg.capture_id s.manager.task_mgr = some task.captured_files := by
      rw [files_of]
      exact congrArg (Option.map SRxCaptureTask.captured_files) htask
    rw [hold] at hfiles
    obtain ⟨task', htask', hcaptured⟩ := Option.map_eq_some_iff.mp hfiles
    let file : CaptureFileInfo :=
      { file_path := msg.filtered_pcap_path
        file_size := msg.file_size
        file_ready_ts := world.now_usec }
    have hmem : file ∈ task'.captured_files := by
      rw [hcaptured]
      exact mem_append_file task.captured_files file
    have hone := hall msg.capture_id task' htask' file hmem
    obtain ⟨letter, hletter, hhands⟩ := List.countP_pos_iff.mp (hone ▸ Nat.one_pos)
    have henqueued : letter ∈ enqueued msg.capture_id
        (s.managed cfg (.filtered_file msg) world rest) :=
      List.mem_filter.mpr ⟨hletter, hands_over_of_path (of_decide_eq_true hhands).2⟩
    rw [hafter] at henqueued
    simp at henqueued

/-- **Recorded files reach the cleanup thread** in every state of a run, each
in exactly one message, if and only if no filtered file is recorded. -/
theorem all_enqueued_iff (h : Run cfg history s) (hcleanup : cfg.cleanup = some t)
    (hruns : t ∈ cfg.threads) :
    (∀ entry ∈ history, AllEnqueued cfg entry.after) ↔
      ∀ entry ∈ history, ¬ RecordsFiltered entry.before entry.event := by
  constructor
  · intro hall entry hmem hrecords
    obtain ⟨front, back, hsplit⟩ := List.append_of_mem hmem
    obtain ⟨hrun, hstep⟩ := h.entry hsplit
    obtain ⟨hdelivered, hfiling⟩ := hrun.filing hcleanup hruns
    exact hstep.not_all_enqueued hdelivered hfiling hrecords (hall entry hmem)
  · intro hnone entry hmem
    obtain ⟨front, back, hsplit⟩ := List.append_of_mem hmem
    obtain ⟨hrun, hstep⟩ := h.entry hsplit
    obtain ⟨hdelivered, hfiling⟩ := (hrun.step hstep).filing hcleanup hruns
    have hfront : ∀ past ∈ front ++ [entry], ¬ RecordsFiltered past.before past.event := by
      intro past hpast
      apply hnone
      rw [hsplit]
      rcases List.mem_append.mp hpast with hpast | hpast
      · exact List.mem_append_left _ hpast
      · rw [List.mem_singleton.mp hpast]
        exact List.mem_append_right _ List.mem_cons_self
    intro c task htask file hfile
    exact (hfiling c).all_enqueued hfront hdelivered htask hfile

end Runs

set_option maxRecDepth 100000 in
/-- A capture without a filter: its file is in one message. -/
theorem all_enqueued_iff_plain : ∃ history s, Run one_of_each history s ∧
    one_of_each.cleanup = some 4 ∧ 4 ∈ one_of_each.threads ∧
    ((s.task 1000).map fun task => task.captured_files.map CaptureFileInfo.file_path)
      = some ["a.pcap".toList] ∧ s.letters.length = 1 ∧
    ((∀ entry ∈ history, AllEnqueued one_of_each entry.after) ↔
      ∀ entry ∈ history, ¬ RecordsFiltered entry.before entry.event) := by
  have hreached : ∃ history s, Run one_of_each history s ∧
      ((s.task 1000).map fun task => task.captured_files.map CaptureFileInfo.file_path)
        = some ["a.pcap".toList] ∧ s.letters.length = 1 :=
    run_of_replay one_of_each
      [.start { iface := "eth0".toList } {},
        .begin 1000 0 (-1) "a.pcap".toList,
        .manager 2 {},
        .finish 1000 ⟨"a.pcap".toList, 0, 24, 0, none⟩,
        .manager 2 {},
        .manager 2 {}] (by decide +kernel)
  obtain ⟨history, s, hrun, hfiles, hletters⟩ := hreached
  have hcleanup : one_of_each.cleanup = some 4 := rfl
  have hruns : 4 ∈ one_of_each.threads := by decide
  exact ⟨history, s, hrun, hcleanup, hruns, hfiles, hletters,
    all_enqueued_iff hrun hcleanup hruns⟩

set_option maxRecDepth 100000 in
/-- A capture with a filter: its file is recorded, and no letter is on its way. -/
theorem filtered_file_not_enqueued : ∃ history s, Run one_of_each history s ∧
    one_of_each.cleanup = some 4 ∧ 4 ∈ one_of_each.threads ∧ ¬ AllEnqueued one_of_each s := by
  have hreached : ∃ history s, Run one_of_each history s ∧
      ((s.task 1000).any fun task => task.captured_files ≠ []) = true ∧ s.letters = [] :=
    run_of_replay one_of_each
      (filtered_capture game_request ⟨some plain_pdef, some [], true, 0⟩ ++ [.manager 3 {}])
      (by decide +kernel)
  obtain ⟨history, s, hrun, hfiles, hletters⟩ := hreached
  refine ⟨history, s, hrun, rfl, by decide, fun hall => ?_⟩
  obtain ⟨task, htask, hsome⟩ := (Option.any_eq_true _ _).mp hfiles
  obtain ⟨file, rest, hfile⟩ := List.exists_cons_of_ne_nil (of_decide_eq_true hsome)
  have hmem : file ∈ task.captured_files := by
    rw [hfile]
    exact List.mem_cons_self
  have hone := hall 1000 task htask file hmem
  rw [hletters] at hone
  cases hone

end RxNetCap.Capture
