/-
The states that one capture can be in.

`OnCourse` lists them as long as no handler drops the capture, and `Lost` is
the state it is in when one did: nothing about it is on the way, and its end was
never noticed. A step is seen only by the capture it is about
(`Step.sameView`), so the others stay where they are.
-/
import RxNetCap.Capture.System

set_option autoImplicit false

namespace RxNetCap.Capture

open RxNetCap.Mailbox RxNetCap.Tally RxNetCap.Pdef

/-! ## The end of a capture -/

/-- A message that comes before the result of a capture. -/
def Msg.is_preliminary : Msg → Bool
  | .started _ => true
  | .file_ready _ => true
  | _ => false

/-- The letters that decide about a capture: those that are not preliminary. -/
def deciding (c : ℤ) (msg : Msg) : Bool := msg.is_about c && !msg.is_preliminary

/-- One letter about the capture is on the way that ends it or hands it on, and
no end was noticed yet. -/
structure OnTheWay (c : ℤ) (s : System) : Prop where
  one : ∃ letter, about (deciding c) s.letters = [letter]
  noticed : noticed c s.manager = 0

/-- The end of the capture was noticed exactly once, nothing about it is on the
way, its task is not active and it uses no PDEF file. -/
structure Settled (c : ℤ) (s : System) : Prop where
  reports : reports c s = []
  noticed : noticed c s.manager = 1
  inactive : ∀ p, c ∉ active s p
  final : ∀ task, s.task c = some task → is_active_status task.status = false

/-! ## On course, or lost -/

/-- Nothing was noticed and no PDEF file is used. -/
structure Quiet (c : ℤ) (s : System) : Prop where
  noticed : noticed c s.manager = 0
  inactive : ∀ p, c ∉ active s p

/-- Only `path` is used, and that only if there is one. -/
def UsesOnly (c : ℤ) (path : CStr) (s : System) : Prop :=
  ∀ p, c ∈ active s p → p = path ∧ p ≠ []

/-- Preliminary letters from the worker, that the capture started or that its
file is ready. -/
def Announced (cfg : Config) (c : ℤ) (worker : ℕ) (front : Mail) : Prop :=
  ∀ letter ∈ front, letter.1 = ⟨worker, cfg.manager⟩ ∧ letter.2.capture? = some c ∧
    letter.2.is_preliminary = true

/-- A worker's last message about a capture. -/
inductive Result (c : ℤ) : Msg → Prop where
  | finished (msg : SRxCaptureFinishedMsgV2) (id : msg.capture_id = c) : Result c (.finished msg)
  | failed (msg : SRxCaptureFailedMsgV2) (id : msg.capture_id = c) : Result c (.failed msg)
  | raw_file (msg : SRxCaptureRawFileMsgV2) (id : msg.capture_id = c)
      (filter : msg.has_pdef_filter = true) : Result c (.raw_file msg)

/-- A start message of the manager for this capture. -/
structure StartedBy (cfg : Config) (c : ℤ) (start_msg : SRxCaptureStartMsgV2) : Prop where
  id : start_msg.capture_id = c
  sender : start_msg.sender_thread_index = cfg.manager

/-- The states of a capture whose worker is done, with its last message or what
became of it on the way. -/
inductive HandedOff (cfg : Config) (c : ℤ) (s : System) : Prop where
  | ending (worker : ℕ) (front : Mail) (msg : Msg) (announced : Announced cfg c worker front)
      (result : Result c msg) (reports : reports c s = front ++ [(⟨worker, cfg.manager⟩, msg)])
      (quiet : Quiet c s)
  | filtering (thread : ℕ) (raw : SRxCaptureRawFileMsgV2)
      (running : some thread ∈ cfg.filter_threads) (id : raw.capture_id = c)
      (filter : raw.has_pdef_filter = true) (sender : raw.manager_thread_index = cfg.manager)
      (reports : reports c s = [(⟨cfg.manager, thread⟩, .raw_file raw)])
      (noticed : noticed c s.manager = 0) (uses : UsesOnly c raw.pdef_file_path s)
  | filtered (thread : ℕ) (msg : SRxCaptureFilteredFileMsgV2) (id : msg.capture_id = c)
      (reports : reports c s = [(⟨thread, cfg.manager⟩, .filtered_file msg)])
      (noticed : noticed c s.manager = 0) (uses : UsesOnly c msg.pdef_file_path s)

/-- What holds of a capture that nothing has dropped, by how far its worker is. -/
def OnCourse (cfg : Config) (c : ℤ) (s : System) : Prop :=
  match s.phase c with
  | .idle => reports c s = [] ∧ Quiet c s
  | .dispatched _ start_msg => StartedBy cfg c start_msg ∧ reports c s = [] ∧ Quiet c s
  | .capturing worker start_msg =>
    StartedBy cfg c start_msg ∧ Announced cfg c worker (reports c s) ∧ Quiet c s
  | .over => HandedOff cfg c s ∨ Settled c s

/-- The worker is done, nothing is on the way, and no end was noticed. -/
structure Lost (c : ℤ) (s : System) : Prop where
  phase : s.phase c = .over
  reports : reports c s = []
  noticed : noticed c s.manager = 0

/-- Every capture is on course or lost, and the ids from the next one on are
unused. -/
structure Inv (cfg : Config) (s : System) : Prop where
  course : ∀ c, OnCourse cfg c s ∨ Lost c s
  fresh : ∀ c, s.manager.next_capture_id ≤ c → s.phase c = .idle

section Views

variable {cfg : Config} {c : ℤ} {s s' : System}

theorem Quiet.same (h : Quiet c s) (v : SameView c s s') : Quiet c s' where
  noticed := v.noticed.trans h.noticed
  inactive p hp := h.inactive p ((v.active p).mp hp)

theorem UsesOnly.same {path : CStr} (h : UsesOnly c path s) (v : SameView c s s') :
    UsesOnly c path s' := fun p hp => h p ((v.active p).mp hp)

theorem HandedOff.same (h : HandedOff cfg c s) (v : SameView c s s') : HandedOff cfg c s' := by
  cases h with
  | ending worker front msg announced result reports quiet =>
    exact .ending worker front msg announced result (v.reports.trans reports) (quiet.same v)
  | filtering thread raw running id filter sender reports noticed uses =>
    exact .filtering thread raw running id filter sender (v.reports.trans reports)
      (v.noticed.trans noticed) (uses.same v)
  | filtered thread msg id reports noticed uses =>
    exact .filtered thread msg id (v.reports.trans reports) (v.noticed.trans noticed)
      (uses.same v)

theorem Settled.same (h : Settled c s) (v : SameView c s s') : Settled c s' where
  reports := v.reports.trans h.reports
  noticed := v.noticed.trans h.noticed
  inactive p hp := h.inactive p ((v.active p).mp hp)
  final task htask := h.final task (v.tasks task htask)

/-- A capture stays where it is when a step is about another. -/
theorem OnCourse.same (h : OnCourse cfg c s) (v : SameView c s s') : OnCourse cfg c s' := by
  unfold OnCourse at h ⊢
  rw [v.phase, v.reports]
  split at h
  · exact ⟨h.1, h.2.same v⟩
  · exact ⟨h.1, h.2.1, h.2.2.same v⟩
  · exact ⟨h.1, h.2.1, h.2.2.same v⟩
  · exact h.imp (·.same v) (·.same v)

theorem Lost.same (h : Lost c s) (v : SameView c s s') : Lost c s' where
  phase := v.phase.trans h.phase
  reports := v.reports.trans h.reports
  noticed := v.noticed.trans h.noticed

theorem Inv.onCourse (h : Inv cfg s) (hphase : s.phase c ≠ .over) : OnCourse cfg c s :=
  (h.course c).resolve_right fun hlost => hphase hlost.phase

theorem Inv.dispatched (h : Inv cfg s) {worker : ℕ} {start_msg : SRxCaptureStartMsgV2}
    (hphase : s.phase c = .dispatched worker start_msg) :
    StartedBy cfg c start_msg ∧ reports c s = [] ∧ Quiet c s := by
  have hc := h.onCourse (c := c) (by rw [hphase]; exact Phase.noConfusion)
  rw [OnCourse, hphase] at hc
  exact hc

theorem Inv.capturing (h : Inv cfg s) {worker : ℕ} {start_msg : SRxCaptureStartMsgV2}
    (hphase : s.phase c = .capturing worker start_msg) :
    StartedBy cfg c start_msg ∧ Announced cfg c worker (reports c s) ∧ Quiet c s := by
  have hc := h.onCourse (c := c) (by rw [hphase]; exact Phase.noConfusion)
  rw [OnCourse, hphase] at hc
  exact hc

end Views

/-! ## On the way -/

section Ways

variable {cfg : Config} {c : ℤ} {s : System}

theorem about_deciding (c : ℤ) (s : System) :
    about (deciding c) s.letters
      = (reports c s).filter fun letter => !letter.2.is_preliminary := by
  rw [reports, about, about, List.filter_filter]
  apply List.filter_congr
  intro letter _
  exact Bool.and_comm _ _

theorem Announced.not_deciding {worker : ℕ} {front : Mail} (h : Announced cfg c worker front) :
    front.filter (fun letter => !letter.2.is_preliminary) = [] := by
  rw [List.filter_eq_nil_iff]
  intro letter hmem
  rw [(h letter hmem).2.2]
  exact Bool.false_ne_true

theorem Result.not_preliminary {msg : Msg} (h : Result c msg) : msg.is_preliminary = false := by
  cases h <;> rfl

theorem HandedOff.onTheWay (h : HandedOff cfg c s) : OnTheWay c s := by
  cases h with
  | ending worker front msg announced result reports quiet =>
    refine ⟨⟨(⟨worker, cfg.manager⟩, msg), ?_⟩, quiet.noticed⟩
    rw [about_deciding, reports, List.filter_append, announced.not_deciding,
      List.filter_singleton, result.not_preliminary]
    rfl
  | filtering thread raw _ _ _ _ reports noticed _ =>
    refine ⟨⟨(⟨cfg.manager, thread⟩, .raw_file raw), ?_⟩, noticed⟩
    rw [about_deciding, reports]
    rfl
  | filtered thread msg _ reports noticed _ =>
    refine ⟨⟨(⟨thread, cfg.manager⟩, .filtered_file msg), ?_⟩, noticed⟩
    rw [about_deciding, reports]
    rfl

/-- On course with the worker done: on the way or settled. -/
theorem OnCourse.carried (h : OnCourse cfg c s) (hover : s.phase c = .over) :
    OnTheWay c s ∨ Settled c s := by
  rw [OnCourse, hover] at h
  exact h.imp_left HandedOff.onTheWay

/-- A lost capture is neither. -/
theorem Lost.not_carried (h : Lost c s) : ¬ (OnTheWay c s ∨ Settled c s) := by
  rintro (way | settled)
  · obtain ⟨letter, hletter⟩ := way.one
    rw [about_deciding, h.reports] at hletter
    cases hletter
  · have hone := settled.noticed
    rw [h.noticed] at hone
    cases hone

end Ways

/-! ## Steps about other captures -/

/-- The capture a step is about. -/
def Event.concerns (s : System) : Event → Option ℤ
  | .start _ _ => some s.manager.next_capture_id
  | .alert _ _ _ => some s.manager.next_capture_id
  | .tick => none
  | .abort c => some c
  | .begin c _ _ _ => some c
  | .finish c _ => some c
  | .manager _ msg _ => msg.capture?
  | .filter _ _ msg _ => msg.capture?

section OtherSteps

variable {cfg : Config} {c c' : ℤ} {s s' : System}

/-- What a worker does is seen by its own capture only. -/
theorem post_sameView {sent : Mail} (habout : AllAbout c' sent) (hc : c ≠ c') (phase : Phase) :
    SameView c s (s.post c' sent phase) where
  phase := Function.update_of_ne hc _ _
  reports := by
    rw [reports, System.post, about_append, habout.about_other hc, List.append_nil]
    rfl
  noticed := rfl
  active _ := Iff.rfl
  tasks _ h := h

/-- A delivery is seen by the capture the message reports on only. -/
theorem delivery_sameView {route : Route} {msg : Msg} {rest sent : Mail} {m : Manager}
    (htakes : Takes route msg s.letters rest) (hmsg : msg.capture? = some c')
    (htouches : Touches c' s.manager m) (hsent : AllAbout c' sent) (hc : c ≠ c') :
    SameView c s { s with manager := m, letters := rest ++ sent } where
  phase := rfl
  reports := by
    rw [reports, about_append, hsent.about_other hc, List.append_nil, reports]
    exact htakes.about_other (not_about hmsg hc)
  noticed := htouches.noticed c hc
  active := htouches.active c hc
  tasks := htouches.tasks.keeps c hc

/-- Admission is seen by the new capture only. -/
theorem launch_sameView {outcome : Option Dispatch × Manager}
    (h : Outcome cfg s.manager outcome) (hc : c ≠ s.manager.next_capture_id) :
    SameView c s (s.launch cfg outcome) := by
  cases h with
  | refused last => exact ⟨rfl, rfl, rfl, fun _ => Iff.rfl, fun _ h => h⟩
  | accepted last request now accepts =>
    obtain ⟨hadded, hdispatched⟩ :=
      add_and_dispatch_spec cfg request now { s.manager with module_last_trigger := last }
    cases houtcome : add_and_dispatch cfg request now { s.manager with module_last_trigger := last } with
    | mk dispatch m =>
      rw [houtcome] at hadded hdispatched
      refine ⟨?_, ?_, ?_, fun p => ?_, ?_⟩
      · cases dispatch with
        | none => rfl
        | some d =>
          obtain ⟨worker, start_msg⟩ := d
          obtain ⟨hid, -⟩ := hdispatched.dispatched worker start_msg rfl
          simp only [System.launch]
          split
          · exact Function.update_of_ne (hid ▸ hc) _ _
          · rfl
      · rw [reports, launch_letters, reports]
      · rw [noticed, launch_manager, hadded.notices, noticed]
      · rw [active, launch_manager, hadded.usage, active]
      · rw [System.task, launch_manager]
        exact hadded.tasks c hc

/-- A message that reports on no capture is seen by none. -/
theorem delivery_none {route : Route} {msg : Msg} {rest : Mail} {m : Manager}
    (htakes : Takes route msg s.letters rest) (hmsg : msg.capture? = none)
    (htasks : m.task_mgr = s.manager.task_mgr) (hnotices : m.notices = s.manager.notices)
    (hactive : ∀ p, active_in m.pdef_usage_map p = active s p) :
    SameView c s { s with manager := m, letters := rest ++ [] } where
  phase := rfl
  reports := by
    rw [reports, List.append_nil]
    exact htakes.about_other (not_about_none hmsg c)
  noticed := by rw [noticed, hnotices, noticed]
  active p := by rw [active, hactive p]
  tasks task h := by
    rw [System.task, htasks] at h
    exact h

/-- **Other captures.** A step is seen only by the capture it is about. -/
theorem Step.sameView {event : Event} (h : Step cfg s event s') (hinv : Inv cfg s)
    (hc : event.concerns s ≠ some c) : SameView c s s' := by
  have hne : ∀ {c'}, event.concerns s = some c' → c ≠ c' := by
    rintro c' hconcerns rfl
    exact hc hconcerns
  cases h with
  | start start_msg world =>
    exact launch_sameView (handle_start_outcome cfg start_msg world s.manager) (hne rfl)
  | alert alert world now =>
    exact launch_sameView (handle_alert_outcome cfg alert world now s.manager) (hne rfl)
  | tick => exact ⟨rfl, rfl, rfl, fun _ => Iff.rfl, fun _ h => h⟩
  | abort phase =>
    obtain ⟨⟨rfl, -⟩, -, -⟩ := hinv.dispatched phase
    exact post_sameView (Reporting.worker rfl _ _ _).allAbout (hne rfl) _
  | begin _ _ _ phase =>
    obtain ⟨⟨rfl, -⟩, -, -⟩ := hinv.dispatched phase
    exact post_sameView (Reporting.worker rfl _ _ _).allAbout (hne rfl) _
  | finish _ phase =>
    obtain ⟨⟨rfl, -⟩, -, -⟩ := hinv.capturing phase
    exact post_sameView (Reporting.result _ _ _ _).allAbout (hne rfl) _
  | @manager sender msg rest world takes =>
    cases hmsg : msg.capture? with
    | some c' =>
      exact delivery_sameView takes hmsg (manager_handle_touches cfg hmsg world s.manager)
        (AllAbout.managed cfg hmsg world s.manager) (hne hmsg)
    | none =>
      cases msg with
      | endian_detected msg =>
        obtain ⟨htasks, hnotices, -, hactive⟩ := endian_detected_touches msg world s.manager
        exact delivery_none takes hmsg htasks hnotices hactive
      | file_enqueue msg => exact delivery_none takes hmsg rfl rfl fun _ => rfl
      | _ => cases hmsg
  | @filter thread sender msg rest world result running takes handled =>
    cases hmsg : msg.capture? with
    | some c' =>
      exact delivery_sameView takes hmsg (Touches.refl c' s.manager)
        (AllAbout.filter hmsg handled) (hne hmsg)
    | none =>
      rcases filter_handle_cases handled with hsent | ⟨raw, rfl, -⟩
      · rw [hsent]
        exact delivery_none takes hmsg rfl rfl fun _ => rfl
      · cases hmsg

end OtherSteps

end RxNetCap.Capture
