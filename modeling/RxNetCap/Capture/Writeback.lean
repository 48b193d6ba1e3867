/-
When a PDEF file is rewritten.

A byte order that a filter thread has detected is written back to the PDEF
file, but not while a capture uses the file: a capture is in the active set
from the dispatch of its raw file until its filtered file is handled, and
`try_writeback_pdef_endian` waits until the set is empty. Both the filtered
file and the detected order try, whichever comes last; a success is noted, and
nothing is tried after it.
-/
import RxNetCap.Capture.HandOff

set_option autoImplicit false

namespace RxNetCap.Capture

open RxNetCap.Mailbox RxNetCap.Tally RxNetCap.Pdef

/-- The calls of `writeback_endian_to_file` for one path. -/
def rewrites (pdef_path : CStr) (m : Manager) : List Writeback :=
  m.writebacks.filter fun w => w.pdef_path = pdef_path

/-- The file was written back with success. -/
def written (pdef_path : CStr) (usage : UsageMap) : Bool :=
  (usage.lookup pdef_path).any PDEFUsageInfo.writeback_done

/-! ## The flag -/

section Flag

variable {p pdef_path : CStr} {usage : UsageMap}

/-- An entry written over, with the same flag. -/
theorem written_over {info : PDEFUsageInfo}
    (hsame : info.writeback_done = written pdef_path usage) :
    written p (usage.insert pdef_path info) = written p usage := by
  unfold written at hsame ⊢
  by_cases hp : p = pdef_path
  · rw [hp, AList.lookup_insert, ← hsame]
    rfl
  · rw [AList.lookup_insert_ne hp]

theorem written_getD (pdef_path : CStr) (usage : UsageMap) :
    ((usage.lookup pdef_path).getD {}).writeback_done = written pdef_path usage := by
  unfold written
  cases usage.lookup pdef_path <;> rfl

theorem written_start (capture_id : ℤ) :
    written p (track_pdef_usage_start capture_id pdef_path usage) = written p usage := by
  unfold track_pdef_usage_start
  split
  · rfl
  · exact written_over (written_getD pdef_path usage)

theorem written_end (capture_id : ℤ) :
    written p (track_pdef_usage_end capture_id pdef_path usage) = written p usage := by
  unfold track_pdef_usage_end
  split
  · rfl
  · split
    · rfl
    · next info hinfo =>
      apply written_over
      rw [written, hinfo]
      rfl

theorem written_learn (detected_endian : EndianType) :
    written p (usage.insert pdef_path (learn_usage_endian detected_endian
      ((usage.lookup pdef_path).getD {}))) = written p usage := by
  apply written_over
  rw [← written_getD]
  unfold learn_usage_endian
  split <;> rfl

theorem written_mark {info : PDEFUsageInfo} (hinfo : usage.lookup pdef_path = some info) :
    written p (mark_written pdef_path usage)
      = if p = pdef_path then true else written p usage := by
  unfold mark_written
  rw [hinfo]
  unfold written
  by_cases hp : p = pdef_path
  · rw [if_pos hp, hp, AList.lookup_insert]
    rfl
  · rw [if_neg hp, AList.lookup_insert_ne hp]

end Flag

/-! ## One message -/

/-- What a step can do to the file `p`: nothing, or rewrite it once while no
capture uses it and it was not rewritten with success before. -/
inductive Rewrites (p : CStr) (m m' : Manager) : Prop where
  | none (same : rewrites p m' = rewrites p m)
      (flag : written p m'.pdef_usage_map = written p m.pdef_usage_map)
  | once (d : EndianType) (ok : Bool) (path : p ≠ [])
      (more : rewrites p m' = rewrites p m ++ [⟨p, d, ok⟩])
      (unused : active_in m'.pdef_usage_map p = ∅)
      (before : written p m.pdef_usage_map = false)
      (after : ok = true → written p m'.pdef_usage_map = true)

section Messages

variable {p : CStr} {m m' : Manager}

theorem Rewrites.refl (p : CStr) (m : Manager) : Rewrites p m m := .none rfl rfl

/-- A change of the map that leaves the flag alone comes before. -/
theorem Rewrites.of_usage {usage : UsageMap}
    (h : Rewrites p { m with pdef_usage_map := usage } m')
    (hflag : written p usage = written p m.pdef_usage_map) : Rewrites p m m' := by
  cases h with
  | none same flag => exact .none same (flag.trans hflag)
  | once d ok path more unused before after =>
    exact .once d ok path more unused (hflag.symm.trans before) after

/-- Trying to write back. -/
theorem try_writeback_rewrites (p pdef_path : CStr) (writeback_ok : Bool) (m : Manager) :
    Rewrites p m (try_writeback_pdef_endian pdef_path writeback_ok m) := by
  unfold try_writeback_pdef_endian
  split
  · exact Rewrites.refl p m
  · next d hdue =>
    have hpath : pdef_path ≠ [] := by
      rintro rfl
      cases hdue
    obtain ⟨info, hinfo, -, hdone, hactive, -⟩ := writeback_due_some _ _ hdue
    by_cases hp : p = pdef_path
    · subst hp
      refine .once d writeback_ok hpath ?_ ?_ ?_ ?_
      · rw [rewrites, rewrites, List.filter_append, List.filter_singleton]
        simp only [decide_true, cond_true]
      · have hempty : active_in m.pdef_usage_map p = ∅ := by
          rw [active_in_of_lookup _ _ hinfo, hactive]
        dsimp only
        split
        · rw [active_in_mark_written, hempty]
        · exact hempty
      · rw [written, hinfo]
        exact hdone
      · intro hok
        simp only [hok, if_true]
        rw [written_mark hinfo, if_pos rfl]
    · refine .none ?_ ?_
      · rw [rewrites, rewrites, List.filter_append, List.filter_singleton]
        simp only [decide_eq_false (Ne.symm hp), cond_false, List.append_nil]
      · dsimp only
        split
        · rw [written_mark hinfo, if_neg hp]
        · rfl

/-- **One message** rewrites a file only while nobody uses it. -/
theorem manager_handle_rewrites (cfg : Config) (msg : Msg) (world : ManagerWorld) (m : Manager)
    (p : CStr) : Rewrites p m (manager_handle_msg cfg msg world m).1 := by
  -- clearing a cooldown leaves the files and the map alone
  have hclear : ∀ (capture_id : ℤ) (task_mgr : CRxSafeTaskMgr) (status : ECaptureTaskStatus),
      ∃ last, clear_module_cooldown_for_capture capture_id
        ({ m with task_mgr }.notice capture_id status) = { m with
          task_mgr
          module_last_trigger := last
          notices := m.notices ++ [(capture_id, status)] } := by
    intro capture_id task_mgr status
    obtain ⟨last, hlast⟩ := clear_module_cooldown_eq capture_id
      ({ m with task_mgr }.notice capture_id status)
    exact ⟨last, hlast⟩
  cases msg with
  | started msg => exact .none rfl rfl
  | file_ready msg =>
    simp only [manager_handle_msg, handle_capture_file_ready_v2]
    split
    · exact .none rfl rfl
    · split
      · exact .none rfl rfl
      · exact .none rfl rfl
  | finished msg =>
    simp only [manager_handle_msg, handle_capture_finished_v2]
    obtain ⟨last, hlast⟩ := hclear msg.capture_id
      (finish_task msg.capture_id msg.result world.now m.task_mgr).2
      (finish_task msg.capture_id msg.result world.now m.task_mgr).1
    rw [hlast]
    exact .none rfl rfl
  | failed msg =>
    simp only [manager_handle_msg, handle_capture_failed_v2]
    obtain ⟨last, hlast⟩ := hclear msg.capture_id
      (m.task_mgr.set_capture_failed msg.capture_id
        (non_empty_or msg.error_message (rx_capture_error_to_string msg.error_code)) world.now).2
      .FAILED
    rw [hlast]
    exact .none rfl rfl
  | raw_file msg =>
    simp only [manager_handle_msg, handle_capture_raw_file_v2]
    split
    · exact .none rfl ((written_end _).trans (written_start _))
    · split
      · exact .none rfl (written_start _)
      · exact .none rfl (written_start _)
  | filtered_file msg =>
    simp only [manager_handle_msg, handle_capture_filtered_file_v2]
    obtain ⟨last, hlast⟩ := hclear msg.capture_id
      ((m.task_mgr.append_capture_files msg.capture_id
        (filtered_files msg world)).2.set_capture_finished msg.capture_id world.now_usec
          msg.total_packets msg.file_size msg.filtered_pcap_path).2 .COMPLETED
    rw [hlast]
    split
    · exact .none rfl rfl
    · have hrewrites := try_writeback_rewrites p msg.pdef_file_path world.writeback_ok
        { m with
          task_mgr := ((m.task_mgr.append_capture_files msg.capture_id
            (filtered_files msg world)).2.set_capture_finished msg.capture_id world.now_usec
              msg.total_packets msg.file_size msg.filtered_pcap_path).2
          module_last_trigger := last
          notices := m.notices ++ [(msg.capture_id, .COMPLETED)]
          pdef_usage_map := track_pdef_usage_end msg.capture_id msg.pdef_file_path
            m.pdef_usage_map }
      cases hrewrites with
      | none same flag => exact .none same (flag.trans (written_end _))
      | once d ok path more unused before after =>
        exact .once d ok path more unused ((written_end _).symm.trans before) after
  | endian_detected msg =>
    simp only [manager_handle_msg, handle_pdef_endian_detected]
    split
    · exact .none rfl rfl
    · split
      · exact .none rfl (written_over (written_getD _ _))
      · exact (try_writeback_rewrites p _ _ _).of_usage (written_learn _)
  | file_enqueue msg => exact .none rfl rfl

end Messages

/-! ## Use of a file -/

section Uses

variable {cfg : Config} {p : CStr} {c : ℤ} {s s' : System} {event : Event}

/-- A capture stays in the active set of its file until its filtered file is
handled. -/
theorem manager_handle_uses (hthreads : cfg.filter_threads ≠ []) {msg : Msg}
    (hmsg : ∀ filtered, msg = .filtered_file filtered → filtered.capture_id ≠ c)
    (world : ManagerWorld) {m : Manager} (huses : c ∈ active_in m.pdef_usage_map p) :
    c ∈ active_in (manager_handle_msg cfg msg world m).1.pdef_usage_map p := by
  cases hcapture : msg.capture? with
  | none =>
    cases msg with
    | endian_detected msg =>
      rw [manager_handle_msg, (endian_detected_touches msg world m).2.2.2 p]
      exact huses
    | file_enqueue msg => exact huses
    | _ => cases hcapture
  | some c' =>
    by_cases hc : c = c'
    · subst hc
      cases msg with
      | started msg => exact huses
      | file_ready msg =>
        simp only [manager_handle_msg, handle_capture_file_ready_v2]
        split
        · exact huses
        · split
          · exact huses
          · exact huses
      | finished msg =>
        obtain rfl : msg.capture_id = c := Option.some.inj hcapture
        simp only [manager_handle_msg, handle_capture_finished_v2]
        obtain ⟨last, hlast⟩ := clear_module_cooldown_eq msg.capture_id
          ({ m with task_mgr := (finish_task msg.capture_id msg.result world.now
            m.task_mgr).2 }.notice msg.capture_id
              (finish_task msg.capture_id msg.result world.now m.task_mgr).1)
        rw [hlast]
        exact huses
      | failed msg =>
        obtain rfl : msg.capture_id = c := Option.some.inj hcapture
        simp only [manager_handle_msg, handle_capture_failed_v2]
        obtain ⟨last, hlast⟩ := clear_module_cooldown_eq msg.capture_id
          ({ m with task_mgr := (m.task_mgr.set_capture_failed msg.capture_id
            (non_empty_or msg.error_message (rx_capture_error_to_string msg.error_code))
              world.now).2 }.notice msg.capture_id .FAILED)
        rw [hlast]
        exact huses
      | raw_file msg =>
        have hstart : c ∈ active_in (track_pdef_usage_start msg.capture_id msg.pdef_file_path
            m.pdef_usage_map) p := by
          rw [active_in_start]
          split
          · exact Finset.mem_insert_of_mem huses
          · exact huses
        simp only [manager_handle_msg, handle_capture_raw_file_v2, if_neg hthreads]
        split
        · exact hstart
        · exact hstart
      | filtered_file msg => exact absurd (Option.some.inj hcapture) (hmsg msg rfl)
      | endian_detected msg => cases hcapture
      | file_enqueue msg => cases hcapture
    · exact ((manager_handle_touches cfg hcapture world m).active c hc p).mpr huses

/-- Handling requests and alerts leaves the files alone. -/
theorem launch_files {outcome : Option Dispatch × Manager}
    (houtcome : Outcome cfg s.manager outcome) :
    (s.launch cfg outcome).manager.pdef_usage_map = s.manager.pdef_usage_map ∧
    (s.launch cfg outcome).manager.writebacks = s.manager.writebacks := by
  cases houtcome with
  | refused last => exact ⟨rfl, rfl⟩
  | accepted last request now accepts =>
    obtain ⟨hadded, -⟩ :=
      add_and_dispatch_spec cfg request now { s.manager with module_last_trigger := last }
    rw [launch_manager]
    exact ⟨hadded.usage, hadded.writebacks⟩

theorem launch_rewrites {outcome : Option Dispatch × Manager}
    (houtcome : Outcome cfg s.manager outcome) (p : CStr) :
    Rewrites p s.manager (s.launch cfg outcome).manager := by
  obtain ⟨husage, hwritebacks⟩ := launch_files houtcome
  refine .none ?_ ?_
  · rw [rewrites, rewrites, hwritebacks]
  · rw [husage]

/-- **One step** rewrites a file only while nobody uses it. -/
theorem Step.rewrites (h : Step cfg s event s') (p : CStr) : Rewrites p s.manager s'.manager := by
  cases h with
  | start start_msg world =>
    exact launch_rewrites (handle_start_outcome cfg start_msg world s.manager) p
  | alert alert world now =>
    exact launch_rewrites (handle_alert_outcome cfg alert world now s.manager) p
  | tick => exact .none rfl rfl
  | abort phase => exact .none rfl rfl
  | begin _ _ _ phase => exact .none rfl rfl
  | finish _ phase => exact .none rfl rfl
  | manager world takes => exact manager_handle_rewrites cfg _ world s.manager p
  | filter running takes handled => exact .none rfl rfl

/-- The event is no filtered file of the capture that comes to the manager. -/
def NotFiltered (c : ℤ) (event : Event) : Prop :=
  ∀ sender msg world, event = .manager sender (.filtered_file msg) world → msg.capture_id ≠ c

/-- Steps that do not handle its filtered file leave a capture in the active
set of its file. -/
theorem Step.uses (h : Step cfg s event s') (hthreads : cfg.filter_threads ≠ [])
    (hevent : NotFiltered c event) (huses : c ∈ active s p) : c ∈ active s' p := by
  cases h with
  | start start_msg world =>
    rw [active, (launch_files (handle_start_outcome cfg start_msg world s.manager)).1]
    exact huses
  | alert alert world now =>
    rw [active, (launch_files (handle_alert_outcome cfg alert world now s.manager)).1]
    exact huses
  | tick => exact huses
  | abort phase => exact huses
  | begin _ _ _ phase => exact huses
  | finish _ phase => exact huses
  | @manager sender msg rest world takes =>
    refine manager_handle_uses hthreads ?_ world huses
    intro filtered hmsg
    exact hevent sender filtered world (by rw [hmsg])
  | filter running takes handled => exact huses

/-- A step that leaves a capture in the active set of a file does not rewrite
the file. -/
theorem Rewrites.none_of_uses {m m' : Manager} (h : Rewrites p m m')
    (huses : p = [] ∨ c ∈ active_in m'.pdef_usage_map p) :
    Capture.rewrites p m' = Capture.rewrites p m := by
  cases h with
  | none same flag => exact same
  | once d ok path more unused before after =>
    rcases huses with hnil | hmem
    · exact absurd hnil path
    · rw [unused] at hmem
      exact absurd hmem (Finset.notMem_empty c)

end Uses

/-! ## Every run -/

section Runs

variable {cfg : Config} {c : ℤ} {s : System} {history : List Entry}

/-- The manager dispatches the raw file of a capture with this path to a filter
thread. -/
structure Dispatches (cfg : Config) (c : ℤ) (p : CStr) (entry : Entry) : Prop where
  event : ∃ sender raw world, entry.event = .manager sender (.raw_file raw) world ∧
    raw.capture_id = c ∧ raw.pdef_file_path = p
  turn : ∃ thread,
    filter_thread_for cfg.filter_threads entry.before.manager.next_filter = some thread

/-- With the dispatch the capture uses its file, if it names one. -/
theorem Dispatches.uses {p : CStr} {entry : Entry} (h : Dispatches cfg c p entry)
    (hstep : Step cfg entry.before entry.event entry.after) :
    cfg.filter_threads ≠ [] ∧ (p = [] ∨ c ∈ active entry.after p) := by
  obtain ⟨sender, raw, world, hevent, rfl, rfl⟩ := h.event
  obtain ⟨thread, hturn⟩ := h.turn
  obtain ⟨hmem, hhandled⟩ := handle_raw_file_turn raw hturn
  refine ⟨List.ne_nil_of_mem hmem, ?_⟩
  obtain ⟨before, event, after⟩ := entry
  replace hstep : Step cfg before (.manager sender (.raw_file raw) world) after := hevent ▸ hstep
  cases hstep with
  | manager world takes =>
    by_cases hpath : raw.pdef_file_path = []
    · exact .inl hpath
    · refine .inr ?_
      rw [active, System.managed, manager_handle_msg, hhandled]
      simp only
      rw [active_in_start, if_pos ⟨rfl, hpath⟩]
      exact Finset.mem_insert_self _ _

/-- Between the dispatch of its raw file and the handling of its filtered file
the file of a capture is not rewritten. -/
theorem Run.not_rewritten {p : CStr} (h : Run cfg history s) {front back : List Entry}
    {entry : Entry} (hsplit : history = front ++ entry :: back)
    (hdispatches : Dispatches cfg c p entry) (hback : ∀ later ∈ back, NotFiltered c later.event) :
    rewrites p s.manager = rewrites p entry.before.manager := by
  obtain ⟨-, hstep⟩ := h.entry hsplit
  obtain ⟨hthreads, huses⟩ := hdispatches.uses hstep
  have hkept : (p = [] ∨ c ∈ active s p) ∧
      rewrites p s.manager = rewrites p entry.before.manager := by
    refine h.after (Q := fun t => (p = [] ∨ c ∈ active t p) ∧
      rewrites p t.manager = rewrites p entry.before.manager) hsplit ?_ ?_
    · exact ⟨huses, (hstep.rewrites p).none_of_uses huses⟩
    · rintro later hmem past - hlater ⟨hbefore, hsame⟩
      have hafter : p = [] ∨ c ∈ active later.after p :=
        hbefore.imp_right (hlater.uses hthreads (hback later hmem))
      exact ⟨hafter, ((hlater.rewrites p).none_of_uses hafter).trans hsame⟩
  exact hkept.2

/-- A success is noted, and it is the only one. -/
def Noted (p : CStr) (m : Manager) : Prop :=
  (rewrites p m).countP Writeback.succeeded ≤ if written p m.pdef_usage_map then 1 else 0

theorem Noted.step {p : CStr} {m m' : Manager} (hnoted : Noted p m) (h : Rewrites p m m') :
    Noted p m' := by
  unfold Noted at hnoted ⊢
  cases h with
  | none same flag =>
    rw [same, flag]
    exact hnoted
  | once d ok path more unused before after =>
    have hzero : (rewrites p m).countP Writeback.succeeded = 0 := by
      rw [before] at hnoted
      exact Nat.le_zero.mp hnoted
    rw [more, List.countP_append, hzero, List.countP_singleton, Nat.zero_add]
    cases ok with
    | false => exact Nat.zero_le _
    | true => rw [after rfl, if_pos rfl]

theorem Run.noted (h : Run cfg history s) (p : CStr) : Noted p s.manager :=
  h.induction (P := fun s => Noted p s.manager) (Nat.zero_le _)
    fun step hnoted => hnoted.step (step.rewrites p)

/-- **Rewriting is safe.** In every run, a PDEF file is not rewritten between
the dispatch of the raw file of a capture that uses it and the handling of its
filtered file, and it is rewritten with success at most once. -/
theorem rewrites_safe (h : Run cfg history s) (p : CStr) :
    (∀ front entry back c, history = front ++ entry :: back → Dispatches cfg c p entry →
      (∀ later ∈ back, NotFiltered c later.event) →
      rewrites p s.manager = rewrites p entry.before.manager) ∧
    (rewrites p s.manager).countP Writeback.succeeded ≤ 1 := by
  constructor
  · intro front entry back c hsplit hdispatches hback
    exact h.not_rewritten hsplit hdispatches hback
  · refine le_trans (h.noted p) ?_
    split
    · exact le_rfl
    · exact Nat.zero_le 1

end Runs

set_option maxRecDepth 100000 in
/-- A capture whose packet decides the byte order: the file is rewritten when
the capture is over. -/
theorem rewrites_safe_game : ∃ history s, Run one_of_each history s ∧
    rewrites "game.pdef".toList s.manager = [⟨"game.pdef".toList, .BIG, true⟩] ∧
    (∀ front entry back c, history = front ++ entry :: back →
      Dispatches one_of_each c "game.pdef".toList entry →
      (∀ later ∈ back, NotFiltered c later.event) →
      rewrites "game.pdef".toList s.manager
        = rewrites "game.pdef".toList entry.before.manager) ∧
    (rewrites "game.pdef".toList s.manager).countP Writeback.succeeded ≤ 1 := by
  obtain ⟨history, s, hrun, hrewrites⟩ := run_of_replay one_of_each
    (P := fun _ s =>
      rewrites "game.pdef".toList s.manager = [⟨"game.pdef".toList, .BIG, true⟩])
    (filtered_capture game_request ⟨some auto_pdef, some [udp_packet], true, 0⟩
      ++ [.manager 3 {}, .manager 3 { writeback_ok := true }]) (by decide +kernel)
  exact ⟨history, s, hrun, hrewrites, rewrites_safe hrun _⟩

end RxNetCap.Capture
