/-
When a request is answered as a duplicate.

A request is refused when an active task has its key or its signature. The key
leaves out what is not written into it, it is cut to a buffer, and a colon in a
name shifts its fields; the signature leaves out the inline filter. A pair of
requests is `ToldApart` when none of this confuses the two, and a request that
is told apart from those of all active tasks is refused only when one of them
captures the same (`duplicate_same_capture`).
-/
import RxNetCap.Capture.Admission
import RxNetCap.Capture.Careful
import RxNetCap.Capture.Replay
import RxNetCap.Capture.Session
import RxNetCap.Capture.Signature

set_option autoImplicit false

namespace RxNetCap.Capture

open RxNetCap.Mailbox RxNetCap.Tally RxNetCap.Index RxNetCap.Codes RxNetCap.Pdef

/-! ## What is captured -/

inductive Target where
  | everything
  | process (proc_name : CStr)
  | pid (target_pid : ℤ)
  | container (container_id : CStr)
  deriving DecidableEq, Repr

def target_of (spec : CaptureSpec) : Target :=
  match spec.capture_mode with
  | .INTERFACE => .everything
  | .PROCESS => .process spec.proc_name
  | .PID => .pid spec.target_pid
  | .CONTAINER => .container spec.container_id

/-- What a capture captures and where it goes, as the worker is told. -/
structure Captured where
  capture_mode : ECaptureMode
  target : Target
  iface : CStr
  bpf : CStr
  protocol_filter : CStr
  protocol_filter_inline : CStr
  file_pattern : CStr
  duration_sec : ℤ
  max_bytes : ℤ
  deriving DecidableEq, Repr

def captured (spec : CaptureSpec) (config : CaptureConfigSnapshot) : Captured :=
  let cfg := build_task_cfg spec config
  { capture_mode := spec.capture_mode
    target := target_of spec
    iface := cfg.iface
    bpf := cfg.bpf
    protocol_filter := cfg.protocol_filter
    protocol_filter_inline := cfg.protocol_filter_inline
    file_pattern := cfg.file_pattern
    duration_sec := cfg.duration_sec
    max_bytes := cfg.max_bytes }

def Asked.captured (a : Asked) : Captured := Capture.captured a.spec a.config

/-- The part of it that the key says nothing about: for a process id, the
filter too. -/
def unkeyed (captured : Captured) : CStr × CStr × CStr × CStr × ℤ × ℤ × CStr :=
  (captured.iface, captured.protocol_filter, captured.protocol_filter_inline,
    captured.file_pattern, captured.duration_sec, captured.max_bytes,
    if captured.capture_mode = .PID then captured.bpf else [])

/-- The part of it that is not signed: the filter is signed without the blanks
around it, and a process id only when it is positive. -/
def unsigned (captured : Captured) : CStr × CStr × Option Target :=
  (captured.bpf, captured.protocol_filter_inline,
    match captured.target with
    | .pid target_pid => if target_pid > 0 then none else some (.pid target_pid)
    | _ => none)

section Captured

variable {a b : Asked}

theorem keyed_mode (a : Asked) : a.spec.capture_mode = a.keyed.capture_mode := rfl

/-- What is in the key and what is not make up what is captured. -/
theorem captured_of_keyed (hkey : key_fields a.keyed = key_fields b.keyed)
    (hrest : unkeyed a.captured = unkeyed b.captured) : a.captured = b.captured := by
  have hmode : a.keyed.capture_mode = b.keyed.capture_mode := by
    unfold key_fields at hkey
    split at hkey <;> split at hkey <;> simp_all
  simp only [unkeyed, Prod.mk.injEq] at hrest
  obtain ⟨hiface, hprotocol, hinline, hpattern, hduration, hbytes, hbpf⟩ := hrest
  have hsame : a.captured.target = b.captured.target ∧ a.captured.bpf = b.captured.bpf := by
    have htarget : ∀ a : Asked, a.captured.target = match a.keyed.capture_mode with
        | .INTERFACE => .everything
        | .PROCESS => .process a.keyed.proc_name
        | .PID => .pid a.keyed.target_pid
        | .CONTAINER => .container a.keyed.container_id := fun _ => rfl
    have hfilter : ∀ a : Asked, a.captured.bpf = a.keyed.filter := fun _ => rfl
    have hmodes : ∀ a : Asked, a.captured.capture_mode = a.keyed.capture_mode := fun _ => rfl
    rw [htarget a, htarget b]
    rw [hmodes a, hmodes b] at hbpf
    rw [hfilter a, hfilter b] at hbpf ⊢
    unfold key_fields at hkey
    rw [← hmode] at hkey hbpf ⊢
    cases hcase : a.keyed.capture_mode with
    | INTERFACE =>
      simp only [hcase, KeyFields.iface.injEq] at hkey
      exact ⟨rfl, hkey.2⟩
    | PROCESS =>
      simp only [hcase, KeyFields.proc.injEq] at hkey
      exact ⟨congrArg _ hkey.1, hkey.2.1⟩
    | PID =>
      simp only [hcase, KeyFields.pid.injEq] at hkey
      rw [if_pos hcase, if_pos hcase] at hbpf
      exact ⟨congrArg _ hkey, hbpf⟩
    | CONTAINER =>
      simp only [hcase, KeyFields.container.injEq] at hkey
      exact ⟨congrArg _ hkey.1, hkey.2⟩
  have hmodes : a.captured.capture_mode = b.captured.capture_mode := hmode
  cases ha : a.captured
  cases hb : b.captured
  simp_all

/-! ### What is signed -/

theorem str_entry_inj {value value' : CStr} (h : str_entry value = str_entry value') :
    value = value' := by
  unfold str_entry at h
  split at h
  · next hnil =>
    split at h
    · next hnil' => rw [hnil, hnil']
    · cases h
  · split at h
    · cases h
    · exact JsonValue.str.inj (Option.some.inj h)

/-- A limit is signed as far as it is positive. -/
theorem limit_entry_inj {limit default limit' default' : ℤ}
    (h : limit_entry limit default = limit_entry limit' default') :
    not_negative (positive_or limit default) = not_negative (positive_or limit' default') := by
  unfold limit_entry at h
  unfold not_negative
  split at h
  · split at h
    · rw [JsonValue.int.inj (Option.some.inj h)]
    · cases h
  · split at h
    · cases h
    · split <;> split <;> omega

/-- What is signed and what is not make up what is captured. -/
theorem captured_of_signed
    (hsigned : signature_entries a.spec a.config a.matched
      = signature_entries b.spec b.config b.matched)
    (hrest : unsigned a.captured = unsigned b.captured) : a.captured = b.captured := by
  simp only [signature_entries, List.cons_append, List.cons.injEq, Prod.mk.injEq, true_and,
    List.nil_append] at hsigned
  obtain ⟨hmode, hiface, hresolved, -, hpattern, -, -, hprotocol, -, -, hduration, hbytes, -, -, -,
    -, -, -, -, htarget⟩ := hsigned
  replace hmode := mode_string_inj (str_entry_inj hmode)
  simp only [unsigned, Prod.mk.injEq] at hrest
  obtain ⟨hbpf, hinline, hpid⟩ := hrest
  have htargets : a.captured.target = b.captured.target := by
    have htarget_of : ∀ a : Asked, a.captured.target = target_of a.spec := fun _ => rfl
    rw [htarget_of a, htarget_of b] at hpid ⊢
    simp only [target_entries] at htarget
    unfold target_of at hpid ⊢
    rw [← hmode] at htarget hpid ⊢
    cases hcase : a.spec.capture_mode with
    | INTERFACE => rfl
    | PROCESS =>
      simp only [hcase, List.cons.injEq, Prod.mk.injEq, true_and] at htarget
      exact congrArg _ (str_entry_inj htarget.1)
    | PID =>
      simp only [hcase, List.cons.injEq, Prod.mk.injEq, true_and, and_true] at htarget
      simp only [hcase] at hpid
      split at htarget
      · split at htarget
        · exact congrArg _ (JsonValue.int.inj (Option.some.inj htarget))
        · cases htarget
      · next hpos =>
        split at htarget
        · cases htarget
        · next hpos' =>
          rw [if_neg hpos, if_neg hpos'] at hpid
          exact Option.some.inj hpid
    | CONTAINER =>
      simp only [hcase, List.cons.injEq, Prod.mk.injEq, true_and, and_true] at htarget
      exact congrArg _ (str_entry_inj htarget)
  have hfields : ∀ a : Asked, a.captured = {
      capture_mode := a.spec.capture_mode
      target := a.captured.target
      iface := non_empty_or a.spec.resolved_iface a.spec.iface
      bpf := a.captured.bpf
      protocol_filter := a.spec.protocol_filter
      protocol_filter_inline := a.captured.protocol_filter_inline
      file_pattern := non_empty_or
        (non_empty_or a.spec.output_pattern a.config.filename_template) default_pattern
      duration_sec := not_negative (positive_or a.spec.max_duration_sec a.config.max_duration_sec)
      max_bytes := not_negative (positive_or a.spec.max_bytes a.config.max_bytes) } :=
    fun _ => rfl
  rw [hfields a, hfields b, hmode, htargets, hbpf, hinline, str_entry_inj hiface,
    str_entry_inj hresolved, str_entry_inj hpattern, str_entry_inj hprotocol,
    limit_entry_inj hduration, limit_entry_inj hbytes]

end Captured

/-! ## Told apart -/

/-- The key of a request can be read back. -/
def Asked.Fits (a : Asked) : Prop := (key_fields a.keyed).Fits

/-- Two requests that neither key nor signature confuses: with the same key
fields they agree on what the key leaves out; with the same text of a key that
cannot be read back, on everything; and with the same signed fields, on what is
not signed. -/
structure ToldApart (a b : Asked) : Prop where
  keyed : a.Fits → b.Fits → key_fields a.keyed = key_fields b.keyed →
    unkeyed a.captured = unkeyed b.captured
  cut : ¬ (a.Fits ∧ b.Fits) → generate_task_key a.keyed = generate_task_key b.keyed →
    a.captured = b.captured
  signed : signature_entries a.spec a.config a.matched
      = signature_entries b.spec b.config b.matched →
    unsigned a.captured = unsigned b.captured

/-- **Told apart** is what it takes: requests with the same key or the same
payload capture the same if and only if they are told apart. -/
theorem toldApart_iff {a b : Asked} :
    ToldApart a b ↔
      (generate_task_key a.keyed = generate_task_key b.keyed ∨ a.payload = b.payload →
        a.captured = b.captured) := by
  constructor
  · rintro h (hkey | hpayload)
    · by_cases hfits : a.Fits ∧ b.Fits
      · have hfields := generate_task_key_inj hfits.1 hfits.2 hkey
        exact captured_of_keyed hfields (h.keyed hfits.1 hfits.2 hfields)
      · exact h.cut hfits hkey
    · have hsigned := payload_entries hpayload
      exact captured_of_signed hsigned (h.signed hsigned)
  · intro h
    refine ⟨fun ha hb hfields => ?_, fun _ hkey => h (.inl hkey), fun hsigned => ?_⟩
    · have hkey : generate_task_key a.keyed = generate_task_key b.keyed := by
        rw [generate_task_key_fits ha, generate_task_key_fits hb, hfields]
      rw [h (.inl hkey)]
    · have hpayload : a.payload = b.payload := by
        unfold Asked.payload build_capture_signature
        rw [signature_fields_eq, signature_fields_eq, hsigned]
      rw [h (.inr hpayload)]

/-! ## The requests of a run -/

/-- The request `a` is that of a capture whose task is active. -/
def ActiveAs (history : List Entry) (s : System) (a : Asked) : Prop :=
  ∃ c task, s.task c = some task ∧ is_active_status task.status = true ∧ AdmittedAs history c a

/-- The names of a task that requests are compared with. -/
def task_names (task : SRxCaptureTask) : CStr × CStr := (task.key, task.signature)

theorem task_names_constant : Constant task_names where
  lasting _ _ _ := rfl
  started _ _ _ _ := rfl
  finished _ _ _ _ _ := rfl
  failed _ _ _ := rfl
  stopped _ _ _ _ _ _ := rfl
  files _ _ := rfl
  assigned _ _ := rfl

/-- Every task has the names of the request it was admitted with. -/
def Recorded (history : List Entry) (s : System) : Prop :=
  ∀ c task, s.task c = some task →
    ∃ a : Asked, AdmittedAs history c a ∧ task_names task = (a.request.key, a.request.signature)

section Runs

variable {cfg : Config} {history : List Entry} {s s' : System}

/-- A new task has the names of its request. -/
theorem add_and_dispatch_names (cfg : Config) (request : StartRequest) (now : ℤ) (m : Manager)
    {task : SRxCaptureTask}
    (h : (add_and_dispatch cfg request now m).2.task_mgr.task m.next_capture_id = some task) :
    task_names task = (request.key, request.signature) := by
  have hself := add_task_self m.next_capture_id request.key request.signature request.sid
    (m.task_mgr.new_task (new_task_of m.next_capture_id request now)).1
    (m.task_mgr.new_task (new_task_of m.next_capture_id request now)).2
  unfold add_and_dispatch create_and_add_capture_task dispatch_task_to_worker at h
  by_cases hworkers : cfg.workers = []
  · simp only [if_pos hworkers] at h
    rw [← Option.some.inj (hself.symm.trans h)]
    rfl
  · simp only [if_neg hworkers] at h
    rw [update_task_task, if_pos rfl, CRxSafeTaskMgr.add_new_task, hself] at h
    rw [← Option.some.inj h]
    rfl

/-- A request that is handled is recorded when it is admitted. -/
theorem Recorded.started (h : Recorded history s) {event : Event} {start_msg : SRxStartCaptureMsg}
    {world : RequestWorld} {m : Manager} (htasks : m.task_mgr = s.manager.task_mgr)
    (hnext : m.next_capture_id = s.manager.next_capture_id)
    (hafter : s'.manager = (handle_start_capture cfg start_msg world m).2)
    (hasks : Entry.asks ⟨s, event, s'⟩ = some (world, start_msg)) :
    Recorded (history ++ [⟨s, event, s'⟩]) s' := by
  intro c task htask
  rw [System.task, hafter] at htask
  rcases handle_start_cases cfg start_msg world m with hrefused | ⟨request, hrequest, -, hadmitted⟩
  · rw [hrefused, htasks] at htask
    obtain ⟨a, ha, hnames⟩ := h c task htask
    exact ⟨a, ha.mono _, hnames⟩
  · rw [hadmitted] at htask hafter
    obtain ⟨hadded, -⟩ := add_and_dispatch_spec cfg request world.now m
    by_cases hc : c = m.next_capture_id
    · subst hc
      obtain ⟨a, rfl, rfl, rfl⟩ := prepare_start_asked hrequest
      refine ⟨a, ⟨⟨s, event, s'⟩, List.mem_append_right _ List.mem_cons_self, hasks, hnext.symm, ?_⟩,
        add_and_dispatch_names cfg a.request a.world.now m htask⟩
      exact (congrArg Manager.next_capture_id hafter).trans hadded.next
    · have hbefore := hadded.tasks c hc task htask
      rw [htasks] at hbefore
      obtain ⟨a, ha, hnames⟩ := h c task hbefore
      exact ⟨a, ha.mono _, hnames⟩

/-- A step that brings no new task and leaves the names alone. -/
theorem Recorded.kept (h : Recorded history s) {later : List Entry}
    (hkept : ∀ c task', s'.task c = some task' →
      ∃ task, s.task c = some task ∧ task_names task = task_names task') :
    Recorded (history ++ later) s' := by
  intro c task' htask'
  obtain ⟨task, htask, hsame⟩ := hkept c task' htask'
  obtain ⟨a, ha, hnames⟩ := h c task htask
  exact ⟨a, ha.mono _, hsame.symm.trans hnames⟩

theorem Step.recorded {event : Event} (h : Step cfg s event s') (hrecorded : Recorded history s) :
    Recorded (history ++ [⟨s, event, s'⟩]) s' := by
  cases h with
  | start start_msg world => exact hrecorded.started rfl rfl (launch_manager _ _ _) rfl
  | alert alert world now =>
    rcases handle_alert_cases cfg alert world now s.manager with hnone | ⟨start_msg, hmsg, -, hstart⟩
    · refine hrecorded.kept fun c task htask => ⟨task, ?_, rfl⟩
      rw [System.task, launch_manager, hnone] at htask
      exact htask
    · have hafter : (s.launch cfg (handle_sample_alert cfg alert world now s.manager)).manager
          = (handle_start_capture cfg start_msg world { s.manager with
              module_last_trigger :=
                s.manager.module_last_trigger.insert (module_of alert) now }).2 := by
        rw [launch_manager, hstart]
      refine Recorded.started hrecorded (by rfl) (by rfl) hafter ?_
      simp only [Entry.asks, hmsg, Option.map_some]
  | tick => exact hrecorded.kept fun c task htask => ⟨task, htask, rfl⟩
  | abort phase => exact hrecorded.kept fun c task htask => ⟨task, htask, rfl⟩
  | begin _ _ _ phase => exact hrecorded.kept fun c task htask => ⟨task, htask, rfl⟩
  | finish _ phase => exact hrecorded.kept fun c task htask => ⟨task, htask, rfl⟩
  | manager world takes =>
    exact hrecorded.kept fun c task' htask' => manager_handle_before task_names_constant htask'
  | filter running takes handled => exact hrecorded.kept fun c task htask => ⟨task, htask, rfl⟩

/-- **Every run** records its requests. -/
theorem Run.recorded (h : Run cfg history s) : Recorded history s := by
  induction h with
  | start =>
    intro c task htask
    cases htask
  | step run step ih => exact step.recorded ih

end Runs

/-! ## Duplicates -/

/-- A task that a request would duplicate is active, and has a name of it. -/
theorem duplicate_of_spec {mgr : CRxSafeTaskMgr} (hindexed : Indexed mgr.curr)
    {request : StartRequest} {task : SRxCaptureTask} (h : duplicate_of request mgr = some task) :
    ∃ c, mgr.task c = some task ∧ is_active_status task.status = true ∧
      (task.key = request.key ∨ task.signature = request.signature) := by
  unfold duplicate_of at h
  split at h
  · next found hfound =>
    obtain rfl := Option.some.inj h
    unfold CRxSafeTaskMgr.query_active_task_by_signature at hfound
    split at hfound
    · cases hfound
    · next other hquery =>
      split at hfound
      · next hactive =>
        obtain rfl := Option.some.inj hfound
        obtain ⟨c, hlook, htask⟩ := Option.bind_eq_some_iff.mp hquery
        obtain ⟨other, hother, -, hsignature, -⟩ := hindexed.signature _ c hlook
        obtain rfl := Option.some.inj (htask.symm.trans hother)
        exact ⟨c, htask, hactive, .inr hsignature⟩
      · cases hfound
  · split at h
    · next hactive =>
      rw [CRxSafeTaskMgr.is_key_active, h] at hactive
      obtain ⟨c, hlook, htask⟩ := Option.bind_eq_some_iff.mp h
      obtain ⟨other, hother, hkey⟩ := hindexed.key _ c hlook
      obtain rfl := Option.some.inj (htask.symm.trans hother)
      exact ⟨c, htask, hactive, .inl hkey⟩
    · cases h

/-- The hash of the payloads does not confuse `a` with the requests of active
tasks. -/
def CollisionFree (history : List Entry) (s : System) (a : Asked) : Prop :=
  ∀ b, ActiveAs history s b → b.request.signature = a.request.signature → b.payload = a.payload

/-- **A duplicate captures the same**, when the request is told apart from
those of the active tasks. -/
theorem duplicate_same_capture {cfg : Config} {history : List Entry} {s : System}
    (run : Run cfg history s) (a : Asked) (hash : CollisionFree history s a)
    (apart : ∀ b, ActiveAs history s b → ToldApart b a)
    (duplicate : (duplicate_of a.request s.manager.task_mgr).isSome = true) :
    ∃ b, ActiveAs history s b ∧ b.captured = a.captured := by
  obtain ⟨task, htask⟩ := Option.isSome_iff_exists.mp duplicate
  obtain ⟨c, hslot, hactive, hname⟩ := duplicate_of_spec run.indexed htask
  obtain ⟨b, hadmitted, hnames⟩ := run.recorded c task hslot
  have hb : ActiveAs history s b := ⟨c, task, hslot, hactive, hadmitted⟩
  obtain ⟨hkey, hsignature⟩ := Prod.mk.inj hnames
  refine ⟨b, hb, toldApart_iff.mp (apart b hb) ?_⟩
  rcases hname with hname | hname
  · exact .inl (hkey.symm.trans hname)
  · exact .inr (hash b hb (hsignature.symm.trans hname))

/-! ## Two requests -/

/-- Two requests on one interface, with different PDEF files. -/
def other_game_request : SRxStartCaptureMsg :=
  { iface := "eth0".toList, protocol_filter := "other.pdef".toList }

def asked_for (start_msg : SRxStartCaptureMsg) (h : start_msg.capture_mode = .INTERFACE) : Asked where
  world := {}
  start_msg := start_msg
  matched := []
  resolved := by
    unfold resolve_target_processes
    rw [h]

/-- The state after the first request. -/
theorem one_request (start_msg : SRxStartCaptureMsg) :
    Run one_of_each [⟨{}, .start start_msg {},
        System.launch one_of_each (handle_start_capture one_of_each start_msg {} {}) {}⟩]
      (System.launch one_of_each (handle_start_capture one_of_each start_msg {} {}) {}) :=
  .step .start (.start start_msg {})

/-- The request of every active task is the first. -/
theorem one_request_active {start_msg : SRxStartCaptureMsg} {s s' : System} {b : Asked}
    (hmode : start_msg.capture_mode = .INTERFACE)
    (h : ActiveAs [⟨s, .start start_msg {}, s'⟩] s' b) : b = asked_for start_msg hmode := by
  obtain ⟨c, task, -, -, entry, hmem, hasks, -⟩ := h
  rw [List.mem_singleton.mp hmem] at hasks
  obtain ⟨hworld, hmsg⟩ := Prod.mk.inj (Option.some.inj hasks)
  obtain ⟨world, msg, matched, resolved⟩ := b
  obtain rfl : {} = world := hworld
  obtain rfl : start_msg = msg := hmsg
  have hmatched : matched = [] := by
    unfold resolve_target_processes at resolved
    rw [hmode] at resolved
    exact (Option.some.inj resolved).symm
  subst hmatched
  rfl

/-- The first request asked again. -/
theorem duplicate_same_capture_again :
    ∃ history s, Run one_of_each history s ∧
      (duplicate_of (asked_for game_request rfl).request s.manager.task_mgr).isSome = true ∧
      ∃ b, ActiveAs history s b ∧ b.captured = (asked_for game_request rfl).captured := by
  have duplicate : (duplicate_of (asked_for game_request rfl).request
      (System.launch one_of_each (handle_start_capture one_of_each game_request {} {})
        {}).manager.task_mgr).isSome = true := by decide +kernel
  refine ⟨_, _, one_request game_request, duplicate,
    duplicate_same_capture (one_request game_request) _ ?_ ?_ duplicate⟩
  · intro b hb _
    rw [one_request_active rfl hb]
  · intro b hb
    rw [one_request_active rfl hb]
    exact toldApart_iff.mpr fun _ => rfl

/-- A second request with another PDEF file is answered as a duplicate. -/
theorem other_filter_refused :
    ∃ history s a, Run one_of_each history s ∧ CollisionFree history s a ∧
      (duplicate_of a.request s.manager.task_mgr).isSome = true ∧
      ∀ b, ActiveAs history s b → b.captured ≠ a.captured := by
  refine ⟨_, _, asked_for other_game_request rfl, one_request game_request, ?_, by decide +kernel, ?_⟩
  · intro b hb hsame
    rw [one_request_active rfl hb] at hsame
    exact absurd hsame (by decide +kernel)
  · intro b hb
    rw [one_request_active rfl hb]
    decide +kernel

end RxNetCap.Capture
