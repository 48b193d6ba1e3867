/-
Manager, workers and filter threads together.

A step is one handler call: the manager takes a request or an alert, or it or a
filter thread takes the next letter of some sender, or a worker gets to the
next messages it sends. They take turns in any order, so letters of different
senders are taken in any order too. A step whose handler would read outside a
buffer is no step.

What a worker does with a start message is followed by `Phase`: it runs
`execute_capture` once, and sends a failure, or that the capture has started
and then its result.

The cleanup thread only takes what is sent to it, so its letters stay where
they are.
-/
import RxNetCap.Capture.Manager

set_option autoImplicit false

namespace RxNetCap.Capture

open RxNetCap.Mailbox RxNetCap.Pdef

/-! ## States -/

/-- How far the worker of a capture is. -/
inductive Phase where
  | idle
  | dispatched (worker : ℕ) (start_msg : SRxCaptureStartMsgV2)
  | capturing (worker : ℕ) (start_msg : SRxCaptureStartMsgV2)
  | over
  deriving DecidableEq, Repr

structure System where
  manager : Manager := {}
  letters : Mail := []
  phase : ℤ → Phase := fun _ => .idle

/-- The manager has handled a request; a worker that runs gets the start
message. -/
def System.launch (cfg : Config) (outcome : Option Dispatch × Manager) (s : System) : System :=
  match outcome with
  | (none, m) => { s with manager := m }
  | (some (worker, start_msg), m) =>
    { s with
      manager := m
      phase :=
        if worker ∈ cfg.threads then
          Function.update s.phase start_msg.capture_id (.dispatched worker start_msg)
        else s.phase }

@[simp] theorem launch_manager (cfg : Config) (outcome : Option Dispatch × Manager) (s : System) :
    (s.launch cfg outcome).manager = outcome.2 := by
  rcases outcome with ⟨_ | ⟨worker, start_msg⟩, m⟩
  · rfl
  · rfl

@[simp] theorem launch_letters (cfg : Config) (outcome : Option Dispatch × Manager) (s : System) :
    (s.launch cfg outcome).letters = s.letters := by
  rcases outcome with ⟨_ | ⟨worker, start_msg⟩, m⟩
  · rfl
  · rfl

/-- The worker of `capture_id` posts `sent` and goes on to `phase`. -/
def System.post (s : System) (capture_id : ℤ) (sent : Mail) (phase : Phase) : System :=
  { s with
    letters := s.letters ++ sent
    phase := Function.update s.phase capture_id phase }

theorem phase_post {s : System} {c : ℤ} (sent : Mail) (phase : Phase) :
    (s.post c sent phase).phase c = phase := Function.update_self _ _ _

/-- The manager has handled a letter and left `rest`. -/
def System.managed (cfg : Config) (msg : Msg) (world : ManagerWorld) (rest : Mail) (s : System) :
    System :=
  { s with
    manager := (manager_handle_msg cfg msg world s.manager).1
    letters := rest ++ (manager_handle_msg cfg msg world s.manager).2 }

/-! ## Steps -/

inductive Event where
  | start (start_msg : SRxStartCaptureMsg) (world : RequestWorld)
  | alert (alert : SRxSampleMsg) (world : RequestWorld) (now : ℤ)
  | tick
  | abort (capture_id : ℤ)
  | begin (capture_id start_ts capture_pid : ℤ) (output_file : CStr)
  | finish (capture_id : ℤ) (job : JobResult)
  | manager (sender : ℕ) (msg : Msg) (world : ManagerWorld)
  | filter (thread sender : ℕ) (msg : Msg) (world : FilterWorld)

inductive Step (cfg : Config) : System → Event → System → Prop where
  | start {s : System} (start_msg : SRxStartCaptureMsg) (world : RequestWorld) :
      Step cfg s (.start start_msg world)
        (s.launch cfg (handle_start_capture cfg start_msg world s.manager))
  | alert {s : System} (alert : SRxSampleMsg) (world : RequestWorld) (now : ℤ) :
      Step cfg s (.alert alert world now)
        (s.launch cfg (handle_sample_alert cfg alert world now s.manager))
  -- `run_process` and the queue timer delete what updates left behind
  | tick {s : System} :
      Step cfg s .tick
        { s with
          manager := { s.manager with
            task_mgr := s.manager.task_mgr.cleanup_pending_deletes } }
  | abort {s : System} {c : ℤ} {worker : ℕ} {start_msg : SRxCaptureStartMsgV2}
      (phase : s.phase c = .dispatched worker start_msg) :
      Step cfg s (.abort c)
        (s.post c (send_failure cfg.threads worker start_msg .START_TCPDUMP_FAILED
          "pcap_prepare_failed".toList) .over)
  | begin {s : System} {c : ℤ} {worker : ℕ} {start_msg : SRxCaptureStartMsgV2}
      (start_ts capture_pid : ℤ) (output_file : CStr)
      (phase : s.phase c = .dispatched worker start_msg) :
      Step cfg s (.begin c start_ts capture_pid output_file)
        (s.post c (send_started cfg.threads worker start_msg start_ts capture_pid output_file)
          (.capturing worker start_msg))
  | finish {s : System} {c : ℤ} {worker : ℕ} {start_msg : SRxCaptureStartMsgV2}
      (job : JobResult) (phase : s.phase c = .capturing worker start_msg) :
      Step cfg s (.finish c job)
        (s.post c (send_result cfg.threads worker start_msg job) .over)
  | manager {s : System} {sender : ℕ} {msg : Msg} {rest : Mail} (world : ManagerWorld)
      (takes : Takes ⟨sender, cfg.manager⟩ msg s.letters rest) :
      Step cfg s (.manager sender msg world) (s.managed cfg msg world rest)
  | filter {s : System} {thread sender : ℕ} {msg : Msg} {rest : Mail} {world : FilterWorld}
      {result : Filtering} (running : some thread ∈ cfg.filter_threads)
      (takes : Takes ⟨sender, thread⟩ msg s.letters rest)
      (handled : filter_handle_msg cfg.threads thread msg world = some result) :
      Step cfg s (.filter thread sender msg world) { s with letters := rest ++ result.sent }

/-- A step that was taken. -/
structure Entry where
  before : System
  event : Event
  after : System

/-- The runs from the start of the process: the steps taken, and the state
after the last. -/
inductive Run (cfg : Config) : List Entry → System → Prop where
  | start : Run cfg [] {}
  | step {history : List Entry} {s s' : System} {event : Event}
      (run : Run cfg history s) (step : Step cfg s event s') :
      Run cfg (history ++ [⟨s, event, s'⟩]) s'

/-- Every entry of a run is a step, from a state that the run before it
reaches. -/
theorem Run.entry {cfg : Config} {history : List Entry} {s : System} (h : Run cfg history s)
    {front back : List Entry} {entry : Entry} (hsplit : history = front ++ entry :: back) :
    Run cfg front entry.before ∧ Step cfg entry.before entry.event entry.after := by
  induction h generalizing back with
  | start => simp at hsplit
  | @step history s s' event run step ih =>
    rcases List.eq_nil_or_concat back with rfl | ⟨back', last, rfl⟩
    · obtain ⟨rfl, hentry⟩ := List.append_inj' hsplit rfl
      obtain rfl := (List.cons.inj hentry).1
      exact ⟨run, step⟩
    · have hsplit' : history ++ [⟨s, event, s'⟩] = (front ++ entry :: back') ++ [last] := by
        rw [hsplit, List.concat_eq_append]
        simp
      exact ih (List.append_inj' hsplit' rfl).1

/-- What holds after one entry of a run and is kept by the entries behind it
holds at the end. -/
theorem Run.after {cfg : Config} {Q : System → Prop} {history : List Entry} {s : System}
    (h : Run cfg history s) {front back : List Entry} {entry : Entry}
    (hsplit : history = front ++ entry :: back) (start : Q entry.after)
    (next : ∀ later ∈ back, ∀ past, Run cfg past later.before →
      Step cfg later.before later.event later.after → Q later.before → Q later.after) : Q s := by
  induction h generalizing back with
  | start => simp at hsplit
  | @step history s s' event run step ih =>
    rcases List.eq_nil_or_concat back with rfl | ⟨back', last, rfl⟩
    · obtain ⟨-, hentry⟩ := List.append_inj' hsplit rfl
      obtain rfl := (List.cons.inj hentry).1
      exact start
    · rw [List.concat_eq_append] at hsplit next
      have hsplit' : history ++ [⟨s, event, s'⟩] = (front ++ entry :: back') ++ [last] := by
        rw [hsplit]
        simp
      obtain ⟨hhistory, hlast⟩ := List.append_inj' hsplit' rfl
      obtain rfl := (List.cons.inj hlast).1
      have hbefore : Q s := ih hhistory fun later hmem =>
        next later (List.mem_append_left _ hmem)
      exact next ⟨s, event, s'⟩ (List.mem_append_right _ (by simp)) history run step hbefore

theorem Run.mem {cfg : Config} {history : List Entry} {s : System} (h : Run cfg history s)
    {entry : Entry} (hmem : entry ∈ history) : Step cfg entry.before entry.event entry.after := by
  obtain ⟨front, back, hsplit⟩ := List.append_of_mem hmem
  exact (h.entry hsplit).2

/-- What every step keeps holds throughout a run. -/
theorem Run.induction {cfg : Config} {P : System → Prop} (init : P {})
    (step : ∀ {s s' event}, Step cfg s event s' → P s → P s') {history : List Entry} {s : System}
    (h : Run cfg history s) : P s := by
  induction h with
  | start => exact init
  | step run next ih => exact step next ih

/-! ## The progress of one capture -/

/-- The letters that report on a capture. -/
def reports (c : ℤ) (s : System) : Mail := about (Msg.is_about c) s.letters

/-- The captures that use a file. -/
def active (s : System) (pdef_path : CStr) : Finset ℤ :=
  active_in s.manager.pdef_usage_map pdef_path

/-- The task of a capture. -/
def System.task (s : System) (c : ℤ) : Option SRxCaptureTask := s.manager.task_mgr.task c

/-- What one capture can see of a step that is about another. -/
structure SameView (c : ℤ) (s s' : System) : Prop where
  phase : s'.phase c = s.phase c
  reports : reports c s' = reports c s
  noticed : noticed c s'.manager = noticed c s.manager
  active : ∀ p, c ∈ active s' p ↔ c ∈ active s p
  tasks : ∀ task, s'.task c = some task → s.task c = some task

theorem is_about_iff {c : ℤ} {msg : Msg} : msg.is_about c = true ↔ msg.capture? = some c := by
  rw [Msg.is_about, decide_eq_true_eq]

theorem not_about {c c' : ℤ} {msg : Msg} (h : msg.capture? = some c) (hc : c' ≠ c) :
    msg.is_about c' = false := by
  rw [Msg.is_about, h, decide_eq_false_iff_not]
  intro hsome
  exact hc (Option.some.inj hsome).symm

theorem not_about_none {msg : Msg} (h : msg.capture? = none) (c : ℤ) : msg.is_about c = false := by
  rw [Msg.is_about, h]
  rfl

/-- Letters that all report on `c`, if on any capture. -/
def AllAbout (c : ℤ) (sent : Mail) : Prop :=
  ∀ letter ∈ sent, ∀ c', letter.2.capture? = some c' → c' = c

theorem AllAbout.about_other {c c' : ℤ} {sent : Mail} (h : AllAbout c sent) (hc : c' ≠ c) :
    about (Msg.is_about c') sent = [] := by
  apply about_eq_nil
  intro letter hmem
  cases hcapture : letter.2.capture? with
  | none => exact not_about_none hcapture c'
  | some c'' =>
    rw [← h letter hmem c'' hcapture] at hc
    exact not_about hcapture hc

theorem AllAbout.nil (c : ℤ) : AllAbout c [] := by
  intro letter hmem
  simp at hmem

theorem AllAbout.append {c : ℤ} {sent sent' : Mail} (h : AllAbout c sent)
    (h' : AllAbout c sent') : AllAbout c (sent ++ sent') := by
  intro letter hmem
  rcases List.mem_append.mp hmem with hmem | hmem
  · exact h letter hmem
  · exact h' letter hmem

theorem AllAbout.put {c : ℤ} {msg : Msg} (h : ∀ c', msg.capture? = some c' → c' = c)
    (threads : List ℕ) (sender target : ℕ) :
    AllAbout c (put_obj_msg threads sender target msg) := by
  intro letter hmem
  rw [mem_put_obj_msg hmem]
  exact h

theorem capture_unique {c : ℤ} {msg : Msg} (h : msg.capture? = some c) :
    ∀ c', msg.capture? = some c' → c' = c := by
  intro c' hc'
  rw [h] at hc'
  exact (Option.some.inj hc').symm

theorem capture_none {c : ℤ} {msg : Msg} (h : msg.capture? = none) :
    ∀ c', msg.capture? = some c' → c' = c := by
  intro c' hc'
  rw [h] at hc'
  cases hc'

/-- Letters that report on `c`, every one. -/
def Reporting (c : ℤ) (sent : Mail) : Prop := ∀ letter ∈ sent, letter.2.capture? = some c

theorem Reporting.allAbout {c : ℤ} {sent : Mail} (h : Reporting c sent) : AllAbout c sent :=
  fun letter hmem => capture_unique (h letter hmem)

theorem Reporting.nil (c : ℤ) : Reporting c [] := by
  intro letter hmem
  simp at hmem

theorem Reporting.worker {c : ℤ} {msg : Msg} (h : msg.capture? = some c) (threads : List ℕ)
    (worker : ℕ) (start_msg : SRxCaptureStartMsgV2) :
    Reporting c (send_to_manager threads worker start_msg msg) := by
  intro letter hmem
  unfold send_to_manager at hmem
  split at hmem
  · simp at hmem
  · rw [mem_put_obj_msg hmem]
    exact h

/-- Everything a worker sends reports on its capture. -/
theorem Reporting.result (threads : List ℕ) (worker : ℕ) (start_msg : SRxCaptureStartMsgV2)
    (job : JobResult) :
    Reporting start_msg.capture_id (send_result threads worker start_msg job) := by
  unfold send_result
  split
  · exact Reporting.worker rfl threads worker start_msg
  · intro letter hmem
    rcases List.mem_append.mp hmem with hmem | hmem
    · unfold send_file_ready at hmem
      split at hmem
      · simp at hmem
      · exact Reporting.worker rfl threads worker start_msg letter hmem
    · exact Reporting.worker rfl threads worker start_msg letter hmem

/-- Everything the manager sends on reports on the capture of the message, if
on any. -/
theorem AllAbout.managed (cfg : Config) {msg : Msg} {c : ℤ} (hmsg : msg.capture? = some c)
    (world : ManagerWorld) (m : Manager) : AllAbout c (manager_handle_msg cfg msg world m).2 := by
  cases msg with
  | raw_file raw =>
    obtain rfl : raw.capture_id = c := Option.some.inj hmsg
    simp only [manager_handle_msg, handle_capture_raw_file_v2]
    split
    · exact AllAbout.nil _
    · split
      · exact AllAbout.nil _
      · exact AllAbout.put (capture_unique rfl) _ _ _
  | file_ready ready =>
    simp only [manager_handle_msg, handle_capture_file_ready_v2]
    split
    · exact AllAbout.nil _
    · split
      · exact AllAbout.nil _
      · exact AllAbout.put (capture_none rfl) _ _ _
  | started _ => exact AllAbout.nil c
  | finished _ => exact AllAbout.nil c
  | failed _ => exact AllAbout.nil c
  | filtered_file _ => exact AllAbout.nil c
  | endian_detected _ => exact AllAbout.nil c
  | file_enqueue _ => exact AllAbout.nil c

theorem AllAbout.filtered (threads : List ℕ) (self : ℕ) (raw_msg : SRxCaptureRawFileMsgV2)
    (total filtered file_size : ℕ) (pdef : ProtocolDef) :
    AllAbout raw_msg.capture_id
      (send_filtered threads self raw_msg total filtered file_size pdef) := by
  apply AllAbout.append
  · exact AllAbout.put (capture_unique rfl) _ _ _
  · split
    · exact AllAbout.put (capture_none rfl) _ _ _
    · exact AllAbout.nil _

/-- What a filter thread can do with a raw file: nothing, or parse the PDEF,
go through the packets and report. -/
theorem handle_raw_file_sends {threads : List ℕ} {self : ℕ} {raw_msg : SRxCaptureRawFileMsgV2}
    {world : FilterWorld} {result : Filtering}
    (h : handle_raw_file threads self raw_msg world = some result) :
    result.sent = [] ∨ ∃ pdef packets kept pdef',
      load_pdef raw_msg world = .accepted pdef ∧ world.raw_pcap = some packets ∧
      filter_packets packets pdef = some (kept, pdef') ∧
      result.sent = send_filtered threads self raw_msg packets.length kept.length
        world.file_size pdef' := by
  unfold handle_raw_file at h
  split at h
  · exact .inl (by rw [← Option.some.inj h])
  · split at h
    · cases h
    · exact .inl (by rw [← Option.some.inj h])
    · next pdef hpdef =>
      split at h
      · exact .inl (by rw [← Option.some.inj h])
      · next packets hpackets =>
        split at h
        · exact .inl (by rw [← Option.some.inj h])
        · obtain ⟨⟨kept, pdef'⟩, hfilter, hresult⟩ := Option.bind_eq_some_iff.mp h
          rw [← Option.some.inj hresult]
          exact .inr ⟨pdef, packets, kept, pdef', hpdef, hpackets, hfilter, rfl⟩

/-- A filter thread leaves every other message alone. -/
theorem filter_handle_cases {threads : List ℕ} {self : ℕ} {msg : Msg} {world : FilterWorld}
    {result : Filtering} (h : filter_handle_msg threads self msg world = some result) :
    result.sent = [] ∨ ∃ raw_msg, msg = .raw_file raw_msg ∧
      handle_raw_file threads self raw_msg world = some result := by
  cases msg with
  | raw_file raw_msg => exact .inr ⟨raw_msg, rfl, h⟩
  | _ => exact .inl (by rw [← Option.some.inj h])

theorem AllAbout.filter {threads : List ℕ} {self : ℕ} {msg : Msg} {c : ℤ}
    (hmsg : msg.capture? = some c) {world : FilterWorld} {result : Filtering}
    (h : filter_handle_msg threads self msg world = some result) : AllAbout c result.sent := by
  rcases filter_handle_cases h with hsent | ⟨raw, rfl, hraw⟩
  · rw [hsent]
    exact AllAbout.nil c
  · obtain rfl : raw.capture_id = c := Option.some.inj hmsg
    rcases handle_raw_file_sends hraw with hsent | ⟨pdef, packets, kept, pdef', -, -, -, hsent⟩
    · rw [hsent]
      exact AllAbout.nil _
    · rw [hsent]
      exact AllAbout.filtered _ _ _ _ _ _ _

end RxNetCap.Capture
