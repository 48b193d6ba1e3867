/-
The requests that captures were admitted with.

A request goes through `prepare_start` before it is admitted, and what comes of
that, the task, the start message and all the rest, is a function of the
request, of what it met and of the processes it named. A worker has the request
of its capture in the start message (`Run.underway`).
-/
import RxNetCap.Capture.System

set_option autoImplicit false

namespace RxNetCap.Capture

open RxNetCap.Mailbox RxNetCap.Pdef

/-! ## Requests with their processes -/

/-- A request that names processes which are there. -/
structure Asked where
  world : RequestWorld
  start_msg : SRxStartCaptureMsg
  matched : List SProcessInfo
  resolved : resolve_target_processes world start_msg = some matched

namespace Asked

variable (a : Asked)

/-- The request that the key is built from. -/
def keyed : SRxStartCaptureMsg := infer_port (auto_filter a.matched a.start_msg)

def full : SRxStartCaptureMsg := with_defaults a.world a.keyed

def config : CaptureConfigSnapshot := config_for a.world a.full

def spec : CaptureSpec := capture_spec_of a.full a.matched a.config

/-- The text that the signature is the hash of. -/
def payload : CStr := build_capture_signature a.spec a.config a.matched

def request : StartRequest where
  start_msg := a.full
  key := generate_task_key a.keyed
  signature := hex16 (fnv a.payload)
  sid := hex16 (fnv a.payload) ++ a.world.timestamp
  spec := a.spec
  config := a.config

theorem prepared : prepare_start a.world a.start_msg = some a.request := by
  rw [prepare_start, a.resolved]
  rfl

end Asked

theorem prepare_start_asked {world : RequestWorld} {start_msg : SRxStartCaptureMsg}
    {request : StartRequest} (h : prepare_start world start_msg = some request) :
    ∃ a : Asked, a.world = world ∧ a.start_msg = start_msg ∧ a.request = request := by
  obtain ⟨matched, hmatched, -⟩ := Option.bind_eq_some_iff.mp h
  let a : Asked := ⟨world, start_msg, matched, hmatched⟩
  exact ⟨a, rfl, rfl, Option.some.inj (a.prepared.symm.trans h)⟩

/-! ## The requests of a run -/

/-- The request that an entry is about. -/
def Entry.asks (entry : Entry) : Option (RequestWorld × SRxStartCaptureMsg) :=
  match entry.event with
  | .start start_msg world => some (world, start_msg)
  | .alert alert world _ =>
    (prepare_capture_from_sample alert world.strategy).map fun start_msg => (world, start_msg)
  | _ => none

/-- Capture `c` was admitted with the request `a`. -/
def AdmittedAs (history : List Entry) (c : ℤ) (a : Asked) : Prop :=
  ∃ entry ∈ history, entry.asks = some (a.world, a.start_msg) ∧
    entry.before.manager.next_capture_id = c ∧ entry.after.manager.next_capture_id = c + 1

theorem AdmittedAs.mono {history : List Entry} {c : ℤ} {a : Asked} (h : AdmittedAs history c a)
    (later : List Entry) : AdmittedAs (history ++ later) c a := by
  obtain ⟨entry, hmem, hentry⟩ := h
  exact ⟨entry, List.mem_append_left _ hmem, hentry⟩

/-! ## Requests of workers -/

/-- The start message that a worker has. -/
def Phase.start_msg? : Phase → Option SRxCaptureStartMsgV2
  | .dispatched _ start_msg => some start_msg
  | .capturing _ start_msg => some start_msg
  | .idle | .over => none

/-- The captures that workers have are those of admitted requests. -/
def Underway (history : List Entry) (s : System) : Prop :=
  ∀ c start_msg, (s.phase c).start_msg? = some start_msg →
    ∃ a : Asked, AdmittedAs history c a ∧ start_msg.spec = a.spec ∧ start_msg.config = a.config

section Runs

variable {cfg : Config} {history : List Entry} {s s' : System}

/-- A launch leaves the phase of a capture alone, or the worker gets a start
message. -/
theorem launch_phase (cfg : Config) (outcome : Option Dispatch × Manager) (s : System) (c : ℤ) :
    (s.launch cfg outcome).phase c = s.phase c ∨
    ∃ worker start_msg, outcome.1 = some (worker, start_msg) ∧ start_msg.capture_id = c ∧
      (s.launch cfg outcome).phase c = .dispatched worker start_msg := by
  rcases outcome with ⟨_ | ⟨worker, start_msg⟩, m⟩
  · exact .inl rfl
  · simp only [System.launch]
    split
    · by_cases hc : c = start_msg.capture_id
      · right
        refine ⟨worker, start_msg, rfl, hc.symm, ?_⟩
        rw [hc, Function.update_self]
      · left
        rw [Function.update_of_ne hc]
    · exact .inl rfl

/-- A request that is handled leads to its own start message, if to any. -/
theorem Underway.started (h : Underway history s) {event : Event} {start_msg : SRxStartCaptureMsg}
    {world : RequestWorld} {m : Manager} (hnext : m.next_capture_id = s.manager.next_capture_id)
    (hafter : s' = s.launch cfg (handle_start_capture cfg start_msg world m))
    (hasks : Entry.asks ⟨s, event, s'⟩ = some (world, start_msg)) :
    Underway (history ++ [⟨s, event, s'⟩]) s' := by
  intro c msg hmsg
  rcases launch_phase cfg (handle_start_capture cfg start_msg world m) s c with
    hsame | ⟨worker, sent, hsent, hcapture, hphase⟩
  · rw [hafter, hsame] at hmsg
    obtain ⟨a, ha, hrequest⟩ := h c msg hmsg
    exact ⟨a, ha.mono _, hrequest⟩
  · rw [hafter, hphase] at hmsg
    obtain rfl : sent = msg := Option.some.inj hmsg
    rcases handle_start_cases cfg start_msg world m with hrefused | ⟨request, hrequest, -, hadmitted⟩
    · rw [hrefused] at hsent
      cases hsent
    · obtain ⟨a, rfl, rfl, rfl⟩ := prepare_start_asked hrequest
      obtain ⟨hadded, hfor⟩ := add_and_dispatch_spec cfg a.request a.world.now m
      rw [hadmitted] at hsent
      obtain ⟨hid, -, hspec, hconfig⟩ := hfor.dispatched worker sent hsent
      refine ⟨a, ⟨⟨s, event, s'⟩, List.mem_append_right _ List.mem_cons_self, hasks, ?_, ?_⟩,
        hspec, hconfig⟩
      · exact hnext.symm.trans (hid.symm.trans hcapture)
      · rw [hafter, launch_manager, hadmitted, hadded.next, ← hid, hcapture]

/-- A step that gives no worker a start message it had not. -/
theorem Underway.kept (h : Underway history s) {later : List Entry}
    (hkept : ∀ c start_msg, (s'.phase c).start_msg? = some start_msg →
      (s.phase c).start_msg? = some start_msg) : Underway (history ++ later) s' := by
  intro c start_msg hmsg
  obtain ⟨a, ha, hrequest⟩ := h c start_msg (hkept c start_msg hmsg)
  exact ⟨a, ha.mono _, hrequest⟩

/-- A worker that goes on keeps its start message at most. -/
theorem post_start_msg {c c' : ℤ} {sent : Mail} {phase : Phase} {start_msg : SRxCaptureStartMsgV2}
    (hphase : ∀ start_msg, phase.start_msg? = some start_msg →
      (s.phase c).start_msg? = some start_msg)
    (h : ((s.post c sent phase).phase c').start_msg? = some start_msg) :
    (s.phase c').start_msg? = some start_msg := by
  by_cases hc : c' = c
  · rw [hc, phase_post] at h
    rw [hc]
    exact hphase start_msg h
  · have hother : (s.post c sent phase).phase c' = s.phase c' := Function.update_of_ne hc _ _
    rw [hother] at h
    exact h

theorem Step.underway {event : Event} (h : Step cfg s event s') (hunderway : Underway history s) :
    Underway (history ++ [⟨s, event, s'⟩]) s' := by
  cases h with
  | start start_msg world => exact hunderway.started rfl rfl rfl
  | alert alert world now =>
    rcases handle_alert_cases cfg alert world now s.manager with hnone | ⟨start_msg, hmsg, -, hstart⟩
    · refine hunderway.kept fun c start_msg hmsg => ?_
      rw [hnone] at hmsg
      exact hmsg
    · have hafter : s.launch cfg (handle_sample_alert cfg alert world now s.manager)
          = s.launch cfg (handle_start_capture cfg start_msg world { s.manager with
              module_last_trigger :=
                s.manager.module_last_trigger.insert (module_of alert) now }) := by
        rw [hstart]
      refine Underway.started hunderway (by rfl) hafter ?_
      simp only [Entry.asks, hmsg, Option.map_some]
  | tick => exact hunderway.kept fun _ _ hmsg => hmsg
  | abort phase => exact hunderway.kept fun _ _ => post_start_msg fun _ hmsg => by cases hmsg
  | begin start_ts capture_pid output_file phase =>
    refine hunderway.kept fun _ _ => post_start_msg fun _ hmsg => ?_
    rw [phase]
    exact hmsg
  | finish job phase => exact hunderway.kept fun _ _ => post_start_msg fun _ hmsg => by cases hmsg
  | manager world takes => exact hunderway.kept fun _ _ hmsg => hmsg
  | filter running takes handled => exact hunderway.kept fun _ _ hmsg => hmsg

/-- **Every run** gives workers the captures of admitted requests. -/
theorem Run.underway (h : Run cfg history s) : Underway history s := by
  induction h with
  | start =>
    intro c start_msg hmsg
    cases hmsg
  | step run step ih => exact step.underway ih

end Runs

end RxNetCap.Capture
