/-
The system as a program: a run is what some list of turns computes.

A `Turn` says who is to act, and for a thread that takes a letter, whose letter
it takes; the letter itself is the first one on its way along that route.
-/
import RxNetCap.Capture.System

set_option autoImplicit false

namespace RxNetCap.Capture

open RxNetCap.Mailbox RxNetCap.Pdef RxNetCap.Runtime

inductive Turn where
  | start (start_msg : SRxStartCaptureMsg) (world : RequestWorld)
  | alert (alert : SRxSampleMsg) (world : RequestWorld) (now : ℤ)
  | tick
  | abort (capture_id : ℤ)
  | begin (capture_id start_ts capture_pid : ℤ) (output_file : CStr)
  | finish (capture_id : ℤ) (job : JobResult)
  | manager (sender : ℕ) (world : ManagerWorld)
  | filter (thread sender : ℕ) (world : FilterWorld)

/-- What happens in a turn and the state after it; `none` when it is not the
turn of anyone. -/
def System.turn (cfg : Config) (s : System) : Turn → Option (Event × System)
  | .start start_msg world =>
    some (.start start_msg world,
      s.launch cfg (handle_start_capture cfg start_msg world s.manager))
  | .alert alert world now =>
    some (.alert alert world now,
      s.launch cfg (handle_sample_alert cfg alert world now s.manager))
  | .tick =>
    some (.tick,
      { s with
        manager := { s.manager with
          task_mgr := s.manager.task_mgr.cleanup_pending_deletes } })
  | .abort c =>
    match s.phase c with
    | .dispatched worker start_msg =>
      some (.abort c, s.post c (send_failure cfg.threads worker start_msg .START_TCPDUMP_FAILED
        "pcap_prepare_failed".toList) .over)
    | _ => none
  | .begin c start_ts capture_pid output_file =>
    match s.phase c with
    | .dispatched worker start_msg =>
      some (.begin c start_ts capture_pid output_file,
        s.post c (send_started cfg.threads worker start_msg start_ts capture_pid output_file)
          (.capturing worker start_msg))
    | _ => none
  | .finish c job =>
    match s.phase c with
    | .capturing worker start_msg =>
      some (.finish c job, s.post c (send_result cfg.threads worker start_msg job) .over)
    | _ => none
  | .manager sender world => do
    let (msg, rest) ← take ⟨sender, cfg.manager⟩ s.letters
    return (.manager sender msg world, s.managed cfg msg world rest)
  | .filter thread sender world => do
    if some thread ∈ cfg.filter_threads then
      let (msg, rest) ← take ⟨sender, thread⟩ s.letters
      let result ← filter_handle_msg cfg.threads thread msg world
      return (.filter thread sender msg world, { s with letters := rest ++ result.sent })
    else none

/-- The entries and the state that a list of turns leads to, from `s` with the
entries `history`. -/
def replay_from (cfg : Config) (history : List Entry) (s : System) :
    List Turn → Option (List Entry × System)
  | [] => some (history, s)
  | turn :: turns =>
    match s.turn cfg turn with
    | none => none
    | some (event, s') => replay_from cfg (history ++ [⟨s, event, s'⟩]) s' turns

def replay (cfg : Config) (turns : List Turn) : Option (List Entry × System) :=
  replay_from cfg [] {} turns

section Turns

variable {cfg : Config} {s s' : System} {event : Event} {history : List Entry}

/-- A turn is a step. -/
theorem turn_step {turn : Turn} (h : s.turn cfg turn = some (event, s')) :
    Step cfg s event s' := by
  cases turn with
  | start start_msg world =>
    obtain ⟨rfl, rfl⟩ := Prod.mk.inj (Option.some.inj h)
    exact .start start_msg world
  | alert alert world now =>
    obtain ⟨rfl, rfl⟩ := Prod.mk.inj (Option.some.inj h)
    exact .alert alert world now
  | tick =>
    obtain ⟨rfl, rfl⟩ := Prod.mk.inj (Option.some.inj h)
    exact .tick
  | abort c =>
    rw [System.turn] at h
    split at h
    · next phase =>
      obtain ⟨rfl, rfl⟩ := Prod.mk.inj (Option.some.inj h)
      exact .abort phase
    · cases h
  | begin c start_ts capture_pid output_file =>
    rw [System.turn] at h
    split at h
    · next phase =>
      obtain ⟨rfl, rfl⟩ := Prod.mk.inj (Option.some.inj h)
      exact .begin start_ts capture_pid output_file phase
    · cases h
  | finish c job =>
    rw [System.turn] at h
    split at h
    · next phase =>
      obtain ⟨rfl, rfl⟩ := Prod.mk.inj (Option.some.inj h)
      exact .finish job phase
    · cases h
  | manager sender world =>
    obtain ⟨⟨msg, rest⟩, htake, hresult⟩ := Option.bind_eq_some_iff.mp h
    obtain ⟨rfl, rfl⟩ := Prod.mk.inj (Option.some.inj hresult)
    exact .manager world (take_eq_some.mp htake)
  | filter thread sender world =>
    rw [System.turn] at h
    split at h
    · next running =>
      obtain ⟨⟨msg, rest⟩, htake, h⟩ := Option.bind_eq_some_iff.mp h
      obtain ⟨result, handled, hresult⟩ := Option.bind_eq_some_iff.mp h
      obtain ⟨rfl, rfl⟩ := Prod.mk.inj (Option.some.inj hresult)
      exact .filter running (take_eq_some.mp htake) handled
    · cases h

/-- And a step is a turn. -/
theorem step_turn (h : Step cfg s event s') : ∃ turn, s.turn cfg turn = some (event, s') := by
  cases h with
  | start start_msg world => exact ⟨.start start_msg world, rfl⟩
  | alert alert world now => exact ⟨.alert alert world now, rfl⟩
  | tick => exact ⟨.tick, rfl⟩
  | @abort c worker start_msg phase =>
    refine ⟨.abort c, ?_⟩
    rw [System.turn, phase]
  | @begin c worker start_msg start_ts capture_pid output_file phase =>
    refine ⟨.begin c start_ts capture_pid output_file, ?_⟩
    rw [System.turn, phase]
  | @finish c worker start_msg job phase =>
    refine ⟨.finish c job, ?_⟩
    rw [System.turn, phase]
  | @manager sender msg rest world takes =>
    refine ⟨.manager sender world, ?_⟩
    rw [System.turn, take_eq_some.mpr takes]
    rfl
  | @filter thread sender msg rest world result running takes handled =>
    refine ⟨.filter thread sender world, ?_⟩
    rw [System.turn, if_pos running, take_eq_some.mpr takes]
    exact congrArg (fun taken => Option.bind taken _) handled

theorem replay_from_append (turns more : List Turn) (history : List Entry) (s : System) :
    replay_from cfg history s (turns ++ more)
      = (replay_from cfg history s turns).bind fun reached =>
          replay_from cfg reached.1 reached.2 more := by
  induction turns generalizing history s with
  | nil => rfl
  | cons turn turns ih =>
    rw [List.cons_append, replay_from, replay_from]
    split
    · rfl
    · exact ih _ _

/-- **Runs are computed.** The runs are what lists of turns lead to. -/
theorem run_iff_replay :
    Run cfg history s ↔ ∃ turns, replay cfg turns = some (history, s) := by
  constructor
  · intro h
    induction h with
    | start => exact ⟨[], rfl⟩
    | @step history s s' event run step ih =>
      obtain ⟨turns, hturns⟩ := ih
      obtain ⟨turn, hturn⟩ := step_turn step
      refine ⟨turns ++ [turn], ?_⟩
      rw [replay] at hturns ⊢
      rw [replay_from_append, hturns]
      simp only [Option.bind_some, replay_from, hturn]
  · rintro ⟨turns, hturns⟩
    -- every list of turns goes on with the run that its entries are
    have hgoes : ∀ (turns : List Turn) (past : List Entry) (t : System), Run cfg past t →
        replay_from cfg past t turns = some (history, s) → Run cfg history s := by
      intro turns
      induction turns with
      | nil =>
        intro past t hrun h
        obtain ⟨rfl, rfl⟩ := Prod.mk.inj (Option.some.inj h)
        exact hrun
      | cons turn turns ih =>
        intro past t hrun h
        rw [replay_from] at h
        split at h
        · cases h
        · next event t' hturn => exact ih _ _ (hrun.step (turn_step hturn)) h
    exact hgoes turns [] {} .start hturns

/-- A run with a property, from turns that lead to it. -/
theorem run_of_replay (cfg : Config) {P : List Entry → System → Prop} [∀ history s, Decidable (P history s)]
    (turns : List Turn)
    (h : ((replay cfg turns).any fun reached => P reached.1 reached.2) = true) :
    ∃ history s, Run cfg history s ∧ P history s := by
  obtain ⟨⟨history, s⟩, hreplay, hP⟩ := (Option.any_eq_true _ _).mp h
  exact ⟨history, s, run_iff_replay.mpr ⟨turns, hreplay⟩, of_decide_eq_true hP⟩

end Turns

/-! ## Small runs -/

/-- A process with one thread of each kind. -/
def one_of_each : Config where
  manager := 1
  filter_threads := [some 3]
  workers := [2]
  cleanup := some 4
  threads := [1, 2, 3, 4]
  max_concurrent_captures := 8
  manager_pos := by decide
  manager_runs := by decide
  manager_apart := by decide
  cleanup_apart := by decide

/-- A request with the PDEF file `game.pdef`. -/
def game_request : SRxStartCaptureMsg :=
  { iface := "eth0".toList, protocol_filter := "game.pdef".toList }

/-- The first capture, up to the answer of the filter thread. -/
def filtered_capture (request : SRxStartCaptureMsg) (world : FilterWorld) : List Turn :=
  [.start request {},
    .begin 1000 0 (-1) "a_raw.pcap".toList,
    .manager 2 {},
    .finish 1000 ⟨"a_raw.pcap".toList, 0, 24, 0, none⟩,
    .manager 2 {},
    .filter 3 1 world]

/-- The text of a PDEF that is accepted. -/
def plain_pdef : CStr :=
  "@protocol \x7b endian = big \x7d H \x7b uint8 x; \x7d @filter f \x7b x = 1; \x7d".toList

/-- One in automatic mode. -/
def auto_pdef : CStr :=
  "@protocol \x7b endian = auto \x7d H \x7b uint16 x; \x7d @filter f \x7b x = 1; \x7d".toList

/-- A UDP packet with the payload 00 01. -/
def udp_packet : Packet where
  bytes := List.replicate 12 0 ++ [8, 0, 0x45] ++ List.replicate 8 0 ++ [17]
    ++ List.replicate 10 0 ++ [0, 7, 0, 9, 0, 10, 0, 0] ++ [0, 1]
  length_lt := by decide

end RxNetCap.Capture
