/-
A capture with a limit on its packets.

The limit of a request gets as far as the spec in the start message. The task
that the worker builds from the spec has no field for it, so a capture writes
what is delivered until its time is up, whatever the limit. It keeps to the
limit where no more than that is delivered: that is what `WithinLimit` says,
with the packets that find no open segment.
-/
import RxNetCap.Capture.Replay
import RxNetCap.Capture.Session

set_option autoImplicit false

namespace RxNetCap.Capture

open RxNetCap.Pdef RxNetCap.Runtime RxNetCap.Until

/-! ## The limit -/

/-- The manager admits a request, of a client or of a hint, and hands it to a
worker. -/
inductive Admits (cfg : Config) (m : Manager) : SRxStartCaptureMsg → Dispatch → Prop where
  | client {request : SRxStartCaptureMsg} {dispatch : Dispatch} (world : RequestWorld)
      (handled : (handle_start_capture cfg request world m).1 = some dispatch) :
      Admits cfg m request dispatch
  | hint {request : SRxStartCaptureMsg} {dispatch : Dispatch} (alert : SRxSampleMsg)
      (world : RequestWorld) (now : ℤ)
      (asks : prepare_capture_from_sample alert world.strategy = some request)
      (handled : (handle_sample_alert cfg alert world now m).1 = some dispatch) :
      Admits cfg m request dispatch

/-- The number of packets written when `execute_capture` has ended. -/
def packets_written : Option CRxCaptureJob → ℕ
  | none => 0
  | some job => job.dumper_context_.packets.length

/-- The capture ends, with at most `n` packets written. -/
def KeepsLimit (start_msg : SRxCaptureStartMsgV2) (world : CaptureWorld) (n : ℕ) : Prop :=
  ∃ outcome, execute_capture start_msg world outcome ∧ packets_written outcome ≤ n

/-- The time at which a capture is to end. -/
def end_time (start_msg : SRxCaptureStartMsgV2) (world : CaptureWorld) : ℕ :=
  world.prepare.now_sec + (build_task_cfg start_msg.spec start_msg.config).duration_sec.toNat

/-- The capture cannot be prepared, or its time comes: with the dispatch that
is then the last, no packet has been delivered behind one that found no open
segment, and no more than `n` besides that one. -/
def WithinLimit (start_msg : SRxCaptureStartMsgV2) (world : CaptureWorld) (n : ℕ) : Prop :=
  world.prepare.live = false ∨ world.prepare.file.opens = false ∨
  ∃ k, FirstDue (fun turn => decide (end_time start_msg world ≤ turn.now_sec)) world.turns k ∧
    let delivered := (upto world.turns (k + 1)).flatMap DispatchTurn.packets
    let lost := refused (build_task_cfg start_msg.spec start_msg.config).max_bytes 0 delivered
    lost.length ≤ 1 ∧ delivered.length ≤ n + lost.length

/-! ## What a capture writes -/

section Capture

variable {start_msg : SRxCaptureStartMsgV2} {world : CaptureWorld}

theorem cleanup_packets (job : CRxCaptureJob) :
    job.cleanup.dumper_context_.packets = job.dumper_context_.packets := by
  simp only [CRxCaptureJob.cleanup, CRxDumpCtx.packets, Option.toList_none, List.append_nil]

/-- A job is not prepared when the interface or the first file does not open. -/
theorem prepare_eq_none :
    (job_of start_msg).prepare world.prepare = none ↔
      world.prepare.live = false ∨ world.prepare.file.opens = false := by
  have hopen : ((job_of start_msg).first_context world.prepare).d = none
      ↔ world.prepare.file.opens = false := by
    rw [first_context_eq, rotate_open, pcap_dump_open]
    split
    · next hopens => simp [hopens]
    · next hopens => simp [hopens]
  rw [CRxCaptureJob.prepare, ← hopen]
  split
  · next h => simp only [h]
  · next h => simp [h]

/-- What a prepared job has written at its end. -/
theorem endsIn_iff_dumps {job job' : CRxCaptureJob}
    (hprepared : (job_of start_msg).prepare world.prepare = some job) :
    EndsIn CRxCaptureJob.run_once CRxCaptureJob.done_ world.turns job job' ↔
      ∃ k, FirstDue (fun turn => due job.end_time_sec_ turn.now_sec) world.turns k ∧
        (upto world.turns (k + 1)).foldlM CRxCaptureJob.dispatch job = some job' := by
  obtain ⟨-, -, -, -, hdone, hruns⟩ := prepare_spec hprepared
  have hrounds : EndsIn CRxCaptureJob.run_once CRxCaptureJob.done_ world.turns job job' ↔
      EndsIn CRxCaptureJob.dispatch CRxCaptureJob.done_ world.turns job job' := by
    have hsame : ∀ job turn, CRxCaptureJob.done_ job = false →
        job.run_once turn = job.dispatch turn := by
      intro job turn hopen
      rw [CRxCaptureJob.run_once, hopen, if_neg Bool.false_ne_true]
    simp only [EndsIn, rounds_congr hsame]
  rw [hrounds]
  exact endsIn_iff (I := Runs job.end_time_sec_)
    (fun _ _ _ hinv _ hstep => dispatch_step hinv hstep) hruns hdone

/-- The clock is compared with the end time of the capture. -/
theorem due_end_time {job : CRxCaptureJob}
    (hprepared : (job_of start_msg).prepare world.prepare = some job)
    (hduration : 0 < (build_task_cfg start_msg.spec start_msg.config).duration_sec) :
    (fun turn : DispatchTurn => due job.end_time_sec_ turn.now_sec)
      = fun turn => decide (end_time start_msg world ≤ turn.now_sec) := by
  have hend : job.end_time_sec_ = end_time start_msg world := prepare_end_time hprepared hduration
  have hpos : 0 < end_time start_msg world := by
    rw [end_time]
    omega
  funext turn
  simp [due, hend, hpos]

/-- **The packets that count.** A capture that is to end some time keeps a
limit if what is delivered in this time does. -/
theorem keepsLimit_iff
    (hduration : 0 < (build_task_cfg start_msg.spec start_msg.config).duration_sec) (n : ℕ) :
    KeepsLimit start_msg world n ↔ WithinLimit start_msg world n := by
  have hnone : (job_of start_msg).prepare world.prepare = none ↔ _ := prepare_eq_none
  rw [WithinLimit, ← or_assoc, ← hnone]
  cases hprepare : (job_of start_msg).prepare world.prepare with
  | none =>
    refine ⟨fun _ => .inl rfl, fun _ => ⟨none, .failure hprepare, Nat.zero_le n⟩⟩
  | some job =>
    obtain ⟨hopen, hempty, hwritten, hmax, -, -⟩ := prepare_spec hprepare
    have hdue := due_end_time hprepare hduration
    constructor
    · rintro ⟨outcome, hexecute, hlimit⟩
      cases hexecute with
      | failure hunprepared =>
        rw [hprepare] at hunprepared
        cases hunprepared
      | @result job₀ job' hprepared hends =>
        obtain rfl : job = job₀ := Option.some.inj (hprepare.symm.trans hprepared)
        obtain ⟨k, hfirst, hfold⟩ := (endsIn_iff_dumps hprepare).mp hends
        rw [hdue] at hfirst
        refine .inr ⟨k, hfirst, ?_⟩
        have hdumped := foldlM_dispatch (upto world.turns (k + 1)) job
        rw [hfold, Option.map_some] at hdumped
        obtain ⟨front, hsplit, hfits, hcrash⟩ :=
          dump_all_spec hopen ((upto world.turns (k + 1)).flatMap DispatchTurn.packets)
        rw [hmax, hwritten] at hsplit hfits hcrash
        have hshort := not_lt.mp fun hlong => by
          rw [hcrash hlong] at hdumped
          cases hdumped
        obtain ⟨dc', hdc', hpackets⟩ := hfits hshort
        rw [hdc', Option.some.injEq] at hdumped
        rw [packets_written, cleanup_packets, hdumped, hpackets, hempty, List.nil_append,
          List.length_map] at hlimit
        refine ⟨hshort, ?_⟩
        have hlength := congrArg List.length hsplit
        rw [List.length_append] at hlength
        omega
    · rintro (hunprepared | ⟨k, hfirst, hshort, hlimit⟩)
      · cases hunprepared
      · rw [← hdue] at hfirst
        obtain ⟨front, hsplit, hfits, -⟩ :=
          dump_all_spec hopen ((upto world.turns (k + 1)).flatMap DispatchTurn.packets)
        rw [hmax, hwritten] at hsplit hfits
        obtain ⟨dc', hdc', hpackets⟩ := hfits hshort
        have hdumped := foldlM_dispatch (upto world.turns (k + 1)) job
        rw [hdc'] at hdumped
        obtain ⟨job', hfold, rfl⟩ := Option.map_eq_some_iff.mp hdumped
        have hends := (endsIn_iff_dumps hprepare).mpr ⟨k, hfirst, hfold⟩
        refine ⟨_, .result hprepare hends, ?_⟩
        rw [packets_written, cleanup_packets, hpackets, hempty, List.nil_append, List.length_map]
        have hlength := congrArg List.length hsplit
        rw [List.length_append] at hlength
        omega

end Capture

/-! ## Requests with a limit -/

/-- A start message that goes to a worker has the limit of its request, and a
duration. -/
theorem start_dispatched {cfg : Config} {m : Manager} {request : SRxStartCaptureMsg}
    {world : RequestWorld} {dispatch : Dispatch}
    (handled : (handle_start_capture cfg request world m).1 = some dispatch) :
    dispatch.2.spec.max_packets = request.max_packets ∧ 0 < dispatch.2.spec.max_duration_sec := by
  rcases handle_start_cases cfg request world m with h | ⟨prepared, hprepared, -, h⟩
  · rw [h] at handled
    cases handled
  · rw [h] at handled
    obtain ⟨-, hfor⟩ := add_and_dispatch_spec cfg prepared world.now m
    obtain ⟨-, -, hspec, -⟩ := hfor.dispatched dispatch.1 dispatch.2 handled
    rw [hspec]
    exact ⟨prepare_start_max_packets hprepared, prepare_start_duration hprepared⟩

theorem Admits.dispatched {cfg : Config} {m : Manager} {request : SRxStartCaptureMsg}
    {dispatch : Dispatch} (h : Admits cfg m request dispatch) :
    dispatch.2.spec.max_packets = request.max_packets ∧ 0 < dispatch.2.spec.max_duration_sec := by
  cases h with
  | client world handled => exact start_dispatched handled
  | hint alert world now asks handled =>
    rcases handle_alert_cases cfg alert world now m with hnone | ⟨request', hrequest, -, hstart⟩
    · rw [hnone] at handled
      cases handled
    · rw [asks] at hrequest
      obtain rfl := Option.some.inj hrequest
      rw [hstart] at handled
      exact start_dispatched handled

theorem task_duration_pos {spec : CaptureSpec} (h : 0 < spec.max_duration_sec)
    (config : CaptureConfigSnapshot) : 0 < (build_task_cfg spec config).duration_sec := by
  have heq : (build_task_cfg spec config).duration_sec = spec.max_duration_sec := by
    rw [build_task_cfg, positive_or, if_pos h, not_negative, if_neg (not_lt.mpr h.le)]
  rw [heq]
  exact h

/-- **When a packet limit is respected.** For every admitted request with a
limit, exactly when no more packets than that are delivered until the capture's
time is up, and it does come up. -/
theorem packet_limit_iff {cfg : Config} {m : Manager} {request : SRxStartCaptureMsg} {worker : ℕ}
    {start_msg : SRxCaptureStartMsgV2} (admitted : Admits cfg m request (worker, start_msg))
    (world : CaptureWorld) :
    KeepsLimit start_msg world request.max_packets.toNat ↔
      WithinLimit start_msg world request.max_packets.toNat :=
  keepsLimit_iff (task_duration_pos admitted.dispatched.2 start_msg.config) _

/-! ## One packet at most -/

/-- A request for one packet, for a minute. -/
def one_packet_request : SRxStartCaptureMsg := { iface := "eth0".toList, max_packets := 1 }

/-- Packets that all come with the first dispatch, which ends with the minute. -/
def one_batch (packets : List Delivery) : CaptureWorld where
  turns := fun _ => { packets, now_sec := 60 }

/-- It is admitted at the start, with this task. -/
theorem one_packet_admitted : ∃ worker start_msg,
    Admits one_of_each {} one_packet_request (worker, start_msg) ∧
      (build_task_cfg start_msg.spec start_msg.config).duration_sec = 60 ∧
      (build_task_cfg start_msg.spec start_msg.config).max_bytes = 0 := by
  have hhandled : ((handle_start_capture one_of_each one_packet_request {} {}).1.any fun dispatch =>
      (build_task_cfg dispatch.2.spec dispatch.2.config).duration_sec = 60 ∧
        (build_task_cfg dispatch.2.spec dispatch.2.config).max_bytes = 0) = true := by
    decide +kernel
  obtain ⟨⟨worker, start_msg⟩, handled, htask⟩ := (Option.any_eq_true _ _).mp hhandled
  exact ⟨worker, start_msg, .client {} handled, of_decide_eq_true htask⟩

/-- What is within the limit when everything comes in one batch. -/
theorem withinLimit_one_batch {start_msg : SRxCaptureStartMsgV2} {packets : List Delivery}
    (hduration : (build_task_cfg start_msg.spec start_msg.config).duration_sec = 60)
    (hbytes : (build_task_cfg start_msg.spec start_msg.config).max_bytes = 0) (n : ℕ) :
    WithinLimit start_msg (one_batch packets) n ↔ packets.length ≤ n := by
  have hend : end_time start_msg (one_batch packets) = 60 := by
    rw [end_time, hduration]
    rfl
  have hnone : ∀ written packets, refused 0 written packets = [] := by
    intro written packets
    induction packets generalizing written with
    | nil => rfl
    | cons h rest ih => exact ih _
  have hturns : ∀ k, (one_batch packets).turns k = { packets, now_sec := 60 } := fun _ => rfl
  simp only [WithinLimit, hend, hbytes, hnone, hturns, FirstDue]
  constructor
  · rintro (hlive | hopens | ⟨k, ⟨-, hfirst⟩, -, hlimit⟩)
    · cases hlive
    · cases hopens
    · obtain rfl : k = 0 := by
        by_contra hk
        have := hfirst 0 (Nat.pos_of_ne_zero hk)
        simp at this
      simpa [upto, hturns] using hlimit
  · intro hlimit
    refine .inr (.inr ⟨0, ⟨by decide, fun i hi => absurd hi (Nat.not_lt_zero i)⟩, by simp, ?_⟩)
    simpa [upto, hturns] using hlimit

/-- One packet is within the limit. -/
theorem packet_limit_iff_one : ∃ start_msg,
    KeepsLimit start_msg (one_batch [{ data := udp_packet }]) 1 := by
  obtain ⟨worker, start_msg, hadmitted, hduration, hbytes⟩ := one_packet_admitted
  refine ⟨start_msg, (packet_limit_iff hadmitted _).mpr ?_⟩
  exact (withinLimit_one_batch hduration hbytes 1).mpr le_rfl

/-- The second of two packets is written as well. -/
theorem second_packet_written : ∃ history s worker start_msg, Run one_of_each history s ∧
    Admits one_of_each s.manager one_packet_request (worker, start_msg) ∧
    one_packet_request.max_packets = 1 ∧
    ¬ KeepsLimit start_msg (one_batch [{ data := udp_packet }, { data := udp_packet }]) 1 := by
  obtain ⟨worker, start_msg, hadmitted, hduration, hbytes⟩ := one_packet_admitted
  refine ⟨[], {}, worker, start_msg, .start, hadmitted, rfl, ?_⟩
  have hpositive : 0 < (build_task_cfg start_msg.spec start_msg.config).duration_sec := by
    rw [hduration]
    decide
  rw [keepsLimit_iff hpositive, withinLimit_one_batch hduration hbytes]
  decide

end RxNetCap.Capture
