/-
What a capture reports of what it has written.

The byte counter starts again with each segment and the only file named is the
last, so the report is about the last segment. It covers everything when there
is only one segment, or when the one packet of the capture went to a second
segment under the name of the first (`reports_all_iff`).
-/
import RxNetCap.Capture.PacketLimit
import RxNetCap.Capture.Rotation

set_option autoImplicit false

namespace RxNetCap.Capture

open RxNetCap.Pdef RxNetCap.Runtime RxNetCap.Until

/-! ## Bytes -/

/-- What a list of packets takes up in the files. -/
def bytes_of (packets : List Packet) : ℤ := (packets.map pkt_bytes).sum

@[simp] theorem bytes_of_nil : bytes_of [] = 0 := rfl

@[simp] theorem bytes_of_cons (data : Packet) (packets : List Packet) :
    bytes_of (data :: packets) = pkt_bytes data + bytes_of packets := by
  simp only [bytes_of, List.map_cons, List.sum_cons]

theorem pkt_bytes_pos (data : Packet) : 0 < pkt_bytes data := by
  rw [pkt_bytes, sizeof_pcap_pkthdr]
  omega

theorem bytes_of_nonneg (packets : List Packet) : 0 ≤ bytes_of packets := by
  induction packets with
  | nil => exact le_rfl
  | cons data packets ih =>
    have hpos := pkt_bytes_pos data
    rw [bytes_of_cons]
    omega

theorem segment_full_iff {max_bytes written : ℤ} {data : Packet} :
    segment_full max_bytes written data = true
      ↔ 0 < max_bytes ∧ max_bytes < written + pkt_bytes data := by
  rw [segment_full, decide_eq_true_eq]

/-- What the counter shows in the end. -/
def last_written (max_bytes : ℤ) : ℤ → List Packet → ℤ
  | written, [] => written
  | written, data :: rest =>
    if segment_full max_bytes written data then last_written max_bytes (pkt_bytes data) rest
    else last_written max_bytes (written + pkt_bytes data) rest

/-- The packets fit in a segment with so much in it. -/
def Fits (max_bytes written : ℤ) (packets : List Packet) : Prop :=
  max_bytes ≤ 0 ∨ written + bytes_of packets ≤ max_bytes

section Counter

variable {max_bytes written : ℤ}

theorem last_written_le (packets : List Packet) (hwritten : 0 ≤ written) :
    last_written max_bytes written packets ≤ written + bytes_of packets := by
  induction packets generalizing written with
  | nil => exact (Int.add_zero written).ge
  | cons data rest ih =>
    have hpos := pkt_bytes_pos data
    rw [last_written, bytes_of_cons]
    split
    · have hle := ih hpos.le
      omega
    · have hle := ih (show 0 ≤ written + pkt_bytes data by omega)
      omega

/-- A packet that makes a segment full does not fit, nor do more. -/
theorem not_fits_of_full {data : Packet} (h : segment_full max_bytes written data = true)
    (rest : List Packet) : ¬ Fits max_bytes written (data :: rest) := by
  obtain ⟨hmax, hfull⟩ := segment_full_iff.mp h
  have hrest := bytes_of_nonneg rest
  rw [Fits, bytes_of_cons]
  omega

theorem fits_cons_of_room {data : Packet} (rest : List Packet) :
    Fits max_bytes written (data :: rest) ↔ Fits max_bytes (written + pkt_bytes data) rest := by
  rw [Fits, Fits, bytes_of_cons, Int.add_assoc]

/-- The counter shows everything when it has something already and the packets
fit. -/
theorem last_written_eq_iff (packets : List Packet) (hwritten : 0 < written)
    (hroom : max_bytes ≤ 0 ∨ written ≤ max_bytes ∨ packets ≠ []) :
    last_written max_bytes written packets = written + bytes_of packets
      ↔ Fits max_bytes written packets := by
  induction packets generalizing written with
  | nil =>
    refine iff_of_true (Int.add_zero written).symm ?_
    rw [Fits, bytes_of_nil]
    rcases hroom with hroom | hroom | hroom
    · exact .inl hroom
    · exact .inr (by omega)
    · exact absurd rfl hroom
  | cons data rest ih =>
    have hpos := pkt_bytes_pos data
    rw [last_written]
    by_cases hfull : segment_full max_bytes written data = true
    · rw [if_pos hfull]
      refine iff_of_false ?_ (not_fits_of_full hfull rest)
      have hle : last_written max_bytes (pkt_bytes data) rest ≤ pkt_bytes data + bytes_of rest :=
        last_written_le rest hpos.le
      rw [bytes_of_cons]
      omega
    · rw [if_neg hfull, fits_cons_of_room, ← ih (by omega) ?_, bytes_of_cons, Int.add_assoc]
      have hroom : ¬ (0 < max_bytes ∧ max_bytes < written + pkt_bytes data) :=
        fun h => hfull (segment_full_iff.mpr h)
      omega

/-- From the start it also shows a single packet that does not fit. -/
theorem counter_iff (packets : List Packet) :
    last_written max_bytes 0 packets = bytes_of packets
      ↔ Fits max_bytes 0 packets ∨ packets.length = 1 := by
  cases packets with
  | nil =>
    refine iff_of_true rfl (.inl ?_)
    rw [Fits, bytes_of_nil]
    omega
  | cons data rest =>
    have hpos := pkt_bytes_pos data
    rw [last_written, bytes_of_cons, Int.zero_add]
    by_cases hfull : segment_full max_bytes 0 data = true
    · rw [if_pos hfull, or_iff_right (not_fits_of_full hfull rest), List.length_cons]
      obtain ⟨hmax, hlarge⟩ := segment_full_iff.mp hfull
      rw [Int.zero_add] at hlarge
      cases rest with
      | nil => exact iff_of_true (Int.add_zero _).symm rfl
      | cons other rest =>
        rw [last_written_eq_iff _ hpos (.inr (.inr (List.cons_ne_nil other rest)))]
        refine iff_of_false ?_ (by rw [List.length_cons]; omega)
        have hrest := bytes_of_nonneg (other :: rest)
        rw [Fits]
        omega
    · have hroom : ¬ (0 < max_bytes ∧ max_bytes < pkt_bytes data) := by
        intro h
        refine hfull (segment_full_iff.mpr ?_)
        rwa [Int.zero_add]
      rw [if_neg hfull, last_written_eq_iff rest hpos (by omega), fits_cons_of_room, Int.zero_add]
      refine ⟨.inl, fun h => ?_⟩
      rcases h with h | h
      · exact h
      · obtain rfl : rest = [] := by simpa using h
        rw [Fits, bytes_of_nil]
        omega

end Counter

/-! ## Contexts -/

section Contexts

variable {dc dc' : CRxDumpCtx}

/-- What is written when every segment opens. -/
theorem dump_all_written (hopen : dc.d.isSome = true) {packets : List Delivery}
    (hopens : ∀ h ∈ packets, h.world.opens = true)
    (run : packets.foldlM dump_cb dc = some dc') :
    dc'.packets = dc.packets ++ packets.map Delivery.data ∧
      dc'.written = last_written dc.max_bytes dc.written (packets.map Delivery.data) := by
  induction packets generalizing dc with
  | nil =>
    rw [← Option.some.inj run]
    exact ⟨(List.append_nil _).symm, rfl⟩
  | cons head rest ih =>
    obtain ⟨next, hnext, hrest⟩ := Option.bind_eq_some_iff.mp run
    have hlater : ∀ h ∈ rest, h.world.opens = true :=
      fun h hmem => hopens h (List.mem_cons_of_mem _ hmem)
    rw [List.map_cons, last_written]
    by_cases hfull : segment_full dc.max_bytes dc.written head.data = true
    · have hsome := rotate_open_opens (hopens head List.mem_cons_self) dc
      rw [dump_cb, if_pos ⟨hopen, hfull⟩] at hnext
      dsimp only at hnext
      rw [if_neg (by rw [hsome]; exact Option.some_ne_none _)] at hnext
      have hwrote := wrote_of_dump hnext
      have hwritten : next.written = pkt_bytes head.data := hwrote.written.trans (Int.zero_add _)
      obtain ⟨hpackets, hcount⟩ := ih hwrote.still_open hlater hrest
      refine ⟨?_, ?_⟩
      · rw [hpackets, hwrote.packets, rotate_open_packets, List.append_assoc, List.cons_append,
          List.nil_append]
      · rw [hcount, hwrote.max_bytes, hwritten, if_pos hfull]
        rfl
    · rw [dump_cb, if_neg (fun hboth => hfull hboth.2)] at hnext
      have hwrote := wrote_of_dump hnext
      obtain ⟨hpackets, hcount⟩ := ih hwrote.still_open hlater hrest
      refine ⟨?_, ?_⟩
      · rw [hpackets, hwrote.packets, List.append_assoc, List.cons_append, List.nil_append]
      · rw [hcount, hwrote.max_bytes, hwrote.written, if_neg hfull]

/-- Packets that fit stay in the segment that is open. -/
theorem dump_all_fits (hopen : dc.d.isSome = true) {packets : List Delivery}
    (hfits : Fits dc.max_bytes dc.written (packets.map Delivery.data))
    (run : packets.foldlM dump_cb dc = some dc') :
    dc'.opened = dc.opened ∧ dc'.current_path = dc.current_path := by
  induction packets generalizing dc with
  | nil =>
    rw [← Option.some.inj run]
    exact ⟨rfl, rfl⟩
  | cons head rest ih =>
    obtain ⟨next, hnext, hrest⟩ := Option.bind_eq_some_iff.mp run
    rw [List.map_cons] at hfits
    have hroom : ¬ segment_full dc.max_bytes dc.written head.data = true :=
      fun hfull => not_fits_of_full hfull _ hfits
    rw [dump_cb, if_neg (fun hboth => hroom hboth.2)] at hnext
    have hwrote := wrote_of_dump hnext
    have hnextfits : Fits next.max_bytes next.written (rest.map Delivery.data) := by
      rw [hwrote.max_bytes, hwrote.written]
      exact (fits_cons_of_room _).mp hfits
    obtain ⟨hopened, hpath⟩ := ih hwrote.still_open hnextfits hrest
    exact ⟨hopened.trans hwrote.opened, hpath.trans hwrote.current_path⟩

/-- A single packet that does not fit goes to a segment of its own. -/
theorem dump_one_large (hopen : dc.d.isSome = true) {head : Delivery}
    (hopens : head.world.opens = true)
    (hfull : segment_full dc.max_bytes dc.written head.data = true)
    (run : [head].foldlM dump_cb dc = some dc') :
    dc'.opened = dc.opened ++ [segment_name dc head.world (dc.seq + 1)] ∧
      dc'.current_path = segment_name dc head.world (dc.seq + 1) := by
  obtain ⟨next, hnext, hrest⟩ := Option.bind_eq_some_iff.mp run
  obtain rfl := Option.some.inj hrest
  have hsome := rotate_open_opens hopens dc
  rw [dump_cb, if_pos ⟨hopen, hfull⟩] at hnext
  dsimp only at hnext
  rw [if_neg (by rw [hsome]; exact Option.some_ne_none _)] at hnext
  have hwrote := wrote_of_dump hnext
  exact ⟨hwrote.opened.trans (opened_rotate hopens dc), hwrote.current_path⟩

end Contexts

/-! ## The report -/

/-- The bytes reported are those of all packets written, and all files that
were opened are named. -/
structure ReportsAll (world : CaptureWorld) (job : CRxCaptureJob) : Prop where
  bytes : ((result_of world job).total_bytes : ℤ) = bytes_of job.dumper_context_.packets
  files : ∀ path ∈ job.dumper_context_.opened,
    path ∈ (result_files (result_of world job)).map CaptureFileInfo.file_path

/-- The packets of a capture fit in one segment, or it has just one, too large
for any, and no number in the names. -/
def OneFile (start_msg : SRxCaptureStartMsgV2) (packets : List Delivery) : Prop :=
  let cfg := build_task_cfg start_msg.spec start_msg.config
  Fits cfg.max_bytes 0 (packets.map Delivery.data) ∨
    (packets.length = 1 ∧ Piece.placeholder "seq".toList ∉ pieces none cfg.file_pattern)

theorem join_path_ne_nil {base : CStr} (hbase : base ≠ []) (s : CStr) : join_path base s ≠ [] := by
  unfold join_path
  split
  · exact hbase
  · next hs =>
    split
    · exact hs
    · split
      · exact fun hnil => hbase (List.append_eq_nil_iff.mp hnil).1
      · exact fun hnil => hbase (List.append_eq_nil_iff.mp hnil).1

theorem segment_name_ne_nil {dc : CRxDumpCtx} (hbase : dc.base_dir ≠ []) (world : OpenWorld)
    (seq : ℤ) : segment_name dc world seq ≠ [] := by
  rw [segment_name, CRxDumpCtx.expand_pattern_eq]
  exact join_path_ne_nil hbase _

theorem last_written_nonneg (max_bytes : ℤ) {written : ℤ} (hwritten : 0 ≤ written)
    (packets : List Packet) : 0 ≤ last_written max_bytes written packets := by
  induction packets generalizing written with
  | nil => exact hwritten
  | cons data rest ih =>
    have hpos := pkt_bytes_pos data
    rw [last_written]
    split
    · exact ih hpos.le
    · exact ih (by omega)

section Report

variable {start_msg : SRxCaptureStartMsgV2} {world : CaptureWorld}

/-- A prepared job has its first file open. -/
theorem prepare_context {world : PrepareWorld} {job : CRxCaptureJob}
    (h : (job_of start_msg).prepare world = some job) :
    job.dumper_context_ = rotate_open world.file ((job_of start_msg).new_context world) := by
  rw [CRxCaptureJob.prepare, first_context_eq] at h
  split at h
  · cases h
  · rw [← Option.some.inj h]

/-- The context that a capture ends with, before its cleanup: all packets were
handed to it that came until the time was up. -/
theorem execute_capture_context {job : CRxCaptureJob} {k : ℕ}
    (ends : execute_capture start_msg world (some job))
    (last : FirstDue (fun turn => decide (end_time start_msg world ≤ turn.now_sec)) world.turns k) :
    ∃ dc', ((upto world.turns (k + 1)).flatMap DispatchTurn.packets).foldlM dump_cb
        (rotate_open world.prepare.file ((job_of start_msg).new_context world.prepare)) = some dc' ∧
      job.dumper_context_ = { dc' with closed := dc'.closed ++ dc'.d.toList, d := none } := by
  cases ends with
  | @result prepared_job job' prepared ends =>
    obtain ⟨k', hfirst, hfold⟩ := (endsIn_iff_dumps prepared).mp ends
    have hduration : 0 < (build_task_cfg start_msg.spec start_msg.config).duration_sec := by
      -- without a duration there is no end time, and no clock reaches it
      by_contra hnone
      have hend : prepared_job.end_time_sec_ = 0 := by
        rw [CRxCaptureJob.prepare] at prepared
        split at prepared
        · cases prepared
        · rw [← Option.some.inj prepared]
          exact if_neg hnone
      have hdue := hfirst.1
      rw [hend] at hdue
      cases hdue
    rw [due_end_time prepared hduration] at hfirst
    obtain rfl := hfirst.unique last
    have hdumped := foldlM_dispatch (upto world.turns (k' + 1)) prepared_job
    rw [hfold, Option.map_some, prepare_context prepared] at hdumped
    exact ⟨job'.dumper_context_, hdumped.symm, rfl⟩

/-- **When the report covers everything.** With all segments opened, exactly
when the capture has gone to one file. -/
theorem reports_all_iff {job : CRxCaptureJob} {k : ℕ}
    (ends : execute_capture start_msg world (some job))
    (last : FirstDue (fun turn => decide (end_time start_msg world ≤ turn.now_sec)) world.turns k)
    (opens : world.prepare.file.opens = true ∧
      ∀ h ∈ (upto world.turns (k + 1)).flatMap DispatchTurn.packets, h.world.opens = true)
    (timezone : ∀ h ∈ (upto world.turns (k + 1)).flatMap DispatchTurn.packets,
      h.world.localtime = world.prepare.file.localtime)
    (clock : world.prepare.start_time ≠ 0) :
    ReportsAll world job ↔
      OneFile start_msg ((upto world.turns (k + 1)).flatMap DispatchTurn.packets) := by
  obtain ⟨dc', run, hjob⟩ := execute_capture_context ends last
  generalize (upto world.turns (k + 1)).flatMap DispatchTurn.packets = packets
    at opens timezone run ⊢
  let ctx := (job_of start_msg).new_context world.prepare
  let first := rotate_open world.prepare.file ctx
  let cfg := build_task_cfg start_msg.spec start_msg.config
  have hstarted : ctx.start_time ≠ 0 := clock
  have hbase : ctx.base_dir ≠ [] := non_empty_or_ne_nil (by decide)
  have hparts : ctx.parts = pieces none cfg.file_pattern := by
    have hpattern : cfg.file_pattern ≠ [] := non_empty_or_ne_nil (by decide)
    exact congrArg (pieces none) (if_neg hpattern)
  have hopen : first.d.isSome = true := by
    have hd : first.d = _ := rotate_open_opens opens.1 ctx
    rw [hd]
    rfl
  have hopened : first.opened = [segment_name ctx world.prepare.file 1] :=
    opened_rotate opens.1 ctx
  have hmax : first.max_bytes = cfg.max_bytes := rfl
  have hwritten : first.written = 0 := rfl
  -- what is reported, and what was written and opened
  have hfiles : (result_files (result_of world job)).map CaptureFileInfo.file_path
      = if dc'.current_path = [] then [] else [dc'.current_path] := by
    rw [result_files, result_of, hjob]
    dsimp only
    split
    · rfl
    · rfl
  have hopened_job : job.dumper_context_.opened = dc'.opened := by
    rw [hjob, CRxDumpCtx.opened, CRxDumpCtx.opened, Option.toList_none, List.append_nil]
  obtain ⟨hpackets, hcount⟩ := dump_all_written hopen opens.2 run
  rw [hmax, hwritten] at hcount
  have hbytes : ((result_of world job).total_bytes : ℤ) = bytes_of job.dumper_context_.packets
      ↔ Fits cfg.max_bytes 0 (packets.map Delivery.data) ∨ packets.length = 1 := by
    have hall : job.dumper_context_.packets = packets.map Delivery.data := by
      have hnone : first.packets = [] := rotate_open_packets _ _
      rw [hjob, CRxDumpCtx.packets, Option.toList_none, List.append_nil]
      exact hpackets.trans (by rw [hnone, List.nil_append])
    have htotal : ((result_of world job).total_bytes : ℤ)
        = last_written cfg.max_bytes 0 (packets.map Delivery.data) := by
      have hnonneg := last_written_nonneg cfg.max_bytes le_rfl (packets.map Delivery.data)
      rw [result_of, CRxCaptureJob.get_bytes_written, hjob]
      dsimp only
      rw [hcount, Int.toNat_of_nonneg hnonneg]
    rw [htotal, hall, counter_iff, List.length_map]
  have hfits : Fits cfg.max_bytes 0 (packets.map Delivery.data) → ReportsAll world job := by
    intro hfits
    refine ⟨hbytes.mpr (.inl hfits), fun path hpath => ?_⟩
    obtain ⟨hsame, hcurrent⟩ := dump_all_fits hopen (by rw [hmax, hwritten]; exact hfits) run
    have hname : dc'.current_path = segment_name ctx world.prepare.file 1 := hcurrent
    rw [hfiles, hname, if_neg (segment_name_ne_nil hbase _ _)]
    rwa [hopened_job, hsame, hopened] at hpath
  by_cases hsmall : Fits cfg.max_bytes 0 (packets.map Delivery.data)
  · exact iff_of_true (hfits hsmall) (.inl hsmall)
  · -- not everything fits: it can only be one packet
    by_cases hone : packets.length = 1
    · obtain ⟨head, rfl⟩ := List.length_eq_one_iff.mp hone
      have hfull : segment_full first.max_bytes first.written head.data = true := by
        rw [Fits, List.map_cons, List.map_nil, bytes_of_cons, bytes_of_nil, not_or] at hsmall
        rw [segment_full_iff, hmax, hwritten]
        omega
      obtain ⟨hboth, hcurrent⟩ :=
        dump_one_large hopen (opens.2 head List.mem_cons_self) hfull run
      have hname : dc'.current_path = segment_name ctx head.world 2 := hcurrent
      have hlocal : world.prepare.file.localtime = head.world.localtime :=
        (timezone head List.mem_cons_self).symm
      have hreports : ReportsAll world job ↔
          segment_name ctx world.prepare.file 1 = segment_name ctx head.world 2 := by
        have hpaths : dc'.opened
            = [segment_name ctx world.prepare.file 1, segment_name ctx head.world 2] :=
          hboth.trans (by rw [hopened]; rfl)
        constructor
        · intro h
          have hmem := h.files (segment_name ctx world.prepare.file 1)
            (by rw [hopened_job, hpaths]; exact List.mem_cons_self)
          rw [hfiles, hname, if_neg (segment_name_ne_nil hbase _ _)] at hmem
          exact List.mem_singleton.mp hmem
        · intro heq
          refine ⟨hbytes.mpr (.inr rfl), fun path hpath => ?_⟩
          rw [hopened_job, hpaths, heq] at hpath
          rw [hfiles, hname, if_neg (segment_name_ne_nil hbase _ _)]
          simpa using hpath
      rw [hreports, OneFile, or_iff_right hsmall, and_iff_right hone, ← hparts, segment_name_eq_iff]
      constructor
      · intro heq hseq
        have hnumber := segment_filling_inj hstarted hlocal hseq heq
        omega
      · exact segment_filling_same hstarted hlocal
    · refine iff_of_false (fun h => ?_) ?_
      · exact (hbytes.mp h.bytes).elim hsmall hone
      · rintro (h | h)
        · exact hsmall h
        · exact hone h.1

end Report

/-! ## Two packets in a minute -/

/-- A capture of a minute, with a limit on the bytes in a segment. -/
def limited_capture (max_bytes : ℤ) : SRxCaptureStartMsgV2 where
  capture_id := 1000
  spec := { iface := "eth0".toList, max_duration_sec := 60, max_bytes }

/-- Two small packets that come with the first dispatch, which ends with the
minute. -/
def two_packet_minute : CaptureWorld where
  prepare := { start_time := 1 }
  turns := fun _ => { packets := two_packets, now_sec := 60 }

/-- Both fit in one segment. -/
theorem reports_all_iff_two_packets :
    ∃ job, execute_capture (limited_capture 100) two_packet_minute (some job) ∧
      ReportsAll two_packet_minute job := by
  obtain ⟨job, ends, -⟩ := execute_capture_of_rounds (P := fun _ => True) (limited_capture 100)
    two_packet_minute 1 (by decide +kernel)
  have hdelivered : ∀ h ∈ (upto two_packet_minute.turns 1).flatMap DispatchTurn.packets,
      h.world = {} := by
    intro h hmem
    have htwo : h ∈ two_packets := by simpa [upto, two_packet_minute] using hmem
    rcases List.mem_cons.mp htwo with rfl | htwo
    · rfl
    · rw [List.mem_singleton.mp htwo]
  have hlast : FirstDue (fun turn : DispatchTurn =>
      decide (end_time (limited_capture 100) two_packet_minute ≤ turn.now_sec))
      two_packet_minute.turns 0 := ⟨by decide, fun i hi => absurd hi (Nat.not_lt_zero i)⟩
  refine ⟨job, ends, (reports_all_iff ends hlast ⟨rfl, ?_⟩ ?_ (by decide)).mpr (.inl ?_)⟩
  · intro h hmem
    rw [hdelivered h hmem]
  · intro h hmem
    rw [hdelivered h hmem]
    rfl
  · exact .inr (by decide)

/-- With room for one in a segment, the first is not reported. -/
theorem first_segment_not_reported :
    two_packet_minute.prepare.file.opens = true ∧ (∀ h ∈ two_packets, h.world.opens = true) ∧
    ∃ job, execute_capture (limited_capture 30) two_packet_minute (some job) ∧
      (result_of two_packet_minute job).total_bytes = 25 ∧
      bytes_of job.dumper_context_.packets = 50 := by
  refine ⟨rfl, by decide, ?_⟩
  exact execute_capture_of_rounds (limited_capture 30) two_packet_minute 1 (by decide +kernel)

end RxNetCap.Capture
