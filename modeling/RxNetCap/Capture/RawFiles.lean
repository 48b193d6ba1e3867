/-
What `handle_raw_file` leaves on the disk.

The read loop ends at the end of the raw file and at a read error alike, and
neither `pcap_dump` nor `pcap_dump_close` says whether a packet got to the
filtered file. The raw file is removed in any case, so its packets are safe
exactly when it was read to its end and every packet kept was stored, or its
removal fails (`nothing_lost_iff`).
-/
import RxNetCap.Capture.FilterThread

set_option autoImplicit false

namespace RxNetCap.Capture

open RxNetCap.Pdef RxNetCap.Runtime

/-! ## The disk -/

/-- The last answer of `pcap_next_ex`. -/
inductive ReadEnding where
  | end_of_file
  | read_error
  deriving DecidableEq, Repr

/-- What the handler meets on the disk besides: how the reading of the raw file
ends, whether the `n`-th `pcap_dump` and the `pcap_dump_close` write what they
should, how many packets are still buffered when the file is closed, and
whether the raw file can be removed. -/
structure DiskWorld extends FilterWorld where
  ending : ReadEnding
  dumps : ℕ → Bool
  closes : Bool
  buffered : ℕ
  unlinks : Bool

/-- Whether the raw file is there, and what the filtered file holds if it was
opened. -/
structure Disk where
  raw : Bool := true
  filtered : Option (List Packet) := none
  deriving DecidableEq

/-- What is left of the packets that were handed to `pcap_dump`. -/
def stored_packets (world : DiskWorld) (kept : List Packet) : List Packet :=
  let written := (kept.zipIdx.filter fun entry => world.dumps entry.2).map Prod.fst
  if world.closes then written else written.take (written.length - world.buffered)

/-- The disk after `handle_raw_file`; none when the program ends before it is
through. -/
def handle_raw_file_disk (raw_msg : SRxCaptureRawFileMsgV2) (world : DiskWorld) : Option Disk :=
  if raw_msg.has_pdef_filter = false then some {}
  else
    match load_pdef raw_msg world.toFilterWorld with
    | .undefined => none
    | .rejected _ => some {}
    | .accepted pdef =>
      match world.raw_pcap with
      | none => some {}
      | some packets =>
        if world.output_opens = false then some {}
        else do
          -- the loop ends on both endings
          let (kept, _) ← filter_packets packets pdef
          return { raw := !world.unlinks, filtered := some (stored_packets world kept) }

/-- It is the same run that posts the messages. -/
theorem handle_raw_file_stores {threads : List ℕ} {self : ℕ} {raw_msg : SRxCaptureRawFileMsgV2}
    {world : DiskWorld} {result : Filtering}
    (h : handle_raw_file threads self raw_msg world.toFilterWorld = some result) :
    ∃ disk, handle_raw_file_disk raw_msg world = some disk ∧
      ((disk = {} ∧ result.kept = []) ∨
        disk.filtered = some (stored_packets world result.kept)) := by
  unfold handle_raw_file at h
  unfold handle_raw_file_disk
  by_cases hfilter : raw_msg.has_pdef_filter = false
  · rw [if_pos hfilter] at h ⊢
    exact ⟨{}, rfl, .inl ⟨rfl, by rw [← Option.some.inj h]⟩⟩
  rw [if_neg hfilter] at h ⊢
  cases hpdef : load_pdef raw_msg world.toFilterWorld with
  | undefined =>
    rw [hpdef] at h
    cases h
  | rejected message =>
    rw [hpdef] at h
    exact ⟨{}, rfl, .inl ⟨rfl, by rw [← Option.some.inj h]⟩⟩
  | accepted pdef =>
    rw [hpdef] at h
    dsimp only at h ⊢
    cases hraw : world.raw_pcap with
    | none =>
      rw [hraw] at h
      exact ⟨{}, rfl, .inl ⟨rfl, by rw [← Option.some.inj h]⟩⟩
    | some packets =>
      rw [hraw] at h
      dsimp only at h ⊢
      by_cases hopens : world.output_opens = false
      · rw [if_pos hopens] at h ⊢
        exact ⟨{}, rfl, .inl ⟨rfl, by rw [← Option.some.inj h]⟩⟩
      · rw [if_neg hopens] at h ⊢
        obtain ⟨⟨kept, pdef'⟩, hkept, hresult⟩ := Option.bind_eq_some_iff.mp h
        rw [hkept, ← Option.some.inj hresult]
        exact ⟨_, rfl, .inr rfl⟩

/-! ## What should be kept -/

/-- One of the two calls of the matcher accepts the payload. -/
def Accepts (data : Packet) (pdef pdef' : ProtocolDef) : Prop :=
  ∃ parsed, parse_packet_data data = some parsed ∧ parsed.valid = true ∧ parsed.app_data.len ≠ 0 ∧
    (packet_filter_match parsed.app_data parsed.dst_port pdef = (.returns true, pdef') ∨
      ∃ between, packet_filter_match parsed.app_data parsed.dst_port pdef = (.returns false, between) ∧
        packet_filter_match parsed.app_data parsed.src_port between = (.returns true, pdef'))

/-- There is no payload, or neither call accepts it. -/
def Refuses (data : Packet) (pdef pdef' : ProtocolDef) : Prop :=
  ∃ parsed, parse_packet_data data = some parsed ∧
    (((parsed.valid = false ∨ parsed.app_data.len = 0) ∧ pdef' = pdef) ∨
      (parsed.valid = true ∧ parsed.app_data.len ≠ 0 ∧ ∃ between,
        packet_filter_match parsed.app_data parsed.dst_port pdef = (.returns false, between) ∧
        packet_filter_match parsed.app_data parsed.src_port between = (.returns false, pdef')))

/-- The packets accepted, in order, by a protocol that learns as they pass. -/
inductive Filters : ProtocolDef → List Packet → List Packet → ProtocolDef → Prop where
  | done (pdef : ProtocolDef) : Filters pdef [] [] pdef
  | keep {pdef between pdef' : ProtocolDef} {data : Packet} {rest kept : List Packet}
      (head : Accepts data pdef between) (tail : Filters between rest kept pdef') :
      Filters pdef (data :: rest) (data :: kept) pdef'
  | drop {pdef between pdef' : ProtocolDef} {data : Packet} {rest kept : List Packet}
      (head : Refuses data pdef between) (tail : Filters between rest kept pdef') :
      Filters pdef (data :: rest) kept pdef'

theorem answer_of_eq_some {r : Match} {b : Bool} {pdef : ProtocolDef} :
    answer_of r = some (b, pdef) ↔ r = (ExecResult.returns b, pdef) := by
  obtain ⟨m, pdef'⟩ := r
  cases m <;> simp [answer_of]

section Filters

variable {data : Packet} {pdef pdef' : ProtocolDef}

theorem filter_packet_eq_some {b : Bool} : filter_packet data pdef = some (b, pdef') ↔
    ∃ parsed, parse_packet_data data = some parsed ∧
      (((parsed.valid = false ∨ parsed.app_data.len = 0) ∧ b = false ∧ pdef' = pdef) ∨
        (¬ (parsed.valid = false ∨ parsed.app_data.len = 0) ∧ ∃ first between,
          packet_filter_match parsed.app_data parsed.dst_port pdef = (.returns first, between) ∧
          ((first = true ∧ b = true ∧ pdef' = between) ∨
            (first = false ∧
              packet_filter_match parsed.app_data parsed.src_port between
                = (.returns b, pdef'))))) := by
  rw [filter_packet, Option.bind_eq_bind, Option.bind_eq_some_iff]
  refine exists_congr fun parsed => and_congr_right fun _ => ?_
  by_cases hempty : parsed.valid = false ∨ parsed.app_data.len = 0
  · rw [if_pos hempty]
    simp only [Option.pure_def, Option.some.injEq, Prod.mk.injEq, hempty, true_and, not_true_eq_false,
      false_and, or_false]
    exact ⟨fun h => ⟨h.1.symm, h.2.symm⟩, fun h => ⟨h.1.symm, h.2.symm⟩⟩
  · rw [if_neg hempty, Option.bind_eq_bind, Option.bind_eq_some_iff]
    simp only [hempty, false_and, not_false_eq_true, true_and, false_or]
    constructor
    · rintro ⟨⟨first, between⟩, hfirst, hrest⟩
      refine ⟨first, between, answer_of_eq_some.mp hfirst, ?_⟩
      cases first with
      | true => exact .inl ⟨rfl, by simpa [eq_comm] using hrest⟩
      | false => exact .inr ⟨rfl, answer_of_eq_some.mp hrest⟩
    · rintro ⟨first, between, hfirst, ⟨rfl, rfl, hlast⟩ | ⟨rfl, hrest⟩⟩
      · exact ⟨(true, between), answer_of_eq_some.mpr hfirst, by rw [hlast]; rfl⟩
      · exact ⟨(false, between), answer_of_eq_some.mpr hfirst, answer_of_eq_some.mpr hrest⟩

theorem payload_iff {parsed : ParsedPacket} :
    ¬ (parsed.valid = false ∨ parsed.app_data.len = 0) ↔
      parsed.valid = true ∧ parsed.app_data.len ≠ 0 := by
  rw [not_or, Bool.not_eq_false]

theorem filter_packet_true : filter_packet data pdef = some (true, pdef') ↔
    Accepts data pdef pdef' := by
  rw [filter_packet_eq_some]
  refine exists_congr fun parsed => and_congr_right fun _ => ?_
  rw [payload_iff]
  constructor
  · rintro (⟨-, hno, -⟩ | ⟨⟨hvalid, hlen⟩, first, between, hfirst, ⟨rfl, -, hlast⟩ | ⟨rfl, hsecond⟩⟩)
    · cases hno
    · exact ⟨hvalid, hlen, .inl (hlast ▸ hfirst)⟩
    · exact ⟨hvalid, hlen, .inr ⟨between, hfirst, hsecond⟩⟩
  · rintro ⟨hvalid, hlen, hfirst | ⟨between, hfirst, hsecond⟩⟩
    · exact .inr ⟨⟨hvalid, hlen⟩, true, pdef', hfirst, .inl ⟨rfl, rfl, rfl⟩⟩
    · exact .inr ⟨⟨hvalid, hlen⟩, false, between, hfirst, .inr ⟨rfl, hsecond⟩⟩

theorem filter_packet_false : filter_packet data pdef = some (false, pdef') ↔
    Refuses data pdef pdef' := by
  rw [filter_packet_eq_some]
  refine exists_congr fun parsed => and_congr_right fun _ => or_congr ?_ ?_
  · simp only [true_and]
  · rw [payload_iff, and_assoc]
    refine and_congr_right fun _ => and_congr_right fun _ => ?_
    constructor
    · rintro ⟨first, between, hfirst, ⟨-, hyes, -⟩ | ⟨rfl, hsecond⟩⟩
      · cases hyes
      · exact ⟨between, hfirst, hsecond⟩
    · rintro ⟨between, hfirst, hsecond⟩
      exact ⟨false, between, hfirst, .inr ⟨rfl, hsecond⟩⟩

/-- **The loop of the source keeps the packets that are accepted.** -/
theorem filter_packets_iff {packets kept : List Packet} :
    filter_packets packets pdef = some (kept, pdef') ↔ Filters pdef packets kept pdef' := by
  induction packets generalizing pdef kept with
  | nil =>
    constructor
    · intro h
      cases h
      exact .done _
    · intro h
      cases h
      rfl
  | cons data rest ih =>
    rw [filter_packets, Option.bind_eq_bind, Option.bind_eq_some_iff]
    constructor
    · rintro ⟨⟨matched, between⟩, hhead, htail⟩
      dsimp only at htail
      obtain ⟨⟨kept', last⟩, hrest, hkept⟩ := Option.bind_eq_some_iff.mp htail
      rw [Option.pure_def, Option.some.injEq, Prod.mk.injEq] at hkept
      obtain ⟨rfl, rfl⟩ := hkept
      cases matched with
      | true => exact .keep (filter_packet_true.mp hhead) (ih.mp hrest)
      | false => exact .drop (filter_packet_false.mp hhead) (ih.mp hrest)
    · intro h
      cases h with
      | keep head tail =>
        refine ⟨(true, _), filter_packet_true.mpr head, ?_⟩
        dsimp only
        rw [ih.mpr tail]
        rfl
      | drop head tail =>
        refine ⟨(false, _), filter_packet_false.mpr head, ?_⟩
        dsimp only
        rw [ih.mpr tail]
        rfl

end Filters

/-! ## What is lost -/

/-- When the raw file is gone, it was read to its end, and the filtered file
holds what was accepted. -/
def NothingLost (raw_msg : SRxCaptureRawFileMsgV2) (world : DiskWorld) : Prop :=
  ∀ disk, handle_raw_file_disk raw_msg world = some disk → disk.raw = false →
    world.ending = .end_of_file ∧
    ∃ pdef packets kept pdef', load_pdef raw_msg world.toFilterWorld = .accepted pdef ∧
      world.raw_pcap = some packets ∧ Filters pdef packets kept pdef' ∧ disk.filtered = some kept

/-- The raw file is filtered with a protocol: both files open. -/
structure Processed (raw_msg : SRxCaptureRawFileMsgV2) (world : DiskWorld) (pdef : ProtocolDef)
    (packets : List Packet) : Prop where
  has_pdef_filter : raw_msg.has_pdef_filter = true
  loaded : load_pdef raw_msg world.toFilterWorld = .accepted pdef
  raw_pcap : world.raw_pcap = some packets
  output_opens : world.output_opens = true

/-- `n` packets get to the disk. -/
def Stores (world : DiskWorld) (n : ℕ) : Prop :=
  (∀ i < n, world.dumps i = true) ∧ (world.closes = true ∨ world.buffered = 0 ∨ n = 0)

theorem stored_packets_eq_iff (world : DiskWorld) (kept : List Packet) :
    stored_packets world kept = kept ↔ Stores world kept.length := by
  have hfirst : kept.zipIdx.map Prod.fst = kept := List.zipIdx_map_fst 0 kept
  have hlength : kept.zipIdx.length = kept.length := List.length_zipIdx
  have hall : (∀ entry ∈ kept.zipIdx, world.dumps entry.2 = true) ↔
      ∀ i < kept.length, world.dumps i = true := by
    constructor
    · intro h i hi
      exact h (kept[i], i) (List.mk_mem_zipIdx_iff_getElem?.mpr (List.getElem?_eq_getElem hi))
    · rintro h ⟨data, i⟩ hmem
      exact h i (List.getElem?_eq_some_iff.mp (List.mk_mem_zipIdx_iff_getElem?.mp hmem)).1
  have hwritten := List.length_filter_le (fun entry => world.dumps entry.2) kept.zipIdx
  rw [Stores, ← hall]
  constructor
  · intro h
    have hsize := congrArg List.length h
    rw [stored_packets] at hsize
    have hfull : (kept.zipIdx.filter fun entry => world.dumps entry.2).length
        = kept.zipIdx.length := by
      split at hsize
      · rw [List.length_map] at hsize
        omega
      · rw [List.length_take, List.length_map] at hsize
        omega
    refine ⟨List.length_filter_eq_length_iff.mp hfull, ?_⟩
    split at hsize
    · exact .inl (by assumption)
    · rw [List.length_take, List.length_map] at hsize
      omega
  · rintro ⟨hdumps, hclose⟩
    have hkept : (kept.zipIdx.filter fun entry => world.dumps entry.2).map Prod.fst = kept := by
      rw [List.filter_eq_self.mpr hdumps, hfirst]
    rw [stored_packets, hkept]
    split
    · rfl
    · rcases hclose with hcloses | hnone | hempty
      · contradiction
      · rw [hnone, Nat.sub_zero, List.take_length]
      · rw [List.length_eq_zero_iff.mp hempty, List.take_nil]

/-- The raw file is gone only after it was processed. -/
theorem removed_iff {raw_msg : SRxCaptureRawFileMsgV2} {world : DiskWorld} {disk : Disk} :
    (handle_raw_file_disk raw_msg world = some disk ∧ disk.raw = false) ↔
      ∃ pdef packets kept pdef', Processed raw_msg world pdef packets ∧
        Filters pdef packets kept pdef' ∧ world.unlinks = true ∧
        disk = { raw := false, filtered := some (stored_packets world kept) } := by
  constructor
  · rintro ⟨hdisk, hraw⟩
    have hthere : some ({} : Disk) ≠ some disk := by
      intro h
      rw [← Option.some.inj h] at hraw
      cases hraw
    unfold handle_raw_file_disk at hdisk
    split at hdisk
    · exact absurd hdisk hthere
    · rename_i hfilter
      split at hdisk
      · cases hdisk
      · exact absurd hdisk hthere
      · rename_i pdef hpdef
        split at hdisk
        · exact absurd hdisk hthere
        · rename_i packets hpackets
          split at hdisk
          · exact absurd hdisk hthere
          · rename_i hopens
            obtain ⟨⟨kept, pdef'⟩, hkept, hresult⟩ := Option.bind_eq_some_iff.mp hdisk
            rw [Option.pure_def, Option.some.injEq] at hresult
            rw [← hresult] at hraw
            have hunlinks : world.unlinks = true := by simpa using hraw
            refine ⟨pdef, packets, kept, pdef', ⟨?_, hpdef, hpackets, ?_⟩,
              filter_packets_iff.mp hkept, hunlinks, ?_⟩
            · simpa using hfilter
            · simpa using hopens
            · rw [← hresult, hunlinks]
              rfl
  · rintro ⟨pdef, packets, kept, pdef', hprocessed, hfilters, hunlinks, rfl⟩
    refine ⟨?_, rfl⟩
    rw [handle_raw_file_disk, if_neg (by simp [hprocessed.has_pdef_filter]), hprocessed.loaded]
    simp only [hprocessed.raw_pcap]
    rw [if_neg (by simp [hprocessed.output_opens]), filter_packets_iff.mpr hfilters, hunlinks]
    rfl

/-- **Nothing is lost exactly when** the raw file was read to its end and every
packet kept was stored, whenever it can be removed. -/
theorem nothing_lost_iff (raw_msg : SRxCaptureRawFileMsgV2) (world : DiskWorld) :
    NothingLost raw_msg world ↔ ∀ pdef packets kept pdef',
      Processed raw_msg world pdef packets → Filters pdef packets kept pdef' →
      world.unlinks = true → world.ending = .end_of_file ∧ Stores world kept.length := by
  constructor
  · intro h pdef packets kept pdef' hprocessed hfilters hunlinks
    have hremoved := removed_iff.mpr ⟨pdef, packets, kept, pdef', hprocessed, hfilters, hunlinks, rfl⟩
    obtain ⟨hending, other, packets', kept', last, hother, hraw, hsame, hfiltered⟩ :=
      h _ hremoved.1 hremoved.2
    -- the protocol and the packets are those of the message
    rw [hprocessed.loaded] at hother
    cases hother
    rw [hprocessed.raw_pcap] at hraw
    cases hraw
    have hkept := (filter_packets_iff.mpr hfilters).symm.trans (filter_packets_iff.mpr hsame)
    cases hkept
    exact ⟨hending, (stored_packets_eq_iff world kept).mp (Option.some.inj hfiltered)⟩
  · intro h disk hdisk hraw
    obtain ⟨pdef, packets, kept, pdef', hprocessed, hfilters, hunlinks, rfl⟩ :=
      removed_iff.mp ⟨hdisk, hraw⟩
    obtain ⟨hending, hstores⟩ := h pdef packets kept pdef' hprocessed hfilters hunlinks
    refine ⟨hending, pdef, packets, kept, pdef', hprocessed.loaded, hprocessed.raw_pcap, hfilters, ?_⟩
    rw [(stored_packets_eq_iff world kept).mpr hstores]

/-- A raw file to be filtered with a protocol of its own. -/
def inline_raw_file : SRxCaptureRawFileMsgV2 where
  capture_id := 1
  raw_pcap_path := "a_raw.pcap".toList
  pdef_inline_content :=
    "@protocol \x7b endian = big \x7d H \x7b uint8 x; \x7d @filter f \x7b x = 1; \x7d".toList
  has_pdef_filter := true

/-- Its first record is damaged. -/
def damaged_world : DiskWorld where
  pdef_file := none
  raw_pcap := some []
  output_opens := true
  file_size := 24
  ending := .read_error
  dumps := fun _ => true
  closes := true
  buffered := 0
  unlinks := true

set_option maxRecDepth 100000 in
/-- The file is removed with all its packets. -/
theorem damaged_file_removed : ¬ NothingLost inline_raw_file damaged_world := by
  intro h
  have hdisk : handle_raw_file_disk inline_raw_file damaged_world
      = some { raw := false, filtered := some [] } := by decide +kernel
  cases (h _ hdisk rfl).1

end RxNetCap.Capture
