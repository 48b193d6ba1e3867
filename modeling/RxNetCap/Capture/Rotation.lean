/-
The segments of a capture: which files it opens.

A packet that would take a segment past the byte limit calls for a new one, and
`rotations` are the worlds in which the new ones are opened. Their names count
up, but only a pattern with the sequence number in it shows that: all segments
of another go to one file, which each of them empties
(`segments_apart_iff`).

The strings that a name is made of come from C strings, so no name is cut at a
NUL when it is opened.
-/
import RxNetCap.Capture.Naming

set_option autoImplicit false

namespace RxNetCap.Capture

open RxNetCap.Pdef RxNetCap.Runtime

/-! ## What is opened -/

/-- The files that were opened, in order. -/
def CRxDumpCtx.opened (dc : CRxDumpCtx) : List CStr := (dc.closed ++ dc.d.toList).map Dumper.path

/-- What opening the further segments meets, as long as they open. -/
def rotations (max_bytes : ℤ) : ℤ → List Delivery → List OpenWorld
  | _, [] => []
  | written, h :: rest =>
    if segment_full max_bytes written h.data then
      if h.world.opens then h.world :: rotations max_bytes (pkt_bytes h.data) rest else []
    else rotations max_bytes (written + pkt_bytes h.data) rest

/-- The names of segments that are numbered from `seq` on. -/
def segment_names (dc : CRxDumpCtx) : ℤ → List OpenWorld → List CStr
  | _, [] => []
  | seq, world :: rest => segment_name dc world seq :: segment_names dc (seq + 1) rest

section Segments

variable {dc dc' : CRxDumpCtx}

/-- A packet that is written goes to the open segment and leaves the rest as it
is. -/
structure Wrote (data : Packet) (dc dc' : CRxDumpCtx) : Prop where
  opened : dc'.opened = dc.opened
  still_open : dc'.d.isSome = true
  seq : dc'.seq = dc.seq
  max_bytes : dc'.max_bytes = dc.max_bytes
  written : dc'.written = dc.written + pkt_bytes data
  current_path : dc'.current_path = dc.current_path
  packets : dc'.packets = dc.packets ++ [data]
  names : ∀ world seq, segment_name dc' world seq = segment_name dc world seq

theorem wrote_of_dump {data : Packet} (h : dump_packet data dc = some dc') : Wrote data dc dc' := by
  cases hd : dc.d with
  | none => simp [dump_packet, pcap_dump, hd] at h
  | some dumper =>
    simp only [dump_packet, pcap_dump, hd, Option.map_some, Option.some.injEq] at h
    rw [← h]
    refine ⟨?_, rfl, rfl, rfl, rfl, rfl, ?_, fun _ _ => rfl⟩
    · simp only [CRxDumpCtx.opened, hd, Option.toList_some, List.map_append, List.map_cons,
        List.map_nil]
    · simp only [CRxDumpCtx.packets, hd, Option.toList_some, List.flatMap_append,
        List.flatMap_cons, List.flatMap_nil, List.append_nil, List.append_assoc]

theorem rotate_open_opens {world : OpenWorld} (hopens : world.opens = true) (dc : CRxDumpCtx) :
    (rotate_open world dc).d = some { path := segment_name dc world (dc.seq + 1) } := by
  simp only [rotate_open, pcap_dump_open, hopens, if_true]
  rfl

theorem opened_rotate {world : OpenWorld} (hopens : world.opens = true) (dc : CRxDumpCtx) :
    (rotate_open world dc).opened = dc.opened ++ [segment_name dc world (dc.seq + 1)] := by
  rw [CRxDumpCtx.opened, rotate_open_opens hopens, CRxDumpCtx.opened]
  simp only [rotate_open, Option.toList_some, List.map_append, List.map_cons, List.map_nil]

theorem rotate_open_names (world : OpenWorld) (dc : CRxDumpCtx) :
    ∀ later seq, segment_name (rotate_open world dc) later seq = segment_name dc later seq :=
  fun _ _ => rfl

/-- The names are about what stays in a context. -/
theorem segment_names_congr (hnames : ∀ world seq, segment_name dc' world seq
    = segment_name dc world seq) (seq : ℤ) (worlds : List OpenWorld) :
    segment_names dc' seq worlds = segment_names dc seq worlds := by
  induction worlds generalizing seq with
  | nil => rfl
  | cons world worlds ih => rw [segment_names, segment_names, hnames, ih]

/-- **What is opened** for a list of packets. -/
theorem dump_all_opened (hopen : dc.d.isSome = true) {packets : List Delivery}
    (h : packets.foldlM dump_cb dc = some dc') :
    dc'.opened = dc.opened
      ++ segment_names dc (dc.seq + 1) (rotations dc.max_bytes dc.written packets) := by
  induction packets generalizing dc with
  | nil =>
    rw [← Option.some.inj h]
    exact (List.append_nil _).symm
  | cons head rest ih =>
    obtain ⟨next, hnext, hrest⟩ := Option.bind_eq_some_iff.mp h
    rw [rotations]
    by_cases hfull : segment_full dc.max_bytes dc.written head.data = true
    · rw [dump_cb, if_pos ⟨hopen, hfull⟩] at hnext
      dsimp only at hnext
      rw [if_pos hfull]
      by_cases hopens : head.world.opens = true
      · rw [if_neg (by rw [rotate_open_opens hopens]; exact Option.some_ne_none _)] at hnext
        have hwrote := wrote_of_dump hnext
        have hwritten : next.written = pkt_bytes head.data :=
          hwrote.written.trans (Int.zero_add _)
        rw [ih hwrote.still_open hrest, if_pos hopens, segment_names, hwrote.opened,
          opened_rotate hopens, segment_names_congr hwrote.names,
          segment_names_congr (rotate_open_names head.world dc), hwrote.seq, hwrote.max_bytes,
          hwritten, List.append_assoc]
        rfl
      · -- the packet is lost, and no other may follow
        have hnone : (rotate_open head.world dc).d = none :=
          (dump_cb_refused hopen hfull (Bool.eq_false_iff.mpr hopens)).2
        rw [if_pos hnone] at hnext
        obtain rfl := Option.some.inj hnext
        rw [if_neg hopens]
        cases rest with
        | nil =>
          rw [← Option.some.inj hrest, CRxDumpCtx.opened, hnone]
          simp only [rotate_open, segment_names, Option.toList_none, List.append_nil]
          rfl
        | cons other rest =>
          rw [List.foldlM_cons, dump_cb_closed hnone] at hrest
          cases hrest
    · rw [dump_cb, if_neg (fun hboth => hfull hboth.2)] at hnext
      have hwrote := wrote_of_dump hnext
      rw [ih hwrote.still_open hrest, if_neg hfull, hwrote.opened,
        segment_names_congr hwrote.names, hwrote.seq, hwrote.max_bytes, hwrote.written]

end Segments

/-! ## Segments of one capture -/

/-- What opening the segments of a capture meets, the first one too. -/
def segments (dc : CRxDumpCtx) (world : OpenWorld) (packets : List Delivery) : List OpenWorld :=
  if world.opens then world :: rotations dc.max_bytes 0 packets else []

/-- The patterns of segments numbered from `seq` on, as they are filled in. -/
def segment_fillings (dc : CRxDumpCtx) : ℤ → List OpenWorld → List CStr
  | _, [] => []
  | seq, world :: rest => segment_filling dc world seq :: segment_fillings dc (seq + 1) rest

/-- With its time fixed, a capture has one segment, or the sequence number is
in its pattern. Without one, each segment takes the time at which it is opened,
and no two of the texts that fill in the pattern are the same. -/
def NamesApart (dc : CRxDumpCtx) (worlds : List OpenWorld) : Prop :=
  if dc.start_time ≠ 0 then
    worlds.length ≤ 1 ∨ Piece.placeholder "seq".toList ∈ dc.parts
  else (segment_fillings dc (dc.seq + 1) worlds).Nodup

instance (dc : CRxDumpCtx) (worlds : List OpenWorld) : Decidable (NamesApart dc worlds) := by
  unfold NamesApart
  infer_instance

section Names

variable {dc : CRxDumpCtx} {world : OpenWorld}

theorem mem_segment_names {name : CStr} {seq : ℤ} {worlds : List OpenWorld}
    (h : name ∈ segment_names dc seq worlds) :
    ∃ later world, world ∈ worlds ∧ seq ≤ later ∧ name = segment_name dc world later := by
  induction worlds generalizing seq with
  | nil => cases h
  | cons world worlds ih =>
    rcases List.mem_cons.mp h with rfl | h
    · exact ⟨seq, world, List.mem_cons_self, le_rfl, rfl⟩
    · obtain ⟨later, found, hfound, hle, hname⟩ := ih h
      exact ⟨later, found, List.mem_cons_of_mem _ hfound, by omega, hname⟩

/-- Names are as different as the texts they are made from. -/
theorem names_nodup_iff (seq : ℤ) (worlds : List OpenWorld) :
    (segment_names dc seq worlds).Nodup ↔ (segment_fillings dc seq worlds).Nodup := by
  have hmem : ∀ (world : OpenWorld) (seq later : ℤ) (worlds : List OpenWorld),
      segment_name dc world seq ∈ segment_names dc later worlds
        ↔ segment_filling dc world seq ∈ segment_fillings dc later worlds := by
    intro world seq later worlds
    induction worlds generalizing later with
    | nil => simp [segment_names, segment_fillings]
    | cons next worlds ih =>
      rw [segment_names, segment_fillings, List.mem_cons, List.mem_cons, segment_name_eq_iff, ih]
  induction worlds generalizing seq with
  | nil => exact iff_of_true List.nodup_nil List.nodup_nil
  | cons world worlds ih =>
    rw [segment_names, segment_fillings, List.nodup_cons, List.nodup_cons]
    exact and_congr (not_congr (hmem world seq (seq + 1) worlds)) (ih (seq + 1))

/-- The sequence number keeps them apart. -/
theorem names_nodup_of_seq (hstart : dc.start_time ≠ 0)
    (hseq : Piece.placeholder "seq".toList ∈ dc.parts) {worlds : List OpenWorld}
    (hlocal : ∀ w ∈ worlds, w.localtime = world.localtime) (seq : ℤ) :
    (segment_names dc seq worlds).Nodup := by
  induction worlds generalizing seq with
  | nil => exact List.nodup_nil
  | cons first worlds ih =>
    rw [segment_names, List.nodup_cons]
    refine ⟨fun hmem => ?_, ih (fun w hw => hlocal w (List.mem_cons_of_mem _ hw)) _⟩
    obtain ⟨later, found, hfound, hle, hname⟩ := mem_segment_names hmem
    have hsame := (hlocal first List.mem_cons_self).trans
      (hlocal found (List.mem_cons_of_mem _ hfound)).symm
    have heq := segment_filling_inj hstart hsame hseq (segment_name_eq_iff.mp hname)
    omega

/-- Without it two segments have one name. -/
theorem not_names_nodup (hstart : dc.start_time ≠ 0)
    (hseq : Piece.placeholder "seq".toList ∉ dc.parts) {worlds : List OpenWorld}
    (hlocal : ∀ w ∈ worlds, w.localtime = world.localtime) (htwo : 1 < worlds.length) (seq : ℤ) :
    ¬ (segment_names dc seq worlds).Nodup := by
  match worlds, htwo with
  | first :: second :: worlds, _ =>
    intro hnodup
    rw [segment_names, List.nodup_cons] at hnodup
    refine hnodup.1 ?_
    have hsame := (hlocal first List.mem_cons_self).trans
      (hlocal second (List.mem_cons_of_mem _ List.mem_cons_self)).symm
    rw [segment_names, segment_name_eq_iff.mpr (segment_filling_same hstart hsame hseq)]
    exact List.mem_cons_self

end Names

theorem mem_rotations {max_bytes written : ℤ} {packets : List Delivery} {world : OpenWorld}
    (h : world ∈ rotations max_bytes written packets) : ∃ head ∈ packets, head.world = world := by
  induction packets generalizing written with
  | nil => cases h
  | cons head rest ih =>
    have hrest : ∀ {written}, world ∈ rotations max_bytes written rest →
        ∃ found ∈ head :: rest, found.world = world := by
      intro written hmem
      obtain ⟨found, hfound, heq⟩ := ih hmem
      exact ⟨found, List.mem_cons_of_mem _ hfound, heq⟩
    rw [rotations] at h
    split at h
    · split at h
      · rcases List.mem_cons.mp h with rfl | h
        · exact ⟨head, List.mem_cons_self, rfl⟩
        · exact hrest h
      · cases h
    · exact hrest h

/-- A capture opens its first file and then a new one for each rotation. -/
theorem opened_eq {dc dc' : CRxDumpCtx} {world : OpenWorld} {packets : List Delivery}
    (fresh : dc.closed = [] ∧ dc.d = none)
    (run : packets.foldlM dump_cb (rotate_open world dc) = some dc') :
    dc'.opened = segment_names dc (dc.seq + 1) (segments dc world packets) := by
  have hnothing : dc.opened = [] := by rw [CRxDumpCtx.opened, fresh.1, fresh.2]; rfl
  unfold segments
  by_cases hopens : world.opens = true
  · have hopen : (rotate_open world dc).d.isSome = true := by rw [rotate_open_opens hopens]; rfl
    rw [dump_all_opened hopen run, opened_rotate hopens, hnothing, if_pos hopens, segment_names,
      segment_names_congr (rotate_open_names world dc)]
    rfl
  · have hnone : (rotate_open world dc).d = none := by
      simp only [rotate_open, pcap_dump_open, if_neg hopens]
    rw [if_neg hopens]
    cases packets with
    | nil =>
      rw [← Option.some.inj run, CRxDumpCtx.opened, hnone]
      simp only [rotate_open, fresh.1, fresh.2, segment_names]
      rfl
    | cons head rest =>
      rw [List.foldlM_cons, dump_cb_closed hnone] at run
      cases run

/-- **When segments are kept apart.** The files that the segments of a capture
are opened in are different exactly when there is one segment, or the pattern
has the sequence number in it. -/
theorem segments_apart_iff {dc dc' : CRxDumpCtx} {world : OpenWorld} {packets : List Delivery}
    (fresh : dc.closed = [] ∧ dc.d = none)
    (timezone : ∀ h ∈ packets, h.world.localtime = world.localtime)
    (run : packets.foldlM dump_cb (rotate_open world dc) = some dc') :
    dc'.opened.Nodup ↔ NamesApart dc (segments dc world packets) := by
  have hlocal : ∀ w ∈ segments dc world packets, w.localtime = world.localtime := by
    intro w hw
    unfold segments at hw
    split at hw
    · rcases List.mem_cons.mp hw with rfl | hw
      · rfl
      · obtain ⟨head, hmem, rfl⟩ := mem_rotations hw
        exact timezone head hmem
    · cases hw
  rw [opened_eq fresh run, NamesApart]
  by_cases hstart : dc.start_time ≠ 0
  · rw [if_pos hstart]
    by_cases hseq : Piece.placeholder "seq".toList ∈ dc.parts
    · exact iff_of_true (names_nodup_of_seq hstart hseq hlocal _) (.inr hseq)
    · rw [or_iff_left hseq]
      constructor
      · intro hnodup
        exact not_lt.mp fun htwo => not_names_nodup hstart hseq hlocal htwo _ hnodup
      · intro hone
        match hsegments : segments dc world packets, hone with
        | [], _ => exact List.nodup_nil
        | [_], _ => exact List.nodup_singleton _
  · rw [if_neg hstart]
    exact names_nodup_iff _ _

/-! ## Two packets, two segments -/

def one_byte : Packet where
  bytes := [0]
  length_lt := by decide

/-- A context with room for one such packet in a segment. -/
def small_segments (pattern : CStr) : CRxDumpCtx :=
  { max_bytes := 30, start_time := 1, iface := "eth0".toList, pattern }

def two_packets : List Delivery := [{ data := one_byte }, { data := one_byte }]

/-- The numbers of the segments keep them apart. -/
theorem segments_apart_iff_numbered : ∃ dc',
    two_packets.foldlM dump_cb (rotate_open {} (small_segments "\x7bseq\x7d.pcap".toList))
      = some dc' ∧ dc'.opened.Nodup := by
  have hruns : (two_packets.foldlM dump_cb
      (rotate_open {} (small_segments "\x7bseq\x7d.pcap".toList))).isSome = true := by
    decide +kernel
  have hlocal : ∀ h ∈ two_packets, h.world.localtime = OpenWorld.localtime {} := by
    intro h hmem
    rcases List.mem_cons.mp hmem with rfl | hmem
    · rfl
    · rw [List.mem_singleton.mp hmem]
  obtain ⟨dc', run⟩ := Option.isSome_iff_exists.mp hruns
  exact ⟨dc', run, (segments_apart_iff ⟨rfl, rfl⟩ hlocal run).mpr (by decide +kernel)⟩

/-- With the default pattern the second segment empties the first. -/
theorem second_segment_overwrites : ∃ dc',
    two_packets.foldlM dump_cb (rotate_open {} (small_segments [])) = some dc' ∧
      ¬ dc'.opened.Nodup := by
  have hruns : ((two_packets.foldlM dump_cb (rotate_open {} (small_segments []))).any
      fun dc' => ¬ dc'.opened.Nodup) = true := by
    decide +kernel
  obtain ⟨dc', run, hopened⟩ := (Option.any_eq_true _ _).mp hruns
  exact ⟨dc', run, of_decide_eq_true hopened⟩

end RxNetCap.Capture
