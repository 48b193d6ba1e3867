/-
How much the segments of a capture hold, and the null dumper.

`dump_cb` starts a new segment for a packet that the open one has no room for,
so no segment with more than one packet passes the byte limit
(`dump_all_bounded`). When the new segment cannot be opened, that packet is
lost, and the next one finds no dumper: the test for a full segment is only
made when there is a dumper, and the write is not. So a run stays bounded
exactly when nothing follows a packet whose segment does not open
(`stays_bounded_iff`). `write_packet`, the same loop body in the filter thread,
tests for the dumper before anything else, and all its runs are within the
limit (`write_all_stays_bounded`).
-/
import RxNetCap.Capture.Storage

set_option autoImplicit false

namespace RxNetCap.Capture

open RxNetCap.Pdef RxNetCap.Runtime

/-! ## Segments -/

/-- What a segment holds, by the count of `written`. -/
def Dumper.bytes (segment : Dumper) : ℤ := (segment.packets.map pkt_bytes).sum

def CRxDumpCtx.segments (dc : CRxDumpCtx) : List Dumper := dc.closed ++ dc.d.toList

/-- At most the limit, or a packet alone. -/
def Held (max_bytes : ℤ) (segment : Dumper) : Prop :=
  segment.bytes ≤ max_bytes ∨ ∃ data, segment.packets = [data]

/-- A run of `dump`, stopped anywhere: the program is still there, and every
segment is bounded. -/
def StaysBounded (dump : CRxDumpCtx → Delivery → Option CRxDumpCtx) (dc : CRxDumpCtx)
    (packets : List Delivery) : Prop :=
  ∀ front, front <+: packets → ∃ dc', front.foldlM dump dc = some dc' ∧
    ∀ segment ∈ dc'.segments, Held dc.max_bytes segment

/-- A capture that has opened its first segment. -/
structure Opened (dc : CRxDumpCtx) : Prop where
  limited : 0 < dc.max_bytes
  first : dc.closed = []
  empty : ∃ path, dc.d = some { path }
  nothing : dc.written = 0

/-- `written` is what the open segment holds, and no segment holds too much. -/
structure Segmented (dc : CRxDumpCtx) : Prop where
  limited : 0 < dc.max_bytes
  written : ∀ segment ∈ dc.d, dc.written = segment.bytes
  bounded : ∀ segment ∈ dc.segments, Held dc.max_bytes segment

section Segmented

variable {dc dc' : CRxDumpCtx}

theorem Opened.segmented (h : Opened dc) : Segmented dc := by
  obtain ⟨path, hd⟩ := h.empty
  refine ⟨h.limited, ?_, ?_⟩
  · intro segment hsegment
    rw [hd, Option.mem_some_iff] at hsegment
    rw [← hsegment, h.nothing]
    rfl
  · intro segment hsegment
    rw [CRxDumpCtx.segments, h.first, hd] at hsegment
    rw [List.mem_singleton.mp hsegment]
    exact .inl h.limited.le

theorem Dumper.bytes_append (segment : Dumper) (data : Packet) :
    Dumper.bytes { segment with packets := segment.packets ++ [data] }
      = segment.bytes + pkt_bytes data := by
  simp only [Dumper.bytes, List.map_append, List.map_cons, List.map_nil, List.sum_append,
    List.sum_cons, List.sum_nil, Int.add_zero]

/-- A packet that is written leaves the closed segments alone. -/
theorem Segmented.dump (h : Segmented dc) {data : Packet}
    (hroom : dc.written + pkt_bytes data ≤ dc.max_bytes ∨ ∃ path, dc.d = some { path })
    (hdump : dump_packet data dc = some dc') : Segmented dc' ∧ dc'.max_bytes = dc.max_bytes := by
  cases hd : dc.d with
  | none => simp [dump_packet, pcap_dump, hd] at hdump
  | some segment =>
    simp only [dump_packet, pcap_dump, hd, Option.map_some, Option.some.injEq] at hdump
    have hwritten := h.written segment hd
    have hbytes := segment.bytes_append data
    subst hdump
    refine ⟨⟨h.limited, ?_, ?_⟩, rfl⟩
    · intro open_segment hopen
      rw [← Option.some.inj hopen, hbytes, ← hwritten]
    · intro other hother
      rcases List.mem_append.mp hother with hclosed | hopen
      · exact h.bounded other (List.mem_append_left _ hclosed)
      · rw [List.mem_singleton.mp hopen]
        rcases hroom with hfits | ⟨path, hempty⟩
        · exact .inl (by rw [hbytes, ← hwritten]; exact hfits)
        · rw [hd, Option.some.injEq] at hempty
          exact .inr ⟨data, by rw [hempty]; rfl⟩

/-- A new segment is empty, and the old one is bounded. -/
theorem Segmented.rotate (h : Segmented dc) (world : OpenWorld) :
    Segmented (rotate_open world dc) := by
  have hnew : ∀ segment ∈ (rotate_open world dc).d, segment.bytes = 0 := by
    intro segment hsegment
    simp only [rotate_open, pcap_dump_open] at hsegment
    split at hsegment
    · rw [← Option.some.inj hsegment]
      rfl
    · cases hsegment
  refine ⟨h.limited, ?_, ?_⟩
  · intro segment hsegment
    rw [hnew segment hsegment]
    rfl
  · intro segment hsegment
    rcases List.mem_append.mp hsegment with hclosed | hopen
    · exact h.bounded segment hclosed
    · refine .inl ?_
      rw [hnew segment (Option.mem_toList.mp hopen)]
      exact h.limited.le

/-- **A packet keeps the segments bounded.** -/
theorem Segmented.dump_cb (h : Segmented dc) {head : Delivery}
    (hdump : dump_cb dc head = some dc') : Segmented dc' ∧ dc'.max_bytes = dc.max_bytes := by
  unfold Capture.dump_cb at hdump
  split at hdump
  · have hrotated := h.rotate head.world
    dsimp only at hdump
    split at hdump
    · rw [← Option.some.inj hdump]
      exact ⟨hrotated, rfl⟩
    · rename_i hopen
      refine hrotated.dump (.inr ?_) hdump
      simp only [rotate_open, pcap_dump_open] at hopen ⊢
      split
      · exact ⟨_, rfl⟩
      · rename_i hfails
        exact absurd (if_neg hfails) hopen
  · rename_i hroom
    cases hd : dc.d with
    | none => simp [dump_packet, pcap_dump, hd] at hdump
    | some segment =>
      refine h.dump (.inl ?_) hdump
      simp only [hd, Option.isSome_some, segment_full, decide_eq_true_eq, true_and, not_and,
        not_lt] at hroom
      exact hroom h.limited

end Segmented

/-! ## Runs of `dump_cb` -/

/-- **Every segment of a run is bounded.** -/
theorem dump_all_bounded {dc dc' : CRxDumpCtx} (h : Segmented dc) {packets : List Delivery}
    (hrun : packets.foldlM dump_cb dc = some dc') :
    Segmented dc' ∧ dc'.max_bytes = dc.max_bytes := by
  induction packets generalizing dc with
  | nil =>
    rw [← Option.some.inj hrun]
    exact ⟨h, rfl⟩
  | cons head rest ih =>
    obtain ⟨next, hnext, hrest⟩ := Option.bind_eq_some_iff.mp hrun
    obtain ⟨hsegmented, hsame⟩ := h.dump_cb hnext
    obtain ⟨hlast, hmax⟩ := ih hsegmented hrest
    exact ⟨hlast, hmax.trans hsame⟩

/-- **A run is within the limit exactly when no packet follows one whose
segment could not be opened.** -/
theorem stays_bounded_iff {dc : CRxDumpCtx} (h : Opened dc) (packets : List Delivery) :
    StaysBounded dump_cb dc packets ↔ (refused dc.max_bytes 0 packets).length ≤ 1 := by
  obtain ⟨path, hd⟩ := h.empty
  obtain ⟨front, -, hfits, hcrash⟩ := dump_all_spec (show dc.d.isSome = true by rw [hd]; rfl) packets
  rw [h.nothing] at hfits hcrash
  constructor
  · intro hwithin
    obtain ⟨dc', hrun, -⟩ := hwithin packets (List.prefix_refl packets)
    by_contra hlong
    rw [hcrash (by omega)] at hrun
    cases hrun
  · rintro hshort before ⟨after, rfl⟩
    obtain ⟨dc'', hrun, -⟩ := hfits hshort
    rw [List.foldlM_append] at hrun
    obtain ⟨dc', hbefore, -⟩ := Option.bind_eq_some_iff.mp hrun
    obtain ⟨hsegmented, hmax⟩ := dump_all_bounded h.segmented hbefore
    exact ⟨dc', hbefore, hmax ▸ hsegmented.bounded⟩

/-- A capture with room for one packet of a byte in each segment. -/
def small_capture : CRxDumpCtx := { d := some { path := "x.pcap".toList }, max_bytes := 30 }

/-- A packet of one byte. -/
def byte_packet (b : UInt8) : Packet where
  bytes := [b]
  length_lt := Nat.one_lt_two_pow (by decide)

/-- Three packets of a byte; the second segment does not open. -/
def three_packets : List Delivery :=
  [{ data := byte_packet 0 }, { data := byte_packet 1, world := { opens := false } },
    { data := byte_packet 2 }]

/-- The third packet is written through a null pointer. -/
theorem null_dumper : Opened small_capture ∧ ¬ StaysBounded dump_cb small_capture three_packets := by
  refine ⟨⟨by decide, rfl, ⟨_, rfl⟩, rfl⟩, fun hwithin => ?_⟩
  obtain ⟨dc', hrun, -⟩ := hwithin three_packets (List.prefix_refl _)
  rw [show three_packets.foldlM dump_cb small_capture = none by decide] at hrun
  cases hrun

theorem small_capture_stays_bounded_iff :
    StaysBounded dump_cb small_capture three_packets ↔
      (refused small_capture.max_bytes 0 three_packets).length ≤ 1 :=
  stays_bounded_iff ⟨by decide, rfl, ⟨_, rfl⟩, rfl⟩ three_packets

/-! ## The filter thread -/

/-- `CRxFilterThread::write_packet` -/
def write_packet (dc : CRxDumpCtx) (packet : Delivery) : Option CRxDumpCtx :=
  if dc.d = none then some dc
  else if segment_full dc.max_bytes dc.written packet.data then
    let dc := rotate_open packet.world dc
    if dc.d = none then some dc else dump_packet packet.data dc
  else dump_packet packet.data dc

/-- With an open dumper the two are the same. -/
theorem write_packet_eq {dc : CRxDumpCtx} (hopen : dc.d.isSome = true) (packet : Delivery) :
    write_packet dc packet = dump_cb dc packet := by
  have hsome : dc.d ≠ none := by
    rw [← Option.isSome_iff_ne_none]
    exact hopen
  rw [write_packet, if_neg hsome, dump_cb]
  simp only [hopen, true_and]

theorem write_packet_runs {dc : CRxDumpCtx} (h : Segmented dc) (packet : Delivery) :
    ∃ dc', write_packet dc packet = some dc' ∧ Segmented dc' ∧ dc'.max_bytes = dc.max_bytes := by
  cases hd : dc.d with
  | none => exact ⟨dc, if_pos hd, h, rfl⟩
  | some segment =>
    have hopen : dc.d.isSome = true := by rw [hd]; rfl
    have hruns : ∃ dc', dump_cb dc packet = some dc' := by
      by_cases hfull : segment_full dc.max_bytes dc.written packet.data = true
      · by_cases hopens : packet.world.opens = true
        · obtain ⟨dc', hdump, -⟩ := dump_cb_rotated hopen hfull hopens
          exact ⟨dc', hdump⟩
        · exact ⟨_, (dump_cb_refused hopen hfull (Bool.eq_false_iff.mpr hopens)).1⟩
      · obtain ⟨dc', hdump, -⟩ := dump_cb_room hopen (Bool.eq_false_iff.mpr hfull)
        exact ⟨dc', hdump⟩
    obtain ⟨dc', hdump⟩ := hruns
    exact ⟨dc', (write_packet_eq hopen packet).trans hdump, h.dump_cb hdump⟩

theorem write_all_bounded {dc : CRxDumpCtx} (h : Segmented dc) (packets : List Delivery) :
    ∃ dc', packets.foldlM write_packet dc = some dc' ∧ Segmented dc' ∧
      dc'.max_bytes = dc.max_bytes := by
  induction packets generalizing dc with
  | nil => exact ⟨dc, rfl, h, rfl⟩
  | cons head rest ih =>
    obtain ⟨next, hnext, hsegmented, hsame⟩ := write_packet_runs h head
    obtain ⟨dc', hrest, hlast, hmax⟩ := ih hsegmented
    refine ⟨dc', ?_, hlast, hmax.trans hsame⟩
    rw [List.foldlM_cons, hnext]
    exact hrest

/-- **The filter thread's writer is within the limit in every run.** -/
theorem write_all_stays_bounded {dc : CRxDumpCtx} (h : Opened dc) (packets : List Delivery) :
    StaysBounded write_packet dc packets := by
  intro front _
  obtain ⟨dc', hrun, hsegmented, hmax⟩ := write_all_bounded h.segmented front
  exact ⟨dc', hrun, hmax ▸ hsegmented.bounded⟩

end RxNetCap.Capture
