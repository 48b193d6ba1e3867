/-
The files that a capture writes, from `src/rxstorageutils.cpp`: their names,
their rotation and `dump_cb`.

A dumper is what has been written through it so far. A packet is its captured
bytes, so `caplen` is their number. What opening a file meets is an
`OpenWorld`; directories are made on the way and only show in whether the file
opens.
-/
import Mathlib.Data.List.Infix
import RxNetCap.Capture.Request
import RxNetCap.Runtime.Executor

set_option autoImplicit false

namespace RxNetCap.Capture

open RxNetCap.Pdef RxNetCap.Runtime

/-! ## Names of files -/

/-- The fields of a `struct tm` that are printed. -/
structure Tm where
  tm_year : ℤ := 70
  tm_mon : ℤ := 0
  tm_mday : ℤ := 1
  tm_hour : ℤ := 0
  tm_min : ℤ := 0
  deriving DecidableEq, Repr

/-- Whether `pcap_dump_open` succeeds, `time(NULL)`, and `localtime_r`. -/
structure OpenWorld where
  opens : Bool := true
  now : ℤ := 0
  localtime : ℤ → Tm := fun _ => {}

/-- What has been written through a dumper, and to which file. -/
structure Dumper where
  path : CStr
  packets : List Packet := []
  deriving DecidableEq

/-- `closed` are the dumpers that were closed, the latest last. -/
structure CRxDumpCtx where
  d : Option Dumper := none
  closed : List Dumper := []
  max_bytes : ℤ := 0
  written : ℤ := 0
  seq : ℤ := 0
  start_time : ℤ := 0
  base_dir : CStr := []
  pattern : CStr := []
  category : CStr := []
  iface : CStr := []
  proc : CStr := []
  port : ℤ := 0
  current_path : CStr := []
  protocol_filter_path : CStr := []
  deriving DecidableEq

/-- `%0wd` -/
def zero_padded (width : ℕ) (n : ℤ) : CStr :=
  let digits := Nat.toDigits 10 n.natAbs
  if n < 0 then '-' :: digits.leftpad (width - 1) '0' else digits.leftpad width '0'

def join_path (a b : CStr) : CStr :=
  if b = [] then a
  else if b.head? = some '/' then b
  else if a = [] then b
  else if a.getLast? = some '/' then a ++ b
  else a ++ '/' :: b

/-- A pattern is plain characters and placeholders. -/
inductive Piece where
  | plain (c : Char)
  | placeholder (key : CStr)
  deriving DecidableEq, Repr

/-- The pieces of a pattern; `key` is what has been read of a placeholder. A
brace that is never closed is a plain character. -/
def pieces : Option CStr → CStr → List Piece
  | _, [] => []
  | none, c :: rest =>
    if c = '\x7b' ∧ '\x7d' ∈ rest then pieces (some []) rest else .plain c :: pieces none rest
  | some key, c :: rest =>
    if c = '\x7d' then .placeholder key :: pieces none rest else pieces (some (key ++ [c])) rest

def default_pattern : CStr :=
  "\x7bday\x7d/\x7bdate\x7d-\x7biface\x7d-\x7bproc\x7d-\x7bport\x7d.pcap".toList

def CRxDumpCtx.base_time (world : OpenWorld) (dc : CRxDumpCtx) : ℤ :=
  if dc.start_time ≠ 0 then dc.start_time else world.now

/-- The text for a placeholder; an unknown one stands for its name. -/
def CRxDumpCtx.placeholder_text (world : OpenWorld) (dc : CRxDumpCtx) (key : CStr) : CStr :=
  let tm := world.localtime (dc.base_time world)
  let day := zero_padded 4 (tm.tm_year + 1900) ++ zero_padded 2 (tm.tm_mon + 1)
    ++ zero_padded 2 tm.tm_mday
  if key = "day".toList then day
  else if key = "date".toList then day ++ zero_padded 2 tm.tm_hour ++ zero_padded 2 tm.tm_min
  else if key = "ts".toList then decimal (dc.base_time world % 2 ^ 64)
  else if key = "iface".toList then dc.iface
  else if key = "proc".toList then non_empty_or dc.proc "any".toList
  else if key = "port".toList then if dc.port > 0 then decimal dc.port else "any".toList
  else if key = "seq".toList then zero_padded 4 dc.seq
  else if key = "category".toList then dc.category
  else key

def CRxDumpCtx.piece_text (world : OpenWorld) (dc : CRxDumpCtx) : Piece → CStr
  | .plain c => [c]
  | .placeholder key => dc.placeholder_text world key

/-- Every run of slashes becomes one. -/
def collapse_slashes (prev_slash : Bool) : CStr → CStr
  | [] => []
  | c :: rest =>
    if c = '/' then
      if prev_slash then collapse_slashes true rest else c :: collapse_slashes true rest
    else c :: collapse_slashes false rest

/-- Put a suffix before the last dot, or at the end when there is none. -/
def insert_suffix (suffix out : CStr) : CStr :=
  let extension := (out.reverse.takeWhile (· ≠ '.')).reverse
  match out.reverse.dropWhile (· ≠ '.') with
  | [] => out ++ suffix
  | dot :: stem => stem.reverse ++ suffix ++ dot :: extension

def expand_pattern (world : OpenWorld) (dc : CRxDumpCtx) : CStr :=
  let pat := pieces none (non_empty_or dc.pattern default_pattern)
  let out := pat.flatMap (dc.piece_text world)
  let out := if "//".toList <:+: out then collapse_slashes false out else out
  let out :=
    if dc.port > 0 ∧ Piece.placeholder "port".toList ∉ pat then
      insert_suffix ("-p".toList ++ decimal dc.port) out
    else out
  let out :=
    if dc.protocol_filter_path ≠ [] then insert_suffix "_raw".toList out else out
  join_path dc.base_dir out

/-! ## Writing -/

/-- `pcap_dump_open` empties the file. -/
def pcap_dump_open (world : OpenWorld) (path : CStr) : Option Dumper :=
  if world.opens then some { path } else none

def rotate_open (world : OpenWorld) (dc : CRxDumpCtx) : CRxDumpCtx :=
  let dc := { dc with closed := dc.closed ++ dc.d.toList, seq := dc.seq + 1, written := 0 }
  let current_path := expand_pattern world dc
  { dc with current_path, d := pcap_dump_open world current_path }

/-- `sizeof(struct pcap_pkthdr)` -/
def sizeof_pcap_pkthdr : ℕ := 24

/-- What a packet adds to `written`. -/
def pkt_bytes (data : Packet) : ℤ := sizeof_pcap_pkthdr + data.len

/-- `pcap_dump` reads the dumper that it is given: none through a null
pointer. -/
def pcap_dump (data : Packet) (dc : CRxDumpCtx) : Option CRxDumpCtx :=
  dc.d.map fun dumper =>
    { dc with d := some { dumper with packets := dumper.packets ++ [data] } }

/-- The segment is full: the packet would take it over the limit. -/
def segment_full (max_bytes written : ℤ) (data : Packet) : Bool :=
  max_bytes > 0 ∧ written + pkt_bytes data > max_bytes

/-- A packet, and what opening a file for it meets. -/
structure Delivery where
  data : Packet
  world : OpenWorld := {}

/-- The end of `dump_cb`. -/
def dump_packet (data : Packet) (dc : CRxDumpCtx) : Option CRxDumpCtx :=
  (pcap_dump data dc).map fun dc => { dc with written := dc.written + pkt_bytes data }

/-- No context is left when the program ends in a null pointer. -/
def dump_cb (dc : CRxDumpCtx) (h : Delivery) : Option CRxDumpCtx :=
  if dc.d.isSome ∧ segment_full dc.max_bytes dc.written h.data then
    let dc := rotate_open h.world dc
    if dc.d = none then some dc else dump_packet h.data dc
  else dump_packet h.data dc

/-! ## How much is written -/

/-- The packets that a context has written, in all segments. -/
def CRxDumpCtx.packets (dc : CRxDumpCtx) : List Packet :=
  (dc.closed ++ dc.d.toList).flatMap Dumper.packets

/-- The packets from the first one on that calls for a segment which cannot be
opened. -/
def refused (max_bytes : ℤ) : ℤ → List Delivery → List Delivery
  | _, [] => []
  | written, h :: rest =>
    if segment_full max_bytes written h.data then
      if h.world.opens then refused max_bytes (pkt_bytes h.data) rest else h :: rest
    else refused max_bytes (written + pkt_bytes h.data) rest

/-- A new segment holds nothing yet. -/
theorem rotate_open_packets (world : OpenWorld) (dc : CRxDumpCtx) :
    (rotate_open world dc).packets = dc.packets := by
  simp only [rotate_open, pcap_dump_open, CRxDumpCtx.packets]
  split
  · simp
  · simp

theorem dump_packet_spec {dc : CRxDumpCtx} (hopen : dc.d.isSome = true) (data : Packet) :
    ∃ dc', dump_packet data dc = some dc' ∧ dc'.d.isSome = true ∧ dc'.max_bytes = dc.max_bytes ∧
      dc'.written = dc.written + pkt_bytes data ∧ dc'.packets = dc.packets ++ [data] := by
  obtain ⟨dumper, hd⟩ := Option.isSome_iff_exists.mp hopen
  refine ⟨{ dc with
    d := some { dumper with packets := dumper.packets ++ [data] }
    written := dc.written + pkt_bytes data }, ?_, rfl, rfl, rfl, ?_⟩
  · simp only [dump_packet, pcap_dump, hd, Option.map_some]
  · simp only [CRxDumpCtx.packets, hd, Option.toList_some, List.flatMap_append, List.flatMap_cons,
      List.flatMap_nil, List.append_nil, List.append_assoc]

/-- The program ends with the packet behind one that could not be written. -/
theorem dump_cb_closed {dc : CRxDumpCtx} (hclosed : dc.d = none) (h : Delivery) :
    dump_cb dc h = none := by
  simp [dump_cb, dump_packet, pcap_dump, hclosed]

/-- With room in the open segment a packet is written to it. -/
theorem dump_cb_room {dc : CRxDumpCtx} {h : Delivery} (hopen : dc.d.isSome = true)
    (hroom : segment_full dc.max_bytes dc.written h.data = false) :
    ∃ dc', dump_cb dc h = some dc' ∧ dc'.d.isSome = true ∧ dc'.max_bytes = dc.max_bytes ∧
      dc'.written = dc.written + pkt_bytes h.data ∧ dc'.packets = dc.packets ++ [h.data] := by
  rw [dump_cb, hroom, if_neg (by simp)]
  exact dump_packet_spec hopen h.data

/-- When there is none, a new segment takes it. -/
theorem dump_cb_rotated {dc : CRxDumpCtx} {h : Delivery} (hopen : dc.d.isSome = true)
    (hfull : segment_full dc.max_bytes dc.written h.data = true) (hopens : h.world.opens = true) :
    ∃ dc', dump_cb dc h = some dc' ∧ dc'.d.isSome = true ∧ dc'.max_bytes = dc.max_bytes ∧
      dc'.written = pkt_bytes h.data ∧ dc'.packets = dc.packets ++ [h.data] := by
  have hrotated : (rotate_open h.world dc).d.isSome = true := by
    simp only [rotate_open, pcap_dump_open, hopens, if_true, Option.isSome_some]
  have hsome : (rotate_open h.world dc).d ≠ none := by
    rw [← Option.isSome_iff_ne_none]
    exact hrotated
  obtain ⟨dc', hdump, hd, hmax, hbytes, hpackets⟩ := dump_packet_spec hrotated h.data
  refine ⟨dc', ?_, hd, hmax, ?_, ?_⟩
  · rw [dump_cb, if_pos ⟨hopen, hfull⟩]
    exact (if_neg hsome).trans hdump
  · rw [hbytes, rotate_open, Int.zero_add]
  · rw [hpackets, rotate_open_packets]

/-- And when that cannot be opened, it is lost. -/
theorem dump_cb_refused {dc : CRxDumpCtx} {h : Delivery} (hopen : dc.d.isSome = true)
    (hfull : segment_full dc.max_bytes dc.written h.data = true)
    (hopens : h.world.opens = false) :
    dump_cb dc h = some (rotate_open h.world dc) ∧ (rotate_open h.world dc).d = none := by
  have hnone : (rotate_open h.world dc).d = none := by
    simp only [rotate_open, pcap_dump_open, hopens, Bool.false_eq_true, if_false]
  refine ⟨?_, hnone⟩
  rw [dump_cb, if_pos ⟨hopen, hfull⟩]
  exact if_pos hnone

/-- What comes of a list of packets: those before the first one that is refused
are written, and no packet may follow that one. -/
def Dumps (dc : CRxDumpCtx) (packets : List Delivery) : Prop :=
  ∃ front, packets = front ++ refused dc.max_bytes dc.written packets ∧
    ((refused dc.max_bytes dc.written packets).length ≤ 1 →
      ∃ dc', packets.foldlM dump_cb dc = some dc' ∧
        dc'.packets = dc.packets ++ front.map Delivery.data) ∧
    (1 < (refused dc.max_bytes dc.written packets).length → packets.foldlM dump_cb dc = none)

theorem Dumps.cons {dc dc' : CRxDumpCtx} {h : Delivery} {rest : List Delivery}
    (ih : Dumps dc' rest) (hdump : dump_cb dc h = some dc')
    (hpackets : dc'.packets = dc.packets ++ [h.data])
    (hsame : refused dc.max_bytes dc.written (h :: rest) = refused dc'.max_bytes dc'.written rest) :
    Dumps dc (h :: rest) := by
  obtain ⟨front, hsplit, hfits, hcrash⟩ := ih
  rw [← hsame] at hsplit hfits hcrash
  refine ⟨h :: front, congrArg (h :: ·) hsplit, fun hshort => ?_, fun hlong => ?_⟩
  · obtain ⟨dc'', hrest, hall⟩ := hfits hshort
    refine ⟨dc'', ?_, ?_⟩
    · rw [List.foldlM_cons, hdump]
      exact hrest
    · rw [hall, hpackets, List.map_cons, List.append_assoc]
      rfl
  · rw [List.foldlM_cons, hdump]
    exact hcrash hlong

/-- **What is written.** -/
theorem dump_all_spec {dc : CRxDumpCtx} (hopen : dc.d.isSome = true) (packets : List Delivery) :
    Dumps dc packets := by
  induction packets generalizing dc with
  | nil => exact ⟨[], rfl, fun _ => ⟨dc, rfl, by simp⟩, fun h => by simp [refused] at h⟩
  | cons h rest ih =>
    by_cases hfull : segment_full dc.max_bytes dc.written h.data = true
    · by_cases hopens : h.world.opens = true
      · obtain ⟨dc', hdump, hd, hmax, hbytes, hpackets⟩ := dump_cb_rotated hopen hfull hopens
        refine (ih hd).cons hdump hpackets ?_
        rw [refused, if_pos hfull, if_pos hopens, hmax, hbytes]
      · obtain ⟨hdump, hd⟩ := dump_cb_refused hopen hfull (Bool.eq_false_iff.mpr hopens)
        rw [Dumps, refused, if_pos hfull, if_neg hopens]
        refine ⟨[], rfl, fun hshort => ?_, fun hlong => ?_⟩
        · -- the refused packet is the last
          obtain rfl : rest = [] := by simpa using hshort
          refine ⟨rotate_open h.world dc, ?_, ?_⟩
          · rw [List.foldlM_cons, hdump]
            rfl
          · rw [rotate_open_packets]
            simp
        · obtain ⟨next, more, rfl⟩ := List.exists_cons_of_ne_nil
            (show rest ≠ [] by rintro rfl; simp at hlong)
          rw [List.foldlM_cons, hdump, Option.bind_eq_bind, Option.bind_some, List.foldlM_cons,
            dump_cb_closed hd next]
          rfl
    · obtain ⟨dc', hdump, hd, hmax, hbytes, hpackets⟩ :=
        dump_cb_room hopen (Bool.eq_false_iff.mpr hfull)
      refine (ih hd).cons hdump hpackets ?_
      rw [refused, if_neg hfull, hmax, hbytes]

end RxNetCap.Capture
