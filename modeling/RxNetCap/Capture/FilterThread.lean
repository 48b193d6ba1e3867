/-
The filter thread: `handle_raw_file` and `parse_packet_data` of
`src/rxfilterthread.cpp`.

What the thread meets outside the program is a `FilterWorld`: the text of the
PDEF file, the packets of the raw file, and whether the output can be opened.
The handler's result is what it posts and what it writes, and there is none
when the text, a packet or a filter makes the program read outside its buffer.
-/
import RxNetCap.Capture.Messages
import RxNetCap.Pdef.ParseString
import RxNetCap.Runtime.Protocol

set_option autoImplicit false

namespace RxNetCap.Capture

open RxNetCap.Mailbox RxNetCap.Pdef RxNetCap.Runtime

/-! ## One packet -/

structure ParsedPacket where
  app_data : Packet := ⟨[], Packet.nil_length_lt⟩
  src_port : ℕ := 0
  dst_port : ℕ := 0
  valid : Bool := false

/-- `data[i]`, if it is there. -/
def read_byte (data : Packet) (i : ℕ) : Option ℕ := data.bytes[i]?.map UInt8.toNat

def read_port (data : Packet) (i : ℕ) : Option ℕ := do
  let high ← read_byte data i
  let low ← read_byte data (i + 1)
  return high <<< 8 ||| low

/-- The length of the transport header at `transport`, `none` for a protocol
that is not looked into. -/
def transport_length (data : Packet) (protocol transport : ℕ) : Option (Option ℕ) := do
  if protocol = 6 then
    if data.len < transport + 12 then return none
    -- the byte at 12 is read although 12 bytes are enough to get here
    let offset ← read_byte data (transport + 12)
    return some ((offset >>> 4 &&& 0x0F) * 4)
  else if protocol = 17 then return some 8
  else return none

/-- The lengths are at most 14 + 60 + 60, so no sum wraps. -/
def parse_packet_data (data : Packet) : Option ParsedPacket := do
  if data.len < 14 then return {}
  let eth_type ← read_port data 12
  if eth_type ≠ 0x0800 then return {}
  if data.len < 14 + 20 then return {}
  let ip_header_len := ((← read_byte data 14) &&& 0x0F) * 4
  let protocol ← read_byte data (14 + 9)
  let transport := 14 + ip_header_len
  if data.len < transport then return {}
  if data.len < transport + 4 then return {}
  let src_port ← read_port data transport
  let dst_port ← read_port data (transport + 2)
  match ← transport_length data protocol transport with
  | none => return { src_port, dst_port }
  | some transport_header_len =>
    let offset := transport + transport_header_len
    if offset ≥ data.len then return { src_port, dst_port }
    let app_data := data.drop offset
    return { app_data, src_port, dst_port, valid := app_data.len > 0 }

/-- The answer of a matching call, unless it has none. -/
def answer_of : Match → Option (Bool × ProtocolDef)
  | (.returns b, pdef) => some (b, pdef)
  | _ => none

/-- The body of the packet loop: whether the packet is kept, and the protocol
after it. -/
def filter_packet (data : Packet) (pdef : ProtocolDef) : Option (Bool × ProtocolDef) := do
  let parsed ← parse_packet_data data
  if parsed.valid = false ∨ parsed.app_data.len = 0 then return (false, pdef)
  let (matched, pdef) ← answer_of (packet_filter_match parsed.app_data parsed.dst_port pdef)
  if matched then return (true, pdef)
  answer_of (packet_filter_match parsed.app_data parsed.src_port pdef)

/-- The packet loop: the packets kept, and the protocol at the end. -/
def filter_packets : List Packet → ProtocolDef → Option (List Packet × ProtocolDef)
  | [], pdef => some ([], pdef)
  | data :: rest, pdef => do
    let (matched, pdef) ← filter_packet data pdef
    let (kept, pdef) ← filter_packets rest pdef
    return (if matched then data :: kept else kept, pdef)

/-! ## One file -/

/-- What `handle_raw_file` meets: the text of the PDEF file if it can be
opened, the packets of the raw file up to its end or its first error if it can
be opened, whether the output can be opened, and the output's size. -/
structure FilterWorld where
  pdef_file : Option CStr
  raw_pcap : Option (List Packet)
  output_opens : Bool
  file_size : ℕ

def pdef_parse_file (filename : CStr) (file : Option CStr) : ParseResult :=
  match file with
  | none => .rejected (cstr 512 ("Failed to open file: ".toList ++ c_str filename))
  | some source => (pdef_parse_string (c_str source)).1

/-- The PDEF of a raw-file message. -/
def load_pdef (raw_msg : SRxCaptureRawFileMsgV2) (world : FilterWorld) : ParseResult :=
  if raw_msg.pdef_inline_content ≠ [] then
    (pdef_parse_string (c_str raw_msg.pdef_inline_content)).1
  else if raw_msg.pdef_file_path ≠ [] then
    pdef_parse_file raw_msg.pdef_file_path world.pdef_file
  else .rejected []

/-- `s.find(pattern)` -/
def find (pattern : CStr) : CStr → Option ℕ
  | [] => if pattern = [] then some 0 else none
  | c :: rest =>
    if pattern.isPrefixOf (c :: rest) then some 0 else (find pattern rest).map (· + 1)

/-- The name of the filtered file. -/
def filtered_path (raw_pcap_path : CStr) : CStr :=
  match find "_raw.pcap".toList raw_pcap_path with
  | some pos => raw_pcap_path.take pos ++ ".pcap".toList ++ raw_pcap_path.drop (pos + 9)
  | none => raw_pcap_path ++ ".filtered".toList

def send_endian_detected_to_manager (threads : List ℕ) (self manager_thread_index : ℕ)
    (pdef_path : CStr) (detected_endian : EndianType) (capture_id : ℤ) : Mail :=
  put_obj_msg threads self manager_thread_index
    (.endian_detected
      { pdef_file_path := cstr 256 (c_str pdef_path), detected_endian, capture_id })

/-- What `handle_raw_file` posts, and what it writes to the filtered file. -/
structure Filtering where
  sent : Mail := []
  kept : List Packet := []

/-- The messages about a file that was filtered. -/
def send_filtered (threads : List ℕ) (self : ℕ) (raw_msg : SRxCaptureRawFileMsgV2)
    (total filtered file_size : ℕ) (pdef : ProtocolDef) : Mail :=
  put_obj_msg threads self raw_msg.manager_thread_index
      (.filtered_file
        { capture_id := raw_msg.capture_id
          key := raw_msg.key
          sid := raw_msg.sid
          sender_thread_index := self
          filtered_pcap_path := filtered_path raw_msg.raw_pcap_path
          total_packets := total
          filtered_packets := filtered
          file_size
          pdef_file_path := raw_msg.pdef_file_path })
    ++ if pdef.endian_mode = .AUTO ∧ pdef.detected_endian ≠ .UNKNOWN
        ∧ raw_msg.pdef_file_path ≠ [] then
      send_endian_detected_to_manager threads self raw_msg.manager_thread_index
        raw_msg.pdef_file_path pdef.detected_endian raw_msg.capture_id
    else []

def handle_raw_file (threads : List ℕ) (self : ℕ) (raw_msg : SRxCaptureRawFileMsgV2)
    (world : FilterWorld) : Option Filtering :=
  if raw_msg.has_pdef_filter = false then some {}
  else
    match load_pdef raw_msg world with
    | .undefined => none
    | .rejected _ => some {}
    | .accepted pdef =>
      match world.raw_pcap with
      | none => some {}
      | some packets =>
        if world.output_opens = false then some {}
        else do
          let (kept, pdef) ← filter_packets packets pdef
          return {
            sent := send_filtered threads self raw_msg packets.length kept.length
              world.file_size pdef
            kept }

/-- `handle_msg` of a filter thread, for the messages of a capture. -/
def filter_handle_msg (threads : List ℕ) (self : ℕ) (msg : Msg) (world : FilterWorld) :
    Option Filtering :=
  match msg with
  | .raw_file raw_msg => handle_raw_file threads self raw_msg world
  | _ => some {}

end RxNetCap.Capture
