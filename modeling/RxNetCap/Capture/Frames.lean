/-
What `parse_packet_data` reads of a frame, and what it takes for the payload.

Every read but one is behind a test of the length. The one is the data offset
of a TCP header, at byte 12 of it: 12 bytes are enough to get there. So a frame
is read past its end exactly when it ends in front of that byte
(`parse_reads_inside_iff`).

The payload is taken to go to the end of the frame. The total length of the IP
header is not looked at, so what follows the datagram in its frame is payload
too (`payload_delimited_iff`).
-/
import RxNetCap.Capture.FilterThread

set_option autoImplicit false

namespace RxNetCap.Capture

open RxNetCap.Runtime

/-! ## Reads -/

section Reads

variable {data : Packet} {i : ℕ}

theorem read_byte_of_lt (h : i < data.len) : ∃ n, read_byte data i = some n := by
  have hbyte : data.bytes[i]? = some (data.bytes.get ⟨i, h⟩) := List.getElem?_eq_getElem h
  rw [read_byte, hbyte]
  exact ⟨_, rfl⟩

theorem read_byte_of_le (h : data.len ≤ i) : read_byte data i = none := by
  rw [read_byte, List.getElem?_eq_none h]
  rfl

theorem read_port_of_lt (h : i + 1 < data.len) : ∃ n, read_port data i = some n := by
  obtain ⟨high, hhigh⟩ := read_byte_of_lt (show i < data.len by omega)
  obtain ⟨low, hlow⟩ := read_byte_of_lt h
  refine ⟨high <<< 8 ||| low, ?_⟩
  simp only [read_port, hhigh, hlow, Option.bind_eq_bind, Option.bind_some, Option.pure_def]

end Reads

/-! ## The end of the frame -/

/-- Where the transport header starts, for the first byte of the IP header. -/
def transport_start (version_ihl : ℕ) : ℕ := 14 + (version_ihl &&& 0x0F) * 4

/-- The frame is a TCP packet that ends after 12 bytes of the TCP header. -/
def EndsInTcpHeader (data : Packet) : Prop :=
  34 ≤ data.len ∧ read_port data 12 = some 0x0800 ∧ read_byte data (14 + 9) = some 6 ∧
    ∃ version_ihl, read_byte data 14 = some version_ihl ∧
      data.len = transport_start version_ihl + 12

/-- The frame is read inside its bytes, and what is taken for its payload goes
to its end. -/
def ReadInside (data : Packet) : Prop :=
  ∃ parsed, parse_packet_data data = some parsed ∧
    (parsed.valid = true → parsed.app_data.bytes <:+ data.bytes)

/-- What is left of the frame behind its headers. -/
def parse_payload (data : Packet) (src_port dst_port transport : ℕ) : Option ℕ → ParsedPacket
  | none => { src_port, dst_port }
  | some transport_header_len =>
    if transport + transport_header_len ≥ data.len then { src_port, dst_port }
    else
      { app_data := data.drop (transport + transport_header_len), src_port, dst_port
        valid := (data.drop (transport + transport_header_len)).len > 0 }

section Parse

variable {data : Packet} {version_ihl protocol src_port dst_port : ℕ}

/-- **A frame with its ports in it** is parsed by its transport header. -/
theorem parse_packet_data_eq (hlen : 34 ≤ data.len) (htype : read_port data 12 = some 0x0800)
    (hversion : read_byte data 14 = some version_ihl)
    (hprotocol : read_byte data (14 + 9) = some protocol)
    (hports : transport_start version_ihl + 4 ≤ data.len)
    (hsrc : read_port data (transport_start version_ihl) = some src_port)
    (hdst : read_port data (transport_start version_ihl + 2) = some dst_port) :
    parse_packet_data data
      = (transport_length data protocol (transport_start version_ihl)).map
          (parse_payload data src_port dst_port (transport_start version_ihl)) := by
  unfold transport_start at *
  rw [parse_packet_data, if_neg (by omega), htype]
  simp only [Option.bind_eq_bind, Option.bind_some, ne_eq, not_true_eq_false, if_false,
    hversion, hprotocol, hsrc, hdst, Option.pure_def]
  rw [if_neg (by omega), if_neg (by omega), if_neg (by omega)]
  cases transport_length data protocol (14 + (version_ihl &&& 15) * 4) with
  | none => rfl
  | some length =>
    cases length with
    | none => rfl
    | some transport_header_len =>
      simp only [Option.bind_some, Option.map_some, parse_payload]
      split
      · rfl
      · rfl

/-- Only the data offset of a TCP header can be missing. -/
theorem transport_length_isSome_iff (transport : ℕ) :
    (transport_length data protocol transport).isSome = true ↔
      ¬ (protocol = 6 ∧ data.len = transport + 12) := by
  rw [transport_length]
  by_cases htcp : protocol = 6
  · rw [if_pos htcp]
    rcases Nat.lt_trichotomy data.len (transport + 12) with hlt | heq | hgt
    · rw [if_pos hlt]
      simp only [Option.pure_def, Option.isSome_some, true_iff, not_and]
      exact fun _ => hlt.ne
    · rw [if_neg (by omega), read_byte_of_le heq.le]
      simp only [Option.bind_eq_bind, Option.bind_none, Option.isSome_none, Bool.false_eq_true,
        false_iff, not_not]
      exact ⟨htcp, heq⟩
    · obtain ⟨offset, hoffset⟩ := read_byte_of_lt hgt
      rw [if_neg (by omega), hoffset]
      simp only [Option.bind_eq_bind, Option.bind_some, Option.pure_def, Option.isSome_some,
        true_iff, not_and]
      exact fun _ => hgt.ne'
  · rw [if_neg htcp]
    by_cases hudp : protocol = 17
    · simp [hudp]
    · simp [htcp, hudp]

theorem parse_payload_inside (transport : ℕ) (length : Option ℕ)
    (hvalid : (parse_payload data src_port dst_port transport length).valid = true) :
    (parse_payload data src_port dst_port transport length).app_data.bytes <:+ data.bytes := by
  unfold parse_payload at *
  cases length with
  | none => cases hvalid
  | some transport_header_len =>
    dsimp only at *
    split
    · rename_i hout
      rw [if_pos hout] at hvalid
      cases hvalid
    · exact List.drop_suffix _ _

end Parse

/-- **A frame is read inside its bytes, unless it ends in the TCP header** in
front of the data offset. -/
theorem parse_reads_inside_iff (data : Packet) : ReadInside data ↔ ¬ EndsInTcpHeader data := by
  have hplain : ∀ parsed, parse_packet_data data = some parsed → parsed.valid = false →
      ReadInside data := fun parsed hparsed hvalid =>
    ⟨parsed, hparsed, fun h => by rw [hvalid] at h; cases h⟩
  by_cases h14 : data.len < 14
  · refine iff_of_true (hplain {} ?_ rfl) fun h => absurd h.1 (by omega)
    rw [parse_packet_data, if_pos h14]
    rfl
  obtain ⟨eth_type, htype⟩ := read_port_of_lt (show 12 + 1 < data.len by omega)
  by_cases hip : eth_type ≠ 0x0800
  · refine iff_of_true (hplain {} ?_ rfl) fun h => hip ?_
    · rw [parse_packet_data, if_neg h14, htype]
      simp only [Option.bind_eq_bind, Option.bind_some, if_pos hip]
      rfl
    · have hread := h.2.1
      rw [htype] at hread
      exact Option.some.inj hread
  obtain rfl : eth_type = 0x0800 := not_not.mp hip
  by_cases h34 : data.len < 34
  · refine iff_of_true (hplain {} ?_ rfl) fun h => absurd h.1 (by omega)
    rw [parse_packet_data, if_neg h14, htype]
    simp only [Option.bind_eq_bind, Option.bind_some, if_neg hip]
    rw [if_pos h34]
    rfl
  obtain ⟨version_ihl, hversion⟩ := read_byte_of_lt (show 14 < data.len by omega)
  obtain ⟨protocol, hprotocol⟩ := read_byte_of_lt (show 14 + 9 < data.len by omega)
  by_cases hports : data.len < transport_start version_ihl + 4
  · refine iff_of_true (hplain {} ?_ rfl) ?_
    · unfold transport_start at hports
      rw [parse_packet_data, if_neg h14, htype]
      simp only [Option.bind_eq_bind, Option.bind_some, if_neg hip, hversion, hprotocol]
      rw [if_neg h34]
      by_cases hheader : data.len < 14 + (version_ihl &&& 0x0F) * 4
      · rw [if_pos hheader]
        rfl
      · rw [if_neg hheader, if_pos hports]
        rfl
    · rintro ⟨-, -, -, other, hother, hends⟩
      rw [hversion, Option.some.injEq] at hother
      rw [← hother] at hends
      omega
  obtain ⟨src_port, hsrc⟩ :=
    read_port_of_lt (show transport_start version_ihl + 1 < data.len by omega)
  obtain ⟨dst_port, hdst⟩ :=
    read_port_of_lt (show transport_start version_ihl + 2 + 1 < data.len by omega)
  have hparse := parse_packet_data_eq (by omega) htype hversion hprotocol (by omega) hsrc hdst
  have hends : EndsInTcpHeader data ↔
      protocol = 6 ∧ data.len = transport_start version_ihl + 12 := by
    rw [EndsInTcpHeader, htype, hprotocol, hversion]
    simp only [Option.some.injEq, true_and, exists_eq_left']
    exact ⟨fun h => h.2, fun h => ⟨by omega, h⟩⟩
  rw [hends, ← transport_length_isSome_iff, ReadInside, hparse]
  constructor
  · rintro ⟨parsed, hparsed, -⟩
    obtain ⟨length, hlength, -⟩ := Option.map_eq_some_iff.mp hparsed
    rw [hlength]
    rfl
  · intro hsome
    obtain ⟨length, hlength⟩ := Option.isSome_iff_exists.mp hsome
    rw [hlength]
    exact ⟨_, rfl, parse_payload_inside _ _⟩

/-- An IPv4 frame of 46 bytes: 20 of the IP header, 12 of the TCP header. -/
def short_tcp : Packet where
  bytes := List.replicate 12 0 ++ [8, 0, 0x45] ++ List.replicate 8 0 ++ [6] ++ List.replicate 22 0
  length_lt := by decide

/-- Its byte 46 is read. -/
theorem short_tcp_read_outside : ¬ ReadInside short_tcp := by
  rintro ⟨parsed, hparsed, -⟩
  rw [show parse_packet_data short_tcp = none by decide +kernel] at hparsed
  cases hparsed

/-! ## Well-formed frames -/

/-- A number in two bytes, the high one first. -/
def two_bytes (n : ℕ) : List UInt8 := [UInt8.ofNat (n / 256), UInt8.ofNat (n % 256)]

/-- What a transport header has besides the ports: for TCP the sequence numbers,
the reserved bits, the flags with window, checksum and urgent pointer, and the
options. -/
inductive Transport where
  | tcp (numbers : List UInt8) (reserved : ℕ) (control options : List UInt8)
  | udp (checksum : List UInt8)

namespace Transport

def protocol : Transport → UInt8
  | tcp .. => 6
  | udp _ => 17

def header_length : Transport → ℕ
  | tcp _ _ _ options => 20 + options.length
  | udp _ => 8

/-- The header behind the ports, for a payload of the given length. -/
def rest (payload_length : ℕ) : Transport → List UInt8
  | tcp numbers reserved control options =>
    numbers ++ UInt8.ofNat ((5 + options.length / 4) * 16 + reserved) :: control ++ options
  | udp checksum => two_bytes (8 + payload_length) ++ checksum

/-- All parts have their lengths, and the data offset fits its four bits. -/
def WellFormed : Transport → Prop
  | tcp numbers reserved control options =>
    numbers.length = 8 ∧ reserved < 16 ∧ control.length = 7 ∧ options.length % 4 = 0 ∧
      options.length ≤ 40
  | udp checksum => checksum.length = 2

end Transport

/-- An Ethernet II frame with an unfragmented IPv4 packet, and what follows the
packet in the frame. -/
structure Frame where
  addresses : List UInt8
  service : UInt8
  identification : List UInt8
  dont_fragment : Bool
  time_to_live : UInt8
  checksum : List UInt8
  ip_addresses : List UInt8
  options : List UInt8
  src_port : ℕ
  dst_port : ℕ
  transport : Transport
  payload : List UInt8
  padding : List UInt8
  addresses_length : addresses.length = 12
  identification_length : identification.length = 2
  checksum_length : checksum.length = 2
  ip_addresses_length : ip_addresses.length = 8
  options_length : options.length % 4 = 0 ∧ options.length ≤ 40
  src_port_lt : src_port < 2 ^ 16
  dst_port_lt : dst_port < 2 ^ 16
  wellFormed : transport.WellFormed
  total_length_lt :
    20 + options.length + transport.header_length + payload.length < 2 ^ 16
  length_lt : 34 + options.length + transport.header_length + payload.length + padding.length
    < 2 ^ 32

namespace Frame

variable (f : Frame)

/-- The total length of the IP packet. -/
def total_length : ℕ :=
  20 + f.options.length + f.transport.header_length + f.payload.length

def ip_header : List UInt8 :=
  UInt8.ofNat (4 * 16 + (5 + f.options.length / 4)) :: f.service :: two_bytes f.total_length
    ++ f.identification ++ (if f.dont_fragment then 0x40 else 0) :: 0 :: f.time_to_live
    :: f.transport.protocol :: f.checksum ++ f.ip_addresses ++ f.options

def transport_header : List UInt8 :=
  two_bytes f.src_port ++ two_bytes f.dst_port ++ f.transport.rest f.payload.length

def bytes : List UInt8 :=
  f.addresses ++ 0x08 :: 0x00 :: f.ip_header ++ f.transport_header ++ f.payload ++ f.padding

theorem ip_header_length : f.ip_header.length = 20 + f.options.length := by
  have hid := f.identification_length
  have hsum := f.checksum_length
  have haddr := f.ip_addresses_length
  simp only [ip_header, two_bytes, List.length_append, List.length_cons, List.length_nil, hid, hsum,
    haddr]

theorem transport_header_length : f.transport_header.length = f.transport.header_length := by
  have hwell := f.wellFormed
  rw [transport_header]
  cases htransport : f.transport with
  | tcp numbers reserved control options =>
    rw [htransport] at hwell
    obtain ⟨hnumbers, -, hcontrol, -, -⟩ := hwell
    simp only [Transport.rest, Transport.header_length, two_bytes, List.length_append,
      List.length_cons, List.length_nil, hnumbers, hcontrol]
    omega
  | udp checksum =>
    rw [htransport] at hwell
    have hsum : checksum.length = 2 := hwell
    simp only [Transport.rest, Transport.header_length, two_bytes, List.length_append,
      List.length_cons, List.length_nil, hsum]

/-- Where the transport header starts. -/
def headers_length : ℕ := 34 + f.options.length

theorem bytes_length : f.bytes.length
    = f.headers_length + f.transport.header_length + f.payload.length + f.padding.length := by
  have haddr := f.addresses_length
  simp only [bytes, headers_length, List.length_append, List.length_cons, haddr, ip_header_length,
    transport_header_length]
  omega

/-- The frame as it is captured, whole. -/
def packet : Packet where
  bytes := f.bytes
  length_lt := by
    rw [bytes_length, headers_length]
    exact f.length_lt

/-- What the function says of the frame: valid when there is payload, and then
this is the payload of the packet, with its ports. -/
def Delimited : Prop :=
  ∃ parsed, parse_packet_data f.packet = some parsed ∧
    (parsed.valid = true ↔ f.payload ≠ []) ∧
    (parsed.valid = true → parsed.app_data.bytes = f.payload ∧ parsed.src_port = f.src_port ∧
      parsed.dst_port = f.dst_port)

end Frame

/-! ## What is read of them -/

section Fields

variable {data : Packet} {front rest : List UInt8}

theorem read_byte_at {i : ℕ} {b : UInt8} (hdata : data.bytes = front ++ b :: rest)
    (hi : front.length = i) : read_byte data i = some b.toNat := by
  rw [read_byte, hdata, ← hi, List.getElem?_append_right (Nat.le_refl _), Nat.sub_self]
  rfl

theorem read_port_at {i n : ℕ} (hdata : data.bytes = front ++ two_bytes n ++ rest)
    (hi : front.length = i) (hn : n < 2 ^ 16) : read_port data i = some n := by
  have hhigh : read_byte data i = some (UInt8.ofNat (n / 256)).toNat :=
    read_byte_at (hdata.trans (List.append_assoc _ _ _)) hi
  have hlow : read_byte data (i + 1) = some (UInt8.ofNat (n % 256)).toNat := by
    refine @read_byte_at data (front ++ [UInt8.ofNat (n / 256)]) rest _ _ ?_ ?_
    · rw [hdata, two_bytes]
      simp only [List.append_assoc, List.cons_append, List.nil_append]
    · rw [List.length_append, hi]
      rfl
  simp only [read_port, hhigh, hlow, Option.bind_eq_bind, Option.bind_some, Option.pure_def,
    Option.some.injEq]
  rw [UInt8.toNat_ofNat_of_lt' (show n / 256 < 256 by omega),
    UInt8.toNat_ofNat_of_lt' (show n % 256 < 256 by omega),
    ← Nat.shiftLeft_add_eq_or_of_lt (show n % 256 < 2 ^ 8 by omega), Nat.shiftLeft_eq]
  omega

end Fields

namespace Frame

variable (f : Frame)

theorem read_type : read_port f.packet 12 = some 0x0800 :=
  @read_port_at f.packet f.addresses (f.ip_header ++ f.transport_header ++ f.payload ++ f.padding)
    12 0x0800 (by simp [packet, bytes, two_bytes]) f.addresses_length (by decide)

theorem read_version_ihl : read_byte f.packet 14 = some (69 + f.options.length / 4) := by
  have hoptions := f.options_length
  have hread := @read_byte_at f.packet (f.addresses ++ [0x08, 0x00])
    (f.ip_header.tail ++ f.transport_header ++ f.payload ++ f.padding) 14
    (UInt8.ofNat (4 * 16 + (5 + f.options.length / 4)))
    (by simp [packet, bytes, ip_header]) (by simp [f.addresses_length])
  rw [hread, UInt8.toNat_ofNat_of_lt' (show 4 * 16 + (5 + f.options.length / 4) < 256 by omega)]
  congr 1
  omega

theorem read_protocol : read_byte f.packet (14 + 9) = some f.transport.protocol.toNat :=
  @read_byte_at f.packet
    (f.addresses ++ 0x08 :: 0x00 :: UInt8.ofNat (4 * 16 + (5 + f.options.length / 4)) :: f.service
      :: two_bytes f.total_length ++ f.identification
      ++ [if f.dont_fragment then 0x40 else 0, 0, f.time_to_live])
    (f.checksum ++ f.ip_addresses ++ f.options ++ f.transport_header ++ f.payload ++ f.padding)
    _ _ (by simp [packet, bytes, ip_header])
    (by simp [two_bytes, f.addresses_length, f.identification_length])

theorem transport_start_eq : transport_start (69 + f.options.length / 4) = f.headers_length := by
  have hoptions := f.options_length
  rw [transport_start, headers_length,
    show 0x0F = 2 ^ 4 - 1 from rfl, Nat.and_two_pow_sub_one_eq_mod]
  omega

/-- What comes before the transport header. -/
theorem packet_bytes : f.packet.bytes = (f.addresses ++ 0x08 :: 0x00 :: f.ip_header)
    ++ (f.transport_header ++ f.payload ++ f.padding) := by
  simp only [packet, bytes, List.append_assoc, List.cons_append]

theorem front_length :
    (f.addresses ++ 0x08 :: 0x00 :: f.ip_header).length = f.headers_length := by
  simp only [List.length_append, List.length_cons, f.addresses_length, ip_header_length,
    headers_length]
  omega

theorem read_src_port : read_port f.packet f.headers_length = some f.src_port := by
  refine @read_port_at f.packet (f.addresses ++ 0x08 :: 0x00 :: f.ip_header)
    (two_bytes f.dst_port ++ f.transport.rest f.payload.length ++ f.payload ++ f.padding) _ _ ?_
    f.front_length f.src_port_lt
  rw [packet_bytes, transport_header]
  simp only [List.append_assoc]

theorem read_dst_port : read_port f.packet (f.headers_length + 2) = some f.dst_port := by
  refine @read_port_at f.packet
    (f.addresses ++ 0x08 :: 0x00 :: f.ip_header ++ two_bytes f.src_port)
    (f.transport.rest f.payload.length ++ f.payload ++ f.padding) _ _ ?_ ?_ f.dst_port_lt
  · rw [packet_bytes, transport_header]
    simp only [List.append_assoc]
  · rw [List.length_append, front_length]
    rfl

/-- The data offset of a TCP header counts it in words. -/
theorem transport_length_eq : transport_length f.packet f.transport.protocol.toNat f.headers_length
    = some (some f.transport.header_length) := by
  have hwell := f.wellFormed
  have hbytes := f.packet_bytes
  have hlength : f.packet.len = _ := f.bytes_length
  rw [transport_header] at hbytes
  cases htransport : f.transport with
  | udp checksum => rfl
  | tcp numbers reserved control options =>
    rw [htransport] at hwell hbytes hlength
    obtain ⟨hnumbers, hreserved, -, hwords, hoptions⟩ := hwell
    have hoffset : read_byte f.packet (f.headers_length + 12)
        = some ((5 + options.length / 4) * 16 + reserved) := by
      have hread := @read_byte_at f.packet
        (f.addresses ++ 0x08 :: 0x00 :: f.ip_header ++ two_bytes f.src_port
          ++ two_bytes f.dst_port ++ numbers)
        (control ++ options ++ f.payload ++ f.padding) (f.headers_length + 12)
        (UInt8.ofNat ((5 + options.length / 4) * 16 + reserved))
        (by rw [hbytes]; simp only [Transport.rest, List.append_assoc, List.cons_append])
        (by rw [List.length_append, List.length_append, List.length_append, front_length, hnumbers]
            rfl)
      rw [hread, UInt8.toNat_ofNat_of_lt'
        (show (5 + options.length / 4) * 16 + reserved < 256 by omega)]
    have htcp : (Transport.tcp numbers reserved control options).protocol.toNat = 6 := rfl
    rw [transport_length, if_pos htcp, hlength, Transport.header_length, if_neg (by omega), hoffset]
    simp only [Option.bind_eq_bind, Option.bind_some, Option.pure_def, Option.some.injEq]
    rw [show 0x0F = 2 ^ 4 - 1 from rfl, Nat.and_two_pow_sub_one_eq_mod, Nat.shiftRight_eq_div_pow]
    omega

/-- What is left is the payload and the padding. -/
theorem left_over : f.packet.bytes.drop (f.headers_length + f.transport.header_length)
    = f.payload ++ f.padding := by
  have hlength : (f.addresses ++ 0x08 :: 0x00 :: f.ip_header ++ f.transport_header).length
      = f.headers_length + f.transport.header_length := by
    rw [List.length_append, front_length, transport_header_length]
  have hbytes : f.packet.bytes = (f.addresses ++ 0x08 :: 0x00 :: f.ip_header ++ f.transport_header)
      ++ (f.payload ++ f.padding) := by
    rw [packet_bytes]
    simp only [List.append_assoc]
  rw [← hlength, hbytes, List.drop_left]

theorem parse_packet : parse_packet_data f.packet = some (parse_payload f.packet f.src_port
    f.dst_port f.headers_length (some f.transport.header_length)) := by
  have hlength : f.packet.len = _ := f.bytes_length
  have hheader : 8 ≤ f.transport.header_length := by
    cases f.transport with
    | tcp numbers reserved control options =>
      rw [Transport.header_length]
      omega
    | udp checksum => exact Nat.le_refl 8
  have hstart := f.transport_start_eq
  have hfront : 34 ≤ f.headers_length := Nat.le_add_right 34 _
  rw [parse_packet_data_eq (by omega) f.read_type f.read_version_ihl f.read_protocol (by omega)
    (hstart ▸ f.read_src_port) (hstart ▸ f.read_dst_port), hstart, transport_length_eq,
    Option.map_some]

end Frame

/-- **The payload of a frame is delimited exactly when nothing follows the
packet in it.** -/
theorem payload_delimited_iff (f : Frame) : f.Delimited ↔ f.padding = [] := by
  have hleft := f.left_over
  have hlength : f.packet.len = _ := f.bytes_length
  rw [Frame.Delimited, f.parse_packet, parse_payload]
  by_cases hnone : f.payload = [] ∧ f.padding = []
  · -- the headers are all there is
    obtain ⟨hpayload, hpadding⟩ := hnone
    rw [hpayload, hpadding, List.length_nil] at hlength
    refine iff_of_true ⟨_, rfl, ?_, ?_⟩ hpadding
    · rw [if_pos (by omega), hpayload]
      simp
    · rw [if_pos (by omega)]
      simp
  have hsome : 0 < (f.payload ++ f.padding).length := by
    rw [List.length_pos_iff, Ne, List.append_eq_nil_iff]
    exact hnone
  rw [List.length_append] at hsome
  rw [if_neg (by omega)]
  simp only [Packet.len_drop, Option.some.injEq, exists_eq_left', decide_eq_true_eq, and_true]
  constructor
  · rintro ⟨hvalid, hdata⟩
    have hrest := (hdata (by omega)).trans (List.append_nil f.payload).symm
    exact List.append_cancel_left (hleft.symm.trans hrest)
  · intro hpadding
    refine ⟨iff_of_true (by omega) ?_, fun _ => ?_⟩
    · exact fun hpayload => hnone ⟨hpayload, hpadding⟩
    · rw [hpadding, List.append_nil] at hleft
      exact hleft

/-- An acknowledgement of 54 bytes, padded to the 60 bytes of the smallest
frame. -/
def padded_ack : Frame where
  addresses := List.replicate 12 0
  service := 0
  identification := [0, 0]
  dont_fragment := true
  time_to_live := 64
  checksum := [0, 0]
  ip_addresses := [10, 0, 0, 1, 10, 0, 0, 2]
  options := []
  src_port := 80
  dst_port := 40000
  transport := .tcp (List.replicate 8 0) 0 [0x10, 0, 0, 0, 0, 0, 0] []
  payload := []
  padding := List.replicate 6 0
  addresses_length := rfl
  identification_length := rfl
  checksum_length := rfl
  ip_addresses_length := rfl
  options_length := by decide
  src_port_lt := by decide
  dst_port_lt := by decide
  wellFormed := by unfold Transport.WellFormed; decide
  total_length_lt := by decide
  length_lt := by decide

/-- It is valid with six bytes of payload. -/
theorem padding_taken_for_payload : ¬ padded_ack.Delimited := by
  rintro ⟨parsed, hparsed, hvalid, -⟩
  have hpadded : (parse_packet_data padded_ack.packet).map ParsedPacket.valid = some true := by
    decide +kernel
  rw [hparsed, Option.map_some, Option.some.injEq] at hpadded
  exact hvalid.mp hpadded rfl

end RxNetCap.Capture
