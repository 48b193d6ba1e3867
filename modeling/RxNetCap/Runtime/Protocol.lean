/-
`packet_filter_match` of `src/runtime/protocol.c`: which program of which
filter is run on which part of a packet, and how a match in automatic mode
settles the byte order.

The protocol is passed as `const` and written to all the same: a match while
the byte order is unknown stores the order that matched. The functions return
the protocol with the answer.
-/
import RxNetCap.Runtime.Executor

set_option autoImplicit false

namespace RxNetCap.Runtime

open RxNetCap.Pdef

/-- The answer of a matching call and the protocol after it. -/
abbrev Match := ExecResult × ProtocolDef

/-- Go on to the next candidate after a clean "no". -/
def Match.orElse (m : Match) (next : ProtocolDef → Match) : Match :=
  match m with
  | (.returns false, proto) => next proto
  | m => m

/-- `rule->bytecode_be`, or `rule->bytecode` when its length is 0. -/
def code_be (rule : FilterRule) : List Instruction :=
  if rule.bytecode_be.elems.length = 0 then rule.bytecode.elems else rule.bytecode_be.elems

/-- `rule->bytecode_le`, or `rule->bytecode` when its length is 0. -/
def code_le (rule : FilterRule) : List Instruction :=
  if rule.bytecode_le.elems.length = 0 then rule.bytecode.elems else rule.bytecode_le.elems

/-- `__sync_val_compare_and_swap(&detected_endian, ENDIAN_TYPE_UNKNOWN, order)` -/
def learn_endian (order : EndianType) (proto : ProtocolDef) : ProtocolDef :=
  if proto.detected_endian = .UNKNOWN then { proto with detected_endian := order } else proto

/-- One program; when it says yes, the order is learnt. -/
def try_and_learn (packet : Packet) (code : List Instruction) (order : EndianType)
    (proto : ProtocolDef) : Match :=
  match execute_bytecode packet code with
  | .returns true => (.returns true, learn_endian order proto)
  | r => (r, proto)

def try_match_with_endian (packet : Packet) (rule : FilterRule) (proto : ProtocolDef) : Match :=
  match proto.endian_mode with
  | .BIG => (execute_bytecode packet (code_be rule), proto)
  | .LITTLE => (execute_bytecode packet (code_le rule), proto)
  | .AUTO =>
    match proto.detected_endian with
    | .BIG => (execute_bytecode packet (code_be rule), proto)
    | .LITTLE => (execute_bytecode packet (code_le rule), proto)
    | .UNKNOWN =>
      Match.orElse (try_and_learn packet (code_be rule) .BIG proto)
        (try_and_learn packet (code_le rule) .LITTLE)

/-- The first offset a sliding filter does not try. -/
def search_limit (packet : Packet) (rule : FilterRule) : ℕ :=
  if rule.sliding_max_offset > 0 ∧ rule.sliding_max_offset < packet.len then
    rule.sliding_max_offset
  else packet.len

/-- `n` offsets from `offset` on. -/
def match_sliding (packet : Packet) (rule : FilterRule) : ℕ → ℕ → ProtocolDef → Match
  | 0, _, proto => (.returns false, proto)
  | n + 1, offset, proto =>
    if packet.len - offset < rule.min_packet_size then (.returns false, proto)
    else
      Match.orElse (try_match_with_endian (packet.drop offset) rule proto)
        (match_sliding packet rule n (offset + 1))

def match_rule (packet : Packet) (rule : FilterRule) (proto : ProtocolDef) : Match :=
  if rule.sliding_window then
    match_sliding packet rule (search_limit packet rule) 0 proto
  else try_match_with_endian packet rule proto

def match_rules (packet : Packet) : List FilterRule → ProtocolDef → Match
  | [], proto => (.returns false, proto)
  | rule :: rules, proto =>
    Match.orElse (match_rule packet rule proto) (match_rules packet rules)

/-- The port is not looked at. -/
def packet_filter_match (packet : Packet) (_port : ℕ) (proto : ProtocolDef) : Match :=
  match_rules packet (rules_of proto) proto

end RxNetCap.Runtime
