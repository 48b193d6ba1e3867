/-
The packet matcher's virtual machine: the byte readers of
`src/utils/endian.h` and `execute_bytecode` of `src/runtime/executor.c`.

A packet is its bytes, fewer than `2 ^ 32` of them, since its length is a
`uint32_t`. Every load tests its bounds in `uint32_t` arithmetic; one that
passes the test and still reaches past the last byte is undefined behaviour
and ends the run with `out_of_bounds`.

The interpreter gets as many turns as the program has instructions, and one
more to see that the program is over. A program whose jumps all go forward
needs no more; on any other program `out_of_turns` says nothing about the C
loop, which may run on.
-/
import RxNetCap.Pdef.Compile
import RxNetCap.Lib.Machine

set_option autoImplicit false

namespace RxNetCap.Runtime

open RxNetCap.Pdef

/-! ## Packets -/

structure Packet where
  bytes : List UInt8
  length_lt : bytes.length < 2 ^ 32
  deriving DecidableEq

def Packet.len (p : Packet) : ℕ := p.bytes.length

theorem Packet.nil_length_lt : ([] : List UInt8).length < 2 ^ 32 := by decide

theorem Packet.len_lt (p : Packet) : p.len < 2 ^ 32 := p.length_lt

/-- `packet + offset` -/
def Packet.drop (p : Packet) (offset : ℕ) : Packet where
  bytes := p.bytes.drop offset
  length_lt := by
    rw [List.length_drop]
    exact lt_of_le_of_lt (Nat.sub_le _ _) p.length_lt

@[simp] theorem Packet.len_drop (p : Packet) (offset : ℕ) :
    (p.drop offset).len = p.len - offset := List.length_drop

/-- `data[i]` -/
def byte_at (data : List UInt8) (i : ℕ) : ℕ := (data.getD i 0).toNat

/-! ## `endian.h` -/

def read_u16_be (data : List UInt8) (offset : ℕ) : ℕ :=
  byte_at data offset <<< 8 ||| byte_at data (offset + 1)

def read_u16_le (data : List UInt8) (offset : ℕ) : ℕ :=
  byte_at data offset ||| byte_at data (offset + 1) <<< 8

def read_u32_be (data : List UInt8) (offset : ℕ) : ℕ :=
  byte_at data offset <<< 24 ||| byte_at data (offset + 1) <<< 16
    ||| byte_at data (offset + 2) <<< 8 ||| byte_at data (offset + 3)

def read_u32_le (data : List UInt8) (offset : ℕ) : ℕ :=
  byte_at data offset ||| byte_at data (offset + 1) <<< 8
    ||| byte_at data (offset + 2) <<< 16 ||| byte_at data (offset + 3) <<< 24

def read_u64_be (data : List UInt8) (offset : ℕ) : ℕ :=
  byte_at data offset <<< 56 ||| byte_at data (offset + 1) <<< 48
    ||| byte_at data (offset + 2) <<< 40 ||| byte_at data (offset + 3) <<< 32
    ||| byte_at data (offset + 4) <<< 24 ||| byte_at data (offset + 5) <<< 16
    ||| byte_at data (offset + 6) <<< 8 ||| byte_at data (offset + 7)

def read_u64_le (data : List UInt8) (offset : ℕ) : ℕ :=
  byte_at data offset ||| byte_at data (offset + 1) <<< 8
    ||| byte_at data (offset + 2) <<< 16 ||| byte_at data (offset + 3) <<< 24
    ||| byte_at data (offset + 4) <<< 32 ||| byte_at data (offset + 5) <<< 40
    ||| byte_at data (offset + 6) <<< 48 ||| byte_at data (offset + 7) <<< 56

/-- The cast of an unsigned `w`-bit value to the signed type of that width. -/
def as_signed (w n : ℕ) : ℤ := if n < 2 ^ (w - 1) then n else n - 2 ^ w

/-- `(uint64_t)(int64_t)x` -/
def to_u64 (x : ℤ) : ℕ := (x % 2 ^ 64).toNat

def read_i8 (data : List UInt8) (offset : ℕ) : ℤ := as_signed 8 (byte_at data offset)
def read_i16_be (data : List UInt8) (offset : ℕ) : ℤ := as_signed 16 (read_u16_be data offset)
def read_i16_le (data : List UInt8) (offset : ℕ) : ℤ := as_signed 16 (read_u16_le data offset)
def read_i32_be (data : List UInt8) (offset : ℕ) : ℤ := as_signed 32 (read_u32_be data offset)
def read_i32_le (data : List UInt8) (offset : ℕ) : ℤ := as_signed 32 (read_u32_le data offset)
def read_i64_be (data : List UInt8) (offset : ℕ) : ℤ := as_signed 64 (read_u64_be data offset)
def read_i64_le (data : List UInt8) (offset : ℕ) : ℤ := as_signed 64 (read_u64_le data offset)

/-! ## The machine -/

structure Vm where
  ip : ℕ := 0
  acc : ℕ := 0
  cmp_result : Bool := false
  deriving DecidableEq, Repr

/-- What a run comes to. -/
inductive ExecResult where
  | returns (b : Bool)
  | out_of_bounds
  | out_of_turns
  deriving DecidableEq, Repr

/-- What one turn of the loop comes to. -/
abbrev Turn := Machine.Turn Vm ExecResult

/-- The width of a load and how it reads its value. -/
def load_op : OpCode → Option (ℕ × (List UInt8 → ℕ → ℕ))
  | .LOAD_U8 => some (1, byte_at)
  | .LOAD_U16_BE => some (2, read_u16_be)
  | .LOAD_U16_LE => some (2, read_u16_le)
  | .LOAD_U32_BE => some (4, read_u32_be)
  | .LOAD_U32_LE => some (4, read_u32_le)
  | .LOAD_U64_BE => some (8, read_u64_be)
  | .LOAD_U64_LE => some (8, read_u64_le)
  | .LOAD_I8 => some (1, fun data offset => to_u64 (read_i8 data offset))
  | .LOAD_I16_BE => some (2, fun data offset => to_u64 (read_i16_be data offset))
  | .LOAD_I16_LE => some (2, fun data offset => to_u64 (read_i16_le data offset))
  | .LOAD_I32_BE => some (4, fun data offset => to_u64 (read_i32_be data offset))
  | .LOAD_I32_LE => some (4, fun data offset => to_u64 (read_i32_le data offset))
  | .LOAD_I64_BE => some (8, fun data offset => to_u64 (read_i64_be data offset))
  | .LOAD_I64_LE => some (8, fun data offset => to_u64 (read_i64_le data offset))
  | _ => none

/-- The test of a comparison: accumulator, `operand`, `operand2`. -/
def cmp_op : OpCode → Option (ℕ → ℕ → ℕ → Bool)
  | .CMP_EQ => some fun acc operand _ => acc = operand
  | .CMP_NE => some fun acc operand _ => acc ≠ operand
  | .CMP_GT => some fun acc operand _ => acc > operand
  | .CMP_GE => some fun acc operand _ => acc ≥ operand
  | .CMP_LT => some fun acc operand _ => acc < operand
  | .CMP_LE => some fun acc operand _ => acc ≤ operand
  | .CMP_MASK => some fun acc operand operand2 => acc &&& operand = operand2
  | _ => none

def exec_load (packet : Packet) (offset width : ℕ) (read : List UInt8 → ℕ → ℕ) (vm : Vm) :
    Turn :=
  if u32 (offset + width) > packet.len then .done (.returns false)
  else if offset + width > packet.len then .done .out_of_bounds
  else .next { vm with ip := vm.ip + 1, acc := read packet.bytes offset }

def exec_jump (bytecode_len target : ℕ) (vm : Vm) : Turn :=
  if target ≥ bytecode_len then .done (.returns false) else .next { vm with ip := target }

def exec_instruction (packet : Packet) (bytecode_len : ℕ) (ins : Instruction) (vm : Vm) : Turn :=
  match load_op ins.opcode, cmp_op ins.opcode with
  | some (width, read), _ => exec_load packet ins.offset width read vm
  | _, some test =>
    .next { vm with ip := vm.ip + 1, cmp_result := test vm.acc ins.operand ins.operand2 }
  | none, none =>
    match ins.opcode with
    | .JUMP_IF_FALSE =>
      if vm.cmp_result then .next { vm with ip := vm.ip + 1 }
      else exec_jump bytecode_len ins.jump_target vm
    | .JUMP => exec_jump bytecode_len ins.jump_target vm
    | .RETURN_TRUE => .done (.returns true)
    | _ => .done (.returns false)

/-- One turn of the loop; a program that is over returns false. -/
def exec_turn (packet : Packet) (bytecode : List Instruction) (vm : Vm) : Turn :=
  match bytecode[vm.ip]? with
  | none => .done (.returns false)
  | some ins => exec_instruction packet bytecode.length ins vm

/-- `n` turns of the loop. -/
def exec_loop (packet : Packet) (bytecode : List Instruction) (n : ℕ) (vm : Vm) : ExecResult :=
  (Machine.run (exec_turn packet bytecode) n vm).getD .out_of_turns

def execute_bytecode (packet : Packet) (bytecode : List Instruction) : ExecResult :=
  if bytecode.length = 0 then .returns false
  else exec_loop packet bytecode (bytecode.length + 1) {}

def execute_filter (packet : Packet) (rule : FilterRule) : ExecResult :=
  if packet.len < rule.min_packet_size then .returns false
  else execute_bytecode packet rule.bytecode.elems

end RxNetCap.Runtime
