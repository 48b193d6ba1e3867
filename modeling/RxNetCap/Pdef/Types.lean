/-
The data model of PDEF, from `src/pdef/pdef_types.h` and the private types of
`src/pdef/parser.c`.

Three conventions hold from here on. A C string is the list of its characters
before the terminating NUL, and a `char buf[n]` keeps at most `n - 1` of them
(`cstr`). A `uint32_t` or `uint64_t` is a natural number, and every operation
of the source that can wrap is written with `u32`. An array on the heap is a
`Table`: the block that holds it, its allocated capacity, and the elements
written so far, whose number is the source's separate count field.
-/
import Mathlib.Algebra.Order.Ring.Int
import Mathlib.Data.List.Basic

set_option autoImplicit false

namespace RxNetCap.Pdef

/-! ## Machine representation -/

/-- The characters of a C string. -/
abbrev CStr := List Char

instance CStr.lawfulBEq : LawfulBEq CStr := inferInstanceAs (LawfulBEq (List Char))

/-- What a `char buf[n]` keeps of a longer string. -/
def cstr (n : ℕ) (s : CStr) : CStr := s.take (n - 1)

/-- Reduction to a `uint32_t`. -/
def u32 (n : ℕ) : ℕ := n % 2 ^ 32

theorem u32_of_lt {n : ℕ} (h : n < 2 ^ 32) : u32 n = n := Nat.mod_eq_of_lt h

theorem u32_le (n : ℕ) : u32 n ≤ n := Nat.mod_le _ _

theorem u32_lt (n : ℕ) : u32 n < 2 ^ 32 := Nat.mod_lt _ (Nat.two_pow_pos _)

/-- The largest `uint64_t`, at which `strtoull` saturates. -/
def UINT64_MAX : ℕ := 2 ^ 64 - 1

/-- An array on the heap. -/
structure Table (α : Type) where
  ptr : ℕ
  cap : ℕ
  elems : List α
  deriving DecidableEq, Repr

variable {α : Type}

/-- The number of elements in use. -/
def Table.count (t : Table α) : ℕ := t.elems.length

/-- Write at the first unused index. -/
def Table.push (t : Table α) (x : α) : Table α := { t with elems := t.elems ++ [x] }

@[simp] theorem Table.push_ptr (t : Table α) (x : α) : (t.push x).ptr = t.ptr := rfl
@[simp] theorem Table.push_cap (t : Table α) (x : α) : (t.push x).cap = t.cap := rfl
@[simp] theorem Table.push_elems (t : Table α) (x : α) :
    (t.push x).elems = t.elems ++ [x] := rfl

/-! ## Fields and structs -/

inductive FieldType where
  | UINT8 | UINT16 | UINT32 | UINT64
  | INT8 | INT16 | INT32 | INT64
  | BYTES | STRING | VARBYTES | NESTED
  deriving DecidableEq, Repr

/-- `field_type_size` of `pdef_types.c`. -/
def field_type_size : FieldType → ℕ
  | .UINT8 | .INT8 => 1
  | .UINT16 | .INT16 => 2
  | .UINT32 | .INT32 => 4
  | .UINT64 | .INT64 => 8
  | .BYTES | .STRING | .VARBYTES | .NESTED => 0

inductive Endian where
  | BIG | LITTLE
  deriving DecidableEq, Repr

inductive EndianMode where
  | BIG | LITTLE | AUTO
  deriving DecidableEq, Repr

inductive EndianType where
  | UNKNOWN | BIG | LITTLE
  deriving DecidableEq, Repr

structure Field where
  name : CStr := []
  type : FieldType := .UINT8
  offset : ℕ := 0
  size : ℕ := 0
  endian : Endian := .BIG
  is_variable : Bool := false
  is_array : Bool := false
  array_size : ℕ := 0
  deriving DecidableEq, Repr

structure StructDef where
  name : CStr
  fields : Table Field
  min_size : ℕ := 0
  has_variable : Bool := false
  deriving DecidableEq, Repr

/-! ## Bytecode -/

inductive OpCode where
  | LOAD_U8
  | LOAD_U16_BE | LOAD_U16_LE
  | LOAD_U32_BE | LOAD_U32_LE
  | LOAD_U64_BE | LOAD_U64_LE
  | LOAD_I8
  | LOAD_I16_BE | LOAD_I16_LE
  | LOAD_I32_BE | LOAD_I32_LE
  | LOAD_I64_BE | LOAD_I64_LE
  | CMP_EQ | CMP_NE | CMP_GT | CMP_GE | CMP_LT | CMP_LE | CMP_MASK
  | JUMP_IF_FALSE | JUMP | RETURN_TRUE | RETURN_FALSE
  deriving DecidableEq, Repr

/-- One instruction; the zero-filled value is what `calloc` leaves. -/
structure Instruction where
  opcode : OpCode := .LOAD_U8
  offset : ℕ := 0
  operand : ℕ := 0
  operand2 : ℕ := 0
  jump_target : ℕ := 0
  deriving DecidableEq, Repr

/-- A compiled filter. `bytecode_be` is `bytecode` under a second name, the
same block; each `_len` of the source is the length of its table. -/
structure FilterRule where
  name : CStr
  struct_name : CStr
  bytecode : Table Instruction
  bytecode_be : Table Instruction
  bytecode_le : Table Instruction
  min_packet_size : ℕ
  sliding_window : Bool
  sliding_max_offset : ℕ
  deriving DecidableEq, Repr

/-! ## The protocol -/

/-- One link of the constant chain, with the block it lives in. -/
structure ConstantEntry where
  ptr : ℕ
  name : CStr
  value : ℕ
  deriving DecidableEq, Repr

/-- `ProtocolDef`, with the block it lives in. `structs` and `filters` are
null until the parse succeeds. `ports` is null throughout: the parser reads
the deprecated list and drops it. -/
structure ProtocolDef where
  ptr : ℕ
  name : CStr := []
  default_endian : Endian := .BIG
  structs : Option (Table StructDef) := none
  filters : Option (Table FilterRule) := none
  constants : List ConstantEntry := []
  endian_mode : EndianMode := .AUTO
  detected_endian : EndianType := .UNKNOWN
  deriving DecidableEq, Repr

/-- The structs of a protocol. -/
def structs_of (proto : ProtocolDef) : List StructDef :=
  (proto.structs.map Table.elems).getD []

/-- The filters of a protocol. -/
def rules_of (proto : ProtocolDef) : List FilterRule :=
  (proto.filters.map Table.elems).getD []

/-! ## Conditions, before compilation -/

inductive ConditionOp where
  | EQ | NE | GT | GE | LT | LE | MASK | IN | NOT_IN
  deriving DecidableEq, Repr

structure FilterCondition where
  field_name : CStr := []
  op : ConditionOp := .EQ
  value : ℕ := 0
  mask : ℕ := 0
  values : Option (Table ℕ) := none
  deriving DecidableEq, Repr

/-- The list operand; empty when the block was never allocated. -/
def FilterCondition.value_list (c : FilterCondition) : List ℕ :=
  (c.values.map Table.elems).getD []

/-- A condition with the field it is about. -/
abbrev Bound := Field × FilterCondition

structure TempFilterRule where
  name : CStr
  conditions : Table FilterCondition
  sliding_window : Bool := false
  sliding_max_offset : ℕ := 0
  deriving DecidableEq, Repr

end RxNetCap.Pdef
