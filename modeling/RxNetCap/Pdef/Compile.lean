/-
`compile_filter_rules` of `src/pdef/parser.c`: every filter block becomes a
program for the packet matcher.

The compiler makes two passes over the conditions of a filter. The first adds
up how many instructions each condition takes, which fixes where each one
starts and where the two final instructions stand; the second writes the
instructions at those places. All of this is `uint32_t` arithmetic, and a write
that misses the allocated program is an overrun.
-/
import RxNetCap.Pdef.Flatten

set_option autoImplicit false

namespace RxNetCap.Pdef

open RxNetCap.Ledger

/-! ## Opcodes -/

def find_field_by_path (s : StructDef) (path : CStr) : Option Field :=
  s.fields.elems.find? (·.name = path)

def get_load_opcode (field : Field) : OpCode :=
  match field.type with
  | .UINT8 => .LOAD_U8
  | .UINT16 => if field.endian = .BIG then .LOAD_U16_BE else .LOAD_U16_LE
  | .UINT32 => if field.endian = .BIG then .LOAD_U32_BE else .LOAD_U32_LE
  | .UINT64 => if field.endian = .BIG then .LOAD_U64_BE else .LOAD_U64_LE
  | .INT8 => .LOAD_I8
  | .INT16 => if field.endian = .BIG then .LOAD_I16_BE else .LOAD_I16_LE
  | .INT32 => if field.endian = .BIG then .LOAD_I32_BE else .LOAD_I32_LE
  | .INT64 => if field.endian = .BIG then .LOAD_I64_BE else .LOAD_I64_LE
  | _ => .LOAD_U8

def swap_endian_opcode : OpCode → OpCode
  | .LOAD_U16_BE => .LOAD_U16_LE
  | .LOAD_U16_LE => .LOAD_U16_BE
  | .LOAD_U32_BE => .LOAD_U32_LE
  | .LOAD_U32_LE => .LOAD_U32_BE
  | .LOAD_U64_BE => .LOAD_U64_LE
  | .LOAD_U64_LE => .LOAD_U64_BE
  | .LOAD_I16_BE => .LOAD_I16_LE
  | .LOAD_I16_LE => .LOAD_I16_BE
  | .LOAD_I32_BE => .LOAD_I32_LE
  | .LOAD_I32_LE => .LOAD_I32_BE
  | .LOAD_I64_BE => .LOAD_I64_LE
  | .LOAD_I64_LE => .LOAD_I64_BE
  | op => op

def get_cmp_opcode : ConditionOp → OpCode
  | .EQ => .CMP_EQ
  | .NE => .CMP_NE
  | .GT => .CMP_GT
  | .GE => .CMP_GE
  | .LT => .CMP_LT
  | .LE => .CMP_LE
  | .MASK => .CMP_MASK
  | _ => .CMP_EQ

def swap_endian (ins : Instruction) : Instruction :=
  { ins with opcode := swap_endian_opcode ins.opcode }

/-! ## First pass: sizes and places -/

/-- How many instructions a condition takes; none for a list with no value. -/
def cond_size (cond : FilterCondition) : Option ℕ :=
  match cond.op with
  | .IN =>
    if cond.value_list.length = 0 then none else some (u32 (3 * cond.value_list.length))
  | .NOT_IN =>
    if cond.value_list.length = 0 then none else some (u32 (1 + u32 (3 * cond.value_list.length)))
  | _ => some 3

def size_conditions (rule_name : CStr) (cond_sizes_ptr : ℕ) :
    List FilterCondition → List ℕ → ℕ → ParseM (List ℕ × ℕ)
  | [], sizes, total_size => return (sizes, total_size)
  | cond :: rest, sizes, total_size => do
    match cond_size cond with
    | none =>
      or_free cond_sizes_ptr (parser_error ("Empty "
        ++ (if cond.op = .IN then "IN" else "NOT IN") ++ " list in filter '"
        ++ String.ofList rule_name ++ "'"))
    | some size =>
      size_conditions rule_name cond_sizes_ptr rest (sizes ++ [size]) (u32 (total_size + size))

/-- Where each condition starts, the first one at `start`. -/
def cond_starts : ℕ → List ℕ → List ℕ
  | _, [] => []
  | start, size :: sizes => start :: cond_starts (u32 (start + size)) sizes

/-! ## Second pass: instructions -/

/-- `bytecode[idx++] = ins` -/
def emit (ins : Instruction) (code : Table Instruction × ℕ) : ParseM (Table Instruction × ℕ) := do
  let (bytecode, idx) := code
  if idx ≥ bytecode.cap then throw .overrun
  return ({ bytecode with elems := bytecode.elems.set idx ins }, u32 (idx + 1))

def emit_in (next_start fail_label : ℕ) :
    List ℕ → Table Instruction × ℕ → ParseM (Table Instruction × ℕ)
  | [], code => return code
  | [value], code => do
    let code ← emit { opcode := .CMP_EQ, operand := value } code
    emit { opcode := .JUMP_IF_FALSE, jump_target := fail_label } code
  | value :: rest, code => do
    let code ← emit { opcode := .CMP_EQ, operand := value } code
    let code ← emit { opcode := .JUMP_IF_FALSE, jump_target := u32 (code.2 + 2) } code
    let code ← emit { opcode := .JUMP, jump_target := next_start } code
    emit_in next_start fail_label rest code

def emit_not_in (next_start fail_label : ℕ) :
    List ℕ → Table Instruction × ℕ → ParseM (Table Instruction × ℕ)
  | [], code => return code
  | value :: rest, code => do
    let code ← emit { opcode := .CMP_EQ, operand := value } code
    let code ← emit { opcode := .JUMP_IF_FALSE
                      jump_target := if rest = [] then next_start else u32 (code.2 + 2) } code
    let code ← emit { opcode := .JUMP, jump_target := fail_label } code
    emit_not_in next_start fail_label rest code

def emit_comparison (fail_label : ℕ) (cond : FilterCondition)
    (code : Table Instruction × ℕ) : ParseM (Table Instruction × ℕ) := do
  let cmp_ins : Instruction := { opcode := get_cmp_opcode cond.op, operand := cond.value }
  let code ← emit (if cond.op = .MASK
    then { cmp_ins with operand := cond.mask, operand2 := cond.value } else cmp_ins) code
  emit { opcode := .JUMP_IF_FALSE, jump_target := fail_label } code

def load_instruction (field : Field) : Instruction :=
  { opcode := get_load_opcode field, offset := field.offset }

/-- One condition, written from `start` on. -/
def emit_condition (field : Field) (cond : FilterCondition) (start next_start fail_label : ℕ)
    (bytecode : Table Instruction) : ParseM (Table Instruction) := do
  let code ← emit (load_instruction field) (bytecode, start)
  let code ← match cond.op with
    | .IN => emit_in next_start fail_label cond.value_list code
    | .NOT_IN => emit_not_in next_start fail_label cond.value_list code
    | _ => emit_comparison fail_label cond code
  return code.1

/-- The blocks the compiler holds while it writes a program. -/
structure Scratch where
  cond_sizes : ℕ
  cond_starts : ℕ

def require_field (s : StructDef) (scratch : Scratch) (bytecode : Table Instruction)
    (path : CStr) : ParseM Field := do
  match find_field_by_path s path with
  | some field => return field
  | none =>
    or_free scratch.cond_starts (or_free scratch.cond_sizes (or_free bytecode.ptr
      (parser_error ("Field '" ++ String.ofList path ++ "' not found in struct '"
        ++ String.ofList s.name ++ "'"))))

def emit_conditions (s : StructDef) (scratch : Scratch) (success_label fail_label : ℕ) :
    List FilterCondition → List ℕ → Table Instruction → ParseM (Table Instruction)
  | cond :: conds, start :: starts, bytecode => do
    let field ← require_field s scratch bytecode cond.field_name
    let bytecode ← emit_condition field cond start (starts.headD success_label) fail_label bytecode
    emit_conditions s scratch success_label fail_label conds starts bytecode
  | _, _, bytecode => return bytecode

/-- The two final instructions. -/
def emit_returns (total_size success_label fail_label : ℕ) (bytecode : Table Instruction) :
    Table Instruction :=
  if total_size ≥ 2 then
    { bytecode with
      elems := (bytecode.elems.modify success_label ({ · with opcode := .RETURN_TRUE })).modify
        fail_label ({ · with opcode := .RETURN_FALSE }) }
  else bytecode

/-! ## One filter -/

/-- The first struct with the field that the first condition names. -/
def target_struct (structs : List StructDef) (temp_rule : TempFilterRule) : Option StructDef :=
  match temp_rule.conditions.elems.head? with
  | none => none
  | some cond => structs.find? fun s => (find_field_by_path s cond.field_name).isSome

/-- `calloc(n, sizeof(Instruction))` -/
def calloc_code (n : ℕ) : ParseM (Table Instruction) :=
  return { ptr := ← malloc, cap := n, elems := List.replicate n {} }

def compile_filter_rule (temp_rule : TempFilterRule) : ParseM FilterRule := do
  consult (← get).temp_filter_rules.ptr
  consult temp_rule.conditions.ptr
  consult (← get).temp_structs.ptr
  match target_struct (← get).temp_structs.elems temp_rule with
  | none => parser_error ("Cannot find struct for filter '" ++ String.ofList temp_rule.name ++ "'")
  | some s =>
    consult s.fields.ptr
    let conds := temp_rule.conditions.elems
    let cond_sizes_ptr ← malloc
    let (cond_sizes, total_size) ← size_conditions temp_rule.name cond_sizes_ptr conds [] 2
    let bytecode ← calloc_code total_size
    let success_label := total_size - 2
    let fail_label := total_size - 1
    let scratch : Scratch := { cond_sizes := cond_sizes_ptr, cond_starts := ← malloc }
    let bytecode ← emit_conditions s scratch success_label fail_label conds
      (cond_starts 0 cond_sizes) bytecode
    let bytecode := emit_returns total_size success_label fail_label bytecode
    let bytecode_le ← calloc_code total_size
    free scratch.cond_sizes
    free scratch.cond_starts
    return { name := cstr 64 temp_rule.name
             struct_name := s.name
             bytecode := bytecode
             bytecode_be := bytecode
             bytecode_le := { bytecode_le with elems := bytecode.elems.map swap_endian }
             min_packet_size := s.min_size
             sliding_window := temp_rule.sliding_window
             sliding_max_offset := temp_rule.sliding_max_offset }

def compile_rules : List TempFilterRule → ParseM Unit
  | [] => return ()
  | temp_rule :: rest => do
    let rule ← compile_filter_rule temp_rule
    modify fun p => { p with temp_filters := p.temp_filters.push rule }
    compile_rules rest

def compile_filter_rules : ParseM Unit := do
  consult (← get).proto.ptr
  compile_rules (← get).temp_filter_rules.elems

end RxNetCap.Pdef
