/-
The PDEF parser, `src/pdef/parser.c`, as far as the end of the text: the
`@protocol`, `@const`, `@filter` and struct blocks.

The parser runs in `ParseM`. Its state is the source's `Parser`: the tokens
still to come (the head is `current_token`, the one after it `peek_token`),
the protocol being built, the three temporary tables, and the heap. A C
function that returns `false` throws, and the state it left stays, since the
error exit goes on to release what it finds there. Allocations succeed.

A loop of the source takes the number of turns it may still make. Every turn
of every loop uses up a token or throws, so the number of tokens left is
always enough, and `Stop.out_of_turns` is never reached.

A write past the capacity of a table is undefined behaviour in C and ends the
run with `Stop.overrun`. Tables that grow double a `uint32_t` capacity, so a
table that would need `2 ^ 32` elements overruns too.
-/
import RxNetCap.Pdef.Lexer
import RxNetCap.Lib.Ledger

set_option autoImplicit false

namespace RxNetCap.Pdef

open RxNetCap.Ledger

/-! ## State, errors, and the monad -/

/-- The contents of `error_msg`. A failed `parser_expect` prints the line of
the current token, which is found from the number of tokens left; it prints
nothing when it is the lexer that fails. -/
inductive ParseError where
  | message (text : String)
  | expected (want got : TokenType) (left : ℕ)
  | silent
  deriving DecidableEq, Repr

/-- Why a run ends before its end. -/
inductive Stop where
  | error (e : ParseError)
  | overrun
  | out_of_turns
  deriving DecidableEq, Repr

structure Parser where
  toks : List Token
  last : Token
  heap : Heap
  proto : ProtocolDef
  temp_structs : Table StructDef
  temp_filters : Table FilterRule
  temp_filter_rules : Table TempFilterRule
  endian_set : Bool := false
  deriving DecidableEq, Repr

abbrev ParseM := EStateM Stop Parser

def Parser.current_token (p : Parser) : Token := p.toks.headD p.last

def Parser.peek_token (p : Parser) : Token := p.toks.tail.headD p.last

variable {α : Type}

def parser_error (text : String) : ParseM α := throw (.error (.message text))

def current_token : ParseM Token := return (← get).current_token

/-- The number of turns a loop starting now may make. -/
def turns : ParseM ℕ := return (← get).toks.length + 1

/-! ## The heap -/

def malloc : ParseM ℕ :=
  modifyGet fun p => (p.heap.malloc.1, { p with heap := p.heap.malloc.2 })

def free (t : ℕ) : ParseM Unit := modify fun p => { p with heap := p.heap.free t }

def consult (t : ℕ) : ParseM Unit := modify fun p => { p with heap := p.heap.consult t }

/-- `calloc(cap, sizeof(T))`. -/
def calloc (cap : ℕ) : ParseM (Table α) := return { ptr := ← malloc, cap := cap, elems := [] }

/-- Make room for one more element: when the table is full, `realloc` it at
twice its capacity. -/
def reserve (t : Table α) : ParseM (Table α) := do
  if t.count ≥ t.cap then
    free t.ptr
    let t' : Table α := { ptr := ← malloc, cap := u32 (t.cap * 2), elems := t.elems }
    if t'.count ≥ t'.cap then throw .overrun else return t'
  else return t

/-! ## Tokens -/

/-- Take the next token; whether the lexer managed to read the one after it. -/
def parser_next_token : ParseM Bool := do
  modify fun p => { p with toks := p.toks.tail }
  return (← get).peek_token.ok

/-- Take the next token, whatever the lexer says. -/
def parser_skip_token : ParseM Unit := do
  let _ ← parser_next_token

def parser_expect (type : TokenType) : ParseM Unit := do
  let token ← current_token
  if token.type ≠ type then
    throw (.error (.expected type token.type (← get).toks.length))
  if !(← parser_next_token) then throw (.error .silent)

/-- `if (p->current_token.type == TOKEN_SEMICOLON) parser_next_token(p);` -/
def optional_semicolon : ParseM Unit := do
  if (← current_token).type = .SEMICOLON then parser_skip_token

/-- Fail unless the current token is of the type. -/
def parser_require (type : TokenType) (text : String) : ParseM Unit := do
  if (← current_token).type ≠ type then parser_error text

/-! ## Constants -/

def add_constant (name : CStr) (value : ℕ) : ParseM Unit := do
  let ptr ← malloc
  consult (← get).proto.ptr
  modify fun p => { p with proto := { p.proto with
    constants := { ptr := ptr, name := cstr 64 name, value := value } :: p.proto.constants } }

/-- The walk of `protocol_find_constant` along the chain. -/
def find_constant_from (name : CStr) : List ConstantEntry → ParseM (Option ℕ)
  | [] => return none
  | entry :: rest => do
    consult entry.ptr
    if entry.name = name then return some entry.value
    find_constant_from name rest

def lookup_constant (name : CStr) : ParseM (Option ℕ) := do
  consult (← get).proto.ptr
  find_constant_from name (← get).proto.constants

/-- A number, or the name of a constant. -/
def parse_operand (text : String) : ParseM ℕ := do
  let token ← current_token
  if token.type = .NUMBER then
    parser_skip_token
    return token.value
  else if token.type = .IDENTIFIER then
    match ← lookup_constant token.text with
    | none => parser_error ("Undefined constant '" ++ String.ofList token.text ++ "'")
    | some value =>
      parser_skip_token
      return value
  else parser_error text

/-! ## `@protocol` -/

def parse_protocol_name : ParseM Unit := do
  let token ← current_token
  if token.type = .STRING ∨ token.type = .IDENTIFIER then
    modify fun p => { p with proto := { p.proto with name := cstr 64 token.text } }
    parser_skip_token
  else parser_error "Expected string or identifier for protocol name"

def set_endian (default_endian : Endian) (endian_mode : EndianMode) : ParseM Unit :=
  modify fun p => { p with
    proto := { p.proto with default_endian := default_endian, endian_mode := endian_mode }
    endian_set := true }

def parse_protocol_endian : ParseM Unit := do
  let token ← current_token
  if token.type ≠ .IDENTIFIER then
    parser_error "Expected 'big' or 'little' or 'auto' for endian"
  if token.text = "big".toList then set_endian .BIG .BIG
  else if token.text = "little".toList then set_endian .LITTLE .LITTLE
  else if token.text = "auto".toList then set_endian .BIG .AUTO
  else
    parser_error ("Expected 'big' or 'little' or 'auto' for endian, got '"
      ++ String.ofList token.text ++ "'")
  parser_skip_token

/-- The `do ... while` over the deprecated port list; the numbers are dropped. -/
def parse_protocol_ports : ℕ → ParseM Unit
  | 0 => throw .out_of_turns
  | n + 1 => do
    if (← current_token).type = .COMMA then parser_skip_token
    parser_require .NUMBER "Expected port number"
    parser_skip_token
    if (← current_token).type = .COMMA then parse_protocol_ports n

def parse_protocol_entry : ParseM Unit := do
  parser_require .IDENTIFIER "Expected identifier in @protocol block"
  let key := cstr 64 (← current_token).text
  parser_skip_token
  parser_expect .ASSIGN
  if key = "name".toList then parse_protocol_name
  else if key = "endian".toList then parse_protocol_endian
  else if key = "ports".toList then parse_protocol_ports (← turns)
  else parser_error ("Unknown protocol metadata key: " ++ String.ofList key)
  optional_semicolon

def parse_protocol_entries : ℕ → ParseM Unit
  | 0 => throw .out_of_turns
  | n + 1 => do
    if (← current_token).type ≠ .RBRACE then
      parse_protocol_entry
      parse_protocol_entries n

def parse_protocol_block : ParseM Unit := do
  parser_expect .PROTOCOL
  parser_expect .LBRACE
  consult (← get).proto.ptr
  parse_protocol_entries (← turns)
  parser_expect .RBRACE

/-! ## `@const` -/

def parse_const_entry : ParseM Unit := do
  parser_require .IDENTIFIER "Expected constant name"
  let name := cstr 64 (← current_token).text
  parser_skip_token
  parser_expect .ASSIGN
  parser_require .NUMBER "Expected constant value"
  let value := (← current_token).value
  parser_skip_token
  add_constant name value
  optional_semicolon

def parse_const_entries : ℕ → ParseM Unit
  | 0 => throw .out_of_turns
  | n + 1 => do
    if (← current_token).type ≠ .RBRACE then
      parse_const_entry
      parse_const_entries n

def parse_const_block : ParseM Unit := do
  parser_expect .CONST
  parser_expect .LBRACE
  parse_const_entries (← turns)
  parser_expect .RBRACE

/-! ## Field paths -/

def append_token (out_size : ℕ) (out token : CStr) : ParseM CStr := do
  if out.length + token.length ≥ out_size then parser_error "Field path too long"
  return out ++ token

/-- `snprintf` of an index with `%llu` or `%u`. -/
def decimal (n : ℕ) : CStr := Nat.toDigits 10 n

def parse_field_indices (out_size : ℕ) : ℕ → CStr → ParseM CStr
  | 0, _ => throw .out_of_turns
  | n + 1, out => do
    if (← current_token).type = .LBRACKET then
      let out ← append_token out_size out ['[']
      parser_skip_token
      parser_require .NUMBER "Expected index inside []"
      let out ← append_token out_size out (decimal (← current_token).value)
      parser_skip_token
      parser_expect .RBRACKET
      let out ← append_token out_size out [']']
      parse_field_indices out_size n out
    else return out

def parse_field_steps (out_size : ℕ) : ℕ → CStr → ParseM CStr
  | 0, _ => throw .out_of_turns
  | n + 1, out => do
    let out ← append_token out_size out (← current_token).text
    parser_skip_token
    let out ← parse_field_indices out_size (← turns) out
    if (← current_token).type = .DOT then
      let out ← append_token out_size out ['.']
      parser_skip_token
      parser_require .IDENTIFIER "Expected field name after '.'"
      parse_field_steps out_size n out
    else return out

def parse_field_path (out_size : ℕ) : ParseM CStr := do
  parser_require .IDENTIFIER "Expected field name"
  parse_field_steps out_size (← turns) []

/-! ## `@filter` -/

/-- The values of an `in` list, after the opening bracket. -/
def parse_value_list : ℕ → Table ℕ → ParseM (Table ℕ)
  | 0, _ => throw .out_of_turns
  | n + 1, values => do
    let values ← reserve values
    let val ← parse_operand "Expected value in list"
    let values := values.push val
    let token ← current_token
    if token.type = .COMMA then
      parser_skip_token
      parse_value_list n values
    else if token.type = .RBRACKET then
      parser_skip_token
      return values
    else parser_error "Expected ',' or ']' in list"

def parse_in_list (op : ConditionOp) (cond : FilterCondition) : ParseM FilterCondition := do
  parser_skip_token
  parser_expect .LBRACKET
  let values ← parse_value_list (← turns) (← calloc 4)
  if values.count = 0 then parser_error "Empty value list is not allowed"
  return { cond with op := op, values := some values }

def comparison_op : TokenType → Option ConditionOp
  | .ASSIGN | .EQ => some .EQ
  | .NE => some .NE
  | .GT => some .GT
  | .GE => some .GE
  | .LT => some .LT
  | .LE => some .LE
  | _ => none

def parse_comparison (cond : FilterCondition) : ParseM FilterCondition := do
  match comparison_op (← current_token).type with
  | none => parser_error "Expected comparison operator"
  | some op =>
    parser_skip_token
    return { cond with op := op }

/-- `!`, if it is there. -/
def parse_not : ParseM Bool := do
  if (← current_token).type = .NOT then
    parser_skip_token
    return true
  else return false

/-- The operator of a condition, with the operands that stand before the
value: the mask, or the whole list. -/
def parse_operator (cond : FilterCondition) : ParseM FilterCondition := do
  if (← current_token).type = .AND then
    parser_skip_token
    let mask ← parse_operand "Expected mask value"
    parser_expect .ASSIGN
    return { cond with mask := mask, op := .MASK }
  else
    let negate ← parse_not
    let token ← current_token
    if token.type = .IN ∨ (token.type = .IDENTIFIER ∧ token.text = "in".toList) then
      parse_in_list (if negate then .NOT_IN else .IN) cond
    else parse_comparison cond

def parse_condition : ParseM FilterCondition := do
  parser_require .IDENTIFIER "Expected field name or configuration"
  let field_path ← parse_field_path 128
  let cond ← parse_operator { field_name := cstr 128 field_path }
  if cond.op ≠ .IN ∧ cond.op ≠ .NOT_IN then
    return { cond with value := ← parse_operand "Expected value" }
  else return cond

def parse_sliding : ParseM Bool := do
  parser_skip_token
  parser_expect .ASSIGN
  let token ← current_token
  if token.type = .IDENTIFIER then
    if token.text = "true".toList then
      parser_skip_token
      return true
    else if token.text = "false".toList then
      parser_skip_token
      return false
    else parser_error "Expected 'true' or 'false' for sliding"
  else if token.type = .NUMBER then
    parser_skip_token
    return token.value ≠ 0
  else parser_error "Expected boolean value for sliding"

def parse_sliding_max : ParseM ℕ := do
  parser_skip_token
  parser_expect .ASSIGN
  parser_require .NUMBER "Expected number for sliding_max"
  let value := u32 (← current_token).value
  parser_skip_token
  return value

/-- One entry of a filter block: a setting, or a condition. -/
def parse_filter_item (rule : TempFilterRule) : ParseM TempFilterRule := do
  let token ← current_token
  if token.type = .IDENTIFIER ∧ token.text = "sliding".toList then
    let sliding ← parse_sliding
    optional_semicolon
    return { rule with sliding_window := sliding }
  else if token.type = .IDENTIFIER ∧ token.text = "sliding_max".toList then
    let sliding_max ← parse_sliding_max
    optional_semicolon
    return { rule with sliding_max_offset := sliding_max }
  else
    let conditions ← reserve rule.conditions
    let cond ← parse_condition
    optional_semicolon
    return { rule with conditions := conditions.push cond }

def parse_filter_items : ℕ → TempFilterRule → ParseM TempFilterRule
  | 0, _ => throw .out_of_turns
  | n + 1, rule => do
    if (← current_token).type ≠ .RBRACE then
      parse_filter_items n (← parse_filter_item rule)
    else return rule

def parse_filter_block : ParseM Unit := do
  parser_expect .FILTER
  parser_require .IDENTIFIER "Expected filter name"
  consult (← get).proto.ptr
  if (← get).temp_filter_rules.count ≥ (← get).temp_filter_rules.cap then
    parser_error "Too many filters"
  let name := cstr 64 (← current_token).text
  parser_skip_token
  parser_expect .LBRACE
  let conditions ← calloc 8
  let rule ← parse_filter_items (← turns) { name := name, conditions := conditions }
  modify fun p => { p with temp_filter_rules := p.temp_filter_rules.push rule }
  parser_expect .RBRACE

/-! ## Structs -/

def token_to_field_type : TokenType → FieldType
  | .UINT8 => .UINT8
  | .UINT16 => .UINT16
  | .UINT32 => .UINT32
  | .UINT64 => .UINT64
  | .INT8 => .INT8
  | .INT16 => .INT16
  | .INT32 => .INT32
  | .INT64 => .INT64
  | .BYTES => .BYTES
  | .STRING_TYPE => .STRING
  | .VARBYTES => .VARBYTES
  | .IDENTIFIER => .NESTED
  | _ => .UINT8

/-- The `[N]` of a `bytes` or `string` field. -/
def parse_bytes_size : ParseM ℕ := do
  if (← current_token).type = .LBRACKET then
    parser_skip_token
    parser_require .NUMBER "Expected array size"
    let size := u32 (← current_token).value
    parser_skip_token
    parser_expect .RBRACKET
    return size
  else parser_error "bytes/string requires array size [N]"

/-- The `[N]` after the name of a nested field. -/
def parse_array_size (f : Field) : ParseM Field := do
  if (← current_token).type = .LBRACKET then
    if f.type ≠ .NESTED then
      parser_error "Array syntax is only supported for nested struct fields"
    parser_skip_token
    parser_require .NUMBER "Expected array size after '['"
    let array_size := u32 (← current_token).value
    if array_size = 0 then parser_error "Array size must be greater than 0"
    parser_skip_token
    parser_expect .RBRACKET
    return { f with is_array := true, array_size := array_size }
  else return f

/-- The name and size of a field once its type, its `[N]` and its own name are
read. A nested field carries the name of its struct in front of its own. -/
def name_field (type : FieldType) (size : ℕ) (type_name field_name : CStr) : Field :=
  if type = .NESTED then
    { name := cstr 128 (type_name ++ ['.'] ++ field_name), type := type, array_size := 1 }
  else
    { name := cstr 128 field_name, type := type, array_size := 1,
      size := if type = .BYTES ∨ type = .STRING then size else field_type_size type }

def parse_struct_field : ParseM Field := do
  let token ← current_token
  let type := token_to_field_type token.type
  parser_skip_token
  let size ← if type = .BYTES ∨ type = .STRING then parse_bytes_size else pure 0
  parser_require .IDENTIFIER "Expected field name"
  let field_name := cstr 64 (← current_token).text
  parser_skip_token
  let f ← parse_array_size (name_field type size (cstr 64 token.text) field_name)
  return { f with endian := (← get).proto.default_endian, is_variable := type = .VARBYTES }

def parse_struct_fields : ℕ → StructDef → ParseM StructDef
  | 0, _ => throw .out_of_turns
  | n + 1, s => do
    if (← current_token).type ≠ .RBRACE then
      if s.has_variable then
        parser_error ("Variable-length field must be the last field in struct '"
          ++ String.ofList s.name ++ "'")
      let fields ← reserve s.fields
      let f ← parse_struct_field
      optional_semicolon
      parse_struct_fields n { s with
        fields := fields.push f, has_variable := s.has_variable || f.is_variable }
    else return s

/-- The struct is written in place at `temp_structs[struct_count]`, and nothing
checks that the table has that entry. -/
def parse_struct_def : ParseM Unit := do
  parser_require .IDENTIFIER "Expected struct name"
  consult (← get).proto.ptr
  if (← get).temp_structs.count ≥ (← get).temp_structs.cap then throw .overrun
  let name := cstr 64 (← current_token).text
  parser_skip_token
  parser_expect .LBRACE
  let fields ← calloc 16
  let s ← parse_struct_fields (← turns) { name := name, fields := fields }
  modify fun p => { p with temp_structs := p.temp_structs.push s }
  parser_expect .RBRACE

/-! ## The blocks of a text -/

def parse_block : ParseM Unit := do
  match (← current_token).type with
  | .PROTOCOL => parse_protocol_block
  | .CONST => parse_const_block
  | .FILTER => parse_filter_block
  | .IDENTIFIER => parse_struct_def
  | _ => parser_error "Unexpected token at top level"

def parse_blocks : ℕ → ParseM Unit
  | 0 => throw .out_of_turns
  | n + 1 => do
    if (← current_token).type ≠ .EOF then
      parse_block
      parse_blocks n

/-- The parser on a fresh text, with its four first allocations made. -/
def parser_init (source : List Char) : Parser :=
  let (proto, h) := Heap.malloc {}
  let (temp_structs, h) := h.malloc
  let (temp_filters, h) := h.malloc
  let (temp_filter_rules, h) := h.malloc
  { toks := (lex source).1
    last := (lex source).2
    heap := h
    proto := { ptr := proto }
    temp_structs := { ptr := temp_structs, cap := 16, elems := [] }
    temp_filters := { ptr := temp_filters, cap := 16, elems := [] }
    temp_filter_rules := { ptr := temp_filter_rules, cap := 16, elems := [] } }

end RxNetCap.Pdef
