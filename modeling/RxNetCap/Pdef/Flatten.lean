/-
`flatten_structs` of `src/pdef/parser.c`: every struct, in the order of the
declarations, gets its nested fields replaced by the fields of the structs they
name, and every field its offset.

The pass works in place. A struct it has already reached holds its flattened
fields and its size; one it has not reached holds its fields as they were
parsed, offset 0, and size 0; and `find_struct_by_name` finds either.
-/
import RxNetCap.Pdef.Parser

set_option autoImplicit false

namespace RxNetCap.Pdef

open RxNetCap.Ledger

variable {α : Type}

/-- `if (!x) { free(ptr); return false; }` -/
def or_free (ptr : ℕ) (x : ParseM α) : ParseM α :=
  tryCatch x fun e => do
    free ptr
    throw e

/-! ## Looking up -/

/-- Split the name of a nested field at its first dot. -/
def parse_nested_field_names (name : CStr) : ParseM (CStr × CStr) := do
  if '.' ∉ name then
    parser_error ("Invalid nested field name: " ++ String.ofList name)
  let type_name := name.takeWhile (· ≠ '.')
  let field_name := (name.dropWhile (· ≠ '.')).tail
  if type_name.length ≥ 64 then
    parser_error ("Nested type name too long: " ++ String.ofList name)
  if field_name.length ≥ 64 then
    parser_error ("Nested field name too long: " ++ String.ofList name)
  return (type_name, field_name)

def find_struct_by_name (name : CStr) : ParseM (Option StructDef) := do
  consult (← get).proto.ptr
  consult (← get).temp_structs.ptr
  return (← get).temp_structs.elems.find? (·.name = name)

def require_struct (type_name : CStr) : ParseM StructDef := do
  match ← find_struct_by_name type_name with
  | none => parser_error ("Nested struct '" ++ String.ofList type_name ++ "' not found")
  | some nested => return nested

/-! ## One nested field -/

/-- A field of a nested struct as a field of the struct around it. -/
def nest_field (field_name : CStr) (base_offset : ℕ) (src : Field) : Field :=
  { src with
    name := cstr 128 (field_name ++ ['.'] ++ src.name)
    offset := u32 (base_offset + src.offset) }

/-- The copying loop of `expand_nested_field`. -/
def expand_fields (field_name : CStr) (base_offset : ℕ) :
    List Field → Table Field → ParseM (Table Field)
  | [], expanded => return expanded
  | src :: rest, expanded => do
    let expanded ← reserve expanded
    expand_fields field_name base_offset rest
      (expanded.push (nest_field field_name base_offset src))

def expand_nested_field (nested_name : CStr) (expanded : Table Field) (base_offset : ℕ) :
    ParseM (Table Field) := do
  let (type_name, field_name) ← or_free expanded.ptr (parse_nested_field_names nested_name)
  let nested_struct ← or_free expanded.ptr (require_struct type_name)
  consult nested_struct.fields.ptr
  expand_fields field_name base_offset nested_struct.fields.elems expanded

/-- The name of one element of a nested field, `type.field` or `type.field[idx]`. -/
def element_name (f : Field) (type_name field_name : CStr) (idx : ℕ) : CStr :=
  if f.is_array then
    cstr 128 (type_name ++ ['.'] ++ field_name ++ ['['] ++ decimal idx ++ [']'])
  else f.name

/-- The loop over the elements of a nested field, `n` of them from `idx` on. -/
def expand_elements (f : Field) (type_name field_name : CStr) (offset min_size : ℕ) :
    ℕ → ℕ → Table Field → ParseM (Table Field)
  | 0, _, expanded => return expanded
  | n + 1, idx, expanded => do
    let expanded ← expand_nested_field (element_name f type_name field_name idx) expanded
      (u32 (offset + idx * min_size))
    expand_elements f type_name field_name offset min_size n (idx + 1) expanded

/-! ## One struct -/

/-- What `flatten_structs` carries from field to field. -/
structure Expansion where
  fields : Table Field
  offset : ℕ := 0
  variable_seen : Bool := false
  deriving DecidableEq, Repr

def update_struct (i : ℕ) (g : StructDef → StructDef) : ParseM Unit :=
  modify fun p => { p with temp_structs := { p.temp_structs with
    elems := p.temp_structs.elems.modify i g } }

def set_has_variable (i : ℕ) (has_variable : Bool) : ParseM Unit :=
  update_struct i fun s => { s with has_variable := has_variable }

def flatten_nested (i : ℕ) (s_name : CStr) (f : Field) (count : ℕ) (x : Expansion) :
    ParseM Expansion := do
  let (type_name, field_name) ← or_free x.fields.ptr (parse_nested_field_names f.name)
  let nested ← or_free x.fields.ptr (require_struct type_name)
  if nested.has_variable ∧ count > 1 then
    or_free x.fields.ptr (parser_error ("Array of variable-length struct '"
      ++ String.ofList type_name ++ "' is not supported in '" ++ String.ofList s_name ++ "'"))
  let expanded ← expand_elements f type_name field_name x.offset nested.min_size count 0 x.fields
  if nested.has_variable then set_has_variable i true
  return { fields := expanded
           offset := u32 (x.offset + nested.min_size * count)
           variable_seen := x.variable_seen || nested.has_variable }

def flatten_leaf (i : ℕ) (s_name : CStr) (f : Field) (x : Expansion) : ParseM Expansion := do
  if f.is_array then
    or_free x.fields.ptr (parser_error
      ("Arrays are only supported for nested struct fields (field '" ++ String.ofList f.name
        ++ "' in struct '" ++ String.ofList s_name ++ "')"))
  let expanded ← reserve x.fields
  let expanded := expanded.push { f with offset := x.offset }
  if f.is_variable then
    set_has_variable i true
    return { fields := expanded, offset := x.offset, variable_seen := true }
  else
    return { fields := expanded, offset := u32 (x.offset + f.size),
             variable_seen := x.variable_seen }

def flatten_field (i : ℕ) (s_name : CStr) (f : Field) (x : Expansion) : ParseM Expansion := do
  if x.variable_seen then
    or_free x.fields.ptr (parser_error ("Variable-length field '" ++ String.ofList f.name
      ++ "' must be last in struct '" ++ String.ofList s_name ++ "'"))
  let count := if f.is_array then f.array_size else 1
  if count = 0 then
    or_free x.fields.ptr (parser_error ("Array size must be greater than 0 for field '"
      ++ String.ofList f.name ++ "' in struct '" ++ String.ofList s_name ++ "'"))
  if f.type = .NESTED then flatten_nested i s_name f count x
  else flatten_leaf i s_name f x

def flatten_fields (i : ℕ) (s_name : CStr) : List Field → Expansion → ParseM Expansion
  | [], x => return x
  | f :: rest, x => do flatten_fields i s_name rest (← flatten_field i s_name f x)

def flatten_struct (i : ℕ) (s : StructDef) : ParseM Unit := do
  consult (← get).temp_structs.ptr
  let original_count := s.fields.count
  let expanded ← calloc (if original_count > 0 then u32 (original_count * 4) else 4)
  set_has_variable i false
  consult s.fields.ptr
  let x ← flatten_fields i s.name s.fields.elems { fields := expanded }
  update_struct i fun s => { s with min_size := x.offset, fields := x.fields }
  free s.fields.ptr

/-! ## The pass -/

/-- `n` structs from index `i` on. -/
def flatten_from : ℕ → ℕ → ParseM Unit
  | 0, _ => return ()
  | n + 1, i => do
    match (← get).temp_structs.elems[i]? with
    | none => return ()
    | some s =>
      flatten_struct i s
      flatten_from n (i + 1)

def flatten_structs : ParseM Unit := do
  consult (← get).proto.ptr
  flatten_from (← get).temp_structs.count 0

end RxNetCap.Pdef
