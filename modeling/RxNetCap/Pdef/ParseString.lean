/-
`pdef_parse_string` and the three functions that release what a parse
allocated: `parser_cleanup` of `src/pdef/parser.c` and `protocol_free` of
`src/runtime/protocol.c`.

On the error exit the protocol is released first, and `parser_cleanup` then
reads the number of structs from it.
-/
import RxNetCap.Pdef.Compile

set_option autoImplicit false

namespace RxNetCap.Pdef

open RxNetCap.Ledger

/-! ## Releasing -/

/-- The blocks `parser_cleanup` releases for one parsed filter. -/
def condition_blocks (rule : TempFilterRule) : List ℕ :=
  rule.conditions.elems.filterMap (fun c => c.values.map Table.ptr) ++ [rule.conditions.ptr]

def cleanup_filter_rules (rules : Table TempFilterRule) (h : Heap) : Heap :=
  ((h.consult rules.ptr).freeAll (rules.elems.flatMap condition_blocks)).free rules.ptr

/-- The part of `parser_cleanup` under `if (p->temp_structs && p->proto)`. -/
def cleanup_structs (proto : ℕ) (structs : Table StructDef) (h : Heap) : Heap :=
  (((h.consult proto).consult structs.ptr).freeAll (structs.elems.map (·.fields.ptr))).free
    structs.ptr

/-- The constants, from the head of the chain on. -/
def free_constants : List ConstantEntry → Heap → Heap
  | [], h => h
  | entry :: rest, h => free_constants rest ((h.consult entry.ptr).free entry.ptr)

/-- The blocks of one compiled filter. -/
def code_blocks (rule : FilterRule) : List ℕ := [rule.bytecode.ptr, rule.bytecode_le.ptr]

def free_structs (structs : Table StructDef) (h : Heap) : Heap :=
  ((h.consult structs.ptr).freeAll (structs.elems.map (·.fields.ptr))).free structs.ptr

def free_filters (filters : Table FilterRule) (h : Heap) : Heap :=
  ((h.consult filters.ptr).freeAll (filters.elems.flatMap code_blocks)).free filters.ptr

def protocol_free (proto : ProtocolDef) (h : Heap) : Heap :=
  let h := h.consult proto.ptr
  let h := match proto.structs with
    | none => h
    | some structs => free_structs structs h
  let h := match proto.filters with
    | none => h
    | some filters => free_filters filters h
  (free_constants proto.constants h).free proto.ptr

/-! ## `pdef_parse_string` -/

/-- What a call of `pdef_parse_string` comes to. -/
inductive ParseResult where
  | accepted (proto : ProtocolDef)
  | rejected (error_msg : CStr)
  | undefined
  deriving DecidableEq, Repr

/-- The protocol of a call that returns one. -/
def ParseResult.protocol? : ParseResult → Option ProtocolDef
  | .accepted proto => some proto
  | _ => none

theorem ParseResult.protocol?_eq_some {r : ParseResult} {proto : ProtocolDef} :
    r.protocol? = some proto ↔ r = .accepted proto := by
  cases r <;> simp [ParseResult.protocol?]

def ParseError.text (source : List Char) : ParseError → String
  | .message text => text
  | .silent => ""
  | .expected want got left =>
    let n := (lex source).1.length + 1
    let line := (lines_loop source n source).getD (n - 1 - left) 1
    "Expected token type " ++ toString want.ctorIdx ++ ", got " ++ toString got.ctorIdx
      ++ " at line " ++ toString line

/-- The body of `pdef_parse_string` between its two exits. -/
def parse_source : ParseM Unit := do
  parse_blocks (← turns)
  flatten_structs
  compile_filter_rules

/-- The result, and the heap at the return. -/
def pdef_parse_string (source : List Char) : ParseResult × Heap :=
  match parse_source (parser_init source) with
  | .ok () p =>
    let result := { p.proto with structs := some p.temp_structs, filters := some p.temp_filters }
    (.accepted result, cleanup_filter_rules p.temp_filter_rules p.heap)
  | .error (.error e) p =>
    let h := protocol_free p.proto p.heap
    let h := cleanup_structs p.proto.ptr p.temp_structs h
    let h := h.free p.temp_filters.ptr
    (.rejected (cstr 512 (e.text source).toList), cleanup_filter_rules p.temp_filter_rules h)
  | .error _ p => (.undefined, p.heap)

end RxNetCap.Pdef
