/-
Which texts keep the values of their numbers.

A literal goes through a token of 255 characters, `strtoull`, which saturates,
and where it is the size of a field, the length of an array or a `sliding_max`,
a cast to `uint32_t`. Nothing is rejected on the way. So the value that takes
effect is the integer that is written exactly where the integer fits
(`literals_kept_iff`).
-/
import RxNetCap.Pdef.Spelled

set_option autoImplicit false

namespace RxNetCap.Pdef

open RxNetCap.ErrState

variable {source : List Char}

/-! ## Where the values take effect -/

/-- The literals behind the operands of a filter, in the order of the text. -/
def operand_literals (d : FilterDecl) : List Lexeme :=
  (d.items.filterMap FilterItem.condition?).flatMap fun c => c.2.map (resolve d.known)

/-- The operands that an instruction compares with. -/
def instruction_operands (ins : Instruction) : List ℕ :=
  match ins.opcode with
  | .CMP_MASK => [ins.operand, ins.operand2]
  | .CMP_EQ | .CMP_NE | .CMP_GT | .CMP_GE | .CMP_LT | .CMP_LE => [ins.operand]
  | _ => []

/-- A `sliding` entry by its integer. -/
def switched_exactly (x : Lexeme) : Bool :=
  if x.type = .NUMBER then x.integer ≠ 0 else x.token.text = "true".toList

/-- A compiled filter compares with the integers of its text, and slides as far
as they say. -/
structure FilterExact (rule : FilterRule) (d : FilterDecl) : Prop where
  operands : rule.bytecode.elems.flatMap instruction_operands
    = (operand_literals d).map Lexeme.integer
  sliding : rule.sliding_window = (last_sliding d.items).elim false switched_exactly
  sliding_max : rule.sliding_max_offset = (last_sliding_max d.items).elim 0 Lexeme.integer

/-- A field has the size and the length that are written. -/
structure FieldExact (f : Field) (d : FieldDecl) : Prop where
  size : ∀ x ∈ d.size, f.size = x.integer
  count : ∀ x ∈ d.count, f.array_size = x.integer

instance (f : Field) (d : FieldDecl) : Decidable (FieldExact f d) :=
  decidable_of_iff ((∀ x ∈ d.size, f.size = x.integer) ∧ ∀ x ∈ d.count, f.array_size = x.integer)
    ⟨fun h => ⟨h.1, h.2⟩, fun h => ⟨h.size, h.count⟩⟩

/-- Every literal is read whole, and its integer is the value that takes
effect. The layout of the structs is computed from `declarations`. -/
structure LiteralsKept (source : List Char) (proto : ProtocolDef) : Prop where
  whole : ∀ x ∈ lexemes source, x.type = .NUMBER → x.token.text = x.digits
  constants : proto.constants.map ConstantEntry.value
    = (script source).constants.map fun c => c.value.integer
  filters : List.Forall₂ FilterExact (rules_of proto) (script source).filters
  structs : List.Forall₂ (fun s d => List.Forall₂ FieldExact s.fields d.fields)
    (declarations source) (script source).structs

/-- Every literal has a token's room, and fits where it goes. -/
structure LiteralsFit (source : List Char) : Prop where
  length : ∀ x ∈ lexemes source, x.type = .NUMBER → x.digits.length ≤ 255
  constants : ∀ c ∈ (script source).constants, c.value.integer < 2 ^ 64
  operands : ∀ d ∈ (script source).filters, ∀ x ∈ operand_literals d, x.integer < 2 ^ 64
  sliding_max : ∀ d ∈ (script source).filters, ∀ x ∈ last_sliding_max d.items,
    x.integer < 2 ^ 32
  fields : ∀ s ∈ (script source).structs, ∀ f ∈ s.fields,
    (∀ x ∈ f.size, x.integer < 2 ^ 32) ∧ ∀ x ∈ f.count, x.integer < 2 ^ 32

/-! ## One literal -/

/-- A literal that a token has room for is read whole. -/
theorem Lexeme.Is.whole_iff {x : Lexeme} (h : x.Is source .NUMBER) :
    x.token.text = x.digits ↔ x.digits.length ≤ 255 := by
  rw [h.number_token.1, List.take_eq_self_iff]

/-- What a whole literal comes to. -/
theorem Lexeme.Is.value_eq {x : Lexeme} (h : x.Is source .NUMBER) (hwhole : x.token.text = x.digits) :
    x.token.value = min x.integer UINT64_MAX := by
  rw [h.number_token.2, ← h.number_token.1, hwhole]
  rfl

theorem Lexeme.Is.value_iff {x : Lexeme} (h : x.Is source .NUMBER) (hwhole : x.token.text = x.digits) :
    x.token.value = x.integer ↔ x.integer < 2 ^ 64 := by
  rw [h.value_eq hwhole, UINT64_MAX]
  omega

theorem Lexeme.Is.narrow_iff {x : Lexeme} (h : x.Is source .NUMBER) (hwhole : x.token.text = x.digits) :
    u32 x.token.value = x.integer ↔ x.integer < 2 ^ 32 := by
  rw [h.value_eq hwhole, UINT64_MAX, u32]
  omega

/-- A switch is as its integer says, however large that is. -/
theorem switched_exactly_eq {x : Lexeme} (h : x ∈ lexemes source)
    (hwhole : x.type = .NUMBER → x.token.text = x.digits) : switched x = switched_exactly x := by
  unfold switched switched_exactly
  split
  · rename_i htype
    have hvalue := Lexeme.Is.value_eq ⟨h, htype⟩ (hwhole htype)
    rw [decide_eq_decide, hvalue, UINT64_MAX]
    omega
  · rfl

/-! ## The operands of a program -/

theorem load_no_operands (field : Field) : instruction_operands (load_instruction field) = [] := by
  obtain ⟨name, type, offset, size, endian, is_variable, is_array, array_size⟩ := field
  cases type <;> cases endian <;> rfl

theorem in_block_operands (next_start fail_label : ℕ) (values : List ℕ) : ∀ idx : ℕ,
    (in_block next_start fail_label idx values).flatMap instruction_operands = values := by
  induction values with
  | nil => intro idx; rfl
  | cons value rest ih =>
    intro idx
    cases rest with
    | nil => rfl
    | cons value' rest' =>
      rw [in_block]
      · exact congrArg (value :: ·) (ih (idx + 3))
      · simp

theorem not_in_block_operands (next_start fail_label : ℕ) (values : List ℕ) : ∀ idx : ℕ,
    (not_in_block next_start fail_label idx values).flatMap instruction_operands = values := by
  induction values with
  | nil => intro idx; rfl
  | cons value rest ih =>
    intro idx
    exact congrArg (value :: ·) (ih (idx + 3))

theorem comparison_block_operands (fail_label : ℕ) {cond : FilterCondition}
    (hop : cond.op ≠ .IN ∧ cond.op ≠ .NOT_IN) :
    (comparison_block fail_label cond).flatMap instruction_operands = operand_values cond := by
  obtain ⟨field_name, op, value, mask, values⟩ := cond
  cases op with
  | IN => exact absurd rfl hop.1
  | NOT_IN => exact absurd rfl hop.2
  | _ => rfl

theorem condition_block_operands (next_start fail_label start : ℕ) (b : Bound) :
    (condition_block next_start fail_label start b).flatMap instruction_operands
      = operand_values b.2 := by
  rw [condition_block, List.flatMap_cons, load_no_operands, List.nil_append]
  by_cases hin : b.2.op = .IN
  · simp only [test_block, operand_values, hin, in_block_operands]
  by_cases hnotin : b.2.op = .NOT_IN
  · simp only [test_block, operand_values, hnotin, not_in_block_operands]
  rw [← comparison_block_operands fail_label ⟨hin, hnotin⟩]
  unfold test_block
  split
  · exact absurd ‹_› hin
  · exact absurd ‹_› hnotin
  · rfl

theorem blocks_operands (fail_label : ℕ) (bs : List Bound) : ∀ start : ℕ,
    (blocks fail_label start bs).flatMap instruction_operands
      = bs.flatMap fun b => operand_values b.2 := by
  induction bs with
  | nil => intro start; rfl
  | cons b rest ih =>
    intro start
    rw [blocks, List.flatMap_append, condition_block_operands, ih, List.flatMap_cons]

theorem program_operands (bs : List Bound) : (program bs).flatMap instruction_operands
    = bs.flatMap fun b => operand_values b.2 := by
  rw [program, List.flatMap_append, blocks_operands]
  exact List.append_nil _

/-! ## What an accepted text keeps -/

/-- The operands of the conditions of a filter are the values of its literals. -/
theorem KeepsFilter.operands {rule : TempFilterRule} {d : FilterDecl} (h : KeepsFilter source rule d) :
    rule.conditions.elems.flatMap operand_values
      = (operand_literals d).map fun x => x.token.value := by
  have hvalues := congrArg (fun cs => (cs.map Prod.snd).flatten) h.conditions
  simp only [List.map_map] at hvalues
  rw [operand_literals, List.map_flatMap]
  simp only [List.map_map]
  exact hvalues

/-- The literals of a filter are numbers of the text. -/
theorem KeepsFilter.literals {rule : TempFilterRule} {d : FilterDecl} (h : KeepsFilter source rule d) :
    ∀ x ∈ operand_literals d, x.Is source .NUMBER := by
  intro x hx
  obtain ⟨c, hc, hx⟩ := List.mem_flatMap.mp hx
  obtain ⟨y, hy, rfl⟩ := List.mem_map.mp hx
  obtain ⟨item, hitem, hcond⟩ := List.mem_filterMap.mp hc
  have hlexemes := h.sound item hitem
  cases item with
  | condition path operands =>
    cases hcond
    exact hlexemes y hy
  | _ => cases hcond

theorem KeepsFilter.sliding_max_is {rule : TempFilterRule} {d : FilterDecl} (h : KeepsFilter source rule d) :
    ∀ x ∈ last_sliding_max d.items, x.Is source .NUMBER := by
  intro x hx
  obtain ⟨item, hitem, hmax⟩ := List.mem_filterMap.mp (List.mem_of_getLast? hx)
  have hlexemes := h.sound item hitem
  cases item with
  | sliding_max value =>
    cases hmax
    exact hlexemes
  | _ => cases hmax

theorem KeepsFilter.sliding_mem {rule : TempFilterRule} {d : FilterDecl} (h : KeepsFilter source rule d) :
    ∀ x ∈ last_sliding d.items, x ∈ lexemes source := by
  intro x hx
  obtain ⟨item, hitem, hsliding⟩ := List.mem_filterMap.mp (List.mem_of_getLast? hx)
  have hlexemes := h.sound item hitem
  cases item with
  | sliding value =>
    cases hsliding
    exact hlexemes
  | _ => cases hsliding

section Whole

variable (hwhole : ∀ x ∈ lexemes source, x.type = .NUMBER → x.token.text = x.digits)

include hwhole

theorem FieldLexemes.exact_iff {e : Endian} {d : FieldDecl} (h : FieldLexemes source d) :
    FieldExact (declared_field e d) d ↔
      (∀ x ∈ d.size, x.integer < 2 ^ 32) ∧ ∀ x ∈ d.count, x.integer < 2 ^ 32 := by
  have hsize : ∀ x ∈ d.size, ((declared_field e d).size = x.integer ↔ x.integer < 2 ^ 32) := by
    intro x hx
    have hx' := h.size x hx
    have htype := h.sized (by rw [hx]; rfl)
    rw [← hx'.narrow_iff (hwhole x hx'.mem hx'.type_eq), declared_field, hx]
    rcases htype with htype | htype
    · rw [htype]
      rfl
    · rw [htype]
      rfl
  have hcount : ∀ x ∈ d.count, ((declared_field e d).array_size = x.integer ↔ x.integer < 2 ^ 32) := by
    intro x hx
    have hx' := h.count x hx
    rw [← hx'.narrow_iff (hwhole x hx'.mem hx'.type_eq), declared_field, hx]
    rfl
  constructor
  · intro hexact
    exact ⟨fun x hx => (hsize x hx).mp (hexact.size x hx),
      fun x hx => (hcount x hx).mp (hexact.count x hx)⟩
  · rintro ⟨hfit, hfit'⟩
    exact ⟨fun x hx => (hsize x hx).mpr (hfit x hx), fun x hx => (hcount x hx).mpr (hfit' x hx)⟩

theorem filterExact_iff {structs : List StructDef} {temp_rule : TempFilterRule} {s : StructDef}
    {bs : List Bound} {rule : FilterRule} {d : FilterDecl}
    (hcompiled : CompiledTo structs temp_rule s bs rule) (h : KeepsFilter source temp_rule d) :
    FilterExact rule d ↔ (∀ x ∈ operand_literals d, x.integer < 2 ^ 64) ∧
      ∀ x ∈ last_sliding_max d.items, x.integer < 2 ^ 32 := by
  have hoperands : rule.bytecode.elems.flatMap instruction_operands
      = (operand_literals d).map fun x => x.token.value := by
    rw [hcompiled.code, program_operands, ← h.operands, ← bind_conditions_map_snd hcompiled.bound,
      List.flatMap_map]
  have hsliding : rule.sliding_window = (last_sliding d.items).elim false switched_exactly := by
    rw [hcompiled.sliding_window, h.sliding]
    cases hlast : last_sliding d.items with
    | none => rfl
    | some x =>
      have hx := h.sliding_mem x hlast
      exact switched_exactly_eq hx (hwhole x hx)
  have hmax : (rule.sliding_max_offset = (last_sliding_max d.items).elim 0 Lexeme.integer) ↔
      ∀ x ∈ last_sliding_max d.items, x.integer < 2 ^ 32 := by
    rw [hcompiled.sliding_max_offset, h.sliding_max]
    cases hlast : last_sliding_max d.items with
    | none => simp
    | some x =>
      have hx := h.sliding_max_is x hlast
      simpa using hx.narrow_iff (hwhole x hx.mem hx.type_eq)
  have hvalues : (rule.bytecode.elems.flatMap instruction_operands
      = (operand_literals d).map Lexeme.integer) ↔ ∀ x ∈ operand_literals d, x.integer < 2 ^ 64 := by
    rw [hoperands, List.map_inj_left]
    refine forall₂_congr fun x hx => ?_
    have hx' := h.literals x hx
    exact hx'.value_iff (hwhole x hx'.mem hx'.type_eq)
  constructor
  · intro hexact
    exact ⟨hvalues.mp hexact.operands, hmax.mp hexact.sliding_max⟩
  · rintro ⟨hfit, hfit'⟩
    exact ⟨hvalues.mpr hfit, hsliding, hmax.mpr hfit'⟩

end Whole

/-! ## All literals -/

/-- **The numbers that keep their value.** Every literal of an accepted text is
the value that takes effect exactly when every literal has at most 255 digits,
those of constants and comparisons fit 64 bits, and those of sizes, lengths and
`sliding_max` fit 32 bits. -/
theorem literals_kept_iff {proto : ProtocolDef} (h : (pdef_parse_string source).1 = .accepted proto) :
    LiteralsKept source proto ↔ LiteralsFit source := by
  obtain ⟨p0, p1, p2, hphases⟩ := accepted_phases.mp h
  have hblocks : after_blocks source = some p0 := returned_eq_some.mpr hphases.blocks
  have hkept := script_kept hblocks
  have hfilters : source_filters source = p0.temp_filter_rules.elems := by
    rw [source_filters, hblocks]
    rfl
  have hstructs : declarations source = p0.temp_structs.elems.map StructDef.shape := by
    rw [declarations, hblocks]
    rfl
  have hcompiled := hphases.accepted.filters
  rw [hfilters] at hcompiled
  have hvalues : proto.constants.map ConstantEntry.value
      = (script source).constants.map fun c => c.value.token.value := by
    have hpairs := congrArg (List.map Prod.snd) hkept.constants.stored
    rw [List.map_map, List.map_map] at hpairs
    rw [hphases.constants_eq]
    exact hpairs
  have hlength : (∀ x ∈ lexemes source, x.type = .NUMBER → x.token.text = x.digits) ↔
      ∀ x ∈ lexemes source, x.type = .NUMBER → x.digits.length ≤ 255 :=
    forall₃_congr fun x hx htype => Lexeme.Is.whole_iff ⟨hx, htype⟩
  have hparts : (∀ x ∈ lexemes source, x.type = .NUMBER → x.token.text = x.digits) →
      ((proto.constants.map ConstantEntry.value
          = (script source).constants.map fun c => c.value.integer) ↔
        ∀ c ∈ (script source).constants, c.value.integer < 2 ^ 64) ∧
      (List.Forall₂ FilterExact (rules_of proto) (script source).filters ↔
        ∀ d ∈ (script source).filters, (∀ x ∈ operand_literals d, x.integer < 2 ^ 64) ∧
          ∀ x ∈ last_sliding_max d.items, x.integer < 2 ^ 32) ∧
      (List.Forall₂ (fun s d => List.Forall₂ FieldExact s.fields d.fields)
          (declarations source) (script source).structs ↔
        ∀ s ∈ (script source).structs, ∀ f ∈ s.fields,
          (∀ x ∈ f.size, x.integer < 2 ^ 32) ∧ ∀ x ∈ f.count, x.integer < 2 ^ 32) := by
    intro hwhole
    refine ⟨?_, ?_, ?_⟩
    · rw [hvalues, List.map_inj_left]
      refine forall₂_congr fun c hc => ?_
      have hnumber := (hkept.constants.sound c hc).2
      exact hnumber.value_iff (hwhole c.value hnumber.mem hnumber.type_eq)
    · refine forall₂_iff (forall₂_common hcompiled hkept.filters) ?_
      rintro rule d ⟨temp_rule, ⟨s, bs, hrule⟩, hd⟩
      exact filterExact_iff hwhole hrule hd
    · rw [hstructs, List.forall₂_map_left_iff]
      refine forall₂_iff hkept.structs fun s d hd => ?_
      obtain ⟨e, hfields⟩ := hd.fields
      have hshape : s.shape.fields = d.fields.map (declared_field e) := hfields
      rw [hshape, List.forall₂_map_left_iff, List.forall₂_same]
      exact forall₂_congr fun f hf => (hd.sound f hf).exact_iff hwhole
  constructor
  · intro hk
    obtain ⟨hconst, hfilter, hstruct⟩ := hparts hk.whole
    have hfit := hfilter.mp hk.filters
    exact ⟨hlength.mp hk.whole, hconst.mp hk.constants, fun d hd => (hfit d hd).1,
      fun d hd => (hfit d hd).2, hstruct.mp hk.structs⟩
  · intro hf
    obtain ⟨hconst, hfilter, hstruct⟩ := hparts (hlength.mpr hf.length)
    exact ⟨hlength.mpr hf.length, hconst.mpr hf.constants,
      hfilter.mpr fun d hd => ⟨hf.operands d hd, hf.sliding_max d hd⟩, hstruct.mpr hf.fields⟩

/-- Numbers in every place where they have an effect. -/
def numbers_text : List Char :=
  ("@const { LOW = 0x10; } Item { uint8 id; } Packet { bytes[4] head; Item items[2]; } " ++
    "@filter F { sliding = 1; sliding_max = 32; items[1].id & 0xF = LOW; items[0].id in [1, LOW]; }").toList

set_option maxRecDepth 100000 in
theorem numbers_kept : ∃ proto, (pdef_parse_string numbers_text).1 = .accepted proto ∧
    LiteralsKept numbers_text proto := by
  obtain ⟨proto, hproto⟩ : ∃ proto, (pdef_parse_string numbers_text).1.protocol? = some proto :=
    Option.isSome_iff_exists.mp (by decide +kernel)
  have haccepted := ParseResult.protocol?_eq_some.mp hproto
  exact ⟨proto, haccepted, (literals_kept_iff haccepted).mpr
    ⟨by decide +kernel, by decide +kernel, by decide +kernel, by decide +kernel, by decide +kernel⟩⟩

/-- A size one past `2 ^ 32` is read as `1`. -/
def wrapped_text : List Char := "S \x7b bytes[4294967297] a; \x7d".toList

set_option maxRecDepth 100000 in
theorem wrapped_size_accepted : ∃ proto, (pdef_parse_string wrapped_text).1 = .accepted proto ∧
    ¬ LiteralsKept wrapped_text proto := by
  obtain ⟨proto, hproto⟩ : ∃ proto, (pdef_parse_string wrapped_text).1.protocol? = some proto :=
    Option.isSome_iff_exists.mp (by decide +kernel)
  refine ⟨proto, ParseResult.protocol?_eq_some.mp hproto, fun hkept => ?_⟩
  have hexact := hkept.structs
  revert hexact
  decide +kernel

end RxNetCap.Pdef
