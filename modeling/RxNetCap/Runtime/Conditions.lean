/-
One condition of a filter in the program of that filter: which bytes its load
reads, and how it decides.

The load of a condition is picked by the type of its field. For an integer type
it has the width of the field; for every other type it is the load of one byte,
so a `bytes` or `string` field is read whole only when it is one byte long.

The comparisons are comparisons of 64-bit unsigned numbers. A signed field is
extended by its sign before, so a negative value is greater than every operand
below `2 ^ 63`, and the four orderings come out the wrong way round.
-/
import RxNetCap.Runtime.Bounds

set_option autoImplicit false

namespace RxNetCap.Runtime

open RxNetCap.Pdef RxNetCap.Machine

/-! ## The condition in the program -/

/-- `n` turns of the loop, if none of them is the last. -/
def turns_on (packet : Packet) (code : List Instruction) : ℕ → Vm → Option Vm
  | 0, vm => some vm
  | n + 1, vm =>
    match exec_turn packet code vm with
    | .next vm' => turns_on packet code n vm'
    | .done _ => none

/-- The condition whose load is at `start` decides as `b`: its load, its
comparison and its jump lead to what follows it, or to the failing return at
the end of the program. -/
def Decides (packet : Packet) (code : List Instruction) (start : ℕ) (b : Bool) : Prop :=
  ∀ vm : Vm, vm.ip = start → ∃ vm', turns_on packet code 3 vm = some vm' ∧
    vm'.ip = if b then start + 3 else code.length - 1

section Decides

variable {packet : Packet} {code : List Instruction} {start : ℕ}

/-- A condition decides in one way only. -/
theorem Decides.unique {b b' : Bool} (h : Decides packet code start b)
    (h' : Decides packet code start b') (hinside : start + 3 < code.length - 1) : b = b' := by
  obtain ⟨vm, hturns, hip⟩ := h { ip := start } rfl
  obtain ⟨vm', hturns', hip'⟩ := h' { ip := start } rfl
  rw [hturns] at hturns'
  cases hturns'
  rw [hip] at hip'
  cases b <;> cases b'
  · rfl
  · simp only [Bool.false_eq_true, if_false, if_true] at hip'
    omega
  · simp only [Bool.false_eq_true, if_false, if_true] at hip'
    omega
  · rfl

variable {fail_label : ℕ} {f : Field} {cond : FilterCondition} {rest : List Bound}

/-- **A comparison decides as its test of the field's value.** -/
theorem Framed.decides (h : Framed code fail_label start ((f, cond) :: rest))
    (hlast : fail_label = code.length - 1) (hin : cond.op ≠ .IN) (hnot : cond.op ≠ .NOT_IN)
    (hinside : f.offset + width f ≤ packet.len) :
    Decides packet code start (condition_test cond (field_value f.endian f packet)) := by
  rintro vm rfl
  have hload := load_turn packet h.load
  have hle := u32_le (f.offset + width f)
  rw [if_neg (by omega), if_neg (by omega)] at hload
  have htest : test_block (vm.ip + block_size cond) fail_label (vm.ip + 1) cond
      = comparison_block fail_label cond := by
    unfold test_block
    cases hop : cond.op <;> first | rfl | contradiction
  have hcode : CodeAt code (vm.ip + 1) (comparison_block fail_label cond) := by
    rw [← htest]
    exact h.blocks.left.tail
  have hcompare : exec_turn packet code
      { vm with ip := vm.ip + 1, acc := field_value f.endian f packet } = _ :=
    (comparison_turn hin hnot hcode.head).2
  have hjump := jump_if_false_turn packet
    { ip := vm.ip + 2, acc := field_value f.endian f packet
      cmp_result := condition_test cond (field_value f.endian f packet) } hcode.tail.head h.inside
  refine ⟨{ ip := if condition_test cond (field_value f.endian f packet) then vm.ip + 3
              else fail_label
            acc := field_value f.endian f packet
            cmp_result := condition_test cond (field_value f.endian f packet) }, ?_, ?_⟩
  · simp only [turns_on, hload, hcompare, hjump]
  · rw [hlast]

end Decides

/-! ## Signed values and unsigned comparisons -/

/-- The two's-complement value of a field. -/
def signed_value (order : Endian) (f : Field) (packet : Packet) : ℤ :=
  as_signed (8 * width f) (unsigned_value order ((packet.bytes.drop f.offset).take (width f)))

def is_signed (type : FieldType) : Bool :=
  type = .INT8 ∨ type = .INT16 ∨ type = .INT32 ∨ type = .INT64

/-- What an ordering says of two numbers. -/
def compares (op : ConditionOp) (a b : ℤ) : Bool :=
  match op with
  | .GT => a > b
  | .GE => a ≥ b
  | .LT => a < b
  | .LE => a ≤ b
  | _ => false

def is_ordering (op : ConditionOp) : Bool := op = .GT ∨ op = .GE ∨ op = .LT ∨ op = .LE

theorem as_signed_range {w n : ℕ} (hw : w = 1 ∨ w = 2 ∨ w = 4 ∨ w = 8) (hn : n < 2 ^ (8 * w)) :
    -2 ^ 63 ≤ as_signed (8 * w) n ∧ as_signed (8 * w) n < 2 ^ 63 := by
  rcases hw with rfl | rfl | rfl | rfl
  all_goals
    simp only [as_signed]
    split <;> omega

/-- The value of a signed field is its two's-complement value, cast. -/
theorem field_value_signed {order : Endian} {f : Field} (hsigned : is_signed f.type = true)
    (packet : Packet) : field_value order f packet = to_u64 (signed_value order f packet) ∧
      -2 ^ 63 ≤ signed_value order f packet ∧ signed_value order f packet < 2 ^ 63 := by
  have hsign : (access f).2 = true := by
    simp only [is_signed, decide_eq_true_eq] at hsigned
    rcases hsigned with h | h | h | h <;> simp [access, int_type, h]
  have hw := width_cases f
  have hlt := unsigned_value_lt order ((packet.bytes.drop f.offset).take (width f))
  have hn : unsigned_value order ((packet.bytes.drop f.offset).take (width f))
      < 2 ^ (8 * width f) := by
    refine lt_of_lt_of_le hlt (Nat.pow_le_pow_right (by omega) ?_)
    rw [List.length_take]
    omega
  refine ⟨?_, as_signed_range hw hn⟩
  rw [field_value, hsign, signed_value, to_u64_as_signed (by omega) (by omega) hn]

/-- A comparison of the cast value follows the signed order exactly when the
value is not negative. -/
theorem unsigned_order_iff {cond : FilterCondition} (hop : is_ordering cond.op = true)
    (hv : cond.value < 2 ^ 63) {x : ℤ} (hlow : -2 ^ 63 ≤ x) (hhigh : x < 2 ^ 63) :
    condition_test cond (to_u64 x) = compares cond.op x cond.value ↔ 0 ≤ x := by
  have hcast : (0 ≤ x ∧ (to_u64 x : ℤ) = x) ∨ (x < 0 ∧ (to_u64 x : ℤ) = x + 2 ^ 64) := by
    rw [to_u64]
    omega
  simp only [is_ordering, decide_eq_true_eq] at hop
  rcases hop with hop | hop | hop | hop
  all_goals
    simp only [condition_test, compares, hop, decide_eq_decide]
    omega

/-! ## The conditions of a text -/

/-- What a filter of an accepted text is compiled to. -/
theorem compiled_filter {source : List Char} {proto : ProtocolDef}
    (h : (pdef_parse_string source).1 = .accepted proto) {i : ℕ} {temp_rule : TempFilterRule}
    {rule : FilterRule} (htemp : (source_filters source)[i]? = some temp_rule)
    (hrule : (rules_of proto)[i]? = some rule) :
    ∃ s, CompiledTo (structs_of proto) temp_rule s (filter_conditions (structs_of proto) temp_rule)
      rule := by
  have hcompiled := (accepted_of h).filters
  obtain ⟨hi, hi_temp⟩ := List.getElem?_eq_some_iff.mp htemp
  obtain ⟨hj, hj_rule⟩ := List.getElem?_eq_some_iff.mp hrule
  obtain ⟨s, bs, hto⟩ : ∃ s bs, CompiledTo (structs_of proto) temp_rule s bs rule := by
    have hget := hcompiled.get hi hj
    rw [List.get_eq_getElem, List.get_eq_getElem, hi_temp, hj_rule] at hget
    exact hget
  rw [hto.conditions]
  exact ⟨s, hto⟩

theorem split_at_getElem? {α : Type} {l : List α} {k : ℕ} {x : α} (h : l[k]? = some x) :
    l = l.take k ++ x :: l.drop (k + 1) := by
  obtain ⟨hk, rfl⟩ := List.getElem?_eq_some_iff.mp h
  rw [← List.drop_eq_getElem_cons hk, List.take_append_drop]

/-- **An ordering of a signed field follows the signed order exactly when the
value of the field is not negative.** -/
theorem signed_condition_iff {source : List Char} {proto : ProtocolDef}
    (h : (pdef_parse_string source).1 = .accepted proto) {i : ℕ} {temp_rule : TempFilterRule}
    {rule : FilterRule} (htemp : (source_filters source)[i]? = some temp_rule)
    (hrule : (rules_of proto)[i]? = some rule) {k : ℕ} {f : Field} {cond : FilterCondition}
    (hcond : (filter_conditions (structs_of proto) temp_rule)[k]? = some (f, cond))
    (hsigned : is_signed f.type = true) (hop : is_ordering cond.op = true)
    (hv : cond.value < 2 ^ 63) (packet : Packet) (hinside : f.offset + width f ≤ packet.len) :
    Decides packet rule.bytecode.elems
        (blocks_size ((filter_conditions (structs_of proto) temp_rule).take k))
        (compares cond.op (signed_value f.endian f packet) cond.value) ↔
      0 ≤ signed_value f.endian f packet := by
  obtain ⟨s, hto⟩ := compiled_filter h htemp hrule
  have hsplit := split_at_getElem? hcond
  generalize filter_conditions (structs_of proto) temp_rule = bs at *
  have hframed := program_framed hto.operands
  rw [← hto.code] at hframed
  have hlast : blocks_size bs + 1 = rule.bytecode.elems.length - 1 := by
    rw [hto.code, program, List.length_append, blocks_length _ _ _ hto.operands]
    rfl
  have hhere : Framed rule.bytecode.elems (blocks_size bs + 1) (blocks_size (bs.take k))
      ((f, cond) :: bs.drop (k + 1)) := by
    have hdropped := hframed
    rw [hsplit] at hdropped
    have hat := Framed.drop (bs.take k) hdropped
    rwa [← hsplit, Nat.zero_add] at hat
  have hop' : cond.op ≠ .IN ∧ cond.op ≠ .NOT_IN := by
    simp only [is_ordering, decide_eq_true_eq] at hop
    rcases hop with hop | hop | hop | hop <;> simp [hop]
  have hdecides := hhere.decides hlast hop'.1 hop'.2 hinside
  obtain ⟨hvalue, hlow, hhigh⟩ := @field_value_signed f.endian f hsigned packet
  rw [← unsigned_order_iff hop hv hlow hhigh, ← hvalue]
  constructor
  · intro hsame
    refine hdecides.unique hsame ?_
    have hnext := hhere.next.label
    have hsize : block_size cond = 3 := by
      rw [block_size]
      split
      · exact absurd (by assumption) hop'.1
      · exact absurd (by assumption) hop'.2
      · rfl
    omega
  · intro hsame
    rw [← hsame]
    exact hdecides

/-- A text with a condition on a signed byte. -/
def signed_text : List Char :=
  "@protocol { endian = big } H { int8 x; } @filter f { x < 1; }".toList

set_option maxRecDepth 100000 in
/-- On the byte of -1 its condition goes to the failing return. -/
theorem signed_text_turns : ∃ proto ∈ (pdef_parse_string signed_text).1.protocol?,
    ∃ temp_rule ∈ (source_filters signed_text)[0]?, ∃ rule ∈ (rules_of proto)[0]?,
    ∃ b ∈ (filter_conditions (structs_of proto) temp_rule)[0]?,
      is_signed b.1.type = true ∧ is_ordering b.2.op = true ∧ b.2.value < 2 ^ 63 ∧
      b.1.offset + width b.1 ≤ 1 ∧
      compares b.2.op (signed_value b.1.endian b.1 ⟨[255], by decide⟩) b.2.value = true ∧
      (turns_on ⟨[255], by decide⟩ rule.bytecode.elems 3 {}).map Vm.ip = some 4 := by
  decide +kernel

/-- -1 is not less than 1. -/
theorem minus_one_not_less : ∃ (proto : ProtocolDef) (temp_rule : TempFilterRule)
    (rule : FilterRule) (f : Field) (cond : FilterCondition),
    (pdef_parse_string signed_text).1 = .accepted proto ∧
    (source_filters signed_text)[0]? = some temp_rule ∧ (rules_of proto)[0]? = some rule ∧
    (filter_conditions (structs_of proto) temp_rule)[0]? = some (f, cond) ∧
    is_signed f.type = true ∧ is_ordering cond.op = true ∧ cond.value < 2 ^ 63 ∧
    ¬ Decides ⟨[255], by decide⟩ rule.bytecode.elems 0
        (compares cond.op (signed_value f.endian f ⟨[255], by decide⟩) cond.value) := by
  obtain ⟨proto, hproto, temp_rule, htemp, rule, hrule, ⟨f, cond⟩, hcond, hsigned, hop, hv, -,
    htrue, hturns⟩ := signed_text_turns
  refine ⟨proto, temp_rule, rule, f, cond, ParseResult.protocol?_eq_some.mp hproto, htemp, hrule,
    hcond, hsigned, hop, hv, fun hdecides => ?_⟩
  rw [htrue] at hdecides
  obtain ⟨vm, hvm, hip⟩ := hdecides {} rfl
  rw [hvm, Option.map_some, hip] at hturns
  cases hturns

theorem signed_text_iff : ∃ (proto : ProtocolDef) (temp_rule : TempFilterRule)
    (rule : FilterRule) (f : Field) (cond : FilterCondition),
    (pdef_parse_string signed_text).1 = .accepted proto ∧
    (source_filters signed_text)[0]? = some temp_rule ∧ (rules_of proto)[0]? = some rule ∧
    (Decides ⟨[255], by decide⟩ rule.bytecode.elems
        (blocks_size ((filter_conditions (structs_of proto) temp_rule).take 0))
        (compares cond.op (signed_value f.endian f ⟨[255], by decide⟩) cond.value) ↔
      0 ≤ signed_value f.endian f ⟨[255], by decide⟩) := by
  obtain ⟨proto, hproto, temp_rule, htemp, rule, hrule, ⟨f, cond⟩, hcond, hsigned, hop, hv, hinside,
    -, -⟩ := signed_text_turns
  have haccepted := ParseResult.protocol?_eq_some.mp hproto
  have hinside' : f.offset + width f ≤ (⟨[255], by decide⟩ : Packet).len := hinside
  exact ⟨proto, temp_rule, rule, f, cond, haccepted, htemp, hrule,
    signed_condition_iff haccepted htemp hrule hcond hsigned hop hv _ hinside'⟩

/-! ## Loads and the sizes of fields -/

/-- There is a load at `start`, of exactly the bytes of the field. -/
def LoadsWhole (code : List Instruction) (start : ℕ) (f : Field) : Prop :=
  ∃ ins w read, code[start]? = some ins ∧ load_op ins.opcode = some (w, read) ∧
    ins.offset = f.offset ∧ w = f.size

/-- Swapping keeps offsets and widths. -/
theorem loadsWhole_swap (code : List Instruction) (start : ℕ) (f : Field) :
    LoadsWhole (code.map swap_endian) start f ↔ LoadsWhole code start f := by
  constructor
  · rintro ⟨ins, w, read, hins, hload, hoffset, hw⟩
    rw [List.getElem?_map] at hins
    obtain ⟨ins', hins', rfl⟩ := Option.map_eq_some_iff.mp hins
    obtain ⟨read', hload'⟩ := (load_width_swap ins' w).mp ⟨read, hload⟩
    exact ⟨ins', w, read', hins', hload', hoffset, hw⟩
  · rintro ⟨ins, w, read, hins, hload, hoffset, hw⟩
    obtain ⟨read', hload'⟩ := (load_width_swap ins w).mpr ⟨read, hload⟩
    exact ⟨swap_endian ins, w, read', by rw [List.getElem?_map, hins]; rfl, hload', hoffset, hw⟩

/-- An integer field is as long as its type says. -/
def Sized (f : Field) : Prop := is_integer f = true → f.size = width f

theorem declarations_sized (source : List Char) : AllFields Sized (declarations source) := by
  intro d hd f hf hint
  obtain ⟨e, s, hparsed, rfl⟩ := declarations_parsed source d hd
  have hfield := hparsed.fields f hf
  have hfixed := hfield.fixed
  unfold is_integer at hint
  rw [width, access]
  cases htype : f.type <;> simp_all [int_type, field_type_size]

theorem sized_stable : Stable Sized := fun _ _ _ h => h

theorem exact_conditions_sized {source : List Char} {proto : ProtocolDef}
    (h : Accepted source proto) {temp_rule : TempFilterRule} {b : Bound}
    (hb : b ∈ exact_conditions source proto temp_rule) : Sized b.1 := by
  obtain ⟨s, hs, hf⟩ := mem_filter_conditions hb
  obtain ⟨exact_shapes, hexact, -⟩ := h.exact_layout
  have hkept := layout_keeps sized_stable hexact (declarations_sized source)
  rw [exact_structs, hexact, Option.getD_some] at hs
  obtain ⟨i, hi, rfl⟩ := List.mem_iff_getElem.mp hs
  rw [List.length_zipWith] at hi
  rw [List.getElem_zipWith] at hf
  exact hkept _ (List.getElem_mem (by omega)) b.1 hf

theorem width_of_not_integer {f : Field} (h : ¬ is_integer f = true) : width f = 1 := by
  unfold is_integer at h
  rw [width, access, Option.not_isSome_iff_eq_none.mp h, Option.getD_none]

/-- What the load of a field reads is the field exactly when its place fits the
instruction, and its size the load. -/
theorem load_instruction_whole {f : Field} (hsized : Sized f) :
    (∃ w read, load_op (load_instruction f.reduced).opcode = some (w, read) ∧
        (load_instruction f.reduced).offset = f.offset ∧ w = f.size) ↔
      f.offset < 2 ^ 32 ∧ (is_integer f = true ∨ f.size = 1) := by
  have hload : load_op (load_instruction f.reduced).opcode = _ := load_op_get_load_opcode f.reduced
  have hwidth : width f.reduced = width f := rfl
  have hoffset : (load_instruction f.reduced).offset = f.offset ↔ f.offset < 2 ^ 32 := by
    constructor
    · intro heq
      rw [← heq]
      exact u32_lt f.offset
    · exact u32_of_lt
  have hsize : width f = f.size ↔ is_integer f = true ∨ f.size = 1 := by
    by_cases hint : is_integer f = true
    · simp only [hsized hint, hint, true_or]
    · rw [width_of_not_integer hint]
      simp only [hint, false_or, Bool.false_eq_true]
      exact eq_comm
  rw [← hoffset, ← hsize, hload, hwidth]
  constructor
  · rintro ⟨w, read, heq, ho, hw⟩
    rw [Option.some.injEq, Prod.mk.injEq] at heq
    exact ⟨ho, heq.1.trans hw⟩
  · rintro ⟨ho, hw⟩
    exact ⟨_, _, rfl, ho, hw⟩

/-- **The load of a condition reads its field whole exactly when the field is an
integer or one byte long**, and its place is below `2 ^ 32`. -/
theorem load_covers_field_iff {source : List Char} {proto : ProtocolDef}
    (h : (pdef_parse_string source).1 = .accepted proto) {i : ℕ} {temp_rule : TempFilterRule}
    {rule : FilterRule} (htemp : (source_filters source)[i]? = some temp_rule)
    (hrule : (rules_of proto)[i]? = some rule) {k : ℕ} {f : Field} {cond : FilterCondition}
    (hcond : (exact_conditions source proto temp_rule)[k]? = some (f, cond)) :
    ∀ code ∈ [rule.bytecode.elems, rule.bytecode_be.elems, rule.bytecode_le.elems],
      LoadsWhole code (blocks_size ((exact_conditions source proto temp_rule).take k)) f ↔
        f.offset < 2 ^ 32 ∧ (is_integer f = true ∨ f.size = 1) := by
  obtain ⟨s, hto⟩ := compiled_filter h htemp hrule
  have hsized := exact_conditions_sized (accepted_of h) (List.mem_of_getElem? hcond)
  rw [filter_conditions_wrapped (accepted_of h)] at hto
  generalize exact_conditions source proto temp_rule = bs at *
  have hplace : (program (bs.map wrapped_bound))[blocks_size (bs.take k)]?
      = some (load_instruction f.reduced) := by
    have hsplit : bs.map wrapped_bound = (bs.take k).map wrapped_bound
        ++ wrapped_bound (f, cond) :: (bs.drop (k + 1)).map wrapped_bound := by
      rw [← List.map_cons, ← List.map_append, ← split_at_getElem? hcond]
    have hsize : blocks_size ((bs.take k).map wrapped_bound) = blocks_size (bs.take k) := by
      rw [blocks_size, List.map_map]
      rfl
    have hload := program_load (hsplit ▸ hto.operands)
    rw [← hsplit, hsize] at hload
    exact hload
  have hwhole : LoadsWhole (program (bs.map wrapped_bound)) (blocks_size (bs.take k)) f ↔
      f.offset < 2 ^ 32 ∧ (is_integer f = true ∨ f.size = 1) := by
    rw [← load_instruction_whole hsized, LoadsWhole, hplace]
    constructor
    · rintro ⟨ins, w, read, hins, hload, ho, hw⟩
      cases hins
      exact ⟨w, read, hload, ho, hw⟩
    · rintro ⟨w, read, hload, ho, hw⟩
      exact ⟨_, w, read, rfl, hload, ho, hw⟩
  intro code hmem
  simp only [List.mem_cons, List.not_mem_nil, or_false] at hmem
  rcases hmem with rfl | rfl | rfl
  · rw [hto.code]
    exact hwhole
  · rw [hto.code_be, hto.code]
    exact hwhole
  · rw [hto.code_le, loadsWhole_swap]
    exact hwhole

/-- A text with a condition on four bytes. -/
def bytes_text : List Char :=
  "@protocol { endian = big } H { bytes[4] b; } @filter f { b = 1; }".toList

set_option maxRecDepth 100000 in
theorem bytes_text_loads : ∃ proto ∈ (pdef_parse_string bytes_text).1.protocol?,
    ∃ temp_rule ∈ (source_filters bytes_text)[0]?, ∃ rule ∈ (rules_of proto)[0]?,
    ∃ b ∈ (exact_conditions bytes_text proto temp_rule)[0]?,
      b.1.size = 4 ∧ rule.bytecode.elems[0]? = some { opcode := .LOAD_U8 } := by
  decide +kernel

/-- Its load reads one byte of them. -/
theorem bytes_text_read_in_part : ∃ (proto : ProtocolDef) (temp_rule : TempFilterRule)
    (rule : FilterRule) (f : Field) (cond : FilterCondition),
    (pdef_parse_string bytes_text).1 = .accepted proto ∧
    (source_filters bytes_text)[0]? = some temp_rule ∧ (rules_of proto)[0]? = some rule ∧
    (exact_conditions bytes_text proto temp_rule)[0]? = some (f, cond) ∧
    ¬ LoadsWhole rule.bytecode.elems 0 f := by
  obtain ⟨proto, hproto, temp_rule, htemp, rule, hrule, ⟨f, cond⟩, hcond, hsize, hins⟩ :=
    bytes_text_loads
  refine ⟨proto, temp_rule, rule, f, cond, ParseResult.protocol?_eq_some.mp hproto, htemp, hrule,
    hcond, ?_⟩
  rintro ⟨ins, w, read, hins', hload, -, rfl⟩
  rw [hins, Option.some.injEq] at hins'
  rw [← hins', show f.size = 4 from hsize] at hload
  cases hload

theorem bytes_text_covers_iff : ∃ (proto : ProtocolDef) (temp_rule : TempFilterRule)
    (rule : FilterRule) (f : Field) (cond : FilterCondition),
    (pdef_parse_string bytes_text).1 = .accepted proto ∧
    (source_filters bytes_text)[0]? = some temp_rule ∧ (rules_of proto)[0]? = some rule ∧
    (exact_conditions bytes_text proto temp_rule)[0]? = some (f, cond) ∧
    (LoadsWhole rule.bytecode.elems
        (blocks_size ((exact_conditions bytes_text proto temp_rule).take 0)) f ↔
      f.offset < 2 ^ 32 ∧ (is_integer f = true ∨ f.size = 1)) := by
  obtain ⟨proto, hproto, temp_rule, htemp, rule, hrule, ⟨f, cond⟩, hcond, -, -⟩ := bytes_text_loads
  have haccepted := ParseResult.protocol?_eq_some.mp hproto
  exact ⟨proto, temp_rule, rule, f, cond, haccepted, htemp, hrule, hcond,
    load_covers_field_iff haccepted htemp hrule hcond _ (by simp)⟩

end RxNetCap.Runtime
