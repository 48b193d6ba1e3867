/-
What the programs of a filter answer.

The compiler leaves three programs in a rule: `bytecode`, the same under the
name `bytecode_be`, and the swapped one as `bytecode_le`. The first two read
the conditions of the filter with every field in the order of its tag, the
third in the other order.
-/
import RxNetCap.Runtime.CompileCorrect
import RxNetCap.Runtime.Protocol
import RxNetCap.Pdef.Phases

set_option autoImplicit false

namespace RxNetCap.Runtime

open RxNetCap.Pdef

/-! ## The programs of a rule -/

section Rule

variable {structs : List StructDef} {temp_rule : TempFilterRule} {s : StructDef}
  {bs : List Bound} {rule : FilterRule}

theorem execute_compiled (h : CompiledTo structs temp_rule s bs rule) (packet : Packet) :
    execute_bytecode packet rule.bytecode.elems = direct_reading tagged bs packet := by
  rw [h.code]
  exact execute_program packet h.operands

theorem program_ne_nil (bs : List Bound) : (program bs).length ≠ 0 := by
  rw [program, List.length_append]
  simp

theorem execute_code_be (h : CompiledTo structs temp_rule s bs rule) (packet : Packet) :
    execute_bytecode packet (code_be rule) = direct_reading tagged bs packet := by
  rw [code_be, h.code_be, ite_self]
  exact execute_compiled h packet

theorem execute_code_le (h : CompiledTo structs temp_rule s bs rule) (packet : Packet) :
    execute_bytecode packet (code_le rule) = direct_reading untagged bs packet := by
  have hne : rule.bytecode_le.elems.length ≠ 0 := by
    rw [h.code_le, List.length_map]
    exact program_ne_nil bs
  rw [code_le, if_neg hne, h.code_le]
  exact execute_swapped_program packet h.operands

end Rule

/-! ## Compiled filters and their conditions -/

/-- Every condition is over an integer field whose end is a `uint32_t`. -/
def IntegerFields (bs : List Bound) : Prop := ∀ b ∈ bs, is_integer b.1 ∧ Fits b.1

instance (bs : List Bound) : Decidable (IntegerFields bs) :=
  inferInstanceAs (Decidable (∀ b ∈ bs, _))

/-- **A compiled filter is its conditions**: the program ends, and returns true
exactly when every condition holds of the packet. -/
theorem compiled_filter_reads_conditions {p q : Parser} (h : compile_filter_rules p = .ok () q)
    {i : ℕ} {temp_rule : TempFilterRule} {rule : FilterRule}
    (htemp : p.temp_filter_rules.elems[i]? = some temp_rule)
    (hrule : q.temp_filters.elems[p.temp_filters.count + i]? = some rule)
    (hint : IntegerFields (filter_conditions p.temp_structs.elems temp_rule)) (packet : Packet) :
    (filter_conditions p.temp_structs.elems temp_rule).map Prod.snd = temp_rule.conditions.elems ∧
      ∃ b, execute_bytecode packet rule.bytecode.elems = .returns b ∧
        (b = true ↔ ∀ c ∈ filter_conditions p.temp_structs.elems temp_rule,
          Holds c.1.endian c.1 c.2 packet) := by
  obtain ⟨rules, hcompiled, hq⟩ := compile_filter_rules_ok h
  have helems : q.temp_filters.elems = p.temp_filters.elems ++ rules := by rw [hq]
  rw [helems, Table.count, List.getElem?_append_right (Nat.le_add_right _ _),
    Nat.add_sub_cancel_left] at hrule
  obtain ⟨hi, hi_temp⟩ := List.getElem?_eq_some_iff.mp htemp
  obtain ⟨hj, hj_rule⟩ := List.getElem?_eq_some_iff.mp hrule
  obtain ⟨s, bs, hto⟩ : ∃ s bs, CompiledTo p.temp_structs.elems temp_rule s bs rule := by
    have hget := hcompiled.get hi hj
    rw [List.get_eq_getElem, List.get_eq_getElem, hi_temp, hj_rule] at hget
    exact hget
  rw [hto.conditions] at hint ⊢
  refine ⟨bind_conditions_map_snd hto.bound, decide (AllHold tagged bs packet), ?_, ?_⟩
  · rw [execute_compiled hto, direct_reading_of_fits packet fun b hb => (hint b hb).2]
  · rw [decide_eq_true_iff]
    exact Iff.rfl

/-! ### The theorem at a text -/

/-- A text with one filter over two fields. -/
def sample_text : List Char :=
  "@protocol { endian = big } H { uint16 x; int8 y; } @filter f { x = 7; y !in [1, 2]; }".toList

/-- The first filter of the parser compiles and is over integer fields. -/
def compiles_first (p : Parser) : Bool :=
  match compile_filter_rules p, p.temp_filter_rules.elems with
  | .ok () q, temp_rule :: _ =>
    decide (p.temp_filters.elems = []) && !q.temp_filters.elems.isEmpty
      && decide (IntegerFields (filter_conditions p.temp_structs.elems temp_rule))
  | _, _ => false

set_option maxRecDepth 100000 in
theorem sample_compiles_first : ∃ p ∈ after_flatten sample_text, compiles_first p = true := by
  decide +kernel

theorem sample_filter_reads_conditions :
    ∃ p q temp_rule rule, after_flatten sample_text = some p ∧
      compile_filter_rules p = .ok () q ∧ q.temp_filters.elems[0]? = some rule ∧
      ∃ b, execute_bytecode ⟨[0, 7, 3], by decide⟩ rule.bytecode.elems = .returns b ∧
        (b = true ↔ ∀ c ∈ filter_conditions p.temp_structs.elems temp_rule,
          Holds c.1.endian c.1 c.2 ⟨[0, 7, 3], by decide⟩) := by
  obtain ⟨p, hp, hfirst⟩ := sample_compiles_first
  unfold compiles_first at hfirst
  split at hfirst
  case h_1 q temp_rule rest hq htemp =>
    simp only [Bool.and_eq_true, decide_eq_true_eq, Bool.not_eq_true', List.isEmpty_eq_false_iff]
      at hfirst
    obtain ⟨⟨hnone, hsome⟩, hint⟩ := hfirst
    obtain ⟨rule, rules, hrules⟩ := List.exists_cons_of_ne_nil hsome
    have hrule : q.temp_filters.elems[0]? = some rule := by rw [hrules]; rfl
    refine ⟨p, q, temp_rule, rule, hp, hq, hrule, ?_⟩
    have hindex : p.temp_filters.count + 0 = 0 := by simp [Table.count, hnone]
    exact (compiled_filter_reads_conditions hq (i := 0) (by rw [htemp]; rfl)
      (by rw [hindex]; exact hrule) hint _).2
  case h_2 => cases hfirst

end RxNetCap.Runtime
