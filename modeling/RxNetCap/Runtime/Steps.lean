/-
The two passes of the compiler agree, and what that gives the interpreter.

The second pass writes every slot of a program once, each condition into the
slots that the first pass has reserved for it (`Pdef/Slots.lean`). So the program
is the list of its blocks with nothing left over, all of its jumps go forward and
inside, and it ends in two returns. A machine that gains with every turn and
stops at the last slot takes at most one turn a slot (`program_steps`).
-/
import RxNetCap.Pdef.Slots
import RxNetCap.Runtime.Sliding

set_option autoImplicit false

namespace RxNetCap.Runtime

open RxNetCap.Pdef RxNetCap.Machine

section Turns

variable {packet : Packet} {code : List Instruction} {vm vm' : Vm}

/-- A program whose jumps go forward gains with every turn. -/
theorem exec_turn_next (hforward : JumpsForward code) (h : exec_turn packet code vm = .next vm') :
    vm.ip < vm'.ip := by
  cases hins : code[vm.ip]? with
  | none =>
    rw [exec_turn, hins] at h
    cases h
  | some ins =>
    rw [exec_turn_at hins] at h
    cases hload : load_op ins.opcode with
    | some access =>
      obtain ⟨w, read⟩ := access
      rw [exec_instruction_load hload, exec_load] at h
      split at h
      · cases h
      · split at h
        · cases h
        · cases h
          exact Nat.lt_succ_self _
    | none =>
      rcases exec_other_cases hload packet vm with ⟨flag, hnext⟩ | ⟨hjump, -, hnext⟩ | ⟨b, hdone⟩
      · rw [hnext] at h
        cases h
        exact Nat.lt_succ_self _
      · rw [hnext] at h
        cases h
        have hahead := hforward vm.ip ins hins hjump
        rwa [Nat.zero_add] at hahead
      · rw [hdone] at h
        cases h

end Turns

section Programs

variable {bs : List Bound}

theorem program_returns (hops : ∀ b ∈ bs, HasOperands b.2) :
    (program bs)[blocks_size bs]? = some { opcode := .RETURN_TRUE } ∧
      (program bs)[blocks_size bs + 1]? = some { opcode := .RETURN_FALSE } := by
  have hlength := blocks_length (blocks_size bs + 1) bs 0 hops
  unfold program
  constructor
  · rw [List.getElem?_append_right (by omega), hlength, Nat.sub_self]
    rfl
  · rw [List.getElem?_append_right (by omega), hlength, Nat.add_sub_cancel_left]
    rfl

/-- **A program takes at most one turn a slot.** -/
theorem program_steps (hops : ∀ b ∈ bs, HasOperands b.2) (packet : Packet) :
    ∃ r, run (exec_turn packet (program bs)) (program bs).length {} = some r := by
  have hlength := program_length hops
  have hgains : ∀ vm vm', exec_turn packet (program bs) vm = .next vm' → vm.ip < vm'.ip :=
    fun vm vm' => exec_turn_next (program_forward hops)
  have hinside : ∀ vm vm', exec_turn packet (program bs) vm = .next vm' →
      vm.ip < blocks_size bs + 1 := by
    intro vm vm' hnext
    -- behind the blocks there are only the returns, and nothing
    by_contra hbehind
    by_cases hlast : vm.ip = blocks_size bs + 1
    · rw [exec_turn_at (by rw [hlast]; exact (program_returns hops).2)] at hnext
      cases hnext
    · have hnone : (program bs)[vm.ip]? = none := List.getElem?_eq_none (by omega)
      rw [exec_turn, hnone] at hnext
      cases hnext
  have hstart : blocks_size bs + 1 - ({} : Vm).ip < (program bs).length := by
    show blocks_size bs + 1 - 0 < (program bs).length
    omega
  exact run_ends hgains hinside hstart

end Programs

/-- What the two passes agree on: `sizes` are those of the first pass, and
`written` are the slots the second one writes, condition by condition and then
the two returns. -/
structure FillsSlots (temp_rule : TempFilterRule) (rule : FilterRule) (sizes : List ℕ)
    (written : List (List ℕ)) : Prop where
  sized : temp_rule.conditions.elems.mapM cond_size = some sizes
  length : rule.bytecode.elems.length = sizes.sum + 2
  reserved : written
    = List.zipWith List.range' (cond_starts 0 sizes) sizes ++ [[sizes.sum, sizes.sum + 1]]
  once : written.flatten = List.range rule.bytecode.elems.length
  returns_true : rule.bytecode.elems[sizes.sum]? = some { opcode := .RETURN_TRUE }
  returns_false : rule.bytecode.elems[sizes.sum + 1]? = some { opcode := .RETURN_FALSE }
  same_length : ∀ d, (code_for d rule).length = rule.bytecode.elems.length
  ahead : ∀ (d : EndianType) (i : ℕ) (ins : Instruction), (code_for d rule)[i]? = some ins →
    ins.opcode = .JUMP_IF_FALSE ∨ ins.opcode = .JUMP →
    i < ins.jump_target ∧ ins.jump_target < rule.bytecode.elems.length
  steps : ∀ d packet, ∃ r,
    run (exec_turn packet (code_for d rule)) rule.bytecode.elems.length {} = some r

/-- One filter. -/
theorem fills_slots {temp_rule : TempFilterRule} {rule : FilterRule} {p q : Parser}
    (h : compile_filter_rule temp_rule p = .ok rule q) : ∃ sizes written,
      noted_compile_filter_rule temp_rule p = .ok (rule, written) q ∧
      FillsSlots temp_rule rule sizes written := by
  obtain ⟨s, bs, hto, -, -, -⟩ := compile_filter_rule_ok h
  have hsnd := bind_conditions_map_snd hto.bound
  have hsum : blocks_size bs = (temp_rule.conditions.elems.map block_size).sum := by
    rw [← hsnd, List.map_map]
    rfl
  have hops : ∀ c ∈ temp_rule.conditions.elems, HasOperands c := by
    intro c hc
    rw [← hsnd] at hc
    obtain ⟨b, hb, rfl⟩ := List.mem_map.mp hc
    exact hto.operands b hb
  have hlength := program_length hto.operands
  have hfits := hto.fits
  have hcode : rule.bytecode.elems.length = (temp_rule.conditions.elems.map block_size).sum + 2 := by
    rw [hto.code, hlength, hsum]
  have hreturns := program_returns hto.operands
  have hsame : ∀ d, (code_for d rule).length = rule.bytecode.elems.length := by
    have hbig : (code_be rule).length = rule.bytecode.elems.length := by
      rw [code_be, hto.code_be, ite_self]
    have hlittle : (code_le rule).length = rule.bytecode.elems.length := by
      have hmap : rule.bytecode_le.elems.length = rule.bytecode.elems.length := by
        rw [hto.code_le, hto.code, List.length_map]
      rw [code_le, if_neg (by omega), hmap]
    intro d
    cases d with
    | LITTLE => exact hlittle
    | _ => exact hbig
  refine ⟨temp_rule.conditions.elems.map block_size, _, noted_compile_ok h, ?_⟩
  refine { sized := cond_sizes_eq hops (by omega), length := hcode, reserved := ?_, once := ?_,
           returns_true := ?_, returns_false := ?_, same_length := hsame, ahead := ?_, steps := ?_ }
  · rw [slots_reserved _ _ (by omega)]
  · rw [List.flatten_append, slots_flatten, hcode, List.range_eq_range', ← List.range'_append_1,
      Nat.zero_add]
    rfl
  · rw [hto.code, ← hsum]
    exact hreturns.1
  · rw [hto.code, ← hsum]
    exact hreturns.2
  · intro d i ins hins hjump
    obtain ⟨bs', hprogram, hops'⟩ := code_for_program hto d
    have hlength' := program_length hops'
    have hd := hsame d
    rw [hprogram] at hins hd
    obtain ⟨hlt, hle⟩ := program_jumps hops' i ins hins hjump
    omega
  · intro d packet
    obtain ⟨bs', hprogram, hops'⟩ := code_for_program hto d
    rw [← hsame d, hprogram]
    exact program_steps hops' packet

/-- **The two passes of the compiler agree** on every filter it accepts: each slot
is written once, the conditions stand where they are to stand, and a run takes at
most one turn a slot. -/
theorem accepted_filters_fill_slots {p q : Parser} (h : compile_filter_rules p = .ok () q) :
    ∃ rules, q.temp_filters.elems = p.temp_filters.elems ++ rules ∧
      List.Forall₂ (fun temp_rule rule => ∃ p' q' sizes written,
        compile_filter_rule temp_rule p' = .ok rule q' ∧
        noted_compile_filter_rule temp_rule p' = .ok (rule, written) q' ∧
        FillsSlots temp_rule rule sizes written) p.temp_filter_rules.elems rules := by
  simp only [compile_filter_rules, ErrState.bind_ok, ErrState.get_ok, consult_ok] at h
  obtain ⟨_, _, ⟨rfl, rfl⟩, _, _, rfl, _, _, ⟨rfl, rfl⟩, h⟩ := h
  obtain ⟨rules, hq, hrules⟩ := compile_rules_each _ h
  refine ⟨rules, hq, hrules.imp ?_⟩
  rintro temp_rule rule ⟨p', q', hrule⟩
  obtain ⟨sizes, written, hnoted, hfills⟩ := fills_slots hrule
  exact ⟨p', q', sizes, written, hrule, hnoted, hfills⟩

theorem sample_filter_fills_slots : ∃ p q temp_rule rule sizes written,
    after_flatten sample_text = some p ∧ compile_filter_rules p = .ok () q ∧
      rule ∈ q.temp_filters.elems ∧ FillsSlots temp_rule rule sizes written := by
  obtain ⟨p, hp, hfirst⟩ := sample_compiles_first
  unfold compiles_first at hfirst
  split at hfirst
  case h_1 q temp_rule rest hq htemp =>
    obtain ⟨rules, hrules, hall⟩ := accepted_filters_fill_slots hq
    rw [htemp] at hall
    cases hall with
    | cons hhead _ =>
      obtain ⟨-, -, sizes, written, -, -, hfills⟩ := hhead
      refine ⟨p, q, temp_rule, _, sizes, written, hp, hq, ?_, hfills⟩
      rw [hrules]
      simp
  case h_2 => cases hfirst

end RxNetCap.Runtime
