/-
Which slots of a program the second pass of `compile_filter_rule` writes.

The finished array does not say how it came about: a slot that is written twice,
or one that is left at the zeros of `calloc` and happens to be right, does not
show. So this file has the second pass once more, with the indices it writes
noted down in order, one list for each condition and one for the two final
instructions (`noted_compile_filter_rule`). Whenever the compiler gives a rule, so does
the noting one, the same rule (`noted_compile_ok`).

What is noted comes from the running index alone: an emitter that takes the index from
`i` to `j` notes the indices from `i` up to `j` (`Notes`), and emitters that run
one after the other do so together (`Notes.bind`).
-/
import RxNetCap.Pdef.Program

set_option autoImplicit false

namespace RxNetCap.Pdef

open RxNetCap.Ledger RxNetCap.ErrState

/-! ## The second pass, noting what it writes -/

/-- The array, the running index, and the indices that have been written. -/
abbrev Noted := (Table Instruction × ℕ) × List ℕ

def noted_emit (ins : Instruction) (code : Noted) : ParseM Noted := do
  let after ← emit ins code.1
  return (after, code.2 ++ [code.1.2])

def noted_emit_in (next_start fail_label : ℕ) : List ℕ → Noted → ParseM Noted
  | [], code => return code
  | [value], code => do
    let code ← noted_emit { opcode := .CMP_EQ, operand := value } code
    noted_emit { opcode := .JUMP_IF_FALSE, jump_target := fail_label } code
  | value :: rest, code => do
    let code ← noted_emit { opcode := .CMP_EQ, operand := value } code
    let code ← noted_emit { opcode := .JUMP_IF_FALSE, jump_target := u32 (code.1.2 + 2) } code
    let code ← noted_emit { opcode := .JUMP, jump_target := next_start } code
    noted_emit_in next_start fail_label rest code

def noted_emit_not_in (next_start fail_label : ℕ) : List ℕ → Noted → ParseM Noted
  | [], code => return code
  | value :: rest, code => do
    let code ← noted_emit { opcode := .CMP_EQ, operand := value } code
    let code ← noted_emit { opcode := .JUMP_IF_FALSE
                            jump_target := if rest = [] then next_start else u32 (code.1.2 + 2) } code
    let code ← noted_emit { opcode := .JUMP, jump_target := fail_label } code
    noted_emit_not_in next_start fail_label rest code

def noted_emit_comparison (fail_label : ℕ) (cond : FilterCondition) (code : Noted) :
    ParseM Noted := do
  let cmp_ins : Instruction := { opcode := get_cmp_opcode cond.op, operand := cond.value }
  let code ← noted_emit (if cond.op = .MASK
    then { cmp_ins with operand := cond.mask, operand2 := cond.value } else cmp_ins) code
  noted_emit { opcode := .JUMP_IF_FALSE, jump_target := fail_label } code

def noted_emit_body (b : Bound) (next_start fail_label : ℕ) (code : Noted) : ParseM Noted := do
  let code ← noted_emit (load_instruction b.1) code
  match b.2.op with
  | .IN => noted_emit_in next_start fail_label b.2.value_list code
  | .NOT_IN => noted_emit_not_in next_start fail_label b.2.value_list code
  | _ => noted_emit_comparison fail_label b.2 code

def noted_emit_condition (field : Field) (cond : FilterCondition)
    (start next_start fail_label : ℕ) (bytecode : Table Instruction) :
    ParseM (Table Instruction × List ℕ) := do
  let code ← noted_emit_body (field, cond) next_start fail_label ((bytecode, start), [])
  return (code.1.1, code.2)

def noted_emit_conditions (s : StructDef) (scratch : Scratch) (success_label fail_label : ℕ) :
    List FilterCondition → List ℕ → Table Instruction → ParseM (Table Instruction × List (List ℕ))
  | cond :: conds, start :: starts, bytecode => do
    let field ← require_field s scratch bytecode cond.field_name
    let (bytecode, here) ←
      noted_emit_condition field cond start (starts.headD success_label) fail_label bytecode
    let (bytecode, rest) ←
      noted_emit_conditions s scratch success_label fail_label conds starts bytecode
    return (bytecode, here :: rest)
  | _, _, bytecode => return (bytecode, [])

def noted_emit_returns (total_size success_label fail_label : ℕ) (bytecode : Table Instruction) :
    Table Instruction × List ℕ :=
  (emit_returns total_size success_label fail_label bytecode,
    if total_size ≥ 2 then [success_label, fail_label] else [])

def noted_compile_filter_rule (temp_rule : TempFilterRule) :
    ParseM (FilterRule × List (List ℕ)) := do
  consult (← get).temp_filter_rules.ptr
  consult temp_rule.conditions.ptr
  consult (← get).temp_structs.ptr
  match target_struct (← get).temp_structs.elems temp_rule with
  | none => parser_error ("Cannot find struct for filter '" ++ String.ofList temp_rule.name ++ "'")
  | some s =>
    consult s.fields.ptr
    let conds := temp_rule.conditions.elems
    let cond_sizes_ptr ← malloc
    let (cond_sizes, total_size) ← size_conditions temp_rule.name cond_sizes_ptr conds [] 2
    let bytecode ← calloc_code total_size
    let success_label := total_size - 2
    let fail_label := total_size - 1
    let scratch : Scratch := { cond_sizes := cond_sizes_ptr, cond_starts := ← malloc }
    let (bytecode, written) ← noted_emit_conditions s scratch success_label fail_label conds
      (cond_starts 0 cond_sizes) bytecode
    let (bytecode, last) := noted_emit_returns total_size success_label fail_label bytecode
    let bytecode_le ← calloc_code total_size
    free scratch.cond_sizes
    free scratch.cond_starts
    return ({ name := cstr 64 temp_rule.name
              struct_name := s.name
              bytecode := bytecode
              bytecode_be := bytecode
              bytecode_le := { bytecode_le with elems := bytecode.elems.map swap_endian }
              min_packet_size := s.min_size
              sliding_window := temp_rule.sliding_window
              sliding_max_offset := temp_rule.sliding_max_offset }, written ++ [last])

/-! ## What an emitter notes -/

/-- The emitter `x'` does what `x` does and notes the indices that `x` passes. -/
def Notes (x : Table Instruction × ℕ → ParseM (Table Instruction × ℕ)) (x' : Noted → ParseM Noted) :
    Prop :=
  ∀ code code' p q notes, code.1.cap < 2 ^ 32 → x code p = .ok code' q →
    code'.1.cap = code.1.cap ∧ code.2 ≤ code'.2 ∧
      x' (code, notes) p = .ok (code', notes ++ List.range' code.2 (code'.2 - code.2)) q

namespace Notes

variable {x y : Table Instruction × ℕ → ParseM (Table Instruction × ℕ)} {x' y' : Noted → ParseM Noted}

theorem pure : Notes (fun code => return code) (fun code => return code) := by
  intro code code' p q notes _ h
  rw [pure_ok] at h
  obtain ⟨rfl, rfl⟩ := h
  refine ⟨rfl, le_rfl, ?_⟩
  rw [Nat.sub_self, List.range'_zero, List.append_nil]
  rfl

/-- One instruction, which may depend on the index. -/
theorem emit (ins : Table Instruction × ℕ → Instruction) :
    Notes (fun code => Pdef.emit (ins code) code) (fun code => noted_emit (ins code.1) code) := by
  intro code code' p q notes hcap h
  have hwrote := Wrote.emit hcap h
  have hidx : code'.2 = code.2 + 1 := hwrote.idx_eq
  refine ⟨hwrote.cap_eq, by omega, ?_⟩
  have hone : code'.2 - code.2 = 1 := by omega
  rw [hone, List.range'_one]
  exact (bind_ok ..).mpr ⟨code', q, h, rfl⟩

theorem bind (hx : Notes x x') (hy : Notes y y') :
    Notes (fun code => x code >>= y) (fun code => x' code >>= y') := by
  intro code code' p q notes hcap h
  obtain ⟨code1, p1, h1, h2⟩ := (bind_ok ..).mp h
  obtain ⟨hcap1, hle1, hx1⟩ := hx _ _ _ _ notes hcap h1
  obtain ⟨hcap2, hle2, hy2⟩ :=
    hy _ _ _ _ (notes ++ List.range' code.2 (code1.2 - code.2)) (by rw [hcap1]; exact hcap) h2
  refine ⟨hcap2.trans hcap1, hle1.trans hle2, (bind_ok ..).mpr ⟨_, p1, hx1, ?_⟩⟩
  have hspan : List.range' code.2 (code1.2 - code.2) ++ List.range' code1.2 (code'.2 - code1.2)
      = List.range' code.2 (code'.2 - code.2) := by
    have hmiddle : code1.2 = code.2 + (code1.2 - code.2) := by omega
    have hlength : code'.2 - code.2 = (code1.2 - code.2) + (code'.2 - code1.2) := by omega
    rw [hlength, ← List.range'_append_1, ← hmiddle]
  rw [hy2, List.append_assoc, hspan]

end Notes

theorem emit_in_notes (next_start fail_label : ℕ) (values : List ℕ) :
    Notes (emit_in next_start fail_label values) (noted_emit_in next_start fail_label values) := by
  induction values with
  | nil => exact .pure
  | cons value rest ih =>
    cases rest with
    | nil => exact (Notes.emit fun _ => _).bind (.emit fun _ => _)
    | cons value' rest' =>
      exact (Notes.emit fun _ => _).bind ((Notes.emit fun code => _).bind ((Notes.emit fun _ => _).bind ih))

theorem emit_not_in_notes (next_start fail_label : ℕ) (values : List ℕ) :
    Notes (emit_not_in next_start fail_label values)
      (noted_emit_not_in next_start fail_label values) := by
  induction values with
  | nil => exact .pure
  | cons value rest ih =>
    exact (Notes.emit fun _ => _).bind ((Notes.emit fun code => _).bind ((Notes.emit fun _ => _).bind ih))

theorem emit_comparison_notes (fail_label : ℕ) (cond : FilterCondition) :
    Notes (emit_comparison fail_label cond) (noted_emit_comparison fail_label cond) :=
  (Notes.emit fun _ => _).bind (.emit fun _ => _)

theorem emit_body_notes (b : Bound) (next_start fail_label : ℕ) :
    Notes (emit_body b next_start fail_label) (noted_emit_body b next_start fail_label) := by
  refine Notes.bind (.emit fun _ => _) ?_
  cases b.2.op
  case IN => exact emit_in_notes _ _ _
  case NOT_IN => exact emit_not_in_notes _ _ _
  all_goals exact emit_comparison_notes _ _

/-! ## What the pass notes -/

/-- One condition: the slots of its block. -/
theorem noted_emit_condition_ok {b : Bound} (hops : HasOperands b.2) {start next_start fail_label : ℕ}
    {bytecode bytecode' : Table Instruction} {p q : Parser} (hcap : bytecode.cap < 2 ^ 32)
    (h : emit_condition b.1 b.2 start next_start fail_label bytecode p = .ok bytecode' q) :
    noted_emit_condition b.1 b.2 start next_start fail_label bytecode p
      = .ok (bytecode', List.range' start (block_size b.2)) q := by
  obtain ⟨code', hbody, rfl⟩ := emit_condition_ok.mp h
  have hcap0 : (bytecode, start).1.cap < 2 ^ 32 := hcap
  have hidx : code'.2 = start + block_size b.2 := by
    rw [(emit_body_wrote hcap0 hbody).idx_eq, condition_block_length _ _ _ hops]
  obtain ⟨-, -, hnoted⟩ := emit_body_notes _ _ _ _ _ _ _ [] hcap0 hbody
  rw [List.nil_append, hidx, Nat.add_sub_cancel_left] at hnoted
  exact (bind_ok ..).mpr ⟨_, q, hnoted, rfl⟩

/-- The slots of the conditions, the first one at `start`. -/
def slots : ℕ → List FilterCondition → List (List ℕ)
  | _, [] => []
  | start, cond :: rest =>
    List.range' start (block_size cond) :: slots (start + block_size cond) rest

theorem slots_flatten (conds : List FilterCondition) : ∀ start : ℕ,
    (slots start conds).flatten = List.range' start (conds.map block_size).sum := by
  induction conds with
  | nil => intro start; rfl
  | cons cond rest ih =>
    intro start
    rw [slots, List.flatten_cons, ih, List.map_cons, List.sum_cons, List.range'_append_1]

/-- They are what the first pass has reserved. -/
theorem slots_reserved (conds : List FilterCondition) : ∀ start : ℕ,
    start + (conds.map block_size).sum < 2 ^ 32 →
    slots start conds = List.zipWith List.range' (cond_starts start (conds.map block_size))
      (conds.map block_size) := by
  induction conds with
  | nil => intro start _; rfl
  | cons cond rest ih =>
    intro start hlt
    rw [List.map_cons, List.sum_cons] at hlt
    rw [slots, List.map_cons, cond_starts, List.zipWith_cons_cons, u32_of_lt (by omega),
      ih _ (by omega)]

/-- All conditions. -/
theorem noted_emit_conditions_ok {s : StructDef} {scratch : Scratch} {success_label fail_label : ℕ}
    (conds : List FilterCondition) :
    ∀ {start : ℕ} {bytecode bytecode' : Table Instruction} {p q : Parser},
      bytecode.cap < 2 ^ 32 → start ≤ bytecode.cap → (∀ c ∈ conds, HasOperands c) →
      emit_conditions s scratch success_label fail_label conds
        (cond_starts start (conds.map fun c => u32 (block_size c))) bytecode p
        = .ok bytecode' q →
      noted_emit_conditions s scratch success_label fail_label conds
        (cond_starts start (conds.map fun c => u32 (block_size c))) bytecode p
        = .ok (bytecode', slots start conds) q := by
  induction conds with
  | nil =>
    intro start bytecode bytecode' p q _ _ _ h
    rw [List.map_nil, cond_starts, emit_conditions, pure_ok] at h
    · obtain ⟨rfl, rfl⟩ := h
      rfl
    · simp
  | cons cond rest ih =>
    intro start bytecode bytecode' p q hcap hle hops h
    rw [List.map_cons, cond_starts, emit_conditions, bind_ok] at h
    obtain ⟨field, p1, hfield, h⟩ := h
    obtain ⟨bytecode1, p2, hemit, hrest⟩ := (bind_ok ..).mp h
    have hop := hops cond List.mem_cons_self
    have hnoted := noted_emit_condition_ok (b := (field, cond)) hop hcap hemit
    obtain ⟨hcap1, hbound, hstart⟩ := emit_condition_room (b := (field, cond)) hop hcap hemit
    rw [List.map_cons, cond_starts, noted_emit_conditions, bind_ok]
    refine ⟨field, p1, hfield, (bind_ok ..).mpr ⟨_, p2, hnoted, ?_⟩⟩
    change u32 (start + u32 (block_size cond)) = start + block_size cond at hstart
    rw [hstart] at hrest ⊢
    have hmore := ih (by rw [hcap1]; exact hcap) (by rw [hcap1]; exact hbound)
      (fun c hc => hops c (List.mem_cons_of_mem _ hc)) hrest
    exact (bind_ok ..).mpr ⟨_, q, hmore, rfl⟩

/-- **The noting compiler does what the compiler does**, and notes the slots of
the conditions and of the two final instructions. -/
theorem noted_compile_ok {temp_rule : TempFilterRule} {rule : FilterRule} {p q : Parser}
    (h : compile_filter_rule temp_rule p = .ok rule q) :
    noted_compile_filter_rule temp_rule p = .ok (rule, slots 0 temp_rule.conditions.elems ++
      [[(temp_rule.conditions.elems.map block_size).sum,
        (temp_rule.conditions.elems.map block_size).sum + 1]]) q := by
  simp only [compile_filter_rule, bind_ok, get_ok, consult_ok] at h
  obtain ⟨_, _, ⟨rfl, rfl⟩, _, _, rfl, _, _, rfl, _, _, ⟨rfl, rfl⟩, _, _, rfl, _, _, ⟨rfl, rfl⟩, h⟩ := h
  cases htarget : target_struct p.temp_structs.elems temp_rule with
  | none => simp only [htarget, parser_error_ok] at h
  | some s =>
    simp only [htarget, bind_ok, consult_ok, malloc_ok, calloc_code_ok, free_ok, pure_ok] at h
    obtain ⟨_, _, rfl, cond_sizes_ptr, _, ⟨rfl, rfl⟩, ⟨cond_sizes, total_size⟩, _, hsizes, h⟩ := h
    obtain ⟨_, _, ⟨rfl, rfl⟩, _, _, ⟨rfl, rfl⟩, bytecode, _, hemit, h⟩ := h
    obtain ⟨_, _, ⟨rfl, rfl⟩, _, _, rfl, _, _, rfl, rfl, rfl⟩ := h
    obtain ⟨rfl, hops, hcond_sizes, htotal⟩ := size_conditions_ok _ hsizes
    have htotal := htotal (by decide)
    rw [List.nil_append] at hcond_sizes
    rw [hcond_sizes] at hemit
    have hcap : total_size < 2 ^ 32 := by
      rw [htotal]
      exact u32_lt _
    have hnoted := noted_emit_conditions_ok _ hcap (Nat.zero_le _) hops hemit
    obtain ⟨bs, rfl, hbind, hroom, -⟩ := emit_conditions_wrote _ hcap (Nat.zero_le _) hops hemit
    rw [Nat.zero_add] at hroom
    have hsum : blocks_size bs = (temp_rule.conditions.elems.map block_size).sum := by
      rw [← bind_conditions_map_snd hbind, List.map_map]
      rfl
    have hexact : total_size = blocks_size bs + 2 := starts_le_cap (by rw [htotal, hsum]) hroom
    rw [← hsum]
    rw [hcond_sizes] at hsizes
    simp only [noted_compile_filter_rule, bind_ok, get_ok, consult_ok]
    refine ⟨_, _, ⟨rfl, rfl⟩, (), _, rfl, (), _, rfl, _, _, ⟨rfl, rfl⟩, (), _, rfl, _, _, ⟨rfl, rfl⟩, ?_⟩
    simp only [htarget, bind_ok, consult_ok, malloc_ok, calloc_code_ok, free_ok, pure_ok]
    refine ⟨(), _, rfl, _, _, ⟨rfl, rfl⟩, _, _, hsizes, _, _, ⟨rfl, rfl⟩, _, _, ⟨rfl, rfl⟩, _, _, hnoted, ?_⟩
    refine ⟨_, _, ⟨rfl, rfl⟩, (), _, rfl, (), _, rfl, ?_, rfl⟩
    have hlast : (if total_size ≥ 2 then [total_size - 2, total_size - 1] else [])
        = [blocks_size bs, blocks_size bs + 1] := by
      rw [hexact]
      exact if_pos (Nat.le_add_left 2 _)
    rw [← hlast]
    rfl

/-- The sizes of the first pass are exact when they fit the program. -/
theorem cond_sizes_eq {conds : List FilterCondition} (hops : ∀ c ∈ conds, HasOperands c)
    (hfits : (conds.map block_size).sum < 2 ^ 32) :
    conds.mapM cond_size = some (conds.map block_size) := by
  induction conds with
  | nil => rfl
  | cons cond rest ih =>
    rw [List.map_cons, List.sum_cons] at hfits
    have hsize : cond_size cond = some (block_size cond) := by
      have hop := hops cond List.mem_cons_self
      unfold HasOperands at hop
      unfold block_size at hfits ⊢
      unfold cond_size
      cases hcase : cond.op with
      | IN =>
        have hne := List.length_pos_iff.mpr (hop (.inl hcase))
        simp only [hcase] at hfits
        simp only
        rw [if_neg (by omega), u32_of_lt (by omega)]
      | NOT_IN =>
        have hne := List.length_pos_iff.mpr (hop (.inr hcase))
        simp only [hcase] at hfits
        simp only
        rw [if_neg (by omega), u32_of_lt (by omega : 3 * cond.value_list.length < 2 ^ 32),
          u32_of_lt (by omega)]
      | _ => rfl
    have hrest := ih (fun c hc => hops c (List.mem_cons_of_mem _ hc)) (by omega)
    rw [List.mapM_cons, hsize, hrest]
    rfl

/-- Filter by filter, what is compiled from what. -/
theorem compile_rules_each (temp_rules : List TempFilterRule) : ∀ {p q : Parser} {u : Unit},
    compile_rules temp_rules p = .ok u q →
    ∃ rules, q.temp_filters.elems = p.temp_filters.elems ++ rules ∧
      List.Forall₂ (fun temp_rule rule => ∃ p' q', compile_filter_rule temp_rule p' = .ok rule q')
        temp_rules rules := by
  induction temp_rules with
  | nil =>
    intro p q u h
    rw [compile_rules, pure_ok] at h
    obtain ⟨-, rfl⟩ := h
    exact ⟨[], (List.append_nil _).symm, .nil⟩
  | cons temp_rule rest ih =>
    intro p q u h
    simp only [compile_rules, bind_ok, modify_ok] at h
    obtain ⟨rule, p1, hrule, _, _, rfl, hrest⟩ := h
    obtain ⟨rules, hq, hrules⟩ := ih hrest
    obtain ⟨_, _, -, hp1, -, -⟩ := compile_filter_rule_ok hrule
    refine ⟨rule :: rules, ?_, .cons ⟨p, p1, hrule⟩ hrules⟩
    rw [hq, hp1]
    simp

end RxNetCap.Pdef
