/-
The program `compile_filter_rule` writes, as a list.

The compiler writes instructions one by one at a running index of an array that
is all zeros at first, with jump targets that are indices of the same array.
Read as a whole, the array is the concatenation of one block for each
condition, and the two final instructions. This file defines that list
(`program`) and proves that a filter that compiles compiles to it
(`compile_filter_rule_ok`).

All of the compiler's arithmetic is `uint32_t`, and the statement has no
hypothesis about sizes: a filter whose program would not fit `2 ^ 32`
instructions makes some write miss the array (`starts_le_cap`), so it does not
compile.
-/
import RxNetCap.Pdef.Inversion
import Mathlib.Algebra.Order.BigOperators.Group.List
import Mathlib.Data.List.Basic

set_option autoImplicit false

namespace RxNetCap.Pdef

open RxNetCap.Ledger RxNetCap.ErrState

/-! ## The blocks -/

/-- The comparisons of an `in` list, the first one at index `idx`. -/
def in_block (next_start fail_label : ℕ) : ℕ → List ℕ → List Instruction
  | _, [] => []
  | _, [value] =>
    [{ opcode := .CMP_EQ, operand := value },
     { opcode := .JUMP_IF_FALSE, jump_target := fail_label }]
  | idx, value :: rest =>
    { opcode := .CMP_EQ, operand := value }
      :: { opcode := .JUMP_IF_FALSE, jump_target := idx + 3 }
      :: { opcode := .JUMP, jump_target := next_start }
      :: in_block next_start fail_label (idx + 3) rest

/-- The comparisons of a `!in` list, the first one at index `idx`. -/
def not_in_block (next_start fail_label : ℕ) : ℕ → List ℕ → List Instruction
  | _, [] => []
  | idx, value :: rest =>
    { opcode := .CMP_EQ, operand := value }
      :: { opcode := .JUMP_IF_FALSE, jump_target := if rest = [] then next_start else idx + 3 }
      :: { opcode := .JUMP, jump_target := fail_label }
      :: not_in_block next_start fail_label (idx + 3) rest

def comparison_instruction (cond : FilterCondition) : Instruction :=
  if cond.op = .MASK then
    { opcode := get_cmp_opcode cond.op, operand := cond.mask, operand2 := cond.value }
  else { opcode := get_cmp_opcode cond.op, operand := cond.value }

def comparison_block (fail_label : ℕ) (cond : FilterCondition) : List Instruction :=
  [comparison_instruction cond, { opcode := .JUMP_IF_FALSE, jump_target := fail_label }]

/-- What follows the load of a condition, from index `idx` on. -/
def test_block (next_start fail_label idx : ℕ) (cond : FilterCondition) : List Instruction :=
  match cond.op with
  | .IN => in_block next_start fail_label idx cond.value_list
  | .NOT_IN => not_in_block next_start fail_label idx cond.value_list
  | _ => comparison_block fail_label cond

def condition_block (next_start fail_label start : ℕ) (b : Bound) : List Instruction :=
  load_instruction b.1 :: test_block next_start fail_label (start + 1) b.2

/-- The exact number of instructions of a condition. -/
def block_size (cond : FilterCondition) : ℕ :=
  match cond.op with
  | .IN => 3 * cond.value_list.length
  | .NOT_IN => 1 + 3 * cond.value_list.length
  | _ => 3

/-- The blocks of the conditions, the first one at index `start`. -/
def blocks (fail_label : ℕ) : ℕ → List Bound → List Instruction
  | _, [] => []
  | start, b :: rest =>
    condition_block (start + block_size b.2) fail_label start b
      ++ blocks fail_label (start + block_size b.2) rest

/-- The index of the first final instruction. -/
def blocks_size (bs : List Bound) : ℕ := (bs.map fun b => block_size b.2).sum

def program (bs : List Bound) : List Instruction :=
  blocks (blocks_size bs + 1) 0 bs ++ [{ opcode := .RETURN_TRUE }, { opcode := .RETURN_FALSE }]

/-- A list operand has a value; the compiler rejects a condition without. -/
def HasOperands (cond : FilterCondition) : Prop :=
  cond.op = .IN ∨ cond.op = .NOT_IN → cond.value_list ≠ []

theorem in_block_length (next_start fail_label : ℕ) (values : List ℕ) : ∀ idx : ℕ,
    values ≠ [] → (in_block next_start fail_label idx values).length + 1 = 3 * values.length := by
  induction values with
  | nil => intro idx h; exact absurd rfl h
  | cons value rest ih =>
    intro idx _
    cases rest with
    | nil => rfl
    | cons value' rest' =>
      have h := ih (idx + 3) (by simp)
      simp only [in_block, List.length_cons] at h ⊢
      omega

theorem not_in_block_length (next_start fail_label : ℕ) (values : List ℕ) : ∀ idx : ℕ,
    (not_in_block next_start fail_label idx values).length = 3 * values.length := by
  induction values with
  | nil => intro idx; rfl
  | cons value rest ih =>
    intro idx
    simp only [not_in_block, List.length_cons, ih (idx + 3)]
    omega

theorem condition_block_length (next_start fail_label start : ℕ) {b : Bound}
    (h : HasOperands b.2) :
    (condition_block next_start fail_label start b).length = block_size b.2 := by
  rw [condition_block, List.length_cons, test_block, block_size]
  cases hop : b.2.op with
  | IN => exact in_block_length _ _ _ _ (h (.inl hop))
  | NOT_IN =>
    show (not_in_block _ _ _ _).length + 1 = 1 + 3 * _
    rw [not_in_block_length]
    omega
  | _ => rfl

theorem blocks_length (fail_label : ℕ) (bs : List Bound) : ∀ start : ℕ,
    (∀ b ∈ bs, HasOperands b.2) → (blocks fail_label start bs).length = blocks_size bs := by
  induction bs with
  | nil => intro start _; rfl
  | cons b rest ih =>
    intro start h
    rw [blocks, List.length_append, condition_block_length _ _ _ (h b List.mem_cons_self),
      ih _ fun c hc => h c (List.mem_cons_of_mem b hc)]
    rfl

/-! ## Writing a list into an array -/

/-- The array after the instructions of a list were written from index `i` on. -/
def write_at (code : List Instruction) : ℕ → List Instruction → List Instruction
  | _, [] => code
  | i, ins :: rest => write_at (code.set i ins) (i + 1) rest

theorem write_at_append (block block' : List Instruction) : ∀ (code : List Instruction) (i : ℕ),
    write_at code i (block ++ block') = write_at (write_at code i block) (i + block.length) block' := by
  induction block with
  | nil => intro code i; rfl
  | cons ins rest ih =>
    intro code i
    rw [List.cons_append, write_at, write_at, ih, List.length_cons]
    congr 1
    omega

/-- Writing over a stretch of the right length replaces it. -/
theorem write_at_middle (block : List Instruction) : ∀ before middle after : List Instruction,
    middle.length = block.length →
    write_at (before ++ middle ++ after) before.length block = before ++ block ++ after := by
  induction block with
  | nil =>
    intro before middle after h
    rw [List.length_nil, List.length_eq_zero_iff] at h
    subst h
    rfl
  | cons ins rest ih =>
    intro before middle after h
    cases middle with
    | nil => simp at h
    | cons old middle' =>
      have hset : (before ++ old :: middle' ++ after).set before.length ins
          = (before ++ [ins]) ++ middle' ++ after := by
        simp
      have hlen : before.length + 1 = (before ++ [ins]).length := by simp
      rw [write_at, hset, hlen, ih _ _ _ (by simpa using h)]
      simp

theorem write_at_replicate {block : List Instruction} {n : ℕ} (h : block.length ≤ n) :
    write_at (List.replicate n ({} : Instruction)) 0 block
      = block ++ List.replicate (n - block.length) ({} : Instruction) := by
  have hsplit : List.replicate n ({} : Instruction)
      = [] ++ List.replicate block.length ({} : Instruction)
        ++ List.replicate (n - block.length) ({} : Instruction) := by
    rw [List.nil_append, List.replicate_append_replicate]
    congr 1
    omega
  have hmid := write_at_middle block [] (List.replicate block.length ({} : Instruction))
    (List.replicate (n - block.length) ({} : Instruction)) (by simp)
  rw [hsplit]
  simpa using hmid

/-! ## What the emitting loops write -/

theorem emit_ok (ins : Instruction) (code code' : Table Instruction × ℕ) (p q : Parser) :
    emit ins code p = .ok code' q ↔
      code.2 < code.1.cap ∧
      ({ code.1 with elems := code.1.elems.set code.2 ins }, u32 (code.2 + 1)) = code' ∧
      p = q := by
  obtain ⟨bytecode, idx⟩ := code
  simp only [emit, ite_ok, bind_ok, throw_ok, pure_ok, ge_iff_le, not_le]
  constructor
  · rintro (⟨-, u, r, hf, -⟩ | ⟨hlt, rfl, rfl⟩)
    · exact hf.elim
    · exact ⟨hlt, rfl, rfl⟩
  · rintro ⟨hlt, rfl, rfl⟩
    exact .inr ⟨hlt, rfl, rfl⟩

/-- The instructions of `block` were written at `code.2`, inside the array, and
the index is behind them. -/
structure Wrote (block : List Instruction) (code code' : Table Instruction × ℕ)
    (p q : Parser) : Prop where
  state : q = p
  bound : code.2 + block.length ≤ code.1.cap
  result : code' = ({ code.1 with elems := write_at code.1.elems code.2 block },
    code.2 + block.length)

namespace Wrote

variable {block block' : List Instruction} {code code' code'' : Table Instruction × ℕ}
  {p q r : Parser}

theorem nil (h : code.2 ≤ code.1.cap) : Wrote [] code code p p where
  state := rfl
  bound := h
  result := rfl

theorem emit {ins : Instruction} (hcap : code.1.cap < 2 ^ 32)
    (h : Pdef.emit ins code p = .ok code' q) : Wrote [ins] code code' p q := by
  rw [emit_ok] at h
  obtain ⟨hlt, rfl, rfl⟩ := h
  refine ⟨rfl, hlt, ?_⟩
  rw [u32, Nat.mod_eq_of_lt (by omega)]
  rfl

theorem cap_eq (h : Wrote block code code' p q) : code'.1.cap = code.1.cap := by
  rw [h.result]

theorem idx_eq (h : Wrote block code code' p q) : code'.2 = code.2 + block.length := by
  rw [h.result]

theorem append (h : Wrote block code code' p q) (h' : Wrote block' code' code'' q r) :
    Wrote (block ++ block') code code'' p r where
  state := h'.state.trans h.state
  bound := by
    have hb := h'.bound
    rw [h.cap_eq, h.idx_eq] at hb
    rw [List.length_append]
    omega
  result := by
    rw [h'.result, h.result, write_at_append, List.length_append, Nat.add_assoc]

end Wrote

theorem emit_in_wrote (next_start fail_label : ℕ) (values : List ℕ) :
    ∀ {code code' : Table Instruction × ℕ} {p q : Parser}, code.1.cap < 2 ^ 32 →
      code.2 ≤ code.1.cap → emit_in next_start fail_label values code p = .ok code' q →
      Wrote (in_block next_start fail_label code.2 values) code code' p q := by
  induction values with
  | nil =>
    intro code code' p q _ hle h
    rw [emit_in, pure_ok] at h
    obtain ⟨rfl, rfl⟩ := h
    exact .nil hle
  | cons value rest ih =>
    intro code code' p q hcap hle h
    cases rest with
    | nil =>
      rw [emit_in, bind_ok] at h
      obtain ⟨c1, p1, hcmp, hjif⟩ := h
      have w1 := Wrote.emit hcap hcmp
      have w2 := Wrote.emit (by rw [w1.cap_eq]; exact hcap) hjif
      exact w1.append w2
    | cons value' rest' =>
      simp only [emit_in, bind_ok] at h
      obtain ⟨c1, p1, hcmp, c2, p2, hjif, c3, p3, hjmp, hrest⟩ := h
      have w1 := Wrote.emit hcap hcmp
      have w2 := Wrote.emit (by rw [w1.cap_eq]; exact hcap) hjif
      have w3 := Wrote.emit (by rw [w2.cap_eq, w1.cap_eq]; exact hcap) hjmp
      have w123 := (w1.append w2).append w3
      have hle3 : c3.2 ≤ c3.1.cap := by
        have hb := w123.bound
        rw [w123.cap_eq, w123.idx_eq]
        exact hb
      have w4 := ih (by rw [w123.cap_eq]; exact hcap) hle3 hrest
      have w := w123.append w4
      -- the target of the inner jump is where the next comparison was written
      have hlen : 0 < (in_block next_start fail_label c3.2 (value' :: rest')).length := by
        have := in_block_length next_start fail_label (value' :: rest') c3.2 (by simp)
        simp only [List.length_cons] at this
        omega
      have hidx : c3.2 = code.2 + 3 := by rw [w123.idx_eq]; rfl
      have htarget : u32 (c1.2 + 2) = code.2 + 3 := by
        have hb := w4.bound
        have hc3 : c3.1.cap = code.1.cap := w123.cap_eq
        have h1 : c1.2 = code.2 + 1 := w1.idx_eq
        rw [u32, Nat.mod_eq_of_lt (by omega)]
        omega
      rw [htarget, hidx] at w
      exact w

theorem emit_not_in_wrote (next_start fail_label : ℕ) (values : List ℕ) :
    ∀ {code code' : Table Instruction × ℕ} {p q : Parser}, code.1.cap < 2 ^ 32 →
      code.2 ≤ code.1.cap → emit_not_in next_start fail_label values code p = .ok code' q →
      Wrote (not_in_block next_start fail_label code.2 values) code code' p q := by
  induction values with
  | nil =>
    intro code code' p q _ hle h
    rw [emit_not_in, pure_ok] at h
    obtain ⟨rfl, rfl⟩ := h
    exact .nil hle
  | cons value rest ih =>
    intro code code' p q hcap hle h
    simp only [emit_not_in, bind_ok] at h
    obtain ⟨c1, p1, hcmp, c2, p2, hjif, c3, p3, hjmp, hrest⟩ := h
    have w1 := Wrote.emit hcap hcmp
    have w2 := Wrote.emit (by rw [w1.cap_eq]; exact hcap) hjif
    have w3 := Wrote.emit (by rw [w2.cap_eq, w1.cap_eq]; exact hcap) hjmp
    have w123 := (w1.append w2).append w3
    have hle3 : c3.2 ≤ c3.1.cap := by
      have hb := w123.bound
      rw [w123.cap_eq, w123.idx_eq]
      exact hb
    have w4 := ih (by rw [w123.cap_eq]; exact hcap) hle3 hrest
    have w := w123.append w4
    have hidx : c3.2 = code.2 + 3 := by rw [w123.idx_eq]; rfl
    have htarget : (if rest = [] then next_start else u32 (c1.2 + 2))
        = if rest = [] then next_start else code.2 + 3 := by
      have hb := w123.bound
      have h1 : c1.2 = code.2 + 1 := w1.idx_eq
      simp only [List.length_append, List.length_cons, List.length_nil] at hb
      rw [h1, u32, Nat.mod_eq_of_lt (by omega)]
    rw [htarget, hidx] at w
    exact w

theorem emit_comparison_wrote (fail_label : ℕ) (cond : FilterCondition)
    {code code' : Table Instruction × ℕ} {p q : Parser} (hcap : code.1.cap < 2 ^ 32)
    (h : emit_comparison fail_label cond code p = .ok code' q) :
    Wrote (comparison_block fail_label cond) code code' p q := by
  simp only [emit_comparison, bind_ok] at h
  obtain ⟨c1, p1, hcmp, hjif⟩ := h
  have w1 := Wrote.emit hcap hcmp
  have w2 := Wrote.emit (by rw [w1.cap_eq]; exact hcap) hjif
  exact w1.append w2

/-- What `emit_condition` writes, the index kept. -/
def emit_body (b : Bound) (next_start fail_label : ℕ) (code : Table Instruction × ℕ) :
    ParseM (Table Instruction × ℕ) := do
  let code ← emit (load_instruction b.1) code
  match b.2.op with
  | .IN => emit_in next_start fail_label b.2.value_list code
  | .NOT_IN => emit_not_in next_start fail_label b.2.value_list code
  | _ => emit_comparison fail_label b.2 code

theorem emit_condition_ok {b : Bound} {start next_start fail_label : ℕ}
    {bytecode bytecode' : Table Instruction} {p q : Parser} :
    emit_condition b.1 b.2 start next_start fail_label bytecode p = .ok bytecode' q ↔
      ∃ code', emit_body b next_start fail_label (bytecode, start) p = .ok code' q ∧
        code'.1 = bytecode' := by
  unfold emit_condition emit_body
  cases b.2.op <;> simp only [bind_ok, pure_ok] <;> grind

theorem emit_body_wrote {b : Bound} {next_start fail_label : ℕ} {code code' : Table Instruction × ℕ}
    {p q : Parser} (hcap : code.1.cap < 2 ^ 32)
    (h : emit_body b next_start fail_label code p = .ok code' q) :
    Wrote (condition_block next_start fail_label code.2 b) code code' p q := by
  rw [emit_body, bind_ok] at h
  obtain ⟨c1, p1, hload, h⟩ := h
  have w1 := Wrote.emit hcap hload
  have hcap1 : c1.1.cap < 2 ^ 32 := by rw [w1.cap_eq]; exact hcap
  have hidx : c1.2 = code.2 + 1 := w1.idx_eq
  have hle1 : c1.2 ≤ c1.1.cap := by
    have hb := w1.bound
    rw [w1.cap_eq, hidx]
    exact hb
  have w2 : Wrote (test_block next_start fail_label (code.2 + 1) b.2) c1 code' p1 q := by
    rw [test_block, ← hidx]
    cases hop : b.2.op <;> simp only [hop] at h
    case IN => exact emit_in_wrote _ _ _ hcap1 hle1 h
    case NOT_IN => exact emit_not_in_wrote _ _ _ hcap1 hle1 h
    all_goals exact emit_comparison_wrote _ _ hcap1 h
  exact w1.append w2

/-- One condition: its block was written at `start`. -/
theorem emit_condition_wrote {b : Bound} {start next_start fail_label : ℕ}
    {bytecode bytecode' : Table Instruction} {p q : Parser} (hcap : bytecode.cap < 2 ^ 32)
    (h : emit_condition b.1 b.2 start next_start fail_label bytecode p = .ok bytecode' q) :
    q = p ∧ start + (condition_block next_start fail_label start b).length ≤ bytecode.cap ∧
      bytecode' = { bytecode with
        elems := write_at bytecode.elems start (condition_block next_start fail_label start b) } := by
  obtain ⟨code', hbody, rfl⟩ := emit_condition_ok.mp h
  have hcap0 : (bytecode, start).1.cap < 2 ^ 32 := hcap
  have w := emit_body_wrote hcap0 hbody
  exact ⟨w.state, w.bound, by rw [w.result]⟩

/-- The block lies inside the array, so neither its size nor its end wraps. -/
theorem emit_condition_room {b : Bound} (hops : HasOperands b.2) {start next_start fail_label : ℕ}
    {bytecode bytecode' : Table Instruction} {p q : Parser} (hcap : bytecode.cap < 2 ^ 32)
    (h : emit_condition b.1 b.2 start next_start fail_label bytecode p = .ok bytecode' q) :
    bytecode'.cap = bytecode.cap ∧ start + block_size b.2 ≤ bytecode.cap ∧
      u32 (start + u32 (block_size b.2)) = start + block_size b.2 := by
  obtain ⟨-, hbound, hwrote⟩ := emit_condition_wrote hcap h
  rw [condition_block_length _ _ _ hops] at hbound
  have hsize : u32 (block_size b.2) = block_size b.2 := u32_of_lt (by omega)
  refine ⟨by rw [hwrote], hbound, ?_⟩
  rw [hsize]
  exact u32_of_lt (by omega)

/-! ## Sizes and places -/

theorem cond_size_some {cond : FilterCondition} {size : ℕ} (h : cond_size cond = some size) :
    HasOperands cond ∧ size = u32 (block_size cond) := by
  unfold cond_size at h
  unfold HasOperands block_size
  cases hop : cond.op <;> simp only [hop] at h ⊢
  case IN =>
    by_cases hz : cond.value_list.length = 0
    · simp [hz] at h
    · rw [if_neg hz, Option.some.injEq] at h
      exact ⟨fun _ => List.length_pos_iff.mp (by omega), h.symm⟩
  case NOT_IN =>
    by_cases hz : cond.value_list.length = 0
    · simp [hz] at h
    · rw [if_neg hz, Option.some.injEq, u32, u32, Nat.add_mod_mod] at h
      exact ⟨fun _ => List.length_pos_iff.mp (by omega), h.symm⟩
  all_goals
    rw [Option.some.injEq] at h
    exact ⟨fun hin => by simp at hin, h.symm⟩

/-- The first pass: every condition has its operands, and the sizes are exact
up to `2 ^ 32`. -/
theorem size_conditions_ok {rule_name : CStr} {ptr : ℕ} (conds : List FilterCondition) :
    ∀ {sizes sizes' : List ℕ} {total total' : ℕ} {p q : Parser},
      size_conditions rule_name ptr conds sizes total p = .ok (sizes', total') q →
      q = p ∧ (∀ c ∈ conds, HasOperands c) ∧
        sizes' = sizes ++ conds.map (fun c => u32 (block_size c)) ∧
        (total < 2 ^ 32 → total' = u32 (total + (conds.map block_size).sum)) := by
  induction conds with
  | nil =>
    intro sizes sizes' total total' p q h
    rw [size_conditions, pure_ok, Prod.mk.injEq] at h
    obtain ⟨⟨rfl, rfl⟩, rfl⟩ := h
    refine ⟨rfl, by simp, by simp, fun hlt => ?_⟩
    rw [List.map_nil, List.sum_nil, u32, Nat.add_zero, Nat.mod_eq_of_lt hlt]
  | cons cond rest ih =>
    intro sizes sizes' total total' p q h
    rw [size_conditions] at h
    cases hsize : cond_size cond with
    | none =>
      rw [hsize] at h
      rw [or_free_ok, parser_error_ok] at h
      exact h.elim
    | some size =>
      rw [hsize] at h
      obtain ⟨hops, rfl⟩ := cond_size_some hsize
      obtain ⟨rfl, hall, rfl, htotal⟩ := ih h
      refine ⟨rfl, ?_, by simp, fun _ => ?_⟩
      · intro c hc
        rcases List.mem_cons.mp hc with rfl | hc
        · exact hops
        · exact hall c hc
      · rw [htotal (u32_lt _), List.map_cons, List.sum_cons]
        unfold u32
        omega

/-! ## Fields of conditions -/

/-- The conditions with the fields they are about, when every path names one. -/
def bind_conditions (s : StructDef) (conds : List FilterCondition) : Option (List Bound) :=
  conds.mapM fun cond => (find_field_by_path s cond.field_name).map fun field => (field, cond)

theorem bind_conditions_cons {s : StructDef} {cond : FilterCondition} {field : Field}
    {rest : List FilterCondition} {bs : List Bound}
    (hf : find_field_by_path s cond.field_name = some field)
    (hb : bind_conditions s rest = some bs) :
    bind_conditions s (cond :: rest) = some ((field, cond) :: bs) := by
  unfold bind_conditions at hb ⊢
  rw [List.mapM_cons, hf, hb]
  rfl

theorem bind_conditions_map_snd {s : StructDef} {conds : List FilterCondition} :
    ∀ {bs : List Bound}, bind_conditions s conds = some bs → bs.map Prod.snd = conds := by
  induction conds with
  | nil => intro bs h; cases h; rfl
  | cons cond rest ih =>
    intro bs h
    unfold bind_conditions at h
    rw [List.mapM_cons] at h
    cases hf : find_field_by_path s cond.field_name with
    | none => rw [hf] at h; cases h
    | some field =>
      rw [hf] at h
      cases hb : bind_conditions s rest with
      | none => unfold bind_conditions at hb; rw [hb] at h; cases h
      | some bs' =>
        unfold bind_conditions at hb
        rw [hb] at h
        cases h
        rw [List.map_cons, ih hb]

/-- The conditions of a filter with the fields they are about. -/
def filter_conditions (structs : List StructDef) (temp_rule : TempFilterRule) : List Bound :=
  ((target_struct structs temp_rule).bind fun s =>
    bind_conditions s temp_rule.conditions.elems).getD []

theorem require_field_ok {s : StructDef} {scratch : Scratch} {bytecode : Table Instruction}
    {path : CStr} {field : Field} {p q : Parser} :
    require_field s scratch bytecode path p = .ok field q ↔
      find_field_by_path s path = some field ∧ p = q := by
  unfold require_field
  cases hf : find_field_by_path s path with
  | none => simp only [or_free_ok, parser_error_ok, reduceCtorEq, false_and]
  | some f => simp only [pure_ok, Option.some.injEq]

/-- The second pass: every condition has its field, the program has room for
all blocks, and, when the success label is where they end, it holds them. -/
theorem emit_conditions_wrote {s : StructDef} {scratch : Scratch} {success_label fail_label : ℕ}
    (conds : List FilterCondition) :
    ∀ {start : ℕ} {bytecode bytecode' : Table Instruction} {p q : Parser},
      bytecode.cap < 2 ^ 32 → start ≤ bytecode.cap → (∀ c ∈ conds, HasOperands c) →
      emit_conditions s scratch success_label fail_label conds
        (cond_starts start (conds.map fun c => u32 (block_size c))) bytecode p
        = .ok bytecode' q →
      ∃ bs, q = p ∧ bind_conditions s conds = some bs ∧
        start + blocks_size bs ≤ bytecode.cap ∧
        (success_label = start + blocks_size bs → bytecode' = { bytecode with
          elems := write_at bytecode.elems start (blocks fail_label start bs) }) := by
  induction conds with
  | nil =>
    intro start bytecode bytecode' p q _ hle _ h
    rw [List.map_nil, cond_starts, emit_conditions, pure_ok] at h
    · obtain ⟨rfl, rfl⟩ := h
      exact ⟨[], rfl, rfl, hle, fun _ => rfl⟩
    · simp
  | cons cond rest ih =>
    intro start bytecode bytecode' p q hcap hle hops h
    rw [List.map_cons, cond_starts, emit_conditions, bind_ok] at h
    obtain ⟨field, p1, hfield, h⟩ := h
    rw [bind_ok] at h
    obtain ⟨bytecode1, p2, hemit, hrest⟩ := h
    rw [require_field_ok] at hfield
    obtain ⟨hfield, rfl⟩ := hfield
    have hop := hops cond List.mem_cons_self
    obtain ⟨rfl, -, hwrote⟩ := emit_condition_wrote (b := (field, cond)) hcap hemit
    obtain ⟨hcap1, hbound, hstart⟩ := emit_condition_room (b := (field, cond)) hop hcap hemit
    change start + block_size cond ≤ bytecode.cap at hbound
    change u32 (start + u32 (block_size cond)) = start + block_size cond at hstart
    rw [hstart] at hrest
    obtain ⟨bs, rfl, hbind, hroom, hcode⟩ :=
      ih (by rw [hcap1]; exact hcap) (by rw [hcap1]; exact hbound)
        (fun c hc => hops c (List.mem_cons_of_mem _ hc)) hrest
    rw [hcap1] at hroom
    have hsum : start + blocks_size ((field, cond) :: bs)
        = start + block_size cond + blocks_size bs := by
      rw [blocks_size, List.map_cons, List.sum_cons, Nat.add_assoc]
      rfl
    refine ⟨(field, cond) :: bs, rfl, bind_conditions_cons hfield hbind, ?_, ?_⟩
    · rw [hsum]
      exact hroom
    · intro hlabel
      rw [hsum] at hlabel
      have hnext : (cond_starts (start + block_size cond)
          (rest.map fun c => u32 (block_size c))).headD success_label
          = start + block_size cond := by
        cases rest with
        | nil =>
          cases hbind
          exact hlabel
        | cons _ _ => rfl
      rw [hcode hlabel, hwrote, hstart, hnext, blocks, write_at_append,
        condition_block_length _ _ _ (b := (field, cond)) hop]

/-! ## A filter compiles to its program -/

theorem program_length {bs : List Bound} (h : ∀ b ∈ bs, HasOperands b.2) :
    (program bs).length = blocks_size bs + 2 := by
  rw [program, List.length_append, blocks_length _ _ _ h]
  rfl

/-- The final instructions go into the two zeros that the blocks leave. -/
theorem emit_returns_program {bs : List Bound} (bytecode : Table Instruction)
    (hops : ∀ b ∈ bs, HasOperands b.2)
    (hcode : bytecode.elems
      = write_at (List.replicate (blocks_size bs + 2) {}) 0 (blocks (blocks_size bs + 1) 0 bs)) :
    emit_returns (blocks_size bs + 2) (blocks_size bs) (blocks_size bs + 1) bytecode
      = { bytecode with elems := program bs } := by
  have hlen := blocks_length (blocks_size bs + 1) bs 0 hops
  have hzeros : bytecode.elems
      = blocks (blocks_size bs + 1) 0 bs ++ [({} : Instruction), ({} : Instruction)] := by
    rw [hcode, write_at_replicate (by omega), hlen, Nat.add_sub_cancel_left]
    rfl
  have hset : ∀ (before : List Instruction) (g : Instruction → Instruction) (x y : Instruction),
      (before ++ [x, y]).modify before.length g = before ++ [g x, y] ∧
      (before ++ [x, y]).modify (before.length + 1) g = before ++ [x, g y] := by
    intro before g x y
    induction before with
    | nil => exact ⟨rfl, rfl⟩
    | cons _ _ ih => exact ⟨congrArg _ ih.1, congrArg _ ih.2⟩
  have hset' := fun g x y => hlen ▸ hset (blocks (blocks_size bs + 1) 0 bs) g x y
  unfold emit_returns
  rw [if_pos (by omega), hzeros, (hset' _ _ _).1, (hset' _ _ _).2]
  rfl

/-- The first pass leaves room for the blocks of the second and the two final
instructions, exactly: a total that wrapped would be too small for the blocks. -/
theorem starts_le_cap {bs : List Bound} {total : ℕ} (htotal : total = u32 (2 + blocks_size bs))
    (hroom : blocks_size bs ≤ total) : total = blocks_size bs + 2 := by
  have hlt : total < 2 ^ 32 := by
    rw [htotal]
    exact u32_lt _
  unfold u32 at htotal
  omega

/-- `rule` is what the filter `temp_rule` compiles to, over the struct `s` and
with its conditions bound as `bs`. -/
structure CompiledTo (structs : List StructDef) (temp_rule : TempFilterRule) (s : StructDef)
    (bs : List Bound) (rule : FilterRule) : Prop where
  target : target_struct structs temp_rule = some s
  bound : bind_conditions s temp_rule.conditions.elems = some bs
  operands : ∀ b ∈ bs, HasOperands b.2
  fits : (program bs).length < 2 ^ 32
  name : rule.name = cstr 64 temp_rule.name
  struct_name : rule.struct_name = s.name
  code : rule.bytecode.elems = program bs
  code_be : rule.bytecode_be = rule.bytecode
  code_le : rule.bytecode_le.elems = (program bs).map swap_endian
  min_packet_size : rule.min_packet_size = s.min_size
  sliding_window : rule.sliding_window = temp_rule.sliding_window
  sliding_max_offset : rule.sliding_max_offset = temp_rule.sliding_max_offset

theorem CompiledTo.conditions {structs : List StructDef} {temp_rule : TempFilterRule}
    {s : StructDef} {bs : List Bound} {rule : FilterRule}
    (h : CompiledTo structs temp_rule s bs rule) : filter_conditions structs temp_rule = bs := by
  rw [filter_conditions, h.target, Option.bind_some, h.bound]
  rfl

/-- The heap after a filter is compiled: the block before `bytecode` held the
sizes of the conditions, the one after it their places. -/
def compiled_heap (p : Parser) (temp_rule : TempFilterRule) (s : StructDef) : Heap :=
  let h := (((p.heap.consult p.temp_filter_rules.ptr).consult temp_rule.conditions.ptr).consult
    p.temp_structs.ptr).consult s.fields.ptr
  ((h.malloc.2.malloc.2.malloc.2.malloc.2).free h.next).free (h.next + 2)

/-- **A filter that compiles compiles to its program.** -/
theorem compile_filter_rule_ok {temp_rule : TempFilterRule} {rule : FilterRule} {p q : Parser}
    (h : compile_filter_rule temp_rule p = .ok rule q) :
    ∃ s bs, CompiledTo p.temp_structs.elems temp_rule s bs rule ∧
      q = { p with heap := compiled_heap p temp_rule s } ∧
      rule.bytecode.ptr = p.heap.next + 1 ∧ rule.bytecode_le.ptr = p.heap.next + 3 := by
  simp only [compile_filter_rule, bind_ok, get_ok, consult_ok] at h
  obtain ⟨_, _, ⟨rfl, rfl⟩, _, _, rfl, _, _, rfl, _, _, ⟨rfl, rfl⟩, _, _, rfl, _, _, ⟨rfl, rfl⟩, h⟩ := h
  cases htarget : target_struct p.temp_structs.elems temp_rule with
  | none => simp only [htarget, parser_error_ok] at h
  | some s =>
    simp only [htarget, bind_ok, consult_ok, malloc_ok, calloc_code_ok, free_ok, pure_ok] at h
    obtain ⟨_, _, rfl, cond_sizes_ptr, _, ⟨rfl, rfl⟩, ⟨cond_sizes, total_size⟩, _, hsizes, h⟩ := h
    obtain ⟨_, _, ⟨rfl, rfl⟩, _, _, ⟨rfl, rfl⟩, bytecode, _, hemit, h⟩ := h
    obtain ⟨_, _, ⟨rfl, rfl⟩, _, _, rfl, _, _, rfl, rfl, rfl⟩ := h
    obtain ⟨rfl, hops, hcond_sizes, htotal⟩ := size_conditions_ok _ hsizes
    have htotal := htotal (by decide)
    rw [List.nil_append] at hcond_sizes
    rw [hcond_sizes] at hemit
    obtain ⟨bs, rfl, hbind, hroom, hcode⟩ := emit_conditions_wrote _
      (by rw [htotal]; exact u32_lt _) (Nat.zero_le _) hops hemit
    rw [Nat.zero_add] at hroom hcode
    have hsnd := bind_conditions_map_snd hbind
    have hsum : blocks_size bs = (temp_rule.conditions.elems.map block_size).sum := by
      rw [← hsnd, List.map_map]
      rfl
    have hopsb : ∀ b ∈ bs, HasOperands b.2 := by
      intro b hb
      exact hops b.2 (hsnd ▸ List.mem_map_of_mem hb)
    have hexact : total_size = blocks_size bs + 2 :=
      starts_le_cap (by rw [htotal, hsum]) hroom
    have hlt : blocks_size bs + 2 < 2 ^ 32 := by
      rw [← hexact, htotal]
      exact u32_lt _
    subst hexact
    have hcode := hcode rfl
    have hfinal := emit_returns_program bytecode hopsb (congrArg Table.elems hcode)
    refine ⟨s, bs, ⟨htarget, hbind, hopsb, ?_, rfl, rfl, ?_, rfl, ?_, rfl, rfl, rfl⟩, rfl, ?_, rfl⟩
    · rw [program_length hopsb]
      exact hlt
    · exact congrArg Table.elems hfinal
    · exact congrArg (List.map swap_endian) (congrArg Table.elems hfinal)
    · have hptr := congrArg Table.ptr hfinal
      exact hptr.trans (congrArg Table.ptr hcode)

/-! ## All filters -/

/-- Filter by filter, in order: `rules` are what `temp_rules` compile to. -/
def Compiled (structs : List StructDef) : List TempFilterRule → List FilterRule → Prop :=
  List.Forall₂ fun temp_rule rule => ∃ s bs, CompiledTo structs temp_rule s bs rule

theorem compile_rules_ok (temp_rules : List TempFilterRule) : ∀ {p q : Parser} {u : Unit},
    compile_rules temp_rules p = .ok u q →
    ∃ rules, Compiled p.temp_structs.elems temp_rules rules ∧
      q = { p with heap := q.heap, temp_filters := { p.temp_filters with
        elems := p.temp_filters.elems ++ rules } } := by
  induction temp_rules with
  | nil =>
    intro p q u h
    rw [compile_rules, pure_ok] at h
    obtain ⟨-, rfl⟩ := h
    exact ⟨[], .nil, by simp⟩
  | cons temp_rule rest ih =>
    intro p q u h
    simp only [compile_rules, bind_ok, modify_ok] at h
    obtain ⟨rule, _, hrule, _, _, rfl, hrest⟩ := h
    obtain ⟨s, bs, hcompiled, rfl, -, -⟩ := compile_filter_rule_ok hrule
    obtain ⟨rules, hrules, hq⟩ := ih hrest
    refine ⟨rule :: rules, .cons ⟨s, bs, hcompiled⟩ hrules, ?_⟩
    rw [hq]
    simp

theorem compile_filter_rules_ok {p q : Parser} {u : Unit}
    (h : compile_filter_rules p = .ok u q) :
    ∃ rules, Compiled p.temp_structs.elems p.temp_filter_rules.elems rules ∧
      q = { p with heap := q.heap, temp_filters := { p.temp_filters with
        elems := p.temp_filters.elems ++ rules } } := by
  simp only [compile_filter_rules, bind_ok, get_ok, consult_ok] at h
  obtain ⟨_, _, ⟨rfl, rfl⟩, _, _, rfl, _, _, ⟨rfl, rfl⟩, h⟩ := h
  obtain ⟨rules, hrules, hq⟩ := compile_rules_ok _ h
  exact ⟨rules, hrules, hq⟩

end RxNetCap.Pdef
