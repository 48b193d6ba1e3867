/-
The compiler is correct: the virtual machine, run on the program of a filter,
returns what reading the conditions directly returns.

One lemma for each kind of block says where the machine comes out of it: a list
of comparisons, and then a whole test, leaves at the start of the next
condition or at the final `RETURN_FALSE` (`test_block_advances`). Put behind
the load of its field, this is one step of the direct reading, and the theorem
is an induction on the conditions (`blocks_run`). Every jump goes forward, so
the number of turns is bounded by the distance, and the program ends
(`execute_program`).

The program for the other byte order is the program of the same conditions over
fields with the other tag (`swap_program`), so the same theorem is about it.
-/
import RxNetCap.Pdef.Program
import RxNetCap.Runtime.Loads

set_option autoImplicit false

namespace RxNetCap.Runtime

open RxNetCap.Pdef RxNetCap.Machine

/-! ## Single instructions -/

/-- The instruction at a state is a load. -/
def AtLoad (code : List Instruction) (vm : Vm) : Prop :=
  ∃ ins ∈ code[vm.ip]?, (load_op ins.opcode).isSome

/-- The virtual machine gets from one state to another, forward. -/
abbrev Forward (packet : Packet) (code : List Instruction) (vm vm' : Vm) : Prop :=
  Advances (exec_turn packet code) Vm.ip (fun _ => True) vm vm'

/-- It gets there without a load. -/
abbrev GoesTo (packet : Packet) (code : List Instruction) (vm vm' : Vm) : Prop :=
  Advances (exec_turn packet code) Vm.ip (fun vm => ¬ AtLoad code vm) vm vm'

section Instructions

variable {packet : Packet} {code : List Instruction} {vm : Vm}

theorem exec_turn_at {ins : Instruction} (h : code[vm.ip]? = some ins) :
    exec_turn packet code vm = exec_instruction packet code.length ins vm := by
  simp only [exec_turn, h]

theorem not_atLoad {ins : Instruction} (h : code[vm.ip]? = some ins)
    (hload : load_op ins.opcode = none) : ¬ AtLoad code vm := by
  rintro ⟨ins', hins', hsome⟩
  rw [Option.mem_def, h, Option.some.injEq] at hins'
  rw [← hins', hload] at hsome
  cases hsome

/-- A comparison sets the flag and keeps the accumulator. -/
theorem compare_turn (packet : Packet) {op : OpCode} {a b : ℕ} {test : ℕ → ℕ → ℕ → Bool}
    (h : code[vm.ip]? = some { opcode := op, operand := a, operand2 := b })
    (hload : load_op op = none) (hcmp : cmp_op op = some test) :
    exec_turn packet code vm
      = .next { vm with ip := vm.ip + 1, cmp_result := test vm.acc a b } := by
  rw [exec_turn_at h]
  simp only [exec_instruction, hload, hcmp]

theorem compare_forward (packet : Packet) {op : OpCode} {a b : ℕ} {test : ℕ → ℕ → ℕ → Bool}
    (h : code[vm.ip]? = some { opcode := op, operand := a, operand2 := b })
    (hload : load_op op = none) (hcmp : cmp_op op = some test) :
    GoesTo packet code vm { vm with ip := vm.ip + 1, cmp_result := test vm.acc a b } :=
  .step (compare_turn packet h hload hcmp) (Nat.lt_succ_self _) (not_atLoad h hload)

/-- `JUMP_IF_FALSE` falls through, or goes to its target. -/
theorem jump_if_false_turn (packet : Packet) (vm : Vm) {target : ℕ}
    (h : code[vm.ip]? = some { opcode := .JUMP_IF_FALSE, jump_target := target })
    (hinside : target < code.length) :
    exec_turn packet code vm
      = .next { vm with ip := if vm.cmp_result then vm.ip + 1 else target } := by
  rw [exec_turn_at h]
  simp only [exec_instruction, load_op, cmp_op, exec_jump]
  by_cases hflag : vm.cmp_result
  · simp only [hflag, if_true]
  · simp only [hflag, if_neg (not_le.mpr hinside), Bool.false_eq_true, if_false]

theorem jump_if_false_forward (packet : Packet) (vm : Vm) {target : ℕ}
    (h : code[vm.ip]? = some { opcode := .JUMP_IF_FALSE, jump_target := target })
    (hahead : vm.ip < target) (hinside : target < code.length) :
    GoesTo packet code vm { vm with ip := if vm.cmp_result then vm.ip + 1 else target } := by
  refine .step (jump_if_false_turn packet vm h hinside) ?_ (not_atLoad h rfl)
  by_cases hflag : vm.cmp_result
  · simp only [hflag, if_true, Nat.lt_succ_self]
  · simp only [hflag, Bool.false_eq_true, if_false, hahead]

theorem jump_forward (packet : Packet) (vm : Vm) {target : ℕ}
    (h : code[vm.ip]? = some { opcode := .JUMP, jump_target := target })
    (hahead : vm.ip < target) (hinside : target < code.length) :
    GoesTo packet code vm { vm with ip := target } := by
  refine .step ?_ hahead (not_atLoad h rfl)
  rw [exec_turn_at h]
  simp only [exec_instruction, load_op, cmp_op, exec_jump, if_neg (not_le.mpr hinside)]

end Instructions

/-! ## Tests -/

/-- The virtual machine comes from `vm` to index `target`, without a load. -/
def LeavesAt (packet : Packet) (code : List Instruction) (vm : Vm) (target : ℕ) : Prop :=
  ∃ vm', vm'.ip = target ∧ GoesTo packet code vm vm'

section Tests

variable {packet : Packet} {code : List Instruction} {next_start fail_label : ℕ}

theorem LeavesAt.after {vm vm' : Vm} {target : ℕ} (h : GoesTo packet code vm vm')
    (h' : LeavesAt packet code vm' target) : LeavesAt packet code vm target := by
  obtain ⟨vm'', hip, hf⟩ := h'
  exact ⟨vm'', hip, h.trans hf⟩

/-- An `in` list: the first value that is equal leads to the next condition. -/
theorem in_block_leaves (packet : Packet) (hfail : next_start ≤ fail_label)
    (hinside : fail_label < code.length) (values : List ℕ) : ∀ vm : Vm, values ≠ [] →
      CodeAt code vm.ip (in_block next_start fail_label vm.ip values) →
      vm.ip + (in_block next_start fail_label vm.ip values).length = next_start →
      LeavesAt packet code vm (if vm.acc ∈ values then next_start else fail_label) := by
  induction values with
  | nil => intro vm h; exact absurd rfl h
  | cons value rest ih =>
    intro vm _ hcode hlen
    cases rest with
    | nil =>
      have hnext : vm.ip + 2 = next_start := hlen
      have hcmp := compare_forward packet hcode.head rfl rfl
      have hjump := jump_if_false_forward packet
        { vm with ip := vm.ip + 1, cmp_result := vm.acc = value } hcode.tail.head
        (by simp only; omega) hinside
      refine ⟨_, ?_, hcmp.trans hjump⟩
      by_cases heq : vm.acc = value
      · simp [heq, ← hnext]
      · simp [heq]
    | cons value' rest' =>
      have hlong := in_block_length next_start fail_label (value' :: rest') (vm.ip + 3) (by simp)
      simp only [in_block, List.length_cons] at hlen hlong
      have hcmp := compare_forward packet hcode.head rfl rfl
      have hjump := jump_if_false_forward packet
        { vm with ip := vm.ip + 1, cmp_result := vm.acc = value } hcode.tail.head
        (by simp only; omega) (by omega)
      by_cases heq : vm.acc = value
      · have hout := jump_forward packet
          { vm with ip := vm.ip + 2, cmp_result := true } hcode.tail.tail.head
          (by simp only; omega) (by omega)
        simp only [heq, decide_true, if_true] at hcmp hjump
        rw [if_pos (by simp [heq])]
        rw [heq] at hout
        exact ⟨_, rfl, hcmp.trans (hjump.trans hout)⟩
      · simp only [heq, decide_false, Bool.false_eq_true, if_false] at hcmp hjump
        have hrest := ih { vm with ip := vm.ip + 3, cmp_result := false } (by simp)
          hcode.tail.tail.tail (by simp only; omega)
        have hmem : vm.acc ∈ value :: value' :: rest' ↔ vm.acc ∈ value' :: rest' := by
          simp [heq]
        simp only [hmem]
        exact .after (hcmp.trans hjump) hrest

/-- A `!in` list: the first value that is equal fails the filter. -/
theorem not_in_block_leaves (packet : Packet) (hfail : next_start ≤ fail_label)
    (hinside : fail_label < code.length) (values : List ℕ) : ∀ vm : Vm,
      CodeAt code vm.ip (not_in_block next_start fail_label vm.ip values) →
      vm.ip + 3 * values.length = next_start →
      LeavesAt packet code vm (if vm.acc ∉ values then next_start else fail_label) := by
  induction values with
  | nil =>
    intro vm _ hlen
    rw [if_pos (by simp)]
    exact ⟨vm, hlen, .refl vm⟩
  | cons value rest ih =>
    intro vm hcode hlen
    rw [List.length_cons] at hlen
    -- the last comparison goes to the next condition, which is where it stands
    have htarget : (if rest = [] then next_start else vm.ip + 3) = vm.ip + 3 := by
      by_cases hrest : rest = []
      · rw [if_pos hrest, ← hlen, hrest]
        rfl
      · rw [if_neg hrest]
    rw [not_in_block, htarget] at hcode
    have hcmp := compare_forward packet hcode.head rfl rfl
    have hjump := jump_if_false_forward packet
      { vm with ip := vm.ip + 1, cmp_result := vm.acc = value } hcode.tail.head
      (by simp only; omega) (by omega)
    by_cases heq : vm.acc = value
    · have hout := jump_forward packet
        { vm with ip := vm.ip + 2, cmp_result := true } hcode.tail.tail.head
        (by simp only; omega) hinside
      simp only [heq, decide_true, if_true] at hcmp hjump
      rw [heq] at hout
      rw [if_neg (by simp [heq])]
      exact ⟨_, rfl, hcmp.trans (hjump.trans hout)⟩
    · simp only [heq, decide_false, Bool.false_eq_true, if_false] at hcmp hjump
      have hrest := ih { vm with ip := vm.ip + 3, cmp_result := false }
        hcode.tail.tail.tail (by simp only; omega)
      have hmem : vm.acc ∉ value :: rest ↔ vm.acc ∉ rest := by simp [heq]
      simp only [hmem]
      exact .after (hcmp.trans hjump) hrest

/-- The instruction of a comparison puts the test of its condition. -/
theorem comparison_turn {cond : FilterCondition} (hin : cond.op ≠ .IN) (hnot : cond.op ≠ .NOT_IN)
    {vm : Vm} (h : code[vm.ip]? = some (comparison_instruction cond)) :
    load_op (comparison_instruction cond).opcode = none ∧
      exec_turn packet code vm
        = .next { vm with ip := vm.ip + 1, cmp_result := condition_test cond vm.acc } := by
  have htest : ∃ test, cmp_op (comparison_instruction cond).opcode = some test ∧
      load_op (comparison_instruction cond).opcode = none ∧
      test vm.acc (comparison_instruction cond).operand (comparison_instruction cond).operand2
        = condition_test cond vm.acc := by
    unfold comparison_instruction condition_test
    cases hop : cond.op <;> first | exact ⟨_, rfl, rfl, rfl⟩ | contradiction
  obtain ⟨test, hcmp_op, hload_op, heq⟩ := htest
  have hins : comparison_instruction cond = { opcode := (comparison_instruction cond).opcode
                                              operand := (comparison_instruction cond).operand
                                              operand2 := (comparison_instruction cond).operand2 } := by
    unfold comparison_instruction
    by_cases hmask : cond.op = .MASK
    · rw [if_pos hmask]
    · rw [if_neg hmask]
  rw [hins] at h
  have hcmp := compare_turn packet h hload_op hcmp_op
  rw [heq] at hcmp
  exact ⟨hload_op, hcmp⟩

/-- One comparison. -/
theorem comparison_block_leaves {cond : FilterCondition} (hin : cond.op ≠ .IN)
    (hnot : cond.op ≠ .NOT_IN) (hinside : fail_label < code.length) (vm : Vm)
    (hcode : CodeAt code vm.ip (comparison_block fail_label cond))
    (hfail : vm.ip + 2 ≤ fail_label) :
    LeavesAt packet code vm (if condition_test cond vm.acc then vm.ip + 2 else fail_label) := by
  obtain ⟨hload, hturn⟩ : _ ∧ exec_turn packet code vm = _ := comparison_turn hin hnot hcode.head
  have hcmp : GoesTo packet code vm
      { vm with ip := vm.ip + 1, cmp_result := condition_test cond vm.acc } :=
    .step hturn (Nat.lt_succ_self _) (not_atLoad hcode.head hload)
  have hjump := jump_if_false_forward packet
    { vm with ip := vm.ip + 1, cmp_result := condition_test cond vm.acc } hcode.tail.head
    (by simp only; omega) hinside
  exact ⟨_, rfl, hcmp.trans hjump⟩

/-- **A test leaves at the next condition or at the failure label**, as the
value in the accumulator passes it or not. -/
theorem test_block_leaves (packet : Packet) (next_start : ℕ) {cond : FilterCondition}
    (hops : HasOperands cond) (hinside : fail_label < code.length) (vm : Vm)
    (hcode : CodeAt code vm.ip (test_block next_start fail_label vm.ip cond))
    (hnext : vm.ip + (test_block next_start fail_label vm.ip cond).length = next_start)
    (hfail : next_start ≤ fail_label) :
    LeavesAt packet code vm (if condition_test cond vm.acc then next_start else fail_label) := by
  by_cases hin : cond.op = .IN
  · simp only [test_block, hin] at hcode hnext
    have h := in_block_leaves packet hfail hinside cond.value_list vm
      (hops (.inl hin)) hcode hnext
    simpa only [condition_test, hin, decide_eq_true_eq] using h
  · by_cases hnot : cond.op = .NOT_IN
    · simp only [test_block, hnot, not_in_block_length] at hcode hnext
      have h := not_in_block_leaves packet hfail hinside cond.value_list vm hcode hnext
      simpa only [condition_test, hnot, decide_eq_true_eq] using h
    · have hblock : test_block next_start fail_label vm.ip cond
          = comparison_block fail_label cond := by
        unfold test_block
        cases hop : cond.op <;> first | rfl | contradiction
      rw [hblock] at hcode hnext
      have hnext' : vm.ip + 2 = next_start := hnext
      rw [← hnext']
      exact comparison_block_leaves hin hnot hinside vm hcode (by omega)

end Tests

/-! ## Conditions -/

/-- The byte order each field is tagged with. -/
def tagged : Order := Field.endian

section Conditions

variable {packet : Packet} {code : List Instruction}

/-- The load of a field turns the packet away, leaves it, or reads the value. -/
theorem load_turn (packet : Packet) {f : Field} {vm : Vm} (h : code[vm.ip]? = some (load_instruction f)) :
    exec_turn packet code vm =
      if u32 (f.offset + width f) > packet.len then .done (.returns false)
      else if f.offset + width f > packet.len then .done .out_of_bounds
      else .next { vm with ip := vm.ip + 1, acc := field_value f.endian f packet } := by
  obtain ⟨read, hop, hread⟩ := load_reads f
  have hins : exec_instruction packet code.length (load_instruction f) vm
      = exec_load packet f.offset (width f) read vm := by
    unfold exec_instruction
    rw [show (load_instruction f).opcode = get_load_opcode f from rfl, hop]
    rfl
  rw [exec_turn_at h, hins, exec_load]
  by_cases hend : u32 (f.offset + width f) > packet.len
  · rw [if_pos hend, if_pos hend]
  · rw [if_neg hend, if_neg hend]
    by_cases hout : f.offset + width f > packet.len
    · rw [if_pos hout, if_pos hout]
    · rw [if_neg hout, if_neg hout, hread packet (not_lt.mp hout)]

/-- The size of the blocks, condition by condition. -/
theorem blocks_size_cons (b : Bound) (rest : List Bound) :
    blocks_size (b :: rest) = block_size b.2 + blocks_size rest := by
  rw [blocks_size, List.map_cons, List.sum_cons]
  rfl

/-- What the blocks of the conditions stand in: behind them the two returns. -/
structure Framed (code : List Instruction) (fail_label start : ℕ) (bs : List Bound) : Prop where
  operands : ∀ b ∈ bs, HasOperands b.2
  blocks : CodeAt code start (blocks fail_label start bs)
  success : code[start + blocks_size bs]? = some { opcode := .RETURN_TRUE }
  failure : code[fail_label]? = some { opcode := .RETURN_FALSE }
  label : start + blocks_size bs + 1 = fail_label

section Framed

variable {fail_label start : ℕ} {f : Field} {cond : FilterCondition} {rest : List Bound}

theorem Framed.inside {bs : List Bound} (h : Framed code fail_label start bs) :
    fail_label < code.length := (List.getElem?_eq_some_iff.mp h.failure).1

theorem Framed.load (h : Framed code fail_label start ((f, cond) :: rest)) :
    code[start]? = some (load_instruction f) := h.blocks.left.head

theorem Framed.block_length (h : Framed code fail_label start ((f, cond) :: rest)) :
    (condition_block (start + block_size cond) fail_label start (f, cond)).length
      = block_size cond :=
  condition_block_length _ _ _ (h.operands (f, cond) List.mem_cons_self)

theorem Framed.next (h : Framed code fail_label start ((f, cond) :: rest)) :
    Framed code fail_label (start + block_size cond) rest where
  operands := fun c hc => h.operands c (List.mem_cons_of_mem _ hc)
  blocks := by
    have hrest := h.blocks.right
    rwa [h.block_length] at hrest
  success := by
    have hsuccess := h.success
    rwa [blocks_size_cons, ← Nat.add_assoc] at hsuccess
  failure := h.failure
  label := by
    have hlabel := h.label
    rwa [blocks_size_cons, ← Nat.add_assoc] at hlabel

/-- A condition whose field is inside the packet: its load reads the value, and
the test of the value leaves at the next condition or at the failure label. -/
theorem Framed.condition_leaves {vm : Vm} (h : Framed code fail_label vm.ip ((f, cond) :: rest))
    (hin : f.offset + width f ≤ packet.len) :
    ∃ vm1, exec_turn packet code vm = .next vm1 ∧ vm.ip < vm1.ip ∧
      LeavesAt packet code vm1 (if condition_test cond (field_value f.endian f packet)
        then vm.ip + block_size cond else fail_label) := by
  have hload := load_turn packet h.load
  have hle := u32_le (f.offset + width f)
  rw [if_neg (by omega), if_neg (by omega)] at hload
  have hlen := h.block_length
  rw [condition_block, List.length_cons] at hlen
  change (test_block _ _ _ cond).length + 1 = block_size cond at hlen
  have hlabel := h.next.label
  refine ⟨_, hload, Nat.lt_succ_self _, ?_⟩
  exact test_block_leaves packet (vm.ip + block_size cond)
    (h.operands (f, cond) List.mem_cons_self) h.inside
    { vm with ip := vm.ip + 1, acc := field_value f.endian f packet } h.blocks.left.tail
    (by simp only; omega) (by omega)

end Framed

/-- The blocks of the conditions, up to the turn that ends the run. -/
theorem blocks_run (packet : Packet) {fail_label : ℕ} (bs : List Bound) : ∀ vm : Vm,
    Framed code fail_label vm.ip bs →
      ∃ vm', Forward packet code vm vm' ∧ vm'.ip ≤ fail_label ∧
        exec_turn packet code vm' = .done (direct_reading tagged bs packet) := by
  induction bs with
  | nil =>
    intro vm h
    have hlabel := h.label
    refine ⟨vm, .refl vm, by omega, ?_⟩
    rw [exec_turn_at (show code[vm.ip]? = some { opcode := .RETURN_TRUE } from h.success)]
    rfl
  | cons b rest ih =>
    intro vm h
    obtain ⟨f, cond⟩ := b
    have hlabel := h.label
    have hload := load_turn packet h.load
    rw [direct_reading]
    by_cases hend : u32 (f.offset + width f) > packet.len
    · rw [if_pos hend] at hload ⊢
      exact ⟨vm, .refl vm, by omega, hload⟩
    rw [if_neg hend] at hload ⊢
    by_cases hout : f.offset + width f > packet.len
    · rw [if_pos hout] at hload ⊢
      exact ⟨vm, .refl vm, by omega, hload⟩
    rw [if_neg hout]
    obtain ⟨vm1, hturn, hlt, vm2, hip, hgoes⟩ := h.condition_leaves (not_lt.mp hout)
    have hforward : Forward packet code vm vm2 :=
      (Advances.step hturn hlt trivial).trans (hgoes.mono fun _ _ => trivial)
    by_cases hpass : condition_test cond (field_value (tagged f) f packet)
    · -- on to the next condition
      rw [if_pos hpass]
      rw [if_pos (show condition_test cond (field_value f.endian f packet) from hpass)] at hip
      obtain ⟨vm3, hforward', hle, hdone⟩ := ih vm2 (hip ▸ h.next)
      exact ⟨vm3, hforward.trans hforward', hle, hdone⟩
    · rw [if_neg hpass]
      rw [if_neg (show ¬ condition_test cond (field_value f.endian f packet) from hpass)] at hip
      refine ⟨vm2, hforward, hip.le, ?_⟩
      rw [exec_turn_at (show code[vm2.ip]? = some { opcode := .RETURN_FALSE } from hip ▸ h.failure)]
      rfl

end Conditions

/-! ## The program of a filter -/

/-- A program frames its own blocks. -/
theorem program_framed {bs : List Bound} (hops : ∀ b ∈ bs, HasOperands b.2) :
    Framed (program bs) (blocks_size bs + 1) 0 bs where
  operands := hops
  blocks := (CodeAt.self (program bs)).left
  success := by
    have hends := (CodeAt.self (program bs)).right
    rw [blocks_length _ bs 0 hops] at hends
    exact hends.head
  failure := by
    have hends := (CodeAt.self (program bs)).right
    rw [blocks_length _ bs 0 hops, Nat.zero_add] at hends
    exact hends.tail.head
  label := by rw [Nat.zero_add]

/-- **The compiler is correct**: the program of a filter returns what its
conditions, read directly, return. -/
theorem execute_program (packet : Packet) {bs : List Bound} (hops : ∀ b ∈ bs, HasOperands b.2) :
    execute_bytecode packet (program bs) = direct_reading tagged bs packet := by
  have hlen := program_length hops
  obtain ⟨vm, hforward, hle, hdone⟩ := blocks_run packet bs {} (program_framed hops)
  have hrun := hforward.run_done (n := (program bs).length + 1) hdone
    (by rw [hlen]; simp only [Nat.sub_zero]; omega)
  rw [execute_bytecode, if_neg (by omega), exec_loop, hrun]
  rfl

/-! ## The program for the other byte order -/

/-- The condition over the field with the other tag. -/
def swap_tag (b : Bound) : Bound := ({ b.1 with endian := flip b.1.endian }, b.2)

theorem swap_load_instruction (f : Field) :
    swap_endian (load_instruction f) = load_instruction { f with endian := flip f.endian } := by
  simp only [swap_endian, load_instruction, swap_get_load_opcode]

theorem swap_in_block (next_start fail_label : ℕ) (values : List ℕ) : ∀ idx : ℕ,
    (in_block next_start fail_label idx values).map swap_endian
      = in_block next_start fail_label idx values := by
  induction values with
  | nil => intro idx; rfl
  | cons value rest ih =>
    intro idx
    cases rest with
    | nil => rfl
    | cons value' rest' =>
      rw [in_block, List.map_cons, List.map_cons, List.map_cons, ih (idx + 3)]
      · rfl
      · simp

theorem swap_not_in_block (next_start fail_label : ℕ) (values : List ℕ) : ∀ idx : ℕ,
    (not_in_block next_start fail_label idx values).map swap_endian
      = not_in_block next_start fail_label idx values := by
  induction values with
  | nil => intro idx; rfl
  | cons value rest ih =>
    intro idx
    rw [not_in_block, List.map_cons, List.map_cons, List.map_cons, ih (idx + 3)]
    rfl

/-- Swapping changes loads only. -/
theorem swap_test_block (next_start fail_label idx : ℕ) (cond : FilterCondition) :
    (test_block next_start fail_label idx cond).map swap_endian
      = test_block next_start fail_label idx cond := by
  unfold test_block
  cases hop : cond.op with
  | IN => exact swap_in_block _ _ _ _
  | NOT_IN => exact swap_not_in_block _ _ _ _
  | _ => simp only [comparison_block, comparison_instruction, hop]; rfl

theorem swap_blocks (fail_label : ℕ) (bs : List Bound) : ∀ start : ℕ,
    (blocks fail_label start bs).map swap_endian = blocks fail_label start (bs.map swap_tag) := by
  induction bs with
  | nil => intro start; rfl
  | cons b rest ih =>
    intro start
    rw [blocks, List.map_append, ih, condition_block, List.map_cons, swap_load_instruction,
      swap_test_block]
    rfl

theorem swap_program (bs : List Bound) :
    (program bs).map swap_endian = program (bs.map swap_tag) := by
  have hsize : blocks_size (bs.map swap_tag) = blocks_size bs := by
    rw [blocks_size, List.map_map]
    rfl
  rw [program, List.map_append, swap_blocks, program, hsize]
  rfl

/-- The byte order each field is not tagged with. -/
def untagged : Order := fun f => flip f.endian

theorem direct_reading_swap_tag (packet : Packet) (bs : List Bound) :
    direct_reading tagged (bs.map swap_tag) packet = direct_reading untagged bs packet := by
  induction bs with
  | nil => rfl
  | cons b rest ih =>
    rw [List.map_cons, swap_tag, direct_reading, ih]
    rfl

/-- The swapped program reads every field in the order it is not tagged with. -/
theorem execute_swapped_program (packet : Packet) {bs : List Bound}
    (hops : ∀ b ∈ bs, HasOperands b.2) :
    execute_bytecode packet ((program bs).map swap_endian)
      = direct_reading untagged bs packet := by
  rw [swap_program, execute_program packet, direct_reading_swap_tag]
  intro b hb
  obtain ⟨b', hb', rfl⟩ := List.mem_map.mp hb
  exact hops b' hb'

end RxNetCap.Runtime
