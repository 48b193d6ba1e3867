/-
Matching in a settled byte order, and what happens when the packet grows.

Once the byte order is settled, by the mode or by what was detected, a call
leaves the protocol alone and runs one program of each rule. If all these
programs answer, the call says whether some rule matches (`match_rules_settled`),
whatever the order of the rules and of the offsets.

Two questions are settled with this. Bytes put behind a packet keep a match
(`match_append`): a program that only jumps forward answers on every packet when
its loads do not wrap around, and a run that returns true does so on the longer
packet too, load by load. And a sliding rule of a text matches exactly at the
offsets it is said to try (`sliding_rule_iff`), so that bytes put in front of
the packet keep a match of a rule without a limit.
-/
import RxNetCap.Runtime.Learning

set_option autoImplicit false

namespace RxNetCap.Runtime

open RxNetCap.Pdef RxNetCap.Machine

/-! ## A settled byte order -/

/-- The byte order that the mode fixes, or that was detected. -/
def settled_order (proto : ProtocolDef) : Option EndianType :=
  match proto.endian_mode with
  | .BIG => some .BIG
  | .LITTLE => some .LITTLE
  | .AUTO => if proto.detected_endian = .UNKNOWN then none else some proto.detected_endian

/-- In automatic mode: the order is detected, and not unknown. -/
theorem try_match_settled {proto : ProtocolDef} {d : EndianType}
    (hd : settled_order proto = some d) (packet : Packet) (rule : FilterRule) :
    try_match_with_endian packet rule proto
      = (execute_bytecode packet (code_for d rule), proto) := by
  unfold settled_order at hd
  unfold try_match_with_endian
  cases hmode : proto.endian_mode with
  | BIG =>
    rw [hmode] at hd
    cases hd
    rfl
  | LITTLE =>
    rw [hmode] at hd
    cases hd
    rfl
  | AUTO =>
    rw [hmode] at hd
    cases hdetected : proto.detected_endian with
    | UNKNOWN => simp [hdetected] at hd
    | BIG =>
      simp only [hdetected, reduceCtorEq, if_false, Option.some.injEq] at hd
      subst hd
      rfl
    | LITTLE =>
      simp only [hdetected, reduceCtorEq, if_false, Option.some.injEq] at hd
      subst hd
      rfl

/-- The program answers on the packet. -/
def Answers (packet : Packet) (code : List Instruction) : Prop :=
  ∃ b, execute_bytecode packet code = .returns b

section Settled

variable {proto : ProtocolDef} {d : EndianType} {packet : Packet} {rule : FilterRule}

/-- The offsets of a sliding filter, if the program answers at all of them. -/
theorem match_sliding_settled (hd : settled_order proto = some d)
    (hanswers : ∀ k, Answers (packet.drop k) (code_for d rule)) (n : ℕ) : ∀ offset : ℕ,
    ∃ b, match_sliding packet rule n offset proto = (.returns b, proto) ∧
      (b = true ↔ ∃ k, offset ≤ k ∧ k < offset + n ∧ rule.min_packet_size ≤ packet.len - k ∧
        execute_bytecode (packet.drop k) (code_for d rule) = .returns true) := by
  induction n with
  | zero =>
    intro offset
    refine ⟨false, rfl, iff_of_false Bool.false_ne_true ?_⟩
    rintro ⟨k, hle, hlt, -⟩
    omega
  | succ n ih =>
    intro offset
    rw [match_sliding]
    by_cases hshort : packet.len - offset < rule.min_packet_size
    · -- what is left only gets shorter
      refine ⟨false, if_pos hshort, iff_of_false Bool.false_ne_true ?_⟩
      rintro ⟨k, hle, -, hmin, -⟩
      omega
    rw [if_neg hshort, try_match_settled hd]
    obtain ⟨b, hb⟩ := hanswers offset
    rw [hb]
    cases b with
    | true => exact ⟨true, rfl, iff_of_true rfl ⟨offset, le_rfl, by omega, by omega, hb⟩⟩
    | false =>
      obtain ⟨b', hrest, hiff⟩ := ih (offset + 1)
      refine ⟨b', hrest, hiff.trans ⟨?_, ?_⟩⟩
      · rintro ⟨k, hle, hlt, h⟩
        exact ⟨k, by omega, by omega, h⟩
      · rintro ⟨k, hle, hlt, hmin, h⟩
        have hne : k ≠ offset := by
          rintro rfl
          rw [hb] at h
          cases h
        exact ⟨k, by omega, by omega, hmin, h⟩

/-- A rule whose program answers on every part of the packet says whether it
matches. -/
theorem match_rule_settled (hd : settled_order proto = some d)
    (hanswers : ∀ k, Answers (packet.drop k) (code_for d rule)) :
    ∃ b, match_rule packet rule proto = (.returns b, proto) ∧
      (b = true ↔ RuleMatches d packet rule) := by
  rw [match_rule, RuleMatches]
  by_cases hsliding : rule.sliding_window
  · rw [if_pos hsliding, if_pos hsliding]
    obtain ⟨b, hmatch, hiff⟩ := match_sliding_settled hd hanswers (search_limit packet rule) 0
    refine ⟨b, hmatch, hiff.trans ?_⟩
    simp only [Nat.zero_le, Nat.zero_add, true_and]
  · rw [if_neg hsliding, if_neg hsliding, try_match_settled hd]
    obtain ⟨b, hb⟩ := hanswers 0
    have hdrop : packet.drop 0 = packet := rfl
    rw [hdrop] at hb
    refine ⟨b, by rw [hb], ?_⟩
    rw [hb, ExecResult.returns.injEq]

/-- All rules. -/
theorem match_rules_settled (hd : settled_order proto = some d) (rules : List FilterRule)
    (hanswers : ∀ rule ∈ rules, ∀ k, Answers (packet.drop k) (code_for d rule)) :
    ∃ b, match_rules packet rules proto = (.returns b, proto) ∧
      (b = true ↔ ∃ rule ∈ rules, RuleMatches d packet rule) := by
  induction rules with
  | nil => exact ⟨false, rfl, by simp⟩
  | cons rule rest ih =>
    obtain ⟨b, hrule, hiff⟩ := match_rule_settled hd (hanswers rule List.mem_cons_self)
    rw [match_rules, hrule]
    cases b with
    | true => exact ⟨true, rfl, iff_of_true rfl ⟨rule, List.mem_cons_self, hiff.mp rfl⟩⟩
    | false =>
      obtain ⟨b', hrest, hiff'⟩ := ih fun r hr => hanswers r (List.mem_cons_of_mem _ hr)
      refine ⟨b', hrest, hiff'.trans ?_⟩
      rw [List.exists_mem_cons_iff]
      exact (or_iff_right fun h => absurd (hiff.mpr h) Bool.false_ne_true).symm

end Settled

/-! ### A match, whether or not all programs answer -/

theorem orElse_true {m : Match} {next : ProtocolDef → Match}
    (h : (m.orElse next).1 = .returns true) :
    m.1 = .returns true ∨ (next m.2).1 = .returns true := by
  obtain ⟨r, proto⟩ := m
  unfold Match.orElse at h
  split at h
  · next heq =>
    cases heq
    exact .inr h
  · exact .inl h

section Sound

variable {proto : ProtocolDef} {d : EndianType} {packet : Packet} {rule : FilterRule}

theorem match_sliding_sound (hd : settled_order proto = some d) (n : ℕ) : ∀ offset : ℕ,
    (match_sliding packet rule n offset proto).1 = .returns true →
      ∃ k, offset ≤ k ∧ k < offset + n ∧ rule.min_packet_size ≤ packet.len - k ∧
        execute_bytecode (packet.drop k) (code_for d rule) = .returns true := by
  induction n with
  | zero => intro offset h; cases h
  | succ n ih =>
    intro offset h
    rw [match_sliding] at h
    by_cases hshort : packet.len - offset < rule.min_packet_size
    · rw [if_pos hshort] at h
      cases h
    rw [if_neg hshort, try_match_settled hd] at h
    rcases orElse_true h with hhere | hlater
    · exact ⟨offset, le_rfl, by omega, by omega, hhere⟩
    · obtain ⟨k, hle, hlt, hk⟩ := ih (offset + 1) hlater
      exact ⟨k, by omega, by omega, hk⟩

theorem match_rule_sound (hd : settled_order proto = some d)
    (h : (match_rule packet rule proto).1 = .returns true) : RuleMatches d packet rule := by
  rw [match_rule] at h
  rw [RuleMatches]
  by_cases hsliding : rule.sliding_window
  · rw [if_pos hsliding] at h ⊢
    obtain ⟨k, -, hlt, hk⟩ := match_sliding_sound hd _ 0 h
    exact ⟨k, by omega, hk⟩
  · rw [if_neg hsliding] at h ⊢
    rwa [try_match_settled hd] at h

end Sound

/-! ## Programs that only jump forward -/

/-- The loads of the program end below `2 ^ 32` in any case. -/
def LoadsLow (code : List Instruction) : Prop :=
  ∀ ins ∈ code, (load_op ins.opcode).isSome → ins.offset < 2 ^ 32 - 8

/-- The block, standing at index `start`, only jumps forward. -/
def ForwardFrom (start : ℕ) (block : List Instruction) : Prop :=
  ∀ k ins, block[k]? = some ins → ins.opcode = .JUMP_IF_FALSE ∨ ins.opcode = .JUMP →
    start + k < ins.jump_target

/-- Every jump of the program goes forward. -/
abbrev JumpsForward (code : List Instruction) : Prop := ForwardFrom 0 code

section Programs

variable {packet : Packet} {code : List Instruction} {vm vm' : Vm}

theorem load_width_le {op : OpCode} {w : ℕ} {read : List UInt8 → ℕ → ℕ}
    (h : load_op op = some (w, read)) : w ≤ 8 := by
  cases op <;> cases h <;> decide

theorem exec_instruction_load {n w : ℕ} {read : List UInt8 → ℕ → ℕ} {ins : Instruction}
    (h : load_op ins.opcode = some (w, read)) :
    exec_instruction packet n ins vm = exec_load packet ins.offset w read vm := by
  simp only [exec_instruction, h]

/-- Only loads look at the packet. -/
theorem exec_instruction_other {n : ℕ} {ins : Instruction} (h : load_op ins.opcode = none)
    (packet packet' : Packet) :
    exec_instruction packet n ins vm = exec_instruction packet' n ins vm := by
  simp only [exec_instruction, h]
  cases cmp_op ins.opcode <;> rfl

/-- What an instruction that is no load does: the next one, a jump inside the
program, or an answer. -/
theorem exec_other_cases {n : ℕ} {ins : Instruction} (h : load_op ins.opcode = none)
    (packet : Packet) (vm : Vm) :
    (∃ flag, exec_instruction packet n ins vm
        = .next { vm with ip := vm.ip + 1, cmp_result := flag }) ∨
      ((ins.opcode = .JUMP_IF_FALSE ∨ ins.opcode = .JUMP) ∧ ins.jump_target < n ∧
        exec_instruction packet n ins vm = .next { vm with ip := ins.jump_target }) ∨
      ∃ b, exec_instruction packet n ins vm = .done (.returns b) := by
  cases hcmp : cmp_op ins.opcode with
  | some test =>
    refine .inl ⟨test vm.acc ins.operand ins.operand2, ?_⟩
    simp only [exec_instruction, h, hcmp]
  | none =>
    have hjump : exec_jump n ins.jump_target vm = .done (.returns false) ∨
        ins.jump_target < n ∧ exec_jump n ins.jump_target vm = .next { vm with ip := ins.jump_target } := by
      unfold exec_jump
      by_cases hout : ins.jump_target ≥ n
      · exact .inl (if_pos hout)
      · exact .inr ⟨not_le.mp hout, if_neg hout⟩
    simp only [exec_instruction, h, hcmp]
    cases hop : ins.opcode
    case JUMP_IF_FALSE =>
      by_cases hflag : vm.cmp_result
      · exact .inl ⟨vm.cmp_result, if_pos hflag⟩
      · simp only [if_neg hflag]
        rcases hjump with hout | ⟨hin, hgo⟩
        · exact .inr (.inr ⟨false, hout⟩)
        · exact .inr (.inl ⟨.inl trivial, hin, hgo⟩)
    case JUMP =>
      rcases hjump with hout | ⟨hin, hgo⟩
      · exact .inr (.inr ⟨false, hout⟩)
      · exact .inr (.inl ⟨.inr rfl, hin, hgo⟩)
    case RETURN_TRUE => exact .inr (.inr ⟨true, rfl⟩)
    all_goals exact .inr (.inr ⟨false, rfl⟩)

/-- A load that does not wrap around. -/
theorem exec_load_low {o w : ℕ} (h : o + w < 2 ^ 32) (read : List UInt8 → ℕ → ℕ) :
    exec_load packet o w read vm =
      if o + w > packet.len then .done (.returns false)
      else .next { vm with ip := vm.ip + 1, acc := read packet.bytes o } := by
  rw [exec_load, u32_of_lt h]
  by_cases hout : o + w > packet.len
  · rw [if_pos hout, if_pos hout]
  · rw [if_neg hout, if_neg hout, if_neg hout]

theorem LoadsLow.end_lt (h : LoadsLow code) {i w : ℕ} {ins : Instruction}
    {read : List UInt8 → ℕ → ℕ} (hins : code[i]? = some ins)
    (hload : load_op ins.opcode = some (w, read)) : ins.offset + w < 2 ^ 32 := by
  have hoffset := h ins (List.mem_of_getElem? hins) (by rw [hload]; rfl)
  have hw := load_width_le hload
  omega

/-- One turn of a program whose loads do not wrap: on to a later state, or to an
answer. -/
theorem exec_turn_forward (hlow : LoadsLow code) (hforward : JumpsForward code) (packet : Packet)
    (vm : Vm) :
    (∃ vm', exec_turn packet code vm = .next vm' ∧ vm.ip < vm'.ip ∧ vm.ip < code.length) ∨
      ∃ b, exec_turn packet code vm = .done (.returns b) := by
  cases hins : code[vm.ip]? with
  | none => exact .inr ⟨false, by simp only [exec_turn, hins]⟩
  | some ins =>
    have hinside := (List.getElem?_eq_some_iff.mp hins).1
    rw [exec_turn_at hins]
    cases hload : load_op ins.opcode with
    | some access =>
      obtain ⟨w, read⟩ := access
      rw [exec_instruction_load hload, exec_load_low (hlow.end_lt hins hload)]
      by_cases hout : ins.offset + w > packet.len
      · exact .inr ⟨false, if_pos hout⟩
      · exact .inl ⟨_, if_neg hout, Nat.lt_succ_self _, hinside⟩
    | none =>
      rcases exec_other_cases hload packet vm with ⟨flag, h⟩ | ⟨hjump, -, h⟩ | ⟨b, h⟩
      · exact .inl ⟨_, h, Nat.lt_succ_self _, hinside⟩
      · have hahead := hforward vm.ip ins hins hjump
        rw [Nat.zero_add] at hahead
        exact .inl ⟨_, h, hahead, hinside⟩
      · exact .inr ⟨b, h⟩

/-- Such a program answers on every packet. -/
theorem answers_of_forward (hlow : LoadsLow code) (hforward : JumpsForward code)
    (packet : Packet) : Answers packet code := by
  have hturn := exec_turn_forward hlow hforward packet
  obtain ⟨r, hrun⟩ : ∃ r, run (exec_turn packet code) (code.length + 1) {} = some r := by
    have hstart : code.length - ({} : Vm).ip < code.length + 1 := by omega
    refine run_ends ?_ ?_ hstart
    · intro vm vm' hnext
      rcases hturn vm with ⟨vm'', h, hlt, -⟩ | ⟨b, h⟩
      · rw [hnext] at h
        cases h
        exact hlt
      · rw [hnext] at h
        cases h
    · intro vm vm' hnext
      rcases hturn vm with ⟨vm'', -, -, hlt⟩ | ⟨b, h⟩
      · exact hlt
      · rw [hnext] at h
        cases h
  obtain ⟨vm, hdone⟩ := run_some hrun
  obtain ⟨b, rfl⟩ : ∃ b, r = .returns b := by
    rcases hturn vm with ⟨vm', h, -⟩ | ⟨b, h⟩
    · rw [hdone] at h
      cases h
    · rw [hdone] at h
      cases h
      exact ⟨b, rfl⟩
  by_cases hnil : code.length = 0
  · exact ⟨false, if_pos hnil⟩
  · refine ⟨b, ?_⟩
    rw [execute_bytecode, if_neg hnil, exec_loop, hrun]
    rfl

end Programs

/-! ## The programs of a text -/

section Blocks

variable {block block' : List Instruction} {limit start : ℕ} {ins : Instruction}

/-- Every jump of the block, standing at index `start`, goes forward and to
`limit` at most. -/
def JumpsAhead (limit start : ℕ) (block : List Instruction) : Prop :=
  ∀ k ins, block[k]? = some ins → ins.opcode = .JUMP_IF_FALSE ∨ ins.opcode = .JUMP →
    start + k < ins.jump_target ∧ ins.jump_target ≤ limit

theorem JumpsAhead.nil (limit start : ℕ) : JumpsAhead limit start [] := by
  intro k ins h
  cases h

theorem JumpsAhead.cons (h : ins.opcode = .JUMP_IF_FALSE ∨ ins.opcode = .JUMP →
    start < ins.jump_target ∧ ins.jump_target ≤ limit) (hrest : JumpsAhead limit (start + 1) block) :
    JumpsAhead limit start (ins :: block) := by
  intro k ins' hk hjump
  cases k with
  | zero =>
    cases hk
    exact h hjump
  | succ k =>
    have hahead := hrest k ins' hk hjump
    omega

theorem JumpsAhead.append (h : JumpsAhead limit start block)
    (h' : JumpsAhead limit (start + block.length) block') :
    JumpsAhead limit start (block ++ block') := by
  intro k ins hk hjump
  by_cases hlt : k < block.length
  · rw [List.getElem?_append_left hlt] at hk
    exact h k ins hk hjump
  · rw [List.getElem?_append_right (by omega)] at hk
    have hahead := h' (k - block.length) ins hk hjump
    omega

/-- An instruction that is no jump. -/
theorem not_jump {P : Prop} (h : ins.opcode ≠ .JUMP_IF_FALSE ∧ ins.opcode ≠ .JUMP) :
    ins.opcode = .JUMP_IF_FALSE ∨ ins.opcode = .JUMP → P := by
  rintro (hjump | hjump)
  · exact absurd hjump h.1
  · exact absurd hjump h.2

theorem in_block_jumps {next_start fail_label : ℕ} (hlabel : next_start ≤ fail_label)
    (values : List ℕ) : ∀ idx : ℕ,
    idx + (in_block next_start fail_label idx values).length ≤ next_start →
    JumpsAhead fail_label idx (in_block next_start fail_label idx values) := by
  induction values with
  | nil => intro idx _; exact .nil _ idx
  | cons value rest ih =>
    intro idx hend
    cases rest with
    | nil =>
      simp only [in_block, List.length_cons, List.length_nil] at hend
      exact .cons (not_jump (by simp)) (.cons (fun _ => by simp only; omega) (.nil _ _))
    | cons value' rest' =>
      simp only [in_block, List.length_cons] at hend
      refine .cons (not_jump (by simp)) (.cons (fun _ => by simp only; omega)
        (.cons (fun _ => by simp only; omega) ?_))
      exact ih (idx + 3) (by omega)

theorem not_in_block_jumps {next_start fail_label : ℕ} (hlabel : next_start ≤ fail_label)
    (values : List ℕ) : ∀ idx : ℕ,
    idx + (not_in_block next_start fail_label idx values).length ≤ next_start →
    JumpsAhead fail_label idx (not_in_block next_start fail_label idx values) := by
  induction values with
  | nil => intro idx _; exact .nil _ idx
  | cons value rest ih =>
    intro idx hend
    simp only [not_in_block, List.length_cons] at hend
    refine .cons (not_jump (by simp)) (.cons (fun _ => ?_) (.cons (fun _ => by simp only; omega) ?_))
    · simp only
      split <;> omega
    · exact ih (idx + 3) (by omega)

theorem test_block_jumps {next_start fail_label idx : ℕ} {cond : FilterCondition}
    (hlabel : next_start ≤ fail_label)
    (hend : idx + (test_block next_start fail_label idx cond).length ≤ next_start) :
    JumpsAhead fail_label idx (test_block next_start fail_label idx cond) := by
  unfold test_block at hend ⊢
  cases hop : cond.op with
  | IN =>
    rw [hop] at hend
    exact in_block_jumps hlabel _ idx hend
  | NOT_IN =>
    rw [hop] at hend
    exact not_in_block_jumps hlabel _ idx hend
  | _ =>
    rw [hop] at hend
    simp only [comparison_block, List.length_cons, List.length_nil] at hend
    refine .cons (not_jump ?_) (.cons (fun _ => by simp only; omega) (.nil _ _))
    simp [comparison_instruction, hop, get_cmp_opcode]

theorem load_not_jump (f : Field) : (load_instruction f).opcode ≠ .JUMP_IF_FALSE ∧
    (load_instruction f).opcode ≠ .JUMP := by
  obtain ⟨read, hload, -⟩ := load_reads f
  constructor
  all_goals
    intro h
    change get_load_opcode f = _ at h
    rw [h] at hload
    cases hload

theorem blocks_jumps {fail_label : ℕ} (bs : List Bound) : ∀ start : ℕ,
    (∀ b ∈ bs, HasOperands b.2) → start + blocks_size bs ≤ fail_label →
    JumpsAhead fail_label start (blocks fail_label start bs) := by
  induction bs with
  | nil => intro start _ _; exact .nil _ start
  | cons b rest ih =>
    intro start hops hend
    rw [blocks_size_cons] at hend
    have hlen := condition_block_length (start + block_size b.2) fail_label start
      (hops b List.mem_cons_self)
    rw [blocks]
    refine .append ?_ ?_
    · refine .cons (not_jump (load_not_jump b.1)) (test_block_jumps (by omega) ?_)
      rw [condition_block, List.length_cons] at hlen
      omega
    · rw [hlen]
      exact ih _ (fun c hc => hops c (List.mem_cons_of_mem _ hc)) (by omega)

/-- Every jump of a program goes forward, and inside it. -/
theorem program_jumps {bs : List Bound} (hops : ∀ b ∈ bs, HasOperands b.2) :
    JumpsAhead (blocks_size bs + 1) 0 (program bs) := by
  refine .append (blocks_jumps bs 0 hops (by omega)) ?_
  exact .cons (not_jump (by simp)) (.cons (not_jump (by simp)) (.nil _ _))

theorem program_forward {bs : List Bound} (hops : ∀ b ∈ bs, HasOperands b.2) :
    JumpsForward (program bs) := fun k ins hk hjump => (program_jumps hops k ins hk hjump).1

end Blocks

/-- The program of a compiled rule for either byte order is the program of some
conditions. -/
theorem code_for_program {structs : List StructDef} {temp_rule : TempFilterRule}
    {s : StructDef} {bs : List Bound} {rule : FilterRule}
    (h : CompiledTo structs temp_rule s bs rule) (d : EndianType) :
    ∃ bs', code_for d rule = program bs' ∧ ∀ b ∈ bs', HasOperands b.2 := by
  have hbig : code_be rule = program bs := by
    rw [code_be, h.code_be, ite_self, h.code]
  have hlittle : code_le rule = program (bs.map swap_tag) := by
    have hne : rule.bytecode_le.elems.length ≠ 0 := by
      rw [h.code_le, List.length_map]
      exact program_ne_nil bs
    rw [code_le, if_neg hne, h.code_le, swap_program]
  cases d with
  | UNKNOWN => exact ⟨bs, hbig, h.operands⟩
  | BIG => exact ⟨bs, hbig, h.operands⟩
  | LITTLE =>
    refine ⟨_, hlittle, ?_⟩
    intro b hb
    obtain ⟨b', hb', rfl⟩ := List.mem_map.mp hb
    exact h.operands b' hb'

/-- A rule of an accepted text is compiled from one of its filters. -/
theorem compiled_of_mem {source : List Char} {proto : ProtocolDef} {rule : FilterRule}
    (h : (pdef_parse_string source).1 = .accepted proto) (hrule : rule ∈ rules_of proto) :
    ∃ temp_rule s bs, CompiledTo (structs_of proto) temp_rule s bs rule := by
  have hfilters := (accepted_of h).filters
  obtain ⟨j, hj, hget⟩ := List.mem_iff_getElem.mp hrule
  have hlen := hfilters.length_eq
  have hj' : j < (source_filters source).length := by omega
  obtain ⟨s, bs, hto⟩ := hfilters.get hj' hj
  rw [List.get_eq_getElem, List.get_eq_getElem, hget] at hto
  exact ⟨_, s, bs, hto⟩

/-- **The compiler only makes jumps forward.** -/
theorem accepted_jumps_forward {source : List Char} {proto : ProtocolDef}
    (h : (pdef_parse_string source).1 = .accepted proto) (d : EndianType) :
    ∀ rule ∈ rules_of proto, JumpsForward (code_for d rule) := by
  intro rule hrule
  obtain ⟨temp_rule, s, bs, hto⟩ := compiled_of_mem h hrule
  obtain ⟨bs', hcode, hops⟩ := code_for_program hto d
  rw [hcode]
  exact program_forward hops

/-! ## Bytes behind the packet -/

/-- The packet with the bytes `q` behind it. -/
def Packet.append (p : Packet) (q : List UInt8) (h : p.len + q.length < 2 ^ 32) : Packet where
  bytes := p.bytes ++ q
  length_lt := by
    rw [List.length_append]
    exact h

section Append

variable {p : Packet} {q : List UInt8} (hlen : p.len + q.length < 2 ^ 32)

@[simp] theorem Packet.len_append : (p.append q hlen).len = p.len + q.length := List.length_append

theorem bytes_from_append {data q : List UInt8} (w : ℕ) : ∀ o : ℕ, o + w ≤ data.length →
    bytes_from (data ++ q) o w = bytes_from data o w := by
  induction w with
  | zero => intro o _; rfl
  | succ w ih =>
    intro o h
    rw [bytes_from, bytes_from, ih (o + 1) (by omega), byte_at, byte_at,
      List.getD_append _ _ _ _ (by omega)]

/-- A load inside the packet reads the same. -/
theorem load_append {op : OpCode} {w o : ℕ} {read : List UInt8 → ℕ → ℕ}
    (hload : load_op op = some (w, read)) (hin : o + w ≤ p.len) :
    read (p.append q hlen).bytes o = read p.bytes o := by
  obtain ⟨value, -, -, hread, -⟩ := load_op_bytes hload
  rw [hread, hread]
  exact congrArg value (bytes_from_append w o hin)

/-- A turn that goes on, or returns true, does so on the longer packet. -/
theorem exec_turn_append {code : List Instruction} (hlow : LoadsLow code) {vm : Vm} :
    (∀ vm', exec_turn p code vm = .next vm' → exec_turn (p.append q hlen) code vm = .next vm') ∧
      ∀ r, exec_turn p code vm = .done r → r = .returns true →
        exec_turn (p.append q hlen) code vm = .done r := by
  cases hins : code[vm.ip]? with
  | none =>
    have hturn (packet : Packet) : exec_turn packet code vm = .done (.returns false) := by
      simp only [exec_turn, hins]
    rw [hturn, hturn]
    exact ⟨fun _ h => h, fun _ h _ => h⟩
  | some ins =>
    rw [exec_turn_at hins, exec_turn_at hins]
    cases hload : load_op ins.opcode with
    | none =>
      rw [exec_instruction_other hload p (p.append q hlen)]
      exact ⟨fun _ h => h, fun _ h _ => h⟩
    | some access =>
      obtain ⟨w, read⟩ := access
      have hend := hlow.end_lt hins hload
      rw [exec_instruction_load hload, exec_instruction_load hload, exec_load_low hend,
        exec_load_low hend, Packet.len_append]
      by_cases hout : ins.offset + w > p.len
      · rw [if_pos hout]
        refine ⟨(fun vm' hnext => by cases hnext), ?_⟩
        rintro r hr rfl
        cases hr
      · rw [if_neg hout, if_neg (by omega), load_append hlen hload (not_lt.mp hout)]
        exact ⟨fun _ h => h, fun _ h _ => h⟩

theorem execute_bytecode_append {code : List Instruction} (hlow : LoadsLow code)
    (h : execute_bytecode p code = .returns true) :
    execute_bytecode (p.append q hlen) code = .returns true := by
  rw [execute_bytecode] at h ⊢
  by_cases hnil : code.length = 0
  · rw [if_pos hnil] at h
    cases h
  rw [if_neg hnil, exec_loop] at h ⊢
  cases hrun : run (exec_turn p code) (code.length + 1) {} with
  | none =>
    rw [hrun] at h
    cases h
  | some r =>
    rw [hrun] at h
    have hr : r = .returns true := h
    rw [run_kept (fun vm => (exec_turn_append hlen hlow).1)
      (fun vm => (exec_turn_append hlen hlow).2) hr hrun]
    exact hr

/-- A longer packet is tried at every offset that the shorter one is tried at. -/
theorem search_limit_append (rule : FilterRule) :
    search_limit p rule ≤ search_limit (p.append q hlen) rule := by
  unfold search_limit
  rw [Packet.len_append]
  split <;> split <;> omega

theorem drop_append {offset : ℕ} (h : offset ≤ p.len) :
    ∃ hlen', (p.append q hlen).drop offset = (p.drop offset).append q hlen' := by
  refine ⟨by rw [Packet.len_drop]; omega, ?_⟩
  exact (Packet.mk.injEq _ _ _ _).mpr (List.drop_append_of_le_length h)

theorem ruleMatches_append {d : EndianType} {rule : FilterRule} (hlow : LoadsLow (code_for d rule))
    (h : RuleMatches d p rule) : RuleMatches d (p.append q hlen) rule := by
  rw [RuleMatches] at h ⊢
  by_cases hsliding : rule.sliding_window
  · rw [if_pos hsliding] at h ⊢
    obtain ⟨offset, hlt, hmin, hexec⟩ := h
    have hlimit := search_limit_append hlen rule
    have hinside : offset ≤ p.len := by
      unfold search_limit at hlt
      split at hlt <;> omega
    obtain ⟨hlen', hdrop⟩ := drop_append hlen hinside
    refine ⟨offset, by omega, ?_, ?_⟩
    · rw [Packet.len_append]
      omega
    · rw [hdrop]
      exact execute_bytecode_append hlen' hlow hexec
  · rw [if_neg hsliding] at h ⊢
    exact execute_bytecode_append hlen hlow h

/-- **Matching is monotone in the packet.** In a settled byte order, with rules
whose programs load below `2 ^ 32 - 8` and jump forward, as those of a text do
(`accepted_jumps_forward`), a packet that is accepted is accepted with any bytes
behind it. -/
theorem match_append {proto : ProtocolDef} {d : EndianType} (hd : settled_order proto = some d)
    (hlow : ∀ rule ∈ rules_of proto, LoadsLow (code_for d rule))
    (hforward : ∀ rule ∈ rules_of proto, JumpsForward (code_for d rule)) (port : ℕ)
    (h : (packet_filter_match p port proto).1 = .returns true) :
    (packet_filter_match (p.append q hlen) port proto).1 = .returns true := by
  have hanswers (packet : Packet) : ∀ rule ∈ rules_of proto, ∀ k,
      Answers (packet.drop k) (code_for d rule) := fun rule hrule k =>
    answers_of_forward (hlow rule hrule) (hforward rule hrule) _
  obtain ⟨b, hmatch, hiff⟩ := match_rules_settled hd (rules_of proto) (hanswers p)
  obtain ⟨b', hmatch', hiff'⟩ :=
    match_rules_settled hd (rules_of proto) (hanswers (p.append q hlen))
  rw [packet_filter_match, hmatch, ExecResult.returns.injEq] at h
  obtain ⟨rule, hrule, hmatches⟩ := hiff.mp h
  have hb' : b' = true := hiff'.mpr ⟨rule, hrule, ruleMatches_append hlen (hlow rule hrule) hmatches⟩
  rw [packet_filter_match, hmatch', hb']

end Append

/-- A text with a plain and a sliding filter. -/
def sliding_text : List Char :=
  ("@protocol { endian = big } H { uint8 x; uint16 y; } @filter f { x = 2; } "
    ++ "@filter g { sliding = true; x = 1; y = 7; }").toList

instance (code : List Instruction) : Decidable (LoadsLow code) :=
  inferInstanceAs (Decidable (∀ ins ∈ code, _))

set_option maxRecDepth 100000 in
theorem sliding_text_accepts : ∃ proto ∈ (pdef_parse_string sliding_text).1.protocol?,
    settled_order proto = some .BIG ∧
      (∀ rule ∈ rules_of proto, LoadsLow (code_for .BIG rule)) ∧
      (packet_filter_match ⟨[9, 1, 0, 7], by decide⟩ 0 proto).1 = .returns true := by
  decide +kernel

/-- The sliding filter finds its bytes with others behind them. -/
theorem sliding_text_append : ∃ proto : ProtocolDef,
    (packet_filter_match (Packet.append ⟨[9, 1, 0, 7], by decide⟩ [5, 5] (by decide)) 0 proto).1
      = .returns true := by
  obtain ⟨proto, hproto, hd, hlow, hmatch⟩ := sliding_text_accepts
  have h := ParseResult.protocol?_eq_some.mp hproto
  exact ⟨proto, match_append (by decide) hd hlow (accepted_jumps_forward h .BIG) 0 hmatch⟩

/-! ## The offsets of a sliding rule -/

/-- A compiled program that is true of one packet answers on all: none of its
fields wraps around. -/
theorem answers_of_true {structs : List StructDef} {temp_rule : TempFilterRule}
    {s : StructDef} {bs : List Bound} {rule : FilterRule}
    (h : CompiledTo structs temp_rule s bs rule) {d : EndianType} {p : Packet}
    (htrue : execute_bytecode p (code_for d rule) = .returns true) (packet : Packet) :
    Answers packet (code_for d rule) := by
  have hfits : ∀ b ∈ bs, Fits b.1 := fun b hb =>
    lt_of_le_of_lt (allHold_of_code_for h htrue b hb).1 p.len_lt
  exact ⟨_, (execute_code_for h d packet).trans (direct_reading_of_fits packet hfits)⟩

theorem sliding_compiled_iff {structs : List StructDef} {temp_rule : TempFilterRule}
    {s : StructDef} {bs : List Bound} {rule : FilterRule}
    (h : CompiledTo structs temp_rule s bs rule) (hsliding : rule.sliding_window = true)
    {proto : ProtocolDef} {d : EndianType} (hd : settled_order proto = some d) (packet : Packet) :
    (match_rule packet rule proto).1 = .returns true ↔ RuleMatches d packet rule := by
  constructor
  · exact match_rule_sound hd
  · intro hmatches
    have hoffset := hmatches
    rw [RuleMatches, if_pos hsliding] at hoffset
    obtain ⟨offset, -, -, htrue⟩ := hoffset
    have hanswers (k : ℕ) : Answers (packet.drop k) (code_for d rule) := answers_of_true h htrue _
    obtain ⟨b, hmatch, hiff⟩ := match_rule_settled hd hanswers
    rw [hmatch, hiff.mpr hmatches]

/-- The packet with the bytes `front` in front of it. -/
def Packet.prepend (front : List UInt8) (p : Packet) (h : front.length + p.len < 2 ^ 32) :
    Packet where
  bytes := front ++ p.bytes
  length_lt := by
    rw [List.length_append]
    exact h

@[simp] theorem Packet.len_prepend {front : List UInt8} {p : Packet}
    (h : front.length + p.len < 2 ^ 32) : (p.prepend front h).len = front.length + p.len :=
  List.length_append

theorem drop_prepend {front : List UInt8} {p : Packet} (h : front.length + p.len < 2 ^ 32)
    (offset : ℕ) : (p.prepend front h).drop (front.length + offset) = p.drop offset :=
  (Packet.mk.injEq _ _ _ _).mpr (List.drop_length_add_append _)

/-- The offsets a sliding rule tries. -/
theorem lt_search_limit_iff {packet : Packet} {rule : FilterRule} {offset : ℕ} :
    offset < search_limit packet rule ↔ offset < packet.len ∧
      (0 < rule.sliding_max_offset ∧ rule.sliding_max_offset < packet.len →
        offset < rule.sliding_max_offset) := by
  unfold search_limit
  split <;> omega

/-- **When a sliding rule matches.** In a settled byte order, a sliding rule of
a text matches exactly if its program is true of what is left of the packet from
some offset below the limit, with as many bytes left as the struct has. So
without a limit a match is kept when bytes are put in front of the packet. -/
theorem sliding_rule_iff {source : List Char} {accepted : ProtocolDef} {rule : FilterRule}
    (h : (pdef_parse_string source).1 = .accepted accepted) (hrule : rule ∈ rules_of accepted)
    (hsliding : rule.sliding_window = true) {proto : ProtocolDef} {d : EndianType}
    (hd : settled_order proto = some d) (packet : Packet) :
    ((match_rule packet rule proto).1 = .returns true ↔
      ∃ offset < packet.len,
        (0 < rule.sliding_max_offset ∧ rule.sliding_max_offset < packet.len →
          offset < rule.sliding_max_offset) ∧
        rule.min_packet_size ≤ packet.len - offset ∧
        execute_bytecode (packet.drop offset) (code_for d rule) = .returns true) ∧
      (rule.sliding_max_offset = 0 →
        ∀ (front : List UInt8) (hlen : front.length + packet.len < 2 ^ 32),
        (match_rule packet rule proto).1 = .returns true →
        (match_rule (packet.prepend front hlen) rule proto).1 = .returns true) := by
  obtain ⟨temp_rule, s, bs, hto⟩ := compiled_of_mem h hrule
  have hiff (packet : Packet) := sliding_compiled_iff hto hsliding hd packet
  simp only [RuleMatches, if_pos hsliding, lt_search_limit_iff, and_assoc] at hiff
  refine ⟨hiff packet, ?_⟩
  intro hmax front hlen hmatch
  obtain ⟨offset, hlt, -, hmin, hexec⟩ := (hiff packet).mp hmatch
  refine (hiff _).mpr ⟨front.length + offset, ?_, ?_, ?_, ?_⟩
  · rw [Packet.len_prepend]
    omega
  · omega
  · rw [Packet.len_prepend]
    omega
  · rw [drop_prepend]
    exact hexec

set_option maxRecDepth 100000 in
theorem sliding_text_slides : ∃ proto ∈ (pdef_parse_string sliding_text).1.protocol?,
    settled_order proto = some .BIG ∧ ∃ rule ∈ rules_of proto, rule.sliding_window = true ∧
      rule.sliding_max_offset = 0 ∧
      (match_rule ⟨[9, 1, 0, 7], by decide⟩ rule proto).1 = .returns true := by
  decide +kernel

/-- The sliding filter of `sliding_text` finds its bytes with others in front of
them. -/
theorem sliding_text_prepend : ∃ (proto : ProtocolDef) (rule : FilterRule),
    rule.sliding_window = true ∧
      (match_rule (Packet.prepend [8] ⟨[9, 1, 0, 7], by decide⟩ (by decide)) rule proto).1
        = .returns true := by
  obtain ⟨proto, hproto, hd, rule, hrule, hsliding, hmax, hmatch⟩ := sliding_text_slides
  have h := ParseResult.protocol?_eq_some.mp hproto
  exact ⟨proto, rule, hsliding, (sliding_rule_iff h hrule hsliding hd _).2 hmax _ _ hmatch⟩

end RxNetCap.Runtime
