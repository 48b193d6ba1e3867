/-
The two programs of a rule are mirror images.

A load and its swapped load make the same value of bytes in opposite order
(`load_op_bytes`), and swapping leaves every other instruction alone. So a
program on a packet and the swapped program on the packet with its loaded
fields reversed take the same turns, one by one (`exec_turn_mirrored`), for any
program; and `swap_endian` undoes itself.

Reversing the fields makes sense where no two of them overlap: then there is
such a packet (`mirror_mirrored`).
-/
import RxNetCap.Runtime.Sliding

set_option autoImplicit false

namespace RxNetCap.Runtime

open RxNetCap.Pdef RxNetCap.Machine

/-! ## Swapping -/

@[simp] theorem swap_endian_opcode_twice (op : OpCode) :
    swap_endian_opcode (swap_endian_opcode op) = op := by cases op <;> rfl

@[simp] theorem swap_endian_twice (ins : Instruction) : swap_endian (swap_endian ins) = ins := by
  rw [swap_endian, swap_endian, swap_endian_opcode_twice]

/-- Swapping changes loads only. -/
theorem swap_endian_other {ins : Instruction} (h : load_op ins.opcode = none) :
    swap_endian ins = ins := by
  obtain ⟨op, offset, operand, operand2, jump_target⟩ := ins
  rw [swap_endian, Instruction.mk.injEq]
  refine ⟨?_, rfl, rfl, rfl, rfl⟩
  cases op <;> first | rfl | cases h

/-! ## Packets with their fields reversed -/

/-- The places a program loads from, with their widths. -/
def loads (code : List Instruction) : List (ℕ × ℕ) :=
  code.filterMap fun ins => (load_op ins.opcode).map fun access => (ins.offset, access.1)

theorem mem_loads {code : List Instruction} {ins : Instruction} {w : ℕ}
    {read : List UInt8 → ℕ → ℕ} (hins : ins ∈ code) (h : load_op ins.opcode = some (w, read)) :
    (ins.offset, w) ∈ loads code :=
  List.mem_filterMap.mpr ⟨ins, hins, by rw [h]; rfl⟩

/-- `p'` is `p` with the bytes of each place inside it reversed, and the others
left. -/
structure Mirrored (places : List (ℕ × ℕ)) (p p' : Packet) : Prop where
  len : p'.len = p.len
  reversed : ∀ l ∈ places, l.1 + l.2 ≤ p.len →
    (p'.bytes.drop l.1).take l.2 = ((p.bytes.drop l.1).take l.2).reverse
  rest : ∀ i, (∀ l ∈ places, l.1 + l.2 ≤ p.len → ¬ (l.1 ≤ i ∧ i < l.1 + l.2)) →
    p'.bytes[i]? = p.bytes[i]?

section Mirrored

variable {p p' : Packet} {code : List Instruction}

theorem Mirrored.bytes_from {places : List (ℕ × ℕ)} (h : Mirrored places p p') {o w : ℕ}
    (hl : (o, w) ∈ places) (hin : o + w ≤ p.len) :
    bytes_from p'.bytes o w = (bytes_from p.bytes o w).reverse := by
  have hin' : o + w ≤ p'.bytes.length := le_of_le_of_eq hin h.len.symm
  rw [← take_drop_eq_bytes_from _ _ _ hin', ← take_drop_eq_bytes_from _ _ _ hin,
    h.reversed _ hl hin, List.map_reverse]

/-- **The programs take the same turns.** -/
theorem exec_turn_mirrored (h : Mirrored (loads code) p p') (vm : Vm) :
    exec_turn p code vm = exec_turn p' (code.map swap_endian) vm := by
  cases hins : code[vm.ip]? with
  | none =>
    have hins' : (code.map swap_endian)[vm.ip]? = none := by rw [List.getElem?_map, hins]; rfl
    simp only [exec_turn, hins, hins']
  | some ins =>
    have hins' : (code.map swap_endian)[vm.ip]? = some (swap_endian ins) := by
      rw [List.getElem?_map, hins]
      rfl
    rw [exec_turn_at hins, exec_turn_at hins', List.length_map]
    cases hload : load_op ins.opcode with
    | none =>
      rw [swap_endian_other hload]
      exact exec_instruction_other hload p p'
    | some access =>
      obtain ⟨w, read⟩ := access
      obtain ⟨value, read', hload', hread, hread'⟩ := load_op_bytes hload
      rw [exec_instruction_load hload, exec_instruction_load (show
        load_op (swap_endian ins).opcode = some (w, read') from hload')]
      have hoffset : (swap_endian ins).offset = ins.offset := rfl
      rw [exec_load, exec_load, hoffset, h.len]
      by_cases hend : u32 (ins.offset + w) > p.len
      · rw [if_pos hend, if_pos hend]
      rw [if_neg hend, if_neg hend]
      by_cases hout : ins.offset + w > p.len
      · rw [if_pos hout, if_pos hout]
      · -- the one reads the bytes forward, the other backward
        have hbytes := h.bytes_from (mem_loads (List.mem_of_getElem? hins) hload) (not_lt.mp hout)
        rw [if_neg hout, if_neg hout, hread, hread', hbytes, List.reverse_reverse]

theorem execute_bytecode_mirrored (h : Mirrored (loads code) p p') :
    execute_bytecode p code = execute_bytecode p' (code.map swap_endian) := by
  have hturns : exec_turn p code = exec_turn p' (code.map swap_endian) :=
    funext (exec_turn_mirrored h)
  rw [execute_bytecode, execute_bytecode, exec_loop, exec_loop, hturns, List.length_map]

end Mirrored

/-! ### Reversing the fields of a packet -/

/-- The two places are the same, or do not overlap. -/
def Apart (l l' : ℕ × ℕ) : Prop := l = l' ∨ l.1 + l.2 ≤ l'.1 ∨ l'.1 + l'.2 ≤ l.1

instance (l l' : ℕ × ℕ) : Decidable (Apart l l') := inferInstanceAs (Decidable (_ ∨ _))

/-- The place that has byte `i`, among those inside a packet of length `n`. -/
def place_of (places : List (ℕ × ℕ)) (n i : ℕ) : Option (ℕ × ℕ) :=
  places.find? fun l => l.1 + l.2 ≤ n ∧ l.1 ≤ i ∧ i < l.1 + l.2

/-- Where byte `i` comes from. -/
def mirror_index (places : List (ℕ × ℕ)) (n i : ℕ) : ℕ :=
  match place_of places n i with
  | some l => l.1 + (l.2 - 1 - (i - l.1))
  | none => i

/-- The packet with the bytes of each place inside it reversed. -/
def mirror (places : List (ℕ × ℕ)) (p : Packet) : Packet where
  bytes := (List.range p.len).map fun i => p.bytes.getD (mirror_index places p.len i) 0
  length_lt := by
    rw [List.length_map, List.length_range]
    exact p.length_lt

section Mirror

variable {places : List (ℕ × ℕ)} {p : Packet}

theorem mirror_getElem? {i : ℕ} (hi : i < p.len) :
    (mirror places p).bytes[i]? = some (p.bytes.getD (mirror_index places p.len i) 0) := by
  rw [mirror, List.getElem?_map, List.getElem?_range hi]
  rfl

theorem place_of_eq (hapart : ∀ l ∈ places, ∀ l' ∈ places, Apart l l') {l : ℕ × ℕ}
    (hl : l ∈ places) {n i : ℕ} (hin : l.1 + l.2 ≤ n) (hlo : l.1 ≤ i) (hhi : i < l.1 + l.2) :
    place_of places n i = some l := by
  cases hfind : place_of places n i with
  | none =>
    have hnot := List.find?_eq_none.mp hfind l hl
    simp only [decide_eq_true_eq] at hnot
    exact absurd ⟨hin, hlo, hhi⟩ hnot
  | some l' =>
    have htest := List.find?_some hfind
    simp only [decide_eq_true_eq] at htest
    -- both have byte `i`
    rcases hapart l hl l' (List.mem_of_find?_eq_some hfind) with rfl | hapart
    · rfl
    · omega

/-- Where no two places overlap, they can be reversed. -/
theorem mirror_mirrored (hapart : ∀ l ∈ places, ∀ l' ∈ places, Apart l l') (p : Packet) :
    Mirrored places p (mirror places p) where
  len := by
    rw [mirror, Packet.len, List.length_map, List.length_range]
  reversed := by
    rintro ⟨o, w⟩ hl hin
    simp only at hin ⊢
    have hlen : ((p.bytes.drop o).take w).length = w := by
      rw [List.length_take, List.length_drop]
      have : o + w ≤ p.bytes.length := hin
      omega
    refine List.ext_getElem? fun i => ?_
    by_cases hi : i < w
    · rw [List.getElem?_take_of_lt hi, List.getElem?_drop, mirror_getElem? (by omega),
        List.getElem?_reverse (by omega), hlen, List.getElem?_take_of_lt (by omega),
        List.getElem?_drop, mirror_index,
        place_of_eq hapart hl hin (Nat.le_add_right o i) (by simp only; omega)]
      have hsource : o + (w - 1 - i) < p.bytes.length := by
        have : o + w ≤ p.bytes.length := hin
        omega
      simp only [Nat.add_sub_cancel_left]
      rw [List.getD_eq_getElem _ _ hsource, List.getElem?_eq_getElem hsource]
    · rw [List.getElem?_eq_none (by rw [List.length_take]; omega),
        List.getElem?_eq_none (by rw [List.length_reverse]; omega)]
  rest := by
    intro i hfree
    by_cases hi : i < p.len
    · have hnone : place_of places p.len i = none := by
        refine List.find?_eq_none.mpr fun l hl => ?_
        simp only [decide_eq_true_eq]
        rintro ⟨hin, hhas⟩
        exact hfree l hl hin hhas
      rw [mirror_getElem? hi, mirror_index, hnone]
      exact (congrArg some (List.getD_eq_getElem _ _ hi)).trans (List.getElem?_eq_getElem hi).symm
    · have hlen : (mirror places p).bytes.length = p.len := by
        rw [mirror, List.length_map, List.length_range]
      rw [List.getElem?_eq_none (by omega), List.getElem?_eq_none (not_lt.mp hi)]

end Mirror

/-- **The programs of a rule are mirror images**: on a packet the big-endian one
returns what the little-endian one returns on the packet with the loaded fields
reversed. And swapping twice is no change. -/
theorem programs_mirror {source : List Char} {proto : ProtocolDef} {rule : FilterRule}
    (h : (pdef_parse_string source).1 = .accepted proto) (hrule : rule ∈ rules_of proto)
    {p p' : Packet} (hp : Mirrored (loads rule.bytecode_be.elems) p p') :
    execute_bytecode p rule.bytecode_be.elems = execute_bytecode p' rule.bytecode_le.elems ∧
      ∀ code : List Instruction, (code.map swap_endian).map swap_endian = code := by
  obtain ⟨temp_rule, s, bs, hto⟩ := compiled_of_mem h hrule
  constructor
  · have hle : rule.bytecode_le.elems = rule.bytecode_be.elems.map swap_endian := by
      rw [hto.code_le, hto.code_be, hto.code]
    rw [hle]
    exact execute_bytecode_mirrored hp
  · intro code
    rw [List.map_map, show swap_endian ∘ swap_endian = id from funext swap_endian_twice,
      List.map_id]

/-- A text with an unsigned and a signed field. -/
def mirror_text : List Char :=
  "@protocol { endian = big } H { uint16 x; int32 y; } @filter f { x = 7; y > 5; }".toList

set_option maxRecDepth 100000 in
theorem mirror_text_accepts : ∃ proto ∈ (pdef_parse_string mirror_text).1.protocol?,
    ∃ rule ∈ rules_of proto, (∀ l ∈ loads rule.bytecode_be.elems,
        ∀ l' ∈ loads rule.bytecode_be.elems, Apart l l') ∧
      mirror (loads rule.bytecode_be.elems) ⟨[0, 7, 0, 0, 1, 0], by decide⟩
        = ⟨[7, 0, 0, 1, 0, 0], by decide⟩ ∧
      execute_bytecode ⟨[0, 7, 0, 0, 1, 0], by decide⟩ rule.bytecode_be.elems
        = .returns true := by
  decide +kernel

theorem mirror_text_programs : ∃ rule : FilterRule,
    execute_bytecode ⟨[7, 0, 0, 1, 0, 0], by decide⟩ rule.bytecode_le.elems = .returns true := by
  obtain ⟨proto, hproto, rule, hrule, hapart, hmirror, hexec⟩ := mirror_text_accepts
  have h := ParseResult.protocol?_eq_some.mp hproto
  have hmirrored := mirror_mirrored hapart ⟨[0, 7, 0, 0, 1, 0], by decide⟩
  rw [hmirror] at hmirrored
  exact ⟨rule, (programs_mirror h hrule hmirrored).1.symm.trans hexec⟩

end RxNetCap.Runtime
