/-
The loads of the virtual machine read field values.

`endian.h` puts a number together with shifts and bitwise or; the value of a
field is defined with digits. The two agree because the shifted bytes do not
overlap, so every `|` is a `+`. The load opcode the compiler picks for a field
then reads that field's value in the byte order of the field's tag, and the
opcode `swap_endian_opcode` makes of it reads it in the other order.
-/
import RxNetCap.Runtime.Reading
import Mathlib.Data.Nat.Bitwise
import Mathlib.Tactic.NormNum

set_option autoImplicit false

namespace RxNetCap.Runtime

open RxNetCap.Pdef

/-! ## Bitwise or of shifted bytes -/

theorem byte_at_lt (data : List UInt8) (i : ℕ) : byte_at data i < 2 ^ 8 :=
  (data.getD i 0).toNat_lt

/-- Or is sum when the right operand lies below the bits of the left one. -/
theorem or_eq_add_low {x : ℕ} (y k : ℕ) (hx : 2 ^ k ∣ x) (hy : y < 2 ^ k) :
    x ||| y = x + y := by
  obtain ⟨c, rfl⟩ := hx
  exact (Nat.two_pow_add_eq_or_of_lt hy c).symm

/-- Or is sum when the left operand lies below the bits of the right one. -/
theorem or_eq_add_high {x : ℕ} (y k : ℕ) (hx : x < 2 ^ k) (hy : 2 ^ k ∣ y) :
    x ||| y = x + y := by
  rw [Nat.or_comm, or_eq_add_low x k hy hx, Nat.add_comm]

/-! ## The bytes of a field -/

/-- The `n` bytes from `offset` on. -/
def bytes_from (data : List UInt8) (offset : ℕ) : ℕ → List ℕ
  | 0 => []
  | n + 1 => byte_at data offset :: bytes_from data (offset + 1) n

theorem take_drop_eq_bytes_from (data : List UInt8) (n : ℕ) : ∀ offset : ℕ,
    offset + n ≤ data.length →
    ((data.drop offset).take n).map UInt8.toNat = bytes_from data offset n := by
  induction n with
  | zero => simp [bytes_from]
  | succ n ih =>
    intro offset h
    have hlt : offset < data.length := by omega
    rw [List.drop_eq_getElem_cons hlt, List.take_succ_cons, List.map_cons,
      ih (offset + 1) (by omega), bytes_from, byte_at, List.getD_eq_getElem _ _ hlt]

/-! ## The readers of `endian.h` -/

theorem read_u16_be_eq (data : List UInt8) (o : ℕ) :
    read_u16_be data o = Nat.ofDigits 256 (bytes_from data o 2).reverse := by
  have h1 := byte_at_lt data (o + 1)
  rw [read_u16_be, Nat.shiftLeft_eq, or_eq_add_low (byte_at data (o + 1)) 8 (by omega) h1]
  simp only [bytes_from, List.reverse_cons, List.reverse_nil, List.nil_append,
    List.cons_append, Nat.ofDigits_cons, Nat.ofDigits_nil]
  omega

theorem read_u16_le_eq (data : List UInt8) (o : ℕ) :
    read_u16_le data o = Nat.ofDigits 256 (bytes_from data o 2) := by
  have h0 := byte_at_lt data o
  rw [read_u16_le, Nat.shiftLeft_eq, or_eq_add_high (byte_at data (o + 1) * 2 ^ 8) 8 h0 (by omega)]
  simp only [bytes_from, Nat.ofDigits_cons, Nat.ofDigits_nil]
  omega

theorem read_u32_be_eq (data : List UInt8) (o : ℕ) :
    read_u32_be data o = Nat.ofDigits 256 (bytes_from data o 4).reverse := by
  have h1 := byte_at_lt data (o + 1)
  have h2 := byte_at_lt data (o + 2)
  have h3 := byte_at_lt data (o + 3)
  simp only [read_u32_be, Nat.shiftLeft_eq]
  rw [or_eq_add_low (byte_at data (o + 1) * 2 ^ 16) 24 (by omega) (by omega),
    or_eq_add_low (byte_at data (o + 2) * 2 ^ 8) 16 (by omega) (by omega),
    or_eq_add_low (byte_at data (o + 3)) 8 (by omega) (by omega)]
  simp only [bytes_from, List.reverse_cons, List.reverse_nil, List.nil_append,
    List.cons_append, Nat.ofDigits_cons, Nat.ofDigits_nil, Nat.add_assoc, Nat.reduceAdd]
  omega

theorem read_u32_le_eq (data : List UInt8) (o : ℕ) :
    read_u32_le data o = Nat.ofDigits 256 (bytes_from data o 4) := by
  have h0 := byte_at_lt data o
  have h1 := byte_at_lt data (o + 1)
  have h2 := byte_at_lt data (o + 2)
  simp only [read_u32_le, Nat.shiftLeft_eq]
  rw [or_eq_add_high (byte_at data (o + 1) * 2 ^ 8) 8 (by omega) (by omega),
    or_eq_add_high (byte_at data (o + 2) * 2 ^ 16) 16 (by omega) (by omega),
    or_eq_add_high (byte_at data (o + 3) * 2 ^ 24) 24 (by omega) (by omega)]
  simp only [bytes_from, Nat.ofDigits_cons, Nat.ofDigits_nil, Nat.add_assoc, Nat.reduceAdd]
  omega

theorem read_u64_be_eq (data : List UInt8) (o : ℕ) :
    read_u64_be data o = Nat.ofDigits 256 (bytes_from data o 8).reverse := by
  have h1 := byte_at_lt data (o + 1)
  have h2 := byte_at_lt data (o + 2)
  have h3 := byte_at_lt data (o + 3)
  have h4 := byte_at_lt data (o + 4)
  have h5 := byte_at_lt data (o + 5)
  have h6 := byte_at_lt data (o + 6)
  have h7 := byte_at_lt data (o + 7)
  simp only [read_u64_be, Nat.shiftLeft_eq]
  rw [or_eq_add_low (byte_at data (o + 1) * 2 ^ 48) 56 (by omega) (by omega),
    or_eq_add_low (byte_at data (o + 2) * 2 ^ 40) 48 (by omega) (by omega),
    or_eq_add_low (byte_at data (o + 3) * 2 ^ 32) 40 (by omega) (by omega),
    or_eq_add_low (byte_at data (o + 4) * 2 ^ 24) 32 (by omega) (by omega),
    or_eq_add_low (byte_at data (o + 5) * 2 ^ 16) 24 (by omega) (by omega),
    or_eq_add_low (byte_at data (o + 6) * 2 ^ 8) 16 (by omega) (by omega),
    or_eq_add_low (byte_at data (o + 7)) 8 (by omega) (by omega)]
  simp only [bytes_from, List.reverse_cons, List.reverse_nil, List.nil_append,
    List.cons_append, Nat.ofDigits_cons, Nat.ofDigits_nil, Nat.add_assoc, Nat.reduceAdd]
  omega

theorem read_u64_le_eq (data : List UInt8) (o : ℕ) :
    read_u64_le data o = Nat.ofDigits 256 (bytes_from data o 8) := by
  have h0 := byte_at_lt data o
  have h1 := byte_at_lt data (o + 1)
  have h2 := byte_at_lt data (o + 2)
  have h3 := byte_at_lt data (o + 3)
  have h4 := byte_at_lt data (o + 4)
  have h5 := byte_at_lt data (o + 5)
  have h6 := byte_at_lt data (o + 6)
  simp only [read_u64_le, Nat.shiftLeft_eq]
  rw [or_eq_add_high (byte_at data (o + 1) * 2 ^ 8) 8 (by omega) (by omega),
    or_eq_add_high (byte_at data (o + 2) * 2 ^ 16) 16 (by omega) (by omega),
    or_eq_add_high (byte_at data (o + 3) * 2 ^ 24) 24 (by omega) (by omega),
    or_eq_add_high (byte_at data (o + 4) * 2 ^ 32) 32 (by omega) (by omega),
    or_eq_add_high (byte_at data (o + 5) * 2 ^ 40) 40 (by omega) (by omega),
    or_eq_add_high (byte_at data (o + 6) * 2 ^ 48) 48 (by omega) (by omega),
    or_eq_add_high (byte_at data (o + 7) * 2 ^ 56) 56 (by omega) (by omega)]
  simp only [bytes_from, Nat.ofDigits_cons, Nat.ofDigits_nil, Nat.add_assoc, Nat.reduceAdd]
  omega

/-! ## Signed values -/

/-- The double cast of the source extends the sign. -/
theorem to_u64_as_signed {w n : ℕ} (hw : 1 ≤ w) (hw8 : w ≤ 8) (hn : n < 2 ^ (8 * w)) :
    to_u64 (as_signed (8 * w) n) = extend true w n := by
  have hpow : 2 ^ (8 * w) ≤ 2 ^ 64 := Nat.pow_le_pow_right (by norm_num) (by omega)
  have hpos : 0 < 2 ^ (8 * w) := Nat.two_pow_pos _
  simp only [to_u64, as_signed, extend, true_and]
  by_cases hsmall : n < 2 ^ (8 * w - 1)
  · rw [if_pos hsmall, if_neg (by omega)]
    omega
  · rw [if_neg hsmall, if_pos (by omega)]
    -- `n - 2^(8w)` is negative, so its residue is `2^64` higher
    have hcast : ((2 ^ (8 * w) : ℕ) : ℤ) = 2 ^ (8 * w) := by push_cast; rfl
    rw [← hcast]
    generalize 2 ^ (8 * w) = m at *
    omega

theorem unsigned_value_lt (order : Endian) (bytes : List UInt8) :
    unsigned_value order bytes < 2 ^ (8 * bytes.length) := by
  have hdigit : ∀ l : List UInt8, ∀ d ∈ l.map UInt8.toNat, d < 256 := by
    intro l d hd
    obtain ⟨b, -, rfl⟩ := List.mem_map.mp hd
    exact b.toNat_lt
  have hpow : (256 : ℕ) ^ bytes.length = 2 ^ (8 * bytes.length) := by
    rw [Nat.pow_mul]
  rw [← hpow]
  cases order with
  | BIG =>
    have h := Nat.ofDigits_lt_base_pow_length (by norm_num) (hdigit bytes.reverse)
    simpa [unsigned_value] using h
  | LITTLE =>
    have h := Nat.ofDigits_lt_base_pow_length (by norm_num) (hdigit bytes)
    simpa [unsigned_value] using h

/-! ## The load of a field -/

theorem unsigned_value_big {data : List UInt8} {o w : ℕ} (h : o + w ≤ data.length) :
    unsigned_value .BIG ((data.drop o).take w) = Nat.ofDigits 256 (bytes_from data o w).reverse := by
  rw [unsigned_value, List.map_reverse, take_drop_eq_bytes_from data w o h]

theorem unsigned_value_little {data : List UInt8} {o w : ℕ} (h : o + w ≤ data.length) :
    unsigned_value .LITTLE ((data.drop o).take w) = Nat.ofDigits 256 (bytes_from data o w) := by
  rw [unsigned_value, take_drop_eq_bytes_from data w o h]

/-- Either order of one byte is the byte. -/
theorem unsigned_value_one {data : List UInt8} {o : ℕ} (order : Endian) (h : o + 1 ≤ data.length) :
    unsigned_value order ((data.drop o).take 1) = byte_at data o := by
  cases order with
  | BIG =>
    rw [unsigned_value_big h]
    simp [bytes_from]
  | LITTLE =>
    rw [unsigned_value_little h]
    simp [bytes_from]

/-- The unsigned reader of a width and an order. -/
def reader : Endian → ℕ → List UInt8 → ℕ → ℕ
  | .BIG, 2 => read_u16_be
  | .BIG, 4 => read_u32_be
  | .BIG, 8 => read_u64_be
  | .LITTLE, 2 => read_u16_le
  | .LITTLE, 4 => read_u32_le
  | .LITTLE, 8 => read_u64_le
  | _, _ => byte_at

theorem reader_eq (order : Endian) (data : List UInt8) {w : ℕ}
    (hw : w = 1 ∨ w = 2 ∨ w = 4 ∨ w = 8) {o : ℕ} (h : o + w ≤ data.length) :
    reader order w data o = unsigned_value order ((data.drop o).take w) := by
  rcases hw with rfl | rfl | rfl | rfl
  · rw [unsigned_value_one order h]
    cases order <;> rfl
  all_goals cases order
  · rw [unsigned_value_big h]; exact read_u16_be_eq data o
  · rw [unsigned_value_little h]; exact read_u16_le_eq data o
  · rw [unsigned_value_big h]; exact read_u32_be_eq data o
  · rw [unsigned_value_little h]; exact read_u32_le_eq data o
  · rw [unsigned_value_big h]; exact read_u64_be_eq data o
  · rw [unsigned_value_little h]; exact read_u64_le_eq data o

/-- The opcode of a field is the load of its width, its order and its sign. -/
theorem load_op_get_load_opcode (f : Field) :
    load_op (get_load_opcode f) = some (width f,
      if (access f).2 then
        fun data o => to_u64 (as_signed (8 * width f) (reader f.endian (width f) data o))
      else reader f.endian (width f)) := by
  rcases f with ⟨name, type, offset, size, endian, v, a, n⟩
  cases type <;> cases endian <;> rfl

theorem width_cases (f : Field) : width f = 1 ∨ width f = 2 ∨ width f = 4 ∨ width f = 8 := by
  unfold width access
  cases f.type <;> simp [int_type]

/-- **A load reads the value of its field**, in the byte order of its tag. -/
theorem load_reads (f : Field) : ∃ read, load_op (get_load_opcode f) = some (width f, read) ∧
    ∀ packet : Packet, f.offset + width f ≤ packet.len →
      read packet.bytes f.offset = field_value f.endian f packet := by
  refine ⟨_, load_op_get_load_opcode f, ?_⟩
  intro packet h
  have hw := width_cases f
  have hread := reader_eq f.endian packet.bytes hw h
  have hlen : ((packet.bytes.drop f.offset).take (width f)).length = width f := by
    rw [List.length_take, List.length_drop]
    unfold Packet.len at h
    omega
  have hlt := unsigned_value_lt f.endian ((packet.bytes.drop f.offset).take (width f))
  rw [hlen, ← hread] at hlt
  unfold field_value
  rw [← hread]
  cases hsign : (access f).2 with
  | true => exact to_u64_as_signed (by omega) (by omega) hlt
  | false => simp [extend]

/-! ## Swapping -/

def flip : Endian → Endian
  | .BIG => .LITTLE
  | .LITTLE => .BIG

@[simp] theorem flip_flip (e : Endian) : flip (flip e) = e := by cases e <;> rfl

/-- The swapped opcode is the opcode of the field under the other tag. -/
theorem swap_get_load_opcode (f : Field) :
    swap_endian_opcode (get_load_opcode f) = get_load_opcode { f with endian := flip f.endian } := by
  rcases f with ⟨name, type, offset, size, endian, v, a, n⟩
  cases type <;> cases endian <;> rfl

/-- A load and its swapped load read the same width, and the value of the one is
what the other makes of the reversed bytes. -/
theorem load_op_bytes {op : OpCode} {w : ℕ} {read : List UInt8 → ℕ → ℕ}
    (h : load_op op = some (w, read)) :
    ∃ (value : List ℕ → ℕ) (read' : List UInt8 → ℕ → ℕ),
      load_op (swap_endian_opcode op) = some (w, read') ∧
      (∀ data o, read data o = value (bytes_from data o w)) ∧
      ∀ data o, read' data o = value (bytes_from data o w).reverse := by
  -- the digits of a big-endian load stand the other way round
  let big (f : ℕ → ℕ) (l : List ℕ) : ℕ := f (Nat.ofDigits 256 l.reverse)
  let little (f : ℕ → ℕ) (l : List ℕ) : ℕ := f (Nat.ofDigits 256 l)
  have hbyte (data : List UInt8) (o : ℕ) :
      byte_at data o = Nat.ofDigits 256 (bytes_from data o 1) := by
    simp [bytes_from, Nat.ofDigits_cons]
  have hone (data : List UInt8) (o : ℕ) : (bytes_from data o 1).reverse = bytes_from data o 1 := rfl
  cases op
  case LOAD_U8 =>
    cases h
    refine ⟨little id, _, rfl, hbyte, fun data o => ?_⟩
    rw [hone]
    exact hbyte data o
  case LOAD_I8 =>
    cases h
    refine ⟨little fun n => to_u64 (as_signed 8 n), _, rfl, fun data o => ?_, fun data o => ?_⟩
    · simp only [read_i8, hbyte, little]
    · simp only [read_i8, hbyte, hone, little]
  case LOAD_U16_BE | LOAD_U32_BE | LOAD_U64_BE =>
    cases h
    refine ⟨big id, _, rfl, ?_, ?_⟩ <;>
      simp [big, read_u16_be_eq, read_u16_le_eq, read_u32_be_eq, read_u32_le_eq, read_u64_be_eq,
        read_u64_le_eq]
  case LOAD_U16_LE | LOAD_U32_LE | LOAD_U64_LE =>
    cases h
    refine ⟨little id, _, rfl, ?_, ?_⟩ <;>
      simp [little, read_u16_be_eq, read_u16_le_eq, read_u32_be_eq, read_u32_le_eq, read_u64_be_eq,
        read_u64_le_eq]
  case LOAD_I16_BE =>
    cases h
    refine ⟨big fun n => to_u64 (as_signed 16 n), _, rfl, ?_, ?_⟩ <;>
      simp [big, read_i16_be, read_i16_le, read_u16_be_eq, read_u16_le_eq]
  case LOAD_I32_BE =>
    cases h
    refine ⟨big fun n => to_u64 (as_signed 32 n), _, rfl, ?_, ?_⟩ <;>
      simp [big, read_i32_be, read_i32_le, read_u32_be_eq, read_u32_le_eq]
  case LOAD_I64_BE =>
    cases h
    refine ⟨big fun n => to_u64 (as_signed 64 n), _, rfl, ?_, ?_⟩ <;>
      simp [big, read_i64_be, read_i64_le, read_u64_be_eq, read_u64_le_eq]
  case LOAD_I16_LE =>
    cases h
    refine ⟨little fun n => to_u64 (as_signed 16 n), _, rfl, ?_, ?_⟩ <;>
      simp [little, read_i16_be, read_i16_le, read_u16_be_eq, read_u16_le_eq]
  case LOAD_I32_LE =>
    cases h
    refine ⟨little fun n => to_u64 (as_signed 32 n), _, rfl, ?_, ?_⟩ <;>
      simp [little, read_i32_be, read_i32_le, read_u32_be_eq, read_u32_le_eq]
  case LOAD_I64_LE =>
    cases h
    refine ⟨little fun n => to_u64 (as_signed 64 n), _, rfl, ?_, ?_⟩ <;>
      simp [little, read_i64_be, read_i64_le, read_u64_be_eq, read_u64_le_eq]
  all_goals cases h

end RxNetCap.Runtime
