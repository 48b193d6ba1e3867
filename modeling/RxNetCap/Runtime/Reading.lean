/-
What a filter says about a packet, read directly: the value of a field, the
test of a condition, and the conjunction of the conditions of a filter.

This is the meaning that a compiled program has to have, so nothing here looks
at an instruction. The value of an integer field is the number its bytes are
the base-256 digits of, in the byte order asked for, extended to 64 bits by its
sign when the type is signed.

`direct_reading` also says what becomes of a field whose end, `offset + width`,
does not fit a `uint32_t`: the bounds test of the source then compares the
wrapped sum, and either still turns the packet away or lets the load read past
the packet. Where no end wraps, the reading is the plain conjunction
(`direct_reading_of_fits`).
-/
import RxNetCap.Runtime.Executor
import Mathlib.Data.Nat.Digits.Defs

set_option autoImplicit false

namespace RxNetCap.Runtime

open RxNetCap.Pdef

/-! ## Values -/

/-- Width in bytes and signedness of an integer type. -/
def int_type : FieldType → Option (ℕ × Bool)
  | .UINT8 => some (1, false)
  | .UINT16 => some (2, false)
  | .UINT32 => some (4, false)
  | .UINT64 => some (8, false)
  | .INT8 => some (1, true)
  | .INT16 => some (2, true)
  | .INT32 => some (4, true)
  | .INT64 => some (8, true)
  | _ => none

def is_integer (f : Field) : Bool := (int_type f.type).isSome

/-- What a condition reads of a field: an integer whole, of anything else the
first byte. -/
def access (f : Field) : ℕ × Bool := (int_type f.type).getD (1, false)

def width (f : Field) : ℕ := (access f).1

/-- The number the bytes are the digits of. -/
def unsigned_value (order : Endian) (bytes : List UInt8) : ℕ :=
  match order with
  | .BIG => Nat.ofDigits 256 (bytes.reverse.map UInt8.toNat)
  | .LITTLE => Nat.ofDigits 256 (bytes.map UInt8.toNat)

/-- Extension of a value of `w` bytes to 64 bits. -/
def extend (signed : Bool) (w n : ℕ) : ℕ :=
  if signed ∧ 2 ^ (8 * w - 1) ≤ n then n + (2 ^ 64 - 2 ^ (8 * w)) else n

def field_value (order : Endian) (f : Field) (packet : Packet) : ℕ :=
  extend (access f).2 (width f)
    (unsigned_value order ((packet.bytes.drop f.offset).take (width f)))

/-! ## Conditions -/

/-- The test a condition puts to the value of its field. -/
def condition_test (cond : FilterCondition) (v : ℕ) : Bool :=
  match cond.op with
  | .EQ => v = cond.value
  | .NE => v ≠ cond.value
  | .GT => v > cond.value
  | .GE => v ≥ cond.value
  | .LT => v < cond.value
  | .LE => v ≤ cond.value
  | .MASK => v &&& cond.mask = cond.value
  | .IN => v ∈ cond.value_list
  | .NOT_IN => v ∉ cond.value_list

/-- The field lies inside the packet and its value passes the test. -/
def Holds (order : Endian) (f : Field) (cond : FilterCondition) (packet : Packet) : Prop :=
  f.offset + width f ≤ packet.len ∧ condition_test cond (field_value order f packet)

instance (order : Endian) (f : Field) (cond : FilterCondition) (packet : Packet) :
    Decidable (Holds order f cond packet) :=
  inferInstanceAs (Decidable (_ ∧ _))

/-- The byte order each field is read in. -/
abbrev Order := Field → Endian

/-- Every condition holds. -/
def AllHold (order : Order) (bs : List Bound) (packet : Packet) : Prop :=
  ∀ b ∈ bs, Holds (order b.1) b.1 b.2 packet

instance (order : Order) (bs : List Bound) (packet : Packet) :
    Decidable (AllHold order bs packet) :=
  inferInstanceAs (Decidable (∀ b ∈ bs, _))

/-- The conditions of a filter, one after another, with the bounds test in
`uint32_t` arithmetic. -/
def direct_reading (order : Order) : List Bound → Packet → ExecResult
  | [], _ => .returns true
  | (f, cond) :: rest, packet =>
    if u32 (f.offset + width f) > packet.len then .returns false
    else if f.offset + width f > packet.len then .out_of_bounds
    else if condition_test cond (field_value (order f) f packet) then
      direct_reading order rest packet
    else .returns false

/-! ## What `direct_reading` comes to -/

/-- The end of the field is a `uint32_t`. -/
def Fits (f : Field) : Prop := f.offset + width f < 2 ^ 32

instance (f : Field) : Decidable (Fits f) := inferInstanceAs (Decidable (_ < _))

/-- The reading gets past the end of the packet: every condition before some
field holds, and the wrapped end of that field is inside the packet though its
real end is not. -/
def ReadsOutside (order : Order) : List Bound → Packet → Prop
  | [], _ => False
  | (f, cond) :: rest, packet =>
    (¬ Fits f ∧ u32 (f.offset + width f) ≤ packet.len)
      ∨ (Holds (order f) f cond packet ∧ ReadsOutside order rest packet)

instance ReadsOutside.decidable (order : Order) :
    (bs : List Bound) → (packet : Packet) → Decidable (ReadsOutside order bs packet)
  | [], _ => inferInstanceAs (Decidable False)
  | (_, _) :: rest, packet =>
    have := ReadsOutside.decidable order rest packet
    inferInstanceAs (Decidable (_ ∨ _))

/-- A field whose wrapped end passes the test is inside the packet, or wraps. -/
theorem inside_or_wraps (f : Field) (packet : Packet)
    (h : u32 (f.offset + width f) ≤ packet.len) :
    f.offset + width f ≤ packet.len ↔ Fits f := by
  have hlen := packet.len_lt
  constructor
  · intro hin
    exact lt_of_le_of_lt hin hlen
  · intro hfits
    rwa [u32_of_lt hfits] at h

/-- **The reading has three outcomes**: past the end of the packet, or the
truth of the conjunction. -/
theorem direct_reading_eq (order : Order) (bs : List Bound) (packet : Packet) :
    direct_reading order bs packet =
      if ReadsOutside order bs packet then .out_of_bounds
      else .returns (decide (AllHold order bs packet)) := by
  induction bs with
  | nil => simp [direct_reading, ReadsOutside, AllHold]
  | cons b rest ih =>
    obtain ⟨f, cond⟩ := b
    have hall : AllHold order ((f, cond) :: rest) packet ↔
        Holds (order f) f cond packet ∧ AllHold order rest packet := by
      simp [AllHold]
    rw [direct_reading]
    by_cases hend : u32 (f.offset + width f) > packet.len
    · -- the bounds test turns the packet away, and the field is not inside it
      have hnot : ¬ Holds (order f) f cond packet := fun h =>
        absurd (le_trans (u32_le _) h.1) (by omega)
      have hout : ¬ ReadsOutside order ((f, cond) :: rest) packet := by
        rintro (⟨-, h⟩ | ⟨h, -⟩)
        · omega
        · exact hnot h
      rw [if_pos hend, if_neg hout, decide_eq_false (fun h => hnot (hall.mp h).1)]
    · have hin := inside_or_wraps f packet (by omega)
      rw [if_neg hend]
      by_cases hfits : Fits f
      · have hle := hin.mpr hfits
        have hout : ReadsOutside order ((f, cond) :: rest) packet ↔
            Holds (order f) f cond packet ∧ ReadsOutside order rest packet := by
          simp [ReadsOutside, hfits]
        rw [if_neg (by omega)]
        by_cases htest : condition_test cond (field_value (order f) f packet)
        · have hholds : Holds (order f) f cond packet := ⟨hle, htest⟩
          rw [if_pos htest, ih]
          simp only [hout, hall, hholds, true_and]
        · have hnot : ¬ Holds (order f) f cond packet := fun h => htest h.2
          rw [if_neg htest, if_neg (fun h => hnot (hout.mp h).1),
            decide_eq_false (fun h => hnot (hall.mp h).1)]
      · have hpast := mt hin.mp hfits
        have hout : ReadsOutside order ((f, cond) :: rest) packet :=
          Or.inl ⟨hfits, by omega⟩
        rw [if_pos (by omega), if_pos hout]

/-- Where no end wraps nothing is read outside the packet. -/
theorem not_readsOutside_of_fits {order : Order} {bs : List Bound} {packet : Packet}
    (h : ∀ b ∈ bs, Fits b.1) : ¬ ReadsOutside order bs packet := by
  induction bs with
  | nil => exact id
  | cons b rest ih =>
    rintro (⟨hw, -⟩ | ⟨-, hr⟩)
    · exact hw (h b List.mem_cons_self)
    · exact ih (fun c hc => h c (List.mem_cons_of_mem b hc)) hr

/-- Where no end wraps the reading is the conjunction. -/
theorem direct_reading_of_fits {order : Order} {bs : List Bound} (packet : Packet)
    (h : ∀ b ∈ bs, Fits b.1) :
    direct_reading order bs packet = .returns (decide (AllHold order bs packet)) := by
  rw [direct_reading_eq, if_neg (not_readsOutside_of_fits h)]

end RxNetCap.Runtime
