/-
JSON: values, and a reader of texts of octets.

A number is kept as it is written, and an object with all its members in their
order; of two members with one name the first counts. The octets of a text have to
be UTF-8, and an escape in a string stands for the octets of its character
(`decode`).

Texts that are put together from parts are read part by part (`Reads`, `Fields`):
what writes JSON states for each of its parts what it is read as.
-/
import RxNetCap.Lib.Utf8
import Mathlib.Data.List.Forall2
import Mathlib.Data.Nat.Digits.Defs
import Mathlib.Tactic.Common

set_option autoImplicit false

namespace RxNetCap.JsonText

open scoped RxNetCap.Utf8

/-! ## Values -/

inductive Json where
  | null
  | bool (b : Bool)
  | number (literal : List Char)
  | string (s : List Char)
  | array (elements : List Json)
  | object (members : List (List Char × Json))

/-- The members of an object. -/
abbrev Members := List (List Char × Json)

def member (members : Members) (name : String) : Option Json := members.lookup name.toList

/-- The value of a literal that has neither a fraction nor an exponent. -/
def integer? : List Char → Option ℤ
  | '-' :: digits =>
    if digits ≠ [] ∧ digits.all Char.isDigit then some (-(Nat.ofDigitChars 10 digits 0 : ℕ)) else none
  | digits =>
    if digits ≠ [] ∧ digits.all Char.isDigit then some (Nat.ofDigitChars 10 digits 0 : ℕ) else none

/-! ### What is wanted of a value -/

section Wanted

variable {α : Type}

def Json.string? : Json → Option (List Char)
  | .string s => some s
  | _ => none

def Json.integer? : Json → Option ℤ
  | .number literal => JsonText.integer? literal
  | _ => none

def Json.bool? : Json → Option Bool
  | .bool b => some b
  | _ => none

def Json.list? (element : Json → Option α) : Json → Option (List α)
  | .array elements => elements.mapM element
  | _ => none

/-- A member that has to be there. -/
def required (value : Json → Option α) (v : Option Json) : Option α := v.bind value

/-- A member that may be missing. -/
def optional (value : Json → Option α) : Option Json → Option (Option α)
  | none => some none
  | some v => (value v).map some

theorem list_map {β : Type} {element : Json → Option α} {f : β → Json} {g : β → α} {l : List β}
    (h : ∀ b ∈ l, element (f b) = some (g b)) : Json.list? element (.array (l.map f)) = some (l.map g) := by
  rw [Json.list?]
  induction l with
  | nil => rfl
  | cons b l ih =>
    rw [List.map_cons, List.mapM_cons, h b List.mem_cons_self, ih fun b hb => h b (List.mem_cons_of_mem _ hb)]
    rfl

theorem optional_ite {value : Json → Option α} {v : Json} {a : α} {p : Prop} [Decidable p]
    (h : p → value v = some a) :
    optional value (if p then some v else none) = some (if p then some a else none) := by
  split
  · next hp => rw [optional, h hp]; rfl
  · rfl

end Wanted

/-- A member with a name. -/
def named (name : String) (v : Json) : List Char × Json := (name.toList, v)

theorem member_nil (name : String) : member [] name = none := rfl

theorem member_named (n name : String) (v : Json) (ms : Members) :
    member (named n v :: ms) name = if n = name then some v else member ms name := by
  unfold member named
  rw [List.lookup_cons]
  by_cases h : n = name
  · rw [h, if_pos rfl, beq_self_eq_true]
  · have hne : (name.toList == n.toList) = false :=
      beq_eq_false_iff_ne.mpr fun heq => h (String.toList_inj.mp heq.symm)
    rw [if_neg h, hne]

theorem member_append (ms ms' : Members) (name : String) :
    member (ms ++ ms') name = (member ms name).or (member ms' name) := List.lookup_append

theorem member_ite (p : Prop) [Decidable p] (ms : Members) (name : String) :
    member (if p then ms else []) name = if p then member ms name else none := by
  split <;> rfl

/-! ## Reading -/

/-- Octets. -/
abbrev Text := List Char

def is_blank (c : Char) : Bool := c = ' ' ∨ c = '\t' ∨ c = '\n' ∨ c = '\r'

def skip (text : Text) : Text := text.dropWhile is_blank

def hex_digit (c : Char) : Option ℕ :=
  if c.isDigit then some (c.toNat - '0'.toNat)
  else if 'a' ≤ c ∧ c ≤ 'f' then some (c.toNat - 'a'.toNat + 10)
  else if 'A' ≤ c ∧ c ≤ 'F' then some (c.toNat - 'A'.toNat + 10)
  else none

def read_hex : Text → Option (ℕ × Text)
  | a :: b :: c :: d :: rest => do
    let a ← hex_digit a
    let b ← hex_digit b
    let c ← hex_digit c
    let d ← hex_digit d
    return (((a * 16 + b) * 16 + c) * 16 + d, rest)
  | _ => none

/-- The octets of a character. -/
def octets (code : ℕ) : Text :=
  if code < 0x80 then [Char.ofNat code]
  else if code < 0x800 then [Char.ofNat (0xC0 + code / 64), Char.ofNat (0x80 + code % 64)]
  else if code < 0x10000 then
    [Char.ofNat (0xE0 + code / 4096), Char.ofNat (0x80 + code / 64 % 64), Char.ofNat (0x80 + code % 64)]
  else
    [Char.ofNat (0xF0 + code / 262144), Char.ofNat (0x80 + code / 4096 % 64),
      Char.ofNat (0x80 + code / 64 % 64), Char.ofNat (0x80 + code % 64)]

/-- The second half of a surrogate pair. -/
def read_low (high : ℕ) : Text → Option (Text × Text)
  | '\\' :: 'u' :: rest => do
    let (low, rest) ← read_hex rest
    if 0xDC00 ≤ low ∧ low < 0xE000 then
      some (octets (0x10000 + (high - 0xD800) * 0x400 + (low - 0xDC00)), rest)
    else none
  | _ => none

/-- What follows a backslash. -/
def read_escape : Text → Option (Text × Text)
  | '"' :: rest => some (['"'], rest)
  | '\\' :: rest => some (['\\'], rest)
  | '/' :: rest => some (['/'], rest)
  | 'b' :: rest => some (['\x08'], rest)
  | 'f' :: rest => some (['\x0c'], rest)
  | 'n' :: rest => some (['\n'], rest)
  | 'r' :: rest => some (['\r'], rest)
  | 't' :: rest => some (['\t'], rest)
  | 'u' :: rest => do
    let (code, rest) ← read_hex rest
    if code < 0xD800 ∨ 0xE000 ≤ code then some (octets code, rest)
    else if code < 0xDC00 then read_low code rest
    else none
  | _ => none

/-- A string behind its first quote; there are at most `n` characters and escapes
in it. -/
def read_string : ℕ → Text → Option (Text × Text)
  | 0, _ => none
  | n + 1, c :: rest =>
    if c = '"' then some ([], rest)
    else if c = '\\' then do
      let (s, rest) ← read_escape rest
      let (t, rest) ← read_string n rest
      return (s ++ t, rest)
    else if c.toNat < 0x20 then none
    else do
      let (t, rest) ← read_string n rest
      return (c :: t, rest)
  | _ + 1, [] => none

/-- One digit or more. -/
def read_digits (text : Text) : Option (Text × Text) :=
  if text.takeWhile Char.isDigit = [] then none
  else some (text.takeWhile Char.isDigit, text.dropWhile Char.isDigit)

def read_integer : Text → Option (Text × Text)
  | '0' :: rest => some (['0'], rest)
  | text => read_digits text

def read_fraction : Text → Option (Text × Text)
  | '.' :: rest => do
    let (digits, rest) ← read_digits rest
    return ('.' :: digits, rest)
  | text => some ([], text)

def read_sign : Text → Text × Text
  | '-' :: rest => (['-'], rest)
  | '+' :: rest => (['+'], rest)
  | text => ([], text)

def read_exponent : Text → Option (Text × Text)
  | c :: rest =>
    if c = 'e' ∨ c = 'E' then do
      let (sign, rest) := read_sign rest
      let (digits, rest) ← read_digits rest
      return (c :: sign ++ digits, rest)
    else some ([], c :: rest)
  | [] => some ([], [])

def read_unsigned (text : Text) : Option (Text × Text) := do
  let (integer, text) ← read_integer text
  let (fraction, text) ← read_fraction text
  let (exponent, text) ← read_exponent text
  return (integer ++ fraction ++ exponent, text)

def read_number : Text → Option (Text × Text)
  | '-' :: rest => do
    let (literal, rest) ← read_unsigned rest
    return ('-' :: literal, rest)
  | text => read_unsigned text

/-- One of the three names. -/
def read_name (name : String) (value : Json) (text : Text) : Option (Json × Text) :=
  if name.toList <+: text then some (value, text.drop name.toList.length) else none

mutual

/-- A value; its parts are at most `n` deep, and each member or element counts as
one deeper than the one before. -/
def read_value : ℕ → Text → Option (Json × Text)
  | 0, _ => none
  | _ + 1, [] => none
  | n + 1, c :: rest =>
    if c = '\x7b' then
      match skip rest with
      | [] => none
      | d :: rest =>
        if d = '\x7d' then some (.object [], rest)
        else do
          let (members, rest) ← read_members n (d :: rest)
          return (.object members, rest)
    else if c = '[' then
      match skip rest with
      | [] => none
      | d :: rest =>
        if d = ']' then some (.array [], rest)
        else do
          let (elements, rest) ← read_elements n (d :: rest)
          return (.array elements, rest)
    else if c = '"' then do
      let (s, rest) ← read_string rest.length rest
      return (.string s, rest)
    else if c = 't' then read_name "true" (.bool true) (c :: rest)
    else if c = 'f' then read_name "false" (.bool false) (c :: rest)
    else if c = 'n' then read_name "null" .null (c :: rest)
    else do
      let (literal, rest) ← read_number (c :: rest)
      return (.number literal, rest)

/-- The members of an object from the next one on, with what ends it. -/
def read_members : ℕ → Text → Option (Members × Text)
  | 0, _ => none
  | _ + 1, [] => none
  | n + 1, c :: rest =>
    if c = '"' then do
      let (name, rest) ← read_string rest.length rest
      match skip rest with
      | [] => none
      | d :: rest =>
        if d = ':' then do
          let (value, rest) ← read_value n (skip rest)
          let (members, rest) ← read_more_members n (skip rest)
          return ((name, value) :: members, rest)
        else none
    else none

/-- The members behind one. -/
def read_more_members : ℕ → Text → Option (Members × Text)
  | 0, _ => none
  | _ + 1, [] => none
  | n + 1, c :: rest =>
    if c = ',' then read_members n (skip rest)
    else if c = '\x7d' then some ([], rest)
    else none

def read_elements : ℕ → Text → Option (List Json × Text)
  | 0, _ => none
  | n + 1, text => do
    let (value, rest) ← read_value n text
    let (elements, rest) ← read_more_elements n (skip rest)
    return (value :: elements, rest)

def read_more_elements : ℕ → Text → Option (List Json × Text)
  | 0, _ => none
  | _ + 1, [] => none
  | n + 1, c :: rest =>
    if c = ',' then read_elements n (skip rest)
    else if c = ']' then some ([], rest)
    else none

end

/-- The value of a text. -/
def decode (text : Text) : Option Json :=
  if Utf8.Valid text then
    match read_value (2 * text.length) (skip text) with
    | some (value, rest) => if skip rest = [] then some value else none
    | none => none
  else none

/-! ## Strings -/

/-- A character that a string has as it is. -/
def Plain (c : Char) : Prop := c ≠ '"' ∧ c ≠ '\\' ∧ 0x20 ≤ c.toNat

instance (c : Char) : Decidable (Plain c) := inferInstanceAs (Decidable (_ ∧ _))

/-- A text between quotes is read as a string. -/
def Spells (s u : Text) : Prop :=
  ∀ rest n, u.length < n → read_string n (u ++ '"' :: rest) = some (s, rest)

theorem spells_nil : Spells [] [] := by
  intro rest n hn
  cases n with
  | zero => cases hn
  | succ n => rfl

theorem read_string_plain {c : Char} (hc : Plain c) (n : ℕ) (rest : Text) :
    read_string (n + 1) (c :: rest)
      = (read_string n rest).bind fun r => some (c :: r.1, r.2) := by
  rw [read_string, if_neg hc.1, if_neg hc.2.1, if_neg (not_lt.mpr hc.2.2)]
  rfl

theorem read_string_escape (n : ℕ) (rest : Text) :
    read_string (n + 1) ('\\' :: rest) = (read_escape rest).bind fun e =>
      (read_string n e.2).bind fun r => some (e.1 ++ r.1, r.2) := rfl

theorem Spells.cons {c : Char} {s u : Text} (hc : Plain c) (h : Spells s u) : Spells (c :: s) (c :: u) := by
  intro rest n hn
  cases n with
  | zero => cases hn
  | succ n =>
    rw [List.cons_append, read_string_plain hc, h rest n (Nat.lt_of_succ_lt_succ hn)]
    rfl

theorem Spells.escape {x e s u : Text} (he : ∀ rest, read_escape (e ++ rest) = some (x, rest))
    (h : Spells s u) : Spells (x ++ s) ('\\' :: e ++ u) := by
  intro rest n hn
  rw [List.cons_append, List.length_cons, List.length_append] at hn
  cases n with
  | zero => cases hn
  | succ n =>
    rw [List.cons_append, List.cons_append, List.append_assoc, read_string_escape, he, Option.bind_some,
      h rest n (by omega)]
    rfl

theorem spells_plain {s : Text} (hs : ∀ c ∈ s, Plain c) : Spells s s := by
  induction s with
  | nil => exact spells_nil
  | cons c s ih =>
    exact .cons (hs c List.mem_cons_self) (ih fun d hd => hs d (List.mem_cons_of_mem _ hd))

/-- Take back what is written in a string. -/
def unescape (u : Text) : Option Text :=
  match read_string (u.length + 1) (u ++ ['"']) with
  | some (s, []) => some s
  | _ => none

theorem Spells.unescape {s u : Text} (h : Spells s u) : JsonText.unescape u = some s := by
  rw [JsonText.unescape, h [] (u.length + 1) (Nat.lt_succ_self _)]

/-! ## Numbers -/

/-- What may stand behind a value: a number does not go on there. -/
def Stops (rest : Text) : Prop := ∀ c ∈ rest.head?, c = ',' ∨ c = '\x7d' ∨ c = ']'

theorem Stops.cons {c : Char} (hc : c = ',' ∨ c = '\x7d' ∨ c = ']') (rest : Text) : Stops (c :: rest) := by
  intro d hd
  cases hd
  exact hc

theorem read_digits_append {digits rest : Text} (hne : digits ≠ []) (hdigits : ∀ c ∈ digits, c.isDigit = true)
    (hrest : ∀ c ∈ rest.head?, c.isDigit = false) : read_digits (digits ++ rest) = some (digits, rest) := by
  have htake : rest.takeWhile Char.isDigit = [] ∧ rest.dropWhile Char.isDigit = rest := by
    cases rest with
    | nil => exact ⟨rfl, rfl⟩
    | cons c rest =>
      have hc := hrest c rfl
      exact ⟨List.takeWhile_cons_of_neg (by simp [hc]), List.dropWhile_cons_of_neg (by simp [hc])⟩
  have htake' : (digits ++ rest).takeWhile Char.isDigit = digits := by
    rw [List.takeWhile_append_of_pos hdigits, htake.1, List.append_nil]
  rw [read_digits, htake', if_neg hne, List.dropWhile_append_of_pos hdigits, htake.2]

/-- The digits of a number do not start with a zero, but for zero itself. -/
theorem toDigits_head (k : ℕ) : Nat.toDigits 10 k = ['0'] ∨
    ∃ c digits, Nat.toDigits 10 k = c :: digits ∧ c ≠ '0' := by
  induction k using Nat.strongRecOn with
  | ind k ih =>
    by_cases hsmall : k < 10
    · rw [Nat.toDigits_of_lt_base hsmall]
      have hdigit : ∀ k < 10, k = 0 ∨ Nat.digitChar k ≠ '0' := by decide
      rcases hdigit k hsmall with rfl | hne
      · exact .inl rfl
      · exact .inr ⟨_, [], rfl, hne⟩
    · have hsplit : Nat.toDigits 10 k = Nat.toDigits 10 (k / 10) ++ Nat.toDigits 10 (k % 10) := by
        rw [Nat.toDigits_append_toDigits (by decide) (by omega) (by omega)]
        congr 1
        omega
      rcases ih (k / 10) (by omega) with hzero | ⟨c, digits, hdigits, hc⟩
      · have hvalue := Nat.ofDigitChars_ten_toDigits (n := k / 10)
        rw [hzero] at hvalue
        have hpos : 0 < k / 10 := by omega
        rw [← hvalue] at hpos
        exact absurd hpos (by decide)
      · exact .inr ⟨c, digits ++ Nat.toDigits 10 (k % 10), by rw [hsplit, hdigits, List.cons_append], hc⟩

theorem toDigits_digits (k : ℕ) : ∀ c ∈ Nat.toDigits 10 k, c.isDigit = true :=
  fun _ hc => Nat.isDigit_of_mem_toDigits (by decide) (by decide) hc

theorem toDigits_ascii (k : ℕ) : ∀ c ∈ Nat.toDigits 10 k, Utf8.Ascii c := by
  intro c hc
  have hdigit := toDigits_digits k c hc
  simp only [Char.isDigit, Bool.and_eq_true, decide_eq_true_eq, UInt32.le_iff_toNat_le] at hdigit
  have hle : c.toNat ≤ '9'.toNat := hdigit.2
  exact lt_of_le_of_lt hle (by decide)

theorem toDigits_ne_nil (k : ℕ) : Nat.toDigits 10 k ≠ [] := by
  rcases toDigits_head k with h | ⟨c, digits, h, -⟩ <;> rw [h] <;> exact List.cons_ne_nil _ _

theorem stops_not_digit {rest : Text} (h : Stops rest) : ∀ c ∈ rest.head?, c.isDigit = false := by
  intro c hc
  rcases h c hc with rfl | rfl | rfl <;> rfl

theorem read_integer_digits (k : ℕ) {rest : Text} (hrest : Stops rest) :
    read_integer (Nat.toDigits 10 k ++ rest) = some (Nat.toDigits 10 k, rest) := by
  rcases toDigits_head k with h | ⟨c, digits, h, hc⟩
  · rw [h]
    rfl
  · have hread := read_digits_append (toDigits_ne_nil k) (toDigits_digits k) (stops_not_digit hrest)
    rw [h, List.cons_append] at hread ⊢
    rw [read_integer]
    · exact hread
    · intro rest' heq
      exact absurd (List.cons.inj heq).1 hc

theorem read_rest_stops {rest : Text} (h : Stops rest) :
    read_fraction rest = some ([], rest) ∧ read_exponent rest = some ([], rest) := by
  cases rest with
  | nil => exact ⟨rfl, rfl⟩
  | cons c rest =>
    rcases h c rfl with rfl | rfl | rfl <;> exact ⟨rfl, rfl⟩

theorem read_unsigned_digits (k : ℕ) {rest : Text} (hrest : Stops rest) :
    read_unsigned (Nat.toDigits 10 k ++ rest) = some (Nat.toDigits 10 k, rest) := by
  obtain ⟨hfraction, hexponent⟩ := read_rest_stops hrest
  simp [read_unsigned, read_integer_digits k hrest, hfraction, hexponent]

theorem read_number_digits (k : ℕ) {rest : Text} (hrest : Stops rest) :
    read_number (Nat.toDigits 10 k ++ rest) = some (Nat.toDigits 10 k, rest) := by
  rw [← read_unsigned_digits k hrest, read_number]
  intro rest' heq
  obtain ⟨c, digits, h⟩ := List.exists_cons_of_ne_nil (toDigits_ne_nil k)
  have hdigit := toDigits_digits k c (h ▸ List.mem_cons_self)
  rw [h, List.cons_append] at heq
  rw [(List.cons.inj heq).1] at hdigit
  cases hdigit

theorem read_number_minus (k : ℕ) {rest : Text} (hrest : Stops rest) :
    read_number ('-' :: Nat.toDigits 10 k ++ rest) = some ('-' :: Nat.toDigits 10 k, rest) := by
  rw [List.cons_append, read_number, read_unsigned_digits k hrest]
  rfl

/-! ## Texts that are written part by part -/

/-- A text is read as a value, whatever stands behind it. -/
structure Reads (v : Json) (t : Text) : Prop where
  valid : Utf8.Valid t
  starts : ∃ c t', t = c :: t' ∧ is_blank c = false
  reads : ∀ rest, Stops rest → ∀ n, t.length ≤ n → read_value n (t ++ rest) = some (v, rest)

/-- A text with a comma in front of each member is read as members. -/
structure Fields (ms : Members) (t : Text) : Prop where
  valid : Utf8.Valid t
  reads : ∀ rest r k, (∀ n, k ≤ n → read_more_members n rest = some r) →
    ∀ n, k + t.length ≤ n → read_more_members n (t ++ rest) = some (ms ++ r.1, r.2)

theorem skip_cons {c : Char} (hc : is_blank c = false) (rest : Text) : skip (c :: rest) = c :: rest :=
  List.dropWhile_cons_of_neg (by simp [hc])

theorem Reads.skip {v : Json} {t : Text} (h : Reads v t) (rest : Text) :
    JsonText.skip (t ++ rest) = t ++ rest := by
  obtain ⟨c, t', rfl, hc⟩ := h.starts
  exact skip_cons hc _

theorem reads_string {s u : Text} (h : Spells s u) (hvalid : Utf8.Valid u) :
    Reads (.string s) ('"' :: u ++ ['"']) where
  valid := (Utf8.valid_ascii_append (s := ['"']) (by decide)).mpr
    (hvalid.append (Utf8.valid_ascii (by decide)))
  starts := ⟨'"', u ++ ['"'], rfl, rfl⟩
  reads := by
    intro rest _ n hn
    cases n with
    | zero => simp at hn
    | succ n =>
      have htext : '"' :: u ++ ['"'] ++ rest = '"' :: (u ++ '"' :: rest) := by simp
      have hread := h rest (u ++ '"' :: rest).length (by simp)
      rw [htext, read_value, if_neg (by decide), if_neg (by decide), if_pos rfl, hread]
      rfl

/-- What a number starts with. -/
theorem read_value_number {c : Char} (hc : c = '-' ∨ c.isDigit = true) (n : ℕ) (rest : Text) :
    read_value (n + 1) (c :: rest)
      = (read_number (c :: rest)).bind fun r => some (.number r.1, r.2) := by
  have hne : c ≠ '\x7b' ∧ c ≠ '[' ∧ c ≠ '"' ∧ c ≠ 't' ∧ c ≠ 'f' ∧ c ≠ 'n' := by
    refine ⟨?_, ?_, ?_, ?_, ?_, ?_⟩ <;> rintro rfl <;> revert hc <;> decide
  rw [read_value, if_neg hne.1, if_neg hne.2.1, if_neg hne.2.2.1, if_neg hne.2.2.2.1,
    if_neg hne.2.2.2.2.1, if_neg hne.2.2.2.2.2]
  rfl

theorem not_blank_of_digit {c : Char} (hc : c.isDigit = true) : is_blank c = false := by
  rw [is_blank, decide_eq_false_iff_not]
  rintro (rfl | rfl | rfl | rfl) <;> revert hc <;> decide

theorem reads_digits (k : ℕ) : Reads (.number (Nat.toDigits 10 k)) (Nat.toDigits 10 k) := by
  obtain ⟨c, digits, h⟩ := List.exists_cons_of_ne_nil (toDigits_ne_nil k)
  have hc := toDigits_digits k c (h ▸ List.mem_cons_self)
  refine ⟨Utf8.valid_ascii (toDigits_ascii k), ⟨c, digits, h, not_blank_of_digit hc⟩,
    fun rest hrest n hn => ?_⟩
  have hread := read_number_digits k hrest
  rw [h] at hn hread ⊢
  cases n with
  | zero => cases hn
  | succ n =>
    rw [List.cons_append] at hread ⊢
    rw [read_value_number (.inr hc), hread]
    rfl

theorem reads_minus (k : ℕ) :
    Reads (.number ('-' :: Nat.toDigits 10 k)) ('-' :: Nat.toDigits 10 k) := by
  refine ⟨(Utf8.valid_ascii_append (s := ['-']) (by decide)).mpr (Utf8.valid_ascii (toDigits_ascii k)),
    ⟨'-', _, rfl, rfl⟩, fun rest hrest n hn => ?_⟩
  have hread := read_number_minus k hrest
  cases n with
  | zero => cases hn
  | succ n =>
    rw [List.cons_append] at hread ⊢
    rw [read_value_number (.inl rfl), hread]
    rfl

theorem reads_true : Reads (.bool true) "true".toList := by
  refine ⟨Utf8.valid_ascii (by decide), ⟨'t', "rue".toList, rfl, rfl⟩, fun rest _ n hn => ?_⟩
  cases n with
  | zero => exact absurd hn (by decide)
  | succ n =>
    change read_value (n + 1) ('t' :: ("rue".toList ++ rest)) = _
    rw [read_value, if_neg (by decide), if_neg (by decide), if_neg (by decide), if_pos rfl]
    exact if_pos (List.prefix_append _ _)

theorem reads_false : Reads (.bool false) "false".toList := by
  refine ⟨Utf8.valid_ascii (by decide), ⟨'f', "alse".toList, rfl, rfl⟩, fun rest _ n hn => ?_⟩
  cases n with
  | zero => exact absurd hn (by decide)
  | succ n =>
    change read_value (n + 1) ('f' :: ("alse".toList ++ rest)) = _
    rw [read_value, if_neg (by decide), if_neg (by decide), if_neg (by decide), if_neg (by decide),
      if_pos rfl]
    exact if_pos (List.prefix_append _ _)

theorem reads_bool (b : Bool) : Reads (.bool b) (if b then "true".toList else "false".toList) := by
  cases b with
  | true => exact reads_true
  | false => exact reads_false

/-! ### Members -/

/-- Behind a member comes a comma or the end of the object. -/
theorem stops_of_read_more {k : ℕ} {rest : Text} {r : Members × Text}
    (h : ∀ n, k ≤ n → read_more_members n rest = some r) : Stops rest ∧ skip rest = rest := by
  have hk := h (k + 1) (by omega)
  cases rest with
  | nil => cases hk
  | cons c rest =>
    rw [read_more_members] at hk
    by_cases hcomma : c = ','
    · exact ⟨.cons (.inl hcomma) _, skip_cons (by rw [hcomma]; rfl) _⟩
    · rw [if_neg hcomma] at hk
      obtain ⟨hend, -⟩ := Option.ite_none_right_eq_some.mp hk
      exact ⟨.cons (.inr (.inl hend)) _, skip_cons (by rw [hend]; rfl) _⟩

/-- A name that is written as it is. -/
def IsName (name : Text) : Prop := ∀ c ∈ name, Plain c ∧ Utf8.Ascii c

instance (name : Text) : Decidable (IsName name) := inferInstanceAs (Decidable (∀ c ∈ name, _))

/-- A member with its name. -/
def member_text (name t : Text) : Text := '"' :: name ++ '"' :: ':' :: t

theorem valid_member {name t : Text} (hname : IsName name) (ht : Utf8.Valid t) :
    Utf8.Valid (member_text name t) := by
  have hascii := Utf8.valid_ascii fun c hc => (hname c hc).2
  have hquote : ∀ u, Utf8.Valid u → Utf8.Valid ('"' :: u) := fun u hu =>
    (Utf8.valid_ascii_append (s := ['"']) (by decide)).mpr hu
  have hcolon : Utf8.Valid (':' :: t) := (Utf8.valid_ascii_append (s := [':']) (by decide)).mpr ht
  exact hquote _ (hascii.append (hquote _ hcolon))

theorem read_member {name t rest : Text} {v : Json} {r : Members × Text} {k : ℕ} (hname : IsName name)
    (hvalue : Reads v t) (h : ∀ n, k ≤ n → read_more_members n rest = some r) :
    ∀ n, k + (member_text name t).length ≤ n →
      read_members n (member_text name t ++ rest) = some ((name, v) :: r.1, r.2) := by
  intro n hn
  obtain ⟨hstops, hskip⟩ := stops_of_read_more h
  have hspells : Spells name name := spells_plain fun c hc => (hname c hc).1
  have hlength : (member_text name t).length = name.length + t.length + 3 := by
    simp [member_text]
    omega
  have htext : member_text name t ++ rest = '"' :: (name ++ '"' :: (':' :: (t ++ rest))) := by
    simp [member_text]
  cases n with
  | zero => omega
  | succ n =>
    have hread := hspells (':' :: (t ++ rest)) (name ++ '"' :: (':' :: (t ++ rest))).length (by simp)
    have hv := hvalue.reads rest hstops n (by omega)
    rw [htext, read_members, if_pos rfl, hread]
    simp only [Option.bind_eq_bind, Option.bind_some, skip_cons (c := ':') rfl, if_true, hvalue.skip, hv,
      hskip, h n (by omega), Option.pure_def]

theorem Fields.nil : Fields [] [] := ⟨Utf8.valid_nil, fun _ _ _ h n hn => h n hn⟩

theorem Fields.append {ms ms' : Members} {t t' : Text} (h : Fields ms t) (h' : Fields ms' t') :
    Fields (ms ++ ms') (t ++ t') := by
  refine ⟨h.valid.append h'.valid, fun rest r k hrest n hn => ?_⟩
  rw [List.append_assoc, List.append_assoc]
  rw [List.length_append] at hn
  exact h.reads (t' ++ rest) (ms' ++ r.1, r.2) (k + t'.length) (h'.reads rest r k hrest) n (by omega)

theorem fields_member {name t : Text} {v : Json} (hname : IsName name) (hvalue : Reads v t) :
    Fields [(name, v)] (',' :: member_text name t) := by
  refine ⟨(Utf8.valid_ascii_append (s := [',']) (by decide)).mpr (valid_member hname hvalue.valid),
    fun rest r k hrest n hn => ?_⟩
  rw [List.length_cons] at hn
  cases n with
  | zero => omega
  | succ n =>
    have hblank : skip (member_text name t ++ rest) = member_text name t ++ rest := skip_cons rfl _
    rw [List.cons_append, read_more_members, if_pos rfl, hblank]
    exact read_member hname hvalue hrest n (by omega)

/-- A field that may be left out. -/
theorem Fields.ite {ms : Members} {t : Text} {p : Prop} [Decidable p] (h : p → Fields ms t) :
    Fields (if p then ms else []) (if p then t else []) := by
  split
  · next hp => exact h hp
  · exact .nil

theorem reads_object {name t t' : Text} {v : Json} {ms : Members} (hname : IsName name)
    (hvalue : Reads v t) (hfields : Fields ms t') :
    Reads (.object ((name, v) :: ms)) ('\x7b' :: member_text name t ++ t' ++ ['\x7d']) := by
  have hvalid : Utf8.Valid ('\x7b' :: member_text name t ++ t' ++ ['\x7d']) :=
    (((Utf8.valid_ascii_append (s := ['\x7b']) (by decide)).mpr
      (valid_member hname hvalue.valid)).append hfields.valid).append (Utf8.valid_ascii (by decide))
  refine ⟨hvalid, ⟨'\x7b', _, rfl, rfl⟩, fun rest _ n hn => ?_⟩
  have hend : ∀ n, 1 ≤ n → read_more_members n ('\x7d' :: rest) = some ([], rest) := by
    intro n hn
    cases n with
    | zero => cases hn
    | succ n => rfl
  have hmore := hfields.reads ('\x7d' :: rest) ([], rest) 1 hend
  have htext : '\x7b' :: member_text name t ++ t' ++ ['\x7d'] ++ rest
      = '\x7b' :: (member_text name t ++ (t' ++ '\x7d' :: rest)) := by simp
  cases n with
  | zero => simp at hn
  | succ n =>
    have hlength : 1 + t'.length + (member_text name t).length ≤ n := by
      simp only [List.length_append, List.length_cons, List.length_nil] at hn
      omega
    have hmembers := read_member hname hvalue hmore n hlength
    have hskip : skip (member_text name t ++ (t' ++ '\x7d' :: rest))
        = '"' :: (name ++ '"' :: ':' :: t ++ (t' ++ '\x7d' :: rest)) := skip_cons rfl _
    rw [htext, read_value, if_pos rfl, hskip]
    change ((read_members n (member_text name t ++ (t' ++ '\x7d' :: rest))).bind fun r =>
      some (Json.object r.1, r.2)) = _
    rw [hmembers, Option.bind_some, List.append_nil]

/-! ### Elements -/

/-- A text with a comma in front of each element is read as elements. -/
structure Items (vs : List Json) (t : Text) : Prop where
  valid : Utf8.Valid t
  reads : ∀ rest r k, (∀ n, k ≤ n → read_more_elements n rest = some r) →
    ∀ n, k + t.length ≤ n → read_more_elements n (t ++ rest) = some (vs ++ r.1, r.2)

/-- Behind an element comes a comma or the end of the array. -/
theorem stops_of_read_more_elements {k : ℕ} {rest : Text} {r : List Json × Text}
    (h : ∀ n, k ≤ n → read_more_elements n rest = some r) : Stops rest ∧ skip rest = rest := by
  have hk := h (k + 1) (by omega)
  cases rest with
  | nil => cases hk
  | cons c rest =>
    rw [read_more_elements] at hk
    by_cases hcomma : c = ','
    · exact ⟨.cons (.inl hcomma) _, skip_cons (by rw [hcomma]; rfl) _⟩
    · rw [if_neg hcomma] at hk
      obtain ⟨hend, -⟩ := Option.ite_none_right_eq_some.mp hk
      exact ⟨.cons (.inr (.inr hend)) _, skip_cons (by rw [hend]; rfl) _⟩

theorem read_element {v : Json} {t rest : Text} {r : List Json × Text} {k : ℕ} (hvalue : Reads v t)
    (h : ∀ n, k ≤ n → read_more_elements n rest = some r) :
    ∀ n, k + t.length ≤ n → read_elements n (t ++ rest) = some (v :: r.1, r.2) := by
  intro n hn
  obtain ⟨hstops, hskip⟩ := stops_of_read_more_elements h
  have hlength : 0 < t.length := by
    obtain ⟨c, t', rfl, -⟩ := hvalue.starts
    exact Nat.succ_pos _
  -- without any depth left nothing is read
  have hpos : 0 < k := by
    rcases Nat.eq_zero_or_pos k with rfl | hpos
    · cases h 0 le_rfl
    · exact hpos
  cases n with
  | zero => omega
  | succ n =>
    have hv := hvalue.reads rest hstops n (by omega)
    simp only [read_elements, hv, hskip, h n (by omega), Option.bind_eq_bind, Option.bind_some,
      Option.pure_def]

theorem Items.nil : Items [] [] := ⟨Utf8.valid_nil, fun _ _ _ h n hn => h n hn⟩

theorem Items.cons {v : Json} {vs : List Json} {t t' : Text} (hvalue : Reads v t) (h : Items vs t') :
    Items (v :: vs) (',' :: t ++ t') := by
  refine ⟨((Utf8.valid_ascii_append (s := [',']) (by decide)).mpr hvalue.valid).append h.valid,
    fun rest r k hrest n hn => ?_⟩
  rw [List.length_append, List.length_cons] at hn
  have hmore := h.reads rest r k hrest
  cases n with
  | zero => omega
  | succ n =>
    rw [List.cons_append, List.cons_append, List.append_assoc, read_more_elements, if_pos rfl, hvalue.skip,
      read_element hvalue hmore n (by omega)]
    rfl

/-- A text with a comma between each two of its parts. -/
theorem intercalate_cons (t : Text) (ts : List Text) :
    [','].intercalate (t :: ts) = t ++ ts.flatMap fun t => ',' :: t := by
  induction ts generalizing t with
  | nil => simp
  | cons t' ts ih => rw [List.intercalate_cons_cons, ih, List.flatMap_cons]; simp

theorem items_flatMap {vs : List Json} {ts : List Text} (h : List.Forall₂ Reads vs ts) :
    Items vs (ts.flatMap fun t => ',' :: t) := by
  induction h with
  | nil => exact .nil
  | cons hvalue _ ih => exact .cons hvalue ih

/-- What is read as a value does not start with the end of an array. -/
theorem Reads.not_end {v : Json} {c : Char} {t : Text} (h : Reads v (c :: t)) : c ≠ ']' := by
  rintro rfl
  have hread := h.reads [] nofun (t.length + 1) le_rfl
  cases hread

theorem reads_array {v : Json} {vs : List Json} {t : Text} {ts : List Text}
    (h : List.Forall₂ Reads (v :: vs) (t :: ts)) :
    Reads (.array (v :: vs)) ('[' :: [','].intercalate (t :: ts) ++ [']']) := by
  obtain ⟨hvalue, hvalues⟩ := List.forall₂_cons.mp h
  have hitems := items_flatMap hvalues
  rw [intercalate_cons]
  refine ⟨?_, ⟨'[', _, rfl, rfl⟩, fun rest _ n hn => ?_⟩
  · exact ((Utf8.valid_ascii_append (s := ['[']) (by decide)).mpr
      (hvalue.valid.append hitems.valid)).append (Utf8.valid_ascii (by decide))
  have hend : ∀ n, 1 ≤ n → read_more_elements n (']' :: rest) = some ([], rest) := by
    intro n hn
    cases n with
    | zero => cases hn
    | succ n => rfl
  have hmore := hitems.reads (']' :: rest) ([], rest) 1 hend
  cases n with
  | zero => simp at hn
  | succ n =>
    have hlength : 1 + (ts.flatMap fun t => ',' :: t).length + t.length ≤ n := by
      simp only [List.length_append, List.length_cons, List.length_nil] at hn
      omega
    have helements := read_element hvalue hmore n hlength
    obtain ⟨c, t', rfl, hblank⟩ := hvalue.starts
    have htext : '[' :: ((c :: t') ++ ts.flatMap fun t => ',' :: t) ++ [']'] ++ rest
        = '[' :: c :: (t' ++ ((ts.flatMap fun t => ',' :: t) ++ ']' :: rest)) := by simp
    rw [htext, read_value, if_neg (by decide), if_pos rfl, skip_cons hblank]
    rw [List.cons_append] at helements
    simp only [if_neg hvalue.not_end, helements, Option.bind_eq_bind, Option.bind_some, Option.pure_def,
      List.append_nil]

theorem reads_array_map {α : Type} {l : List α} {f : α → Json} {g : α → Text} (hne : l ≠ [])
    (h : ∀ a ∈ l, Reads (f a) (g a)) :
    Reads (.array (l.map f)) ('[' :: [','].intercalate (l.map g) ++ [']']) := by
  cases l with
  | nil => exact absurd rfl hne
  | cons a l =>
    refine reads_array ?_
    rw [← List.map_cons, ← List.map_cons, List.forall₂_map_left_iff, List.forall₂_map_right_iff,
      List.forall₂_same]
    exact h

/-! ### The whole text -/

/-- **A text put together in this way is well-formed** and has the value it was
written for. -/
theorem decode_reads {v : Json} {t : Text} (h : Reads v t) : decode t = some v := by
  have hskip := h.skip []
  have hread := h.reads [] nofun (2 * t.length) (by omega)
  rw [List.append_nil] at hskip hread
  rw [decode, if_pos h.valid, hskip, hread]
  rfl

end RxNetCap.JsonText
