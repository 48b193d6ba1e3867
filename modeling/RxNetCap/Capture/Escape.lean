/-
What a reader of JSON makes of the strings and the numbers that the manager and
the request handlers write: `json_escape` of `src/rxcapturemanagerthread.cpp` and
`src/rxurlhandlers.cpp` (the two are the same), and numbers in decimal.
-/
import RxNetCap.Capture.Request
import RxNetCap.Lib.Json
import Mathlib.Tactic.IntervalCases

set_option autoImplicit false

namespace RxNetCap.Capture

open RxNetCap.Pdef RxNetCap.JsonText
open scoped RxNetCap.Utf8

/-! ## Strings -/

theorem read_escape_hex {code : ℕ} (h : code < 0x20) (rest : Text) :
    read_escape ("u00".toList ++ [Nat.digitChar (code / 16), Nat.digitChar (code % 16)] ++ rest)
      = some ([Char.ofNat code], rest) := by
  interval_cases code <;> rfl

theorem spells_escape_char {c : Char} {s u : Text} (h : Spells s u) :
    Spells (c :: s) (json_escape_char c ++ u) := by
  unfold json_escape_char
  split_ifs with hbackslash hquote hnewline hreturn htab hcontrol
  · subst hbackslash
    exact Spells.escape (x := ['\\']) (e := ['\\']) (fun _ => rfl) h
  · subst hquote
    exact Spells.escape (x := ['"']) (e := ['"']) (fun _ => rfl) h
  · subst hnewline
    exact Spells.escape (x := ['\n']) (e := ['n']) (fun _ => rfl) h
  · subst hreturn
    exact Spells.escape (x := ['\r']) (e := ['r']) (fun _ => rfl) h
  · subst htab
    exact Spells.escape (x := ['\t']) (e := ['t']) (fun _ => rfl) h
  · have hread := read_escape_hex hcontrol
    rw [Char.ofNat_toNat] at hread
    exact Spells.escape hread h
  · exact h.cons ⟨hquote, hbackslash, not_lt.mp hcontrol⟩

/-- **An escaped text is read as what it was**, whatever its octets are. -/
theorem spells_json_escape (s : CStr) : Spells s (json_escape s) := by
  induction s with
  | nil => exact spells_nil
  | cons c s ih => exact spells_escape_char ih

theorem unescape_json_escape (s : CStr) : JsonText.unescape (json_escape s) = some s :=
  (spells_json_escape s).unescape

/-! ### UTF-8 -/

theorem escape_char_high {c : Char} (hc : ¬ Utf8.Ascii c) : json_escape_char c = [c] := by
  have hhigh : 0x80 ≤ c.toNat := not_lt.mp hc
  have hne : ∀ d : Char, d.toNat < 0x80 → c ≠ d := by
    rintro d hd rfl
    omega
  unfold json_escape_char
  rw [if_neg (hne _ (by decide)), if_neg (hne _ (by decide)), if_neg (hne _ (by decide)),
    if_neg (hne _ (by decide)), if_neg (hne _ (by decide)), if_neg (by omega)]

theorem escape_char_ascii {c : Char} (hc : Utf8.Ascii c) :
    json_escape_char c ≠ [] ∧ ∀ d ∈ json_escape_char c, Utf8.Ascii d := by
  unfold json_escape_char
  split_ifs with _ _ _ _ _ hcontrol
  iterate 5 exact ⟨by decide, by decide⟩
  · have hhex : ∀ code < 0x20, hex_escape code ≠ [] ∧ ∀ d ∈ hex_escape code, Utf8.Ascii d := by decide
    exact hhex _ hcontrol
  · refine ⟨List.cons_ne_nil _ _, fun d hd => ?_⟩
    rw [List.mem_singleton.mp hd]
    exact hc

theorem valid_json_escape (s : CStr) : Utf8.Valid (json_escape s) ↔ Utf8.Valid s :=
  Utf8.valid_flatMap (fun _ => escape_char_high) (fun _ => escape_char_ascii) s

/-- A string with its quotes. -/
def json_text (value : CStr) : CStr := '"' :: json_escape value ++ ['"']

theorem reads_json_text {value : CStr} (h : Utf8.Valid value) : Reads (.string value) (json_text value) :=
  reads_string (spells_json_escape value) ((valid_json_escape value).mpr h)

/-! ## Numbers -/

theorem reads_decimal (n : ℤ) : Reads (.number (decimal n)) (decimal n) := by
  unfold decimal
  split
  · exact reads_minus n.natAbs
  · exact reads_digits n.natAbs

theorem integer_digits (k : ℕ) : integer? (Nat.toDigits 10 k) = some (k : ℤ) := by
  have hall : (Nat.toDigits 10 k).all Char.isDigit = true := List.all_eq_true.mpr (toDigits_digits k)
  rw [integer?]
  · rw [if_pos ⟨toDigits_ne_nil k, hall⟩, Nat.ofDigitChars_ten_toDigits]
  · intro digits h
    have hdigit := toDigits_digits k '-' (h ▸ List.mem_cons_self)
    cases hdigit

theorem integer_minus (k : ℕ) : integer? ('-' :: Nat.toDigits 10 k) = some (-(k : ℤ)) := by
  have hall : (Nat.toDigits 10 k).all Char.isDigit = true := List.all_eq_true.mpr (toDigits_digits k)
  rw [integer?, if_pos ⟨toDigits_ne_nil k, hall⟩, Nat.ofDigitChars_ten_toDigits]

/-- **A number is read as itself.** -/
theorem integer_decimal (n : ℤ) : integer? (decimal n) = some n := by
  unfold decimal
  split
  · next hneg =>
    rw [integer_minus]
    congr 1
    omega
  · next hpos =>
    rw [integer_digits]
    congr 1
    omega

end RxNetCap.Capture
