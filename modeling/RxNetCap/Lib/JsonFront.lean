/-
JSON texts in front of others.

What is read of a text is read of it, too, when anything stands behind it, at the
same depth or any greater one (`read_value_append`); a number alone has to have an
end. So what was read of the front of a text is what the whole text is read as.

From a text that was read, its parts are taken off one by one: a member that was
written as the text of a value is that value (`read_member_off`), and of a string
that was put between quotes as it is, something else is read unless every character
of it can stand there (`read_string_literal`).
-/
import Mathlib.Data.List.TakeWhile
import RxNetCap.Lib.Json

set_option autoImplicit false

namespace RxNetCap.JsonText

/-! ## Strings -/

section Strings

variable {s r x : Text}

theorem read_hex_append {k : ℕ} (h : read_hex s = some (k, r)) (q : Text) :
    read_hex (s ++ q) = some (k, r ++ q) := by
  unfold read_hex at h
  split at h
  · next a b c d rest =>
    obtain ⟨a', ha, h⟩ := Option.bind_eq_some_iff.mp h
    obtain ⟨b', hb, h⟩ := Option.bind_eq_some_iff.mp h
    obtain ⟨c', hc, h⟩ := Option.bind_eq_some_iff.mp h
    obtain ⟨d', hd, h⟩ := Option.bind_eq_some_iff.mp h
    cases h
    simp only [List.cons_append, read_hex, ha, hb, hc, hd, Option.bind_eq_bind, Option.bind_some,
      Option.pure_def]
  · cases h

theorem read_low_append {high : ℕ} (h : read_low high s = some (x, r)) (q : Text) :
    read_low high (s ++ q) = some (x, r ++ q) := by
  unfold read_low at h
  split at h
  · next rest =>
    obtain ⟨⟨low, rest'⟩, hlow, h⟩ := Option.bind_eq_some_iff.mp h
    obtain ⟨hrange, h⟩ := Option.ite_none_right_eq_some.mp h
    obtain ⟨hx, rfl⟩ := Prod.mk.inj (Option.some.inj h)
    simp only [List.cons_append, read_low, read_hex_append hlow, Option.bind_eq_bind, Option.bind_some,
      if_pos hrange, hx]
  · cases h

theorem read_escape_append (h : read_escape s = some (x, r)) (q : Text) :
    read_escape (s ++ q) = some (x, r ++ q) := by
  unfold read_escape at h
  split at h
  iterate 8
    · cases h
      rfl
  · next rest =>
    obtain ⟨⟨code, rest'⟩, hcode, h⟩ := Option.bind_eq_some_iff.mp h
    simp only at h
    simp only [List.cons_append, read_escape, read_hex_append hcode, Option.bind_eq_bind, Option.bind_some]
    split at h
    · next hplain =>
      rw [if_pos hplain]
      cases h
      rfl
    · next hplain =>
      obtain ⟨hhigh, h⟩ := Option.ite_none_right_eq_some.mp h
      rw [if_neg hplain, if_pos hhigh, read_low_append h q]
  · cases h

theorem read_string_append {n n' : ℕ} (h : read_string n s = some (x, r)) (hn : n ≤ n') (q : Text) :
    read_string n' (s ++ q) = some (x, r ++ q) := by
  induction n generalizing n' s x with
  | zero => cases h
  | succ n ih =>
    obtain ⟨n', rfl⟩ := Nat.exists_eq_add_of_le' (Nat.one_le_of_lt hn)
    cases s with
    | nil => cases h
    | cons c rest =>
      rw [read_string] at h
      rw [List.cons_append, read_string]
      split at h
      · next hquote =>
        rw [if_pos hquote]
        cases h
        rfl
      · next hquote =>
        rw [if_neg hquote]
        split at h
        · next hback =>
          obtain ⟨⟨e, r1⟩, he, h⟩ := Option.bind_eq_some_iff.mp h
          obtain ⟨⟨t, r2⟩, ht, h⟩ := Option.bind_eq_some_iff.mp h
          cases h
          simp only [if_pos hback, read_escape_append he, ih ht (Nat.le_of_succ_le_succ hn),
            Option.bind_eq_bind, Option.bind_some, Option.pure_def]
        · next hback =>
          rw [if_neg hback]
          split at h
          · cases h
          · next hcontrol =>
            obtain ⟨⟨t, r2⟩, ht, h⟩ := Option.bind_eq_some_iff.mp h
            cases h
            simp only [if_neg hcontrol, ih ht (Nat.le_of_succ_le_succ hn), Option.bind_eq_bind,
              Option.bind_some, Option.pure_def]

end Strings

/-! ## Numbers -/

section Numbers

variable {s r x : Text}

theorem read_digits_append_more (h : read_digits s = some (x, r)) (hr : r ≠ []) (q : Text) :
    read_digits (s ++ q) = some (x, r ++ q) := by
  unfold read_digits at h
  split at h
  · cases h
  · next hne =>
    cases h
    have htake : (s ++ q).takeWhile Char.isDigit = s.takeWhile Char.isDigit := by
      rw [List.takeWhile_append, if_neg]
      intro hall
      exact hr (List.dropWhile_eq_nil_iff.mpr (List.takeWhile_eq_self_iff.mp
        ((List.takeWhile_prefix _).eq_of_length hall)))
    have hdrop : (s ++ q).dropWhile Char.isDigit = s.dropWhile Char.isDigit ++ q := by
      rw [List.dropWhile_append, if_neg]
      simpa using hr
    rw [read_digits, htake, hdrop, if_neg hne]

theorem read_integer_append (h : read_integer s = some (x, r)) (hr : r ≠ []) (q : Text) :
    read_integer (s ++ q) = some (x, r ++ q) := by
  unfold read_integer at h
  split at h
  · cases h
    rfl
  · next hzero =>
    have hread := read_digits_append_more h hr q
    cases s with
    | nil => cases h
    | cons c rest =>
      rw [List.cons_append] at hread ⊢
      rw [read_integer]
      · exact hread
      · intro rest' heq
        exact hzero rest (by rw [(List.cons.inj heq).1])

theorem read_fraction_append (h : read_fraction s = some (x, r)) (hr : r ≠ []) (q : Text) :
    read_fraction (s ++ q) = some (x, r ++ q) ∧ s ≠ [] := by
  unfold read_fraction at h
  split at h
  · next rest =>
    obtain ⟨⟨digits, rest'⟩, hdigits, h⟩ := Option.bind_eq_some_iff.mp h
    cases h
    refine ⟨?_, List.cons_ne_nil _ _⟩
    simp only [List.cons_append, read_fraction, read_digits_append_more hdigits hr, Option.bind_eq_bind,
      Option.bind_some, Option.pure_def]
  · next hpoint =>
    cases h
    refine ⟨?_, hr⟩
    obtain ⟨c, rest, rfl⟩ := List.exists_cons_of_ne_nil hr
    rw [List.cons_append, read_fraction]
    intro rest' heq
    exact hpoint rest (by rw [(List.cons.inj heq).1])

theorem read_sign_append (hs : s ≠ []) (q : Text) :
    read_sign (s ++ q) = ((read_sign s).1, (read_sign s).2 ++ q) := by
  obtain ⟨c, rest, rfl⟩ := List.exists_cons_of_ne_nil hs
  by_cases hminus : c = '-'
  · rw [hminus]
    rfl
  · by_cases hplus : c = '+'
    · rw [hplus]
      rfl
    · have hnone : ∀ rest', read_sign (c :: rest') = ([], c :: rest') := by
        intro rest'
        rw [read_sign]
        · exact fun _ heq => hminus (List.cons.inj heq).1
        · exact fun _ heq => hplus (List.cons.inj heq).1
      rw [List.cons_append, hnone, hnone]
      rfl

theorem read_exponent_append (h : read_exponent s = some (x, r)) (hr : r ≠ []) (q : Text) :
    read_exponent (s ++ q) = some (x, r ++ q) ∧ s ≠ [] := by
  cases s with
  | nil =>
    cases h
    exact absurd rfl hr
  | cons c rest =>
    refine ⟨?_, List.cons_ne_nil _ _⟩
    rw [read_exponent] at h
    rw [List.cons_append, read_exponent]
    split at h
    · next hletter =>
      have h : ((read_digits (read_sign rest).2).bind fun r => some (c :: (read_sign rest).1 ++ r.1, r.2))
          = some (x, r) := h
      obtain ⟨⟨digits, rest'⟩, hdigits, h⟩ := Option.bind_eq_some_iff.mp h
      obtain ⟨rfl, rfl⟩ := Prod.mk.inj (Option.some.inj h)
      have hne : rest ≠ [] := by
        rintro rfl
        cases hdigits
      rw [if_pos hletter, read_sign_append hne]
      simp only [read_digits_append_more hdigits hr, Option.bind_eq_bind, Option.bind_some, Option.pure_def]
    · next hletter =>
      cases h
      rw [if_neg hletter, List.cons_append]

theorem read_unsigned_append (h : read_unsigned s = some (x, r)) (hr : r ≠ []) (q : Text) :
    read_unsigned (s ++ q) = some (x, r ++ q) := by
  obtain ⟨⟨integer, s1⟩, hinteger, h⟩ := Option.bind_eq_some_iff.mp h
  obtain ⟨⟨fraction, s2⟩, hfraction, h⟩ := Option.bind_eq_some_iff.mp h
  obtain ⟨⟨exponent, s3⟩, hexponent, h⟩ := Option.bind_eq_some_iff.mp h
  cases h
  obtain ⟨hexponent, hs2⟩ := read_exponent_append hexponent hr q
  obtain ⟨hfraction, hs1⟩ := read_fraction_append hfraction hs2 q
  have hinteger := read_integer_append hinteger hs1 q
  simp only [read_unsigned, hinteger, hfraction, hexponent, Option.bind_eq_bind, Option.bind_some,
    Option.pure_def]

theorem read_number_append (h : read_number s = some (x, r)) (hr : r ≠ []) (q : Text) :
    read_number (s ++ q) = some (x, r ++ q) := by
  unfold read_number at h
  split at h
  · next rest =>
    obtain ⟨⟨literal, rest'⟩, hliteral, h⟩ := Option.bind_eq_some_iff.mp h
    cases h
    simp only [List.cons_append, read_number, read_unsigned_append hliteral hr, Option.bind_eq_bind,
      Option.bind_some, Option.pure_def]
  · next hminus =>
    have hread := read_unsigned_append h hr q
    cases s with
    | nil => cases h
    | cons c rest =>
      rw [List.cons_append] at hread ⊢
      rw [read_number]
      · exact hread
      · intro rest' heq
        exact hminus rest (by rw [(List.cons.inj heq).1])

end Numbers

/-! ## Values -/

theorem read_name_append {name : String} {value v : Json} {s r : Text}
    (h : read_name name value s = some (v, r)) (q : Text) :
    read_name name value (s ++ q) = some (v, r ++ q) := by
  obtain ⟨⟨rest, rfl⟩, h⟩ := Option.ite_none_right_eq_some.mp h
  obtain ⟨rfl, rfl⟩ := Prod.mk.inj (Option.some.inj h)
  rw [read_name, List.append_assoc, if_pos (List.prefix_append _ _), List.drop_left, List.drop_left]

theorem skip_append {s : Text} (h : skip s ≠ []) (q : Text) : skip (s ++ q) = skip s ++ q := by
  rw [skip, List.dropWhile_append]
  exact if_neg fun hempty => h (List.isEmpty_iff.mp hempty)

/-- What can be read to its end: all but a number with nothing behind it. -/
def Closed (v : Json) (r : Text) : Prop := r ≠ [] ∨ ∀ literal, v ≠ .number literal

/-- What is read at depth `n` is read at any greater depth in front of anything. -/
structure Extends (n : ℕ) : Prop where
  value : ∀ {s r : Text} {v : Json}, read_value n s = some (v, r) → Closed v r →
    ∀ n' ≥ n, ∀ q, read_value n' (s ++ q) = some (v, r ++ q)
  members : ∀ {s r : Text} {ms : Members}, read_members n s = some (ms, r) →
    ∀ n' ≥ n, ∀ q, read_members n' (s ++ q) = some (ms, r ++ q)
  more_members : ∀ {s r : Text} {ms : Members}, read_more_members n s = some (ms, r) →
    ∀ n' ≥ n, ∀ q, read_more_members n' (s ++ q) = some (ms, r ++ q)
  elements : ∀ {s r : Text} {vs : List Json}, read_elements n s = some (vs, r) →
    ∀ n' ≥ n, ∀ q, read_elements n' (s ++ q) = some (vs, r ++ q)
  more_elements : ∀ {s r : Text} {vs : List Json}, read_more_elements n s = some (vs, r) →
    ∀ n' ≥ n, ∀ q, read_more_elements n' (s ++ q) = some (vs, r ++ q)

/-- What stands behind the blanks, if anything does. -/
theorem skip_append_cons {s rest : Text} {d : Char} (h : skip s = d :: rest) (q : Text) :
    skip (s ++ q) = d :: (rest ++ q) := by
  rw [skip_append (h ▸ List.cons_ne_nil _ _), h, List.cons_append]

theorem closed_of_skip {v : Json} {r : Text} (h : skip r ≠ []) : Closed v r := by
  refine .inl ?_
  rintro rfl
  exact h rfl

theorem read_more_members_ne {n : ℕ} {s : Text} {out : Members × Text}
    (h : read_more_members n s = some out) : s ≠ [] := by
  rintro rfl
  cases n <;> cases h

theorem read_more_elements_ne {n : ℕ} {s : Text} {out : List Json × Text}
    (h : read_more_elements n s = some out) : s ≠ [] := by
  rintro rfl
  cases n <;> cases h

theorem extends_succ {n : ℕ} (ih : Extends n) : Extends (n + 1) where
  value := by
    intro s r v h hclosed n' hn q
    obtain ⟨n', rfl⟩ := Nat.exists_eq_add_of_le' (Nat.one_le_of_lt hn)
    have hn := Nat.le_of_succ_le_succ hn
    cases s with
    | nil => cases h
    | cons c rest =>
      rw [read_value] at h
      rw [List.cons_append, read_value]
      by_cases hbrace : c = '\x7b'
      · rw [if_pos hbrace] at h ⊢
        split at h
        · cases h
        · next d rest' hskip =>
          rw [skip_append_cons hskip]
          split at h
          · next hend =>
            cases h
            exact if_pos hend
          · next hend =>
            obtain ⟨⟨ms, r'⟩, hms, h⟩ := Option.bind_eq_some_iff.mp h
            cases h
            have hread := ih.members hms n' hn q
            rw [List.cons_append] at hread
            simp only [if_neg hend, hread, Option.bind_eq_bind, Option.bind_some, Option.pure_def]
      rw [if_neg hbrace] at h ⊢
      by_cases hbracket : c = '['
      · rw [if_pos hbracket] at h ⊢
        split at h
        · cases h
        · next d rest' hskip =>
          rw [skip_append_cons hskip]
          split at h
          · next hend =>
            cases h
            exact if_pos hend
          · next hend =>
            obtain ⟨⟨vs, r'⟩, hvs, h⟩ := Option.bind_eq_some_iff.mp h
            cases h
            have hread := ih.elements hvs n' hn q
            rw [List.cons_append] at hread
            simp only [if_neg hend, hread, Option.bind_eq_bind, Option.bind_some, Option.pure_def]
      rw [if_neg hbracket] at h ⊢
      by_cases hquote : c = '"'
      · rw [if_pos hquote] at h ⊢
        obtain ⟨⟨x, r'⟩, hx, h⟩ := Option.bind_eq_some_iff.mp h
        cases h
        have hlength : rest.length ≤ (rest ++ q).length := by
          rw [List.length_append]
          exact Nat.le_add_right _ _
        simp only [read_string_append hx hlength q, Option.bind_eq_bind, Option.bind_some, Option.pure_def]
      rw [if_neg hquote] at h ⊢
      by_cases ht : c = 't'
      · rw [if_pos ht] at h ⊢
        exact read_name_append h q
      rw [if_neg ht] at h ⊢
      by_cases hf : c = 'f'
      · rw [if_pos hf] at h ⊢
        exact read_name_append h q
      rw [if_neg hf] at h ⊢
      by_cases hnull : c = 'n'
      · rw [if_pos hnull] at h ⊢
        exact read_name_append h q
      rw [if_neg hnull] at h ⊢
      obtain ⟨⟨literal, r'⟩, hliteral, h⟩ := Option.bind_eq_some_iff.mp h
      cases h
      have hr : r ≠ [] := hclosed.resolve_right fun hnot => hnot literal rfl
      have hread := read_number_append hliteral hr q
      rw [List.cons_append] at hread
      simp only [hread, Option.bind_eq_bind, Option.bind_some, Option.pure_def]
  members := by
    intro s r ms h n' hn q
    obtain ⟨n', rfl⟩ := Nat.exists_eq_add_of_le' (Nat.one_le_of_lt hn)
    have hn := Nat.le_of_succ_le_succ hn
    cases s with
    | nil => cases h
    | cons c rest =>
      rw [read_members] at h
      obtain ⟨hquote, h⟩ := Option.ite_none_right_eq_some.mp h
      obtain ⟨⟨name, r1⟩, hname, h⟩ := Option.bind_eq_some_iff.mp h
      simp only at h
      have hlength : rest.length ≤ (rest ++ q).length := by
        rw [List.length_append]
        exact Nat.le_add_right _ _
      rw [List.cons_append, read_members, if_pos hquote]
      simp only [read_string_append hname hlength q, Option.bind_eq_bind, Option.bind_some]
      split at h
      · cases h
      · next d r2 hskip =>
        rw [skip_append_cons hskip]
        obtain ⟨hcolon, h⟩ := Option.ite_none_right_eq_some.mp h
        obtain ⟨⟨v, r3⟩, hv, h⟩ := Option.bind_eq_some_iff.mp h
        obtain ⟨⟨ms', r4⟩, hms, h⟩ := Option.bind_eq_some_iff.mp h
        cases h
        have hbehind := read_more_members_ne hms
        have hblank : skip r2 ≠ [] := by
          intro hnil
          simp only [hnil] at hv
          cases n <;> cases hv
        have hvalue := ih.value hv (closed_of_skip hbehind) n' hn q
        have hmore := ih.more_members hms n' hn q
        simp only [if_pos hcolon, skip_append hblank, hvalue, skip_append hbehind, hmore,
          Option.bind_some, Option.pure_def]
  more_members := by
    intro s r ms h n' hn q
    obtain ⟨n', rfl⟩ := Nat.exists_eq_add_of_le' (Nat.one_le_of_lt hn)
    have hn := Nat.le_of_succ_le_succ hn
    cases s with
    | nil => cases h
    | cons c rest =>
      rw [read_more_members] at h
      rw [List.cons_append, read_more_members]
      by_cases hcomma : c = ','
      · rw [if_pos hcomma] at h ⊢
        have hblank : skip rest ≠ [] := by
          intro hnil
          rw [hnil] at h
          cases n <;> cases h
        rw [skip_append hblank]
        exact ih.members h n' hn q
      · rw [if_neg hcomma] at h ⊢
        obtain ⟨hend, h⟩ := Option.ite_none_right_eq_some.mp h
        cases h
        exact if_pos hend
  elements := by
    intro s r vs h n' hn q
    obtain ⟨n', rfl⟩ := Nat.exists_eq_add_of_le' (Nat.one_le_of_lt hn)
    have hn := Nat.le_of_succ_le_succ hn
    rw [read_elements] at h
    obtain ⟨⟨v, r1⟩, hv, h⟩ := Option.bind_eq_some_iff.mp h
    obtain ⟨⟨vs', r2⟩, hvs, h⟩ := Option.bind_eq_some_iff.mp h
    cases h
    have hbehind := read_more_elements_ne hvs
    have hvalue := ih.value hv (closed_of_skip hbehind) n' hn q
    have hmore := ih.more_elements hvs n' hn q
    simp only [read_elements, hvalue, skip_append hbehind, hmore, Option.bind_eq_bind, Option.bind_some,
      Option.pure_def]
  more_elements := by
    intro s r vs h n' hn q
    obtain ⟨n', rfl⟩ := Nat.exists_eq_add_of_le' (Nat.one_le_of_lt hn)
    have hn := Nat.le_of_succ_le_succ hn
    cases s with
    | nil => cases h
    | cons c rest =>
      rw [read_more_elements] at h
      rw [List.cons_append, read_more_elements]
      by_cases hcomma : c = ','
      · rw [if_pos hcomma] at h ⊢
        have hblank : skip rest ≠ [] := by
          intro hnil
          rw [hnil] at h
          cases n with
          | zero => cases h
          | succ n =>
            obtain ⟨⟨v, r1⟩, hv, h⟩ := Option.bind_eq_some_iff.mp h
            cases n <;> cases hv
        rw [skip_append hblank]
        exact ih.elements h n' hn q
      · rw [if_neg hcomma] at h ⊢
        obtain ⟨hend, h⟩ := Option.ite_none_right_eq_some.mp h
        cases h
        exact if_pos hend

/-- By induction on the depth. -/
theorem extends_all (n : ℕ) : Extends n := by
  induction n with
  | zero => exact ⟨nofun, nofun, nofun, nofun, nofun⟩
  | succ n ih => exact extends_succ ih

/-- **What is read of a text is read of it in front of anything**, at any greater
depth. -/
theorem read_value_append {n n' : ℕ} {s r : Text} {v : Json} (h : read_value n s = some (v, r))
    (hclosed : Closed v r) (hn : n ≤ n') (q : Text) : read_value n' (s ++ q) = some (v, r ++ q) :=
  (extends_all n).value h hclosed n' hn q

/-! ## Taking off the members -/

section Members

variable {n : ℕ} {name t rest r : Text} {v : Json} {ms : Members}

theorem Stops.skip (h : Stops rest) : JsonText.skip rest = rest := by
  cases rest with
  | nil => rfl
  | cons c rest =>
    refine skip_cons ?_ rest
    rcases h c rfl with rfl | rfl | rfl <;> rfl

/-- What is read up to the value of a member. -/
theorem read_name_off (hname : IsName name) {text : Text}
    (h : read_members n (member_text name text) = some (ms, r)) :
    ∃ m v r' ms', ms = (name, v) :: ms' ∧ read_value m (skip text) = some (v, r') ∧
      read_more_members m (skip r') = some (ms', r) := by
  have hspells : Spells name name := spells_plain fun c hc => (hname c hc).1
  cases n with
  | zero => cases h
  | succ n =>
    have htext : member_text name text = '"' :: (name ++ '"' :: ':' :: text) := by simp [member_text]
    have hread := hspells (':' :: text) (name ++ '"' :: ':' :: text).length (by simp)
    rw [htext, read_members, if_pos rfl, hread] at h
    simp only [Option.bind_eq_bind, Option.bind_some, skip_cons (c := ':') rfl, if_true] at h
    obtain ⟨⟨v, r'⟩, hv, h⟩ := Option.bind_eq_some_iff.mp h
    obtain ⟨⟨ms', r''⟩, hms, h⟩ := Option.bind_eq_some_iff.mp h
    cases h
    exact ⟨n, v, r', ms', rfl, hv, hms⟩

/-- A member that was written as the text of a value is that value. -/
theorem read_member_off (hname : IsName name) (hvalue : Reads v t) (hstops : Stops rest)
    (h : read_members n (member_text name t ++ rest) = some (ms, r)) :
    ∃ m ms', ms = (name, v) :: ms' ∧ read_more_members m rest = some (ms', r) := by
  have htext : member_text name t ++ rest = member_text name (t ++ rest) := by simp [member_text]
  rw [htext] at h
  obtain ⟨m, v', r', ms', rfl, hv, hmore⟩ := read_name_off hname h
  rw [hvalue.skip] at hv
  have hdeep := read_value_append hv (closed_of_skip (read_more_members_ne hmore))
    (Nat.le_add_left m t.length) []
  rw [List.append_nil, List.append_nil, hvalue.reads rest hstops _ (Nat.le_add_right _ _)] at hdeep
  cases hdeep
  rw [hstops.skip] at hmore
  exact ⟨m, ms', rfl, hmore⟩

/-- Behind a comma stands the next member. -/
theorem read_comma_off {text : Text} (h : read_more_members n (',' :: member_text name text) = some (ms, r)) :
    ∃ m, read_members m (member_text name text) = some (ms, r) := by
  cases n with
  | zero => cases h
  | succ n => exact ⟨n, h⟩

/-- Of a member that was put between quotes as it is, some string is read. -/
theorem read_string_off (hname : IsName name) {u : Text}
    (h : read_members n (member_text name ('"' :: (u ++ '"' :: rest))) = some (ms, r)) :
    ∃ m m' s r' ms', ms = (name, .string s) :: ms' ∧ read_string m (u ++ '"' :: rest) = some (s, r') ∧
      read_more_members m' (skip r') = some (ms', r) := by
  obtain ⟨m', v, r', ms', rfl, hv, hmore⟩ := read_name_off hname h
  cases m' with
  | zero => cases hv
  | succ m' =>
    obtain ⟨⟨s, r''⟩, hs, hv⟩ := Option.bind_eq_some_iff.mp hv
    cases hv
    exact ⟨_, _, s, r', ms', rfl, hs, hmore⟩

end Members

/-! ## Strings put between quotes as they are -/

section Literal

variable {n : ℕ} {u rest s r : Text}

theorem read_hex_off {k : ℕ} (h : read_hex (u ++ '"' :: rest) = some (k, r)) :
    ∃ w u', u = w ++ u' ∧ w.length = 4 ∧ r = u' ++ '"' :: rest := by
  have hquote : hex_digit '"' = none := rfl
  generalize htext : u ++ '"' :: rest = text at h
  unfold read_hex at h
  split at h
  · next a b c d r' =>
    obtain ⟨a', ha, h⟩ := Option.bind_eq_some_iff.mp h
    obtain ⟨b', hb, h⟩ := Option.bind_eq_some_iff.mp h
    obtain ⟨c', hc, h⟩ := Option.bind_eq_some_iff.mp h
    obtain ⟨d', hd, h⟩ := Option.bind_eq_some_iff.mp h
    cases h
    -- the quote is no digit, so it stands behind all four
    match u, htext with
    | [], htext =>
      cases htext
      rw [hquote] at ha
      cases ha
    | [_], htext =>
      cases htext
      rw [hquote] at hb
      cases hb
    | [_, _], htext =>
      cases htext
      rw [hquote] at hc
      cases hc
    | [_, _, _], htext =>
      cases htext
      rw [hquote] at hd
      cases hd
    | _ :: _ :: _ :: _ :: u', htext =>
      cases htext
      exact ⟨[a, b, c, d], u', rfl, rfl, rfl⟩
  · cases h

theorem octets_length (code : ℕ) : (octets code).length ≤ 4 := by
  unfold octets
  split_ifs <;> simp

theorem read_low_off {high : ℕ} {e : Text} (h : read_low high (u ++ '"' :: rest) = some (e, r)) :
    ∃ w u', u = w ++ u' ∧ e.length ≤ w.length ∧ r = u' ++ '"' :: rest := by
  generalize htext : u ++ '"' :: rest = text at h
  unfold read_low at h
  split at h
  · next r' =>
    obtain ⟨⟨low, r''⟩, hlow, h⟩ := Option.bind_eq_some_iff.mp h
    obtain ⟨-, h⟩ := Option.ite_none_right_eq_some.mp h
    obtain ⟨rfl, rfl⟩ := Prod.mk.inj (Option.some.inj h)
    match u, htext with
    | [], htext => cases htext
    | [_], htext => cases htext
    | _ :: _ :: u', htext =>
      cases htext
      obtain ⟨w, u'', rfl, hw, hr⟩ := read_hex_off hlow
      refine ⟨'\\' :: 'u' :: w, u'', rfl, ?_, hr⟩
      have hoctets := octets_length (0x10000 + (high - 0xD800) * 0x400 + (low - 0xDC00))
      simp only [List.length_cons, hw]
      omega
  · cases h

/-- An escape takes the quote behind the text, or it is shorter than what it is
written as. -/
theorem read_escape_off {e : Text} (h : read_escape (u ++ '"' :: rest) = some (e, r)) :
    (u = [] ∧ e = ['"'] ∧ r = rest) ∨
      ∃ w u', u = w ++ u' ∧ e.length ≤ w.length ∧ r = u' ++ '"' :: rest := by
  cases u with
  | nil =>
    cases h
    exact .inl ⟨rfl, rfl, rfl⟩
  | cons c u =>
    refine .inr ?_
    rw [List.cons_append] at h
    unfold read_escape at h
    split at h
    iterate 8
      · next heq =>
        cases heq
        cases h
        exact ⟨[_], u, rfl, le_rfl, rfl⟩
    · next heq =>
      cases heq
      obtain ⟨⟨code, r'⟩, hcode, h⟩ := Option.bind_eq_some_iff.mp h
      obtain ⟨w, u', rfl, hw, rfl⟩ := read_hex_off hcode
      simp only at h
      split at h
      · cases h
        refine ⟨'u' :: w, u', rfl, ?_, rfl⟩
        have hoctets := octets_length code
        rw [List.length_cons, hw]
        omega
      · obtain ⟨-, h⟩ := Option.ite_none_right_eq_some.mp h
        obtain ⟨w', u'', rfl, hw', rfl⟩ := read_low_off h
        refine ⟨'u' :: (w ++ w'), u'', by simp, ?_, rfl⟩
        simp only [List.length_cons, List.length_append]
        omega
    · cases h

/-- What is read of a string in front of a quote: something shorter, the string
itself when every character can stand there, or, when it ends in a backslash, a
string that goes on behind the quote. -/
theorem read_string_cases (h : read_string n (u ++ '"' :: rest) = some (s, r)) :
    s.length < u.length ∨ ((∀ c ∈ u, Plain c) ∧ s = u ∧ r = rest) ∨
      ∃ front t m, s = front ++ '"' :: t ∧ front.length < u.length ∧ u.getLast? = some '\\' ∧
        read_string m rest = some (t, r) := by
  induction n generalizing u s with
  | zero => cases h
  | succ n ih =>
    cases u with
    | nil =>
      cases h
      exact .inr (.inl ⟨nofun, rfl, rfl⟩)
    | cons c u =>
      rw [List.cons_append, read_string] at h
      by_cases hquote : c = '"'
      · rw [if_pos hquote] at h
        cases h
        exact .inl (Nat.succ_pos _)
      rw [if_neg hquote] at h
      by_cases hback : c = '\\'
      · rw [if_pos hback] at h
        obtain ⟨⟨e, r1⟩, he, h⟩ := Option.bind_eq_some_iff.mp h
        obtain ⟨⟨t, r2⟩, ht, h⟩ := Option.bind_eq_some_iff.mp h
        cases h
        rcases read_escape_off he with ⟨rfl, rfl, rfl⟩ | ⟨w, u', rfl, hw, rfl⟩
        · exact .inr (.inr ⟨[], t, n, rfl, Nat.succ_pos _, by rw [hback]; rfl, ht⟩)
        · rcases ih ht with hshort | ⟨-, rfl, -⟩ | ⟨front, t', m, rfl, hfront, hlast, hrest⟩
          · refine .inl ?_
            simp only [List.length_append, List.length_cons]
            omega
          · refine .inl ?_
            simp only [List.length_append, List.length_cons]
            omega
          · refine .inr (.inr ⟨e ++ front, t', m, by simp, ?_, ?_, hrest⟩)
            · simp only [List.length_append, List.length_cons]
              omega
            · rw [← List.cons_append, List.getLast?_append, hlast]
              rfl
      rw [if_neg hback] at h
      obtain ⟨hcontrol, h⟩ := Option.ite_none_left_eq_some.mp h
      obtain ⟨⟨t, r2⟩, ht, h⟩ := Option.bind_eq_some_iff.mp h
      cases h
      rcases ih ht with hshort | ⟨hplain, rfl, hr⟩ | ⟨front, t', m, rfl, hfront, hlast, hrest⟩
      · exact .inl (Nat.succ_lt_succ hshort)
      · exact .inr (.inl ⟨List.forall_mem_cons.mpr ⟨⟨hquote, hback, not_lt.mp hcontrol⟩, hplain⟩, rfl, hr⟩)
      · refine .inr (.inr ⟨c :: front, t', m, rfl, Nat.succ_lt_succ hfront, ?_, hrest⟩)
        rw [List.getLast?_cons, hlast]
        rfl

/-- **A string that is written as it is is read back only if every character of it
can stand there**, also when the writer has cut it; behind it a string of one comma
may begin, or none. -/
theorem read_string_literal (hcut : u <+: s) (h : read_string n (u ++ '"' :: rest) = some (s, r))
    (hrest : ∀ m t r', read_string m rest = some (t, r') → t = [',']) :
    (∀ c ∈ s, Plain c) ∧ u = s ∧ r = rest := by
  rcases read_string_cases h with hshort | ⟨hplain, rfl, hr⟩ | ⟨front, t, m, rfl, hfront, hlast, ht⟩
  · exact absurd hcut.length_le (by omega)
  · exact ⟨hplain, rfl, hr⟩
  · -- what is read ends in a comma behind the quote, and so does not go on from a backslash
    obtain rfl := hrest m t r ht
    obtain ⟨z, hz⟩ := hcut
    exfalso
    obtain ⟨w, rfl⟩ : ∃ w, u = front ++ w := by
      have hprefix : front <+: u := by
        have hwhole : front <+: front ++ ['"', ','] := List.prefix_append _ _
        exact List.prefix_of_prefix_length_le hwhole ⟨z, hz⟩ (le_of_lt hfront)
      exact hprefix.imp fun _ hw => hw.symm
    rw [List.append_assoc] at hz
    have hw := List.append_cancel_left hz
    match w, hw with
    | [], _ => simp at hfront
    | [_], hw =>
      cases hw
      simp at hlast
    | [_, _], hw =>
      cases hw
      simp at hlast
    | _ :: _ :: _ :: _, hw => cases hw

end Literal

/-! ## A text that was cut -/

/-- An object that is read of the front of a text is read of the text. When nothing
is left of the text then, it was not cut. -/
theorem decode_cut {t : Text} {k : ℕ} {ms : Members}
    (h : decode (('\x7b' :: t).take k) = some (.object ms)) :
    ∃ n r, read_value n ('\x7b' :: t) = some (.object ms, r) ∧
      (r = [] → ('\x7b' :: t).length ≤ k ∧ Utf8.Valid ('\x7b' :: t)) := by
  rw [decode] at h
  obtain ⟨hvalid, h⟩ := Option.ite_none_right_eq_some.mp h
  cases k with
  | zero => cases h
  | succ k =>
    rw [List.take_succ_cons] at h hvalid
    rw [skip_cons (c := '\x7b') rfl] at h
    split at h
    · next v rest hread =>
      obtain ⟨-, h⟩ := Option.ite_none_right_eq_some.mp h
      cases h
      have hwhole := read_value_append hread (.inr fun _ hnumber => by cases hnumber) le_rfl (t.drop k)
      rw [List.cons_append, List.take_append_drop] at hwhole
      refine ⟨_, _, hwhole, fun hnil => ?_⟩
      have hdrop : t.length ≤ k := List.drop_eq_nil_iff.mp (List.append_eq_nil_iff.mp hnil).2
      rw [List.take_of_length_le hdrop] at hvalid
      exact ⟨Nat.succ_le_succ hdrop, hvalid⟩
    · cases h

end RxNetCap.JsonText
