/-
White space and comments between two tokens.

Where a token ends is decided by the characters it has taken and by the first
one it does not take. So a token that ends in front of the text `x` ends in
front of `y` as well, as the same token, if `y` starts with a character that no
token goes on with (`next_cut`); and white space and comments do. The tokens of
a text are then the same with any separators at the places between them
(`lex_separated`), and the parser sees the tokens only.

Only a string that is cut off by the end of the text goes on into whatever is
put behind it; there is no next token then.
-/
import RxNetCap.Pdef.Insertion

set_option autoImplicit false

namespace RxNetCap.Pdef

open Relation

/-! ## One token in front of another text -/

/-- No token goes on into `y`. -/
structure Ends (y : Lexer) : Prop where
  not_alnum : is_alnum (current_char y) = false
  not_equals : current_char y ≠ '='
  not_quote : current_char y ≠ '"'

/-- A call that ends in front of `x` gives the same token, and leaves the same,
in front of `y`. -/
def Cut (x y : Lexer) (r : Lexer → Token × Lexer) : Prop :=
  ∀ t b, r x = (t, b ++ x) → r y = (t, b ++ y)

theorem current_char_cons (c : Char) (l : Lexer) : current_char (c :: l) = c := rfl

theorem peek_char_cons (c : Char) (l : Lexer) : peek_char (c :: l) 1 = current_char l := by
  cases l <;> rfl

section Cut

variable {x y : Lexer}

theorem take_chars_end {p : Char → Bool} (hy : p (current_char y) = false) (w : CStr) :
    take_chars p (w ++ y) = take_chars p w := by
  cases y with
  | nil => rw [List.append_nil]
  | cons e post => exact take_chars_before hy w post

/-- A token that is no longer than `w` is made of characters of `w`. -/
theorem take_chars_inside {p : Char → Bool} {w : CStr}
    (h : (take_chars p (w ++ x)).length ≤ w.length) :
    take_chars p (w ++ x) = take_chars p w := by
  rw [take_chars, List.take_append, List.takeWhile_append] at h ⊢
  split at h
  · rename_i hall
    rw [if_pos hall]
    have hprefix : (w.take 255).takeWhile p = w.take 255 :=
      (List.takeWhile_prefix _).eq_of_length hall
    rw [List.length_append] at h
    have hnone : (x.take (255 - w.length)).takeWhile p = [] := by
      by_cases hlong : 255 ≤ w.length
      · rw [Nat.sub_eq_zero_of_le hlong]
        rfl
      · rw [List.length_take, Nat.min_eq_right (by omega)] at h
        exact List.length_eq_zero_iff.mp (by omega)
    rw [hnone, List.append_nil, take_chars, hprefix]
  · rename_i hall
    rw [if_neg hall]
    rfl

theorem Cut.of_chars {p : Char → Bool} (hy : p (current_char y) = false) (w : CStr)
    (f : CStr → Token) :
    Cut x y fun z => (f (take_chars p (w ++ z)), (w ++ z).drop (take_chars p (w ++ z)).length) := by
  intro t b h
  rw [Prod.mk.injEq] at h
  obtain ⟨rfl, hrest⟩ := h
  have hlength := congrArg List.length hrest
  have hle := take_chars_le p (w ++ x)
  rw [List.length_drop, List.length_append, List.length_append] at hlength
  rw [List.length_append] at hle
  have hinside : (take_chars p (w ++ x)).length ≤ w.length := by omega
  rw [List.drop_append_of_le_length hinside] at hrest
  rw [take_chars_inside hinside] at hrest ⊢
  dsimp only
  rw [take_chars_end hy, List.drop_append_of_le_length (take_chars_le p w),
    List.append_cancel_right hrest]

/-- A call that takes a part of `x` does not end in front of it. -/
theorem Cut.of_short {r : Lexer → Token × Lexer} (h : (r x).2.length < x.length) : Cut x y r := by
  intro t b hr
  rw [hr, List.length_append] at h
  omega

theorem Cut.of_eq {r r' : Lexer → Token × Lexer} (hx : r x = r' x) (hy : r y = r' y)
    (h : Cut x y r') : Cut x y r := by
  intro t b hr
  rw [hy]
  exact h t b (hx ▸ hr)

/-- A call that leaves what follows `w`. -/
theorem Cut.const (t : Token) (w : CStr) : Cut x y fun z => (t, w ++ z) := by
  intro t' b h
  rw [Prod.mk.injEq] at h
  obtain ⟨rfl, hrest⟩ := h
  rw [List.append_cancel_right hrest]

theorem Cut.ite {p : Prop} [Decidable p] {r r' : Lexer → Token × Lexer} (hr : p → Cut x y r)
    (hr' : ¬p → Cut x y r') : Cut x y fun z => if p then r z else r' z := by
  by_cases h : p
  · simp only [if_pos h]
    exact hr h
  · simp only [if_neg h]
    exact hr' h

theorem read_identifier_cut (hy : Ends y) (w : CStr) :
    Cut x y fun z => read_identifier (w ++ z) :=
  .of_chars hy.not_alnum w fun text => { type := keyword text, text := text }

theorem single_cut (type : TokenType) (c : Char) (w : CStr) :
    Cut x y fun z => single type (c :: (w ++ z)) := .const { type := type, text := [c] } w

theorem with_equals_cut (hy : Ends y) (one two : TokenType) (c : Char) (w : CStr) :
    Cut x y fun z => with_equals one two (c :: (w ++ z)) := by
  cases w with
  | nil =>
    -- an equals sign would have been taken
    by_cases hequals : current_char x = '='
    · refine .of_short ?_
      cases x with
      | nil => cases hequals
      | cons d x' =>
        rw [current_char_cons] at hequals
        subst hequals
        exact Nat.lt_succ_self _
    · refine .of_eq ?_ ?_ (.const { type := one, text := [c] } [])
      · rw [List.nil_append, with_equals, peek_char_cons, if_neg hequals]
        rfl
      · rw [List.nil_append, with_equals, peek_char_cons, if_neg hy.not_equals]
        rfl
  | cons d w =>
    have hpeek (z : Lexer) : peek_char (c :: (d :: w ++ z)) 1 = d := rfl
    simp only [with_equals, hpeek]
    exact .ite (fun _ => .const _ w) fun _ => .const _ (d :: w)

/-- The digits of a hexadecimal number. -/
theorem hex_cut (hhex : is_hex_digit (current_char y) = false) (w : CStr) :
    Cut x y fun z =>
      if (take_chars is_hex_digit (w ++ z)).length = 0 then
        (({ type := .NUMBER, ok := false } : Token), w ++ z)
      else ({ type := .NUMBER, text := take_chars is_hex_digit (w ++ z)
              value := strtoull (take_chars is_hex_digit (w ++ z)) 16 },
        (w ++ z).drop (take_chars is_hex_digit (w ++ z)).length) := by
  have hchars : Cut x y _ := .of_chars hhex w fun text =>
    if text.length = 0 then { type := .NUMBER, ok := false }
    else { type := .NUMBER, text := text, value := strtoull text 16 }
  have hsame (z : Lexer) {text : CStr} :
      (if text.length = 0 then (({ type := .NUMBER, ok := false } : Token), w ++ z)
        else ({ type := .NUMBER, text := text, value := strtoull text 16 }, (w ++ z).drop text.length))
      = (if text.length = 0 then { type := .NUMBER, ok := false }
          else { type := .NUMBER, text := text, value := strtoull text 16 },
        (w ++ z).drop text.length) := by
    by_cases hempty : text.length = 0
    · rw [if_pos hempty, if_pos hempty, hempty, List.drop_zero]
    · rw [if_neg hempty, if_neg hempty]
  exact .of_eq (hsame x) (hsame y) hchars

theorem read_number_cut (hy : Ends y) (c : Char) (w : CStr) :
    Cut x y fun z => read_number (c :: (w ++ z)) := by
  obtain ⟨hdigit, hhex, hx, hX⟩ := not_digit_of_not_alnum hy.not_alnum
  have hdecimal : Cut x y _ := .of_chars hdigit (c :: w) fun text =>
    { type := .NUMBER, text := text, value := strtoull text 10 }
  cases w with
  | nil =>
    by_cases hprefix : c = '0' ∧ (current_char x = 'x' ∨ current_char x = 'X')
    · -- the `x` would have been taken
      refine .of_short ?_
      have hhead : x ≠ [] := by
        rintro rfl
        rcases hprefix.2 with h | h <;> cases h
      have hshort : x.tail.length < x.length := by
        rw [List.length_tail]
        exact Nat.sub_lt (List.length_pos_iff.mpr hhead) Nat.one_pos
      rw [List.nil_append, read_number, current_char_cons, peek_char_cons, if_pos hprefix]
      dsimp only
      split
      · exact hshort
      · refine lt_of_le_of_lt ?_ hshort
        rw [List.length_drop]
        exact Nat.sub_le _ _
    · refine .of_eq ?_ ?_ hdecimal
      · rw [List.nil_append, read_number, current_char_cons, peek_char_cons, if_neg hprefix]
        rfl
      · rw [List.nil_append, read_number, current_char_cons, peek_char_cons, if_neg]
        · rfl
        · rintro ⟨-, h | h⟩
          · exact hx h.symm
          · exact hX h.symm
  | cons d w =>
    have hpeek (z : Lexer) : peek_char (c :: (d :: w ++ z)) 1 = d := rfl
    simp only [read_number, hpeek, current_char_cons]
    exact .ite (fun _ => hex_cut hhex w) fun _ => hdecimal

theorem not_alpha_of_not_alnum {c : Char} (h : is_alnum c = false) : is_alpha c = false := by
  rw [is_alnum, Bool.or_eq_false_iff] at h
  exact h.1

/-- The token of the word behind an `@`. -/
def at_keyword (text : CStr) : Token :=
  if text = "protocol".toList then { type := .PROTOCOL, text := text }
  else if text = "const".toList then { type := .CONST, text := text }
  else if text = "filter".toList then { type := .FILTER, text := text }
  else { type := .ERROR, text := text, ok := false }

theorem read_at_keyword_eq (c : Char) (l : Lexer) :
    read_at_keyword (c :: l) = if is_alpha (current_char l) then
      (at_keyword (take_chars is_alnum l), l.drop (take_chars is_alnum l).length)
      else ({ type := .AT }, l) := by
  rw [read_at_keyword, show advance (c :: l) = l from rfl]
  dsimp only
  by_cases hword : is_alpha (current_char l) = true
  · rw [if_pos hword, if_pos hword]
    unfold at_keyword
    generalize take_chars is_alnum l = text
    repeat' split
    all_goals rfl
  · rw [if_neg hword, if_neg hword]

theorem read_at_keyword_cut (hy : Ends y) (c : Char) (w : CStr) :
    Cut x y fun z => read_at_keyword (c :: (w ++ z)) := by
  simp only [read_at_keyword_eq]
  cases w with
  | nil =>
    have hno : ¬ is_alpha (current_char y) = true := by
      rw [not_alpha_of_not_alnum hy.not_alnum]
      exact Bool.false_ne_true
    by_cases hword : is_alpha (current_char x) = true
    · -- the word would have been taken
      refine .of_short ?_
      cases x with
      | nil => exact absurd hword (by decide)
      | cons d x' =>
        rw [current_char_cons] at hword
        have htaken : 0 < (take_chars is_alnum (d :: x')).length :=
          take_chars_length (by rw [is_alnum, hword, Bool.true_or])
        rw [List.nil_append, current_char_cons, if_pos hword]
        dsimp only
        rw [List.length_drop, List.length_cons]
        omega
    · refine .of_eq ?_ ?_ (.const { type := .AT } [])
      · rw [List.nil_append, if_neg hword]
      · rw [List.nil_append, if_neg hno]
  | cons d w =>
    have hcurrent (z : Lexer) : current_char (d :: w ++ z) = d := rfl
    simp only [hcurrent]
    exact .ite (fun _ => .of_chars hy.not_alnum (d :: w) at_keyword) fun _ => .const _ (d :: w)

/-! ### Strings -/

/-- One turn of the loop. -/
theorem read_string_loop_cons (k : ℕ) (c : Char) (l : Lexer) :
    read_string_loop (k + 1) (c :: l) =
      if c ≠ '"' ∧ c ≠ '\x00' then
        if c = '\\' ∧ current_char l = '"' then
          ('"' :: (read_string_loop k l.tail).1, (read_string_loop k l.tail).2)
        else (c :: (read_string_loop k l).1, (read_string_loop k l).2)
      else ([], c :: l) := by
  rw [read_string_loop, current_char_cons, peek_char_cons]
  rfl

/-- The loop of a string that ends in front of `x`, but not because of what `x`
starts with. -/
theorem read_string_loop_ends (hx : current_char x ≠ '\x00') (hy : Ends y) (k : ℕ) :
    ∀ (w text b : CStr), b ≠ [] ∨ current_char x ≠ '"' →
      read_string_loop k (w ++ x) = (text, b ++ x) → read_string_loop k (w ++ y) = (text, b ++ y) := by
  induction k with
  | zero =>
    intro w text b _ h
    rw [read_string_loop, Prod.mk.injEq] at h
    rw [read_string_loop, h.1, List.append_cancel_right h.2]
  | succ k ih =>
    intro w text b hb h
    have hlength := congrArg (fun r => r.2.length) h
    dsimp only at hlength
    rw [List.length_append] at hlength
    cases w with
    | nil =>
      -- `x` starts with a character of the string, or with the closing quote
      exfalso
      cases x with
      | nil => exact hx rfl
      | cons d x =>
        rw [List.nil_append, read_string_loop_cons] at h hlength
        rw [current_char_cons] at hx hb
        have htaken := read_string_loop_length k x
        have htaken' := read_string_loop_length k x.tail
        rw [List.length_tail] at htaken'
        rw [List.length_cons] at hlength
        by_cases hquote : d = '"'
        · rw [if_neg (fun hmore => hmore.1 hquote), List.length_cons] at hlength
          rcases hb with hb | hb
          · exact hb (List.length_eq_zero_iff.mp (by omega))
          · exact hb hquote
        · rw [if_pos ⟨hquote, hx⟩] at hlength
          split at hlength
          · dsimp only at hlength
            omega
          · dsimp only at hlength
            omega
    | cons c w =>
      rw [List.cons_append, read_string_loop_cons] at h hlength ⊢
      by_cases hmore : c ≠ '"' ∧ c ≠ '\x00'
      · rw [if_pos hmore] at h hlength ⊢
        -- the turn takes `c`, and the rest of the front is left
        have hplain (hno : ¬ (c = '\\' ∧ current_char (w ++ x) = '"'))
            (hno' : ¬ (c = '\\' ∧ current_char (w ++ y) = '"')) :
            (if c = '\\' ∧ current_char (w ++ y) = '"' then
                ('"' :: (read_string_loop k (w ++ y).tail).1, (read_string_loop k (w ++ y).tail).2)
              else (c :: (read_string_loop k (w ++ y)).1, (read_string_loop k (w ++ y)).2))
              = (text, b ++ y) := by
          rw [if_neg hno, Prod.mk.injEq] at h
          rw [if_neg hno', ← h.1, ih w _ b hb (Prod.ext rfl h.2)]
        cases w with
        | nil =>
          by_cases hquote : c = '\\' ∧ current_char x = '"'
          · -- the quote would have been taken
            exfalso
            have hquote' : c = '\\' ∧ current_char ([] ++ x) = '"' := hquote
            rw [if_pos hquote'] at hlength
            have htaken := read_string_loop_length k ([] ++ x).tail
            have hhead : x ≠ [] := by
              rintro rfl
              exact hx rfl
            have hpos := List.length_pos_iff.mpr hhead
            rw [List.nil_append, List.length_tail] at htaken
            dsimp only [List.nil_append] at hlength
            omega
          · exact hplain hquote fun h => hy.not_quote h.2
        | cons d w =>
          by_cases hquote : c = '\\' ∧ d = '"'
          · have hquote' (z : Lexer) : c = '\\' ∧ current_char (d :: w ++ z) = '"' := hquote
            rw [if_pos (hquote' x), Prod.mk.injEq] at h
            rw [if_pos (hquote' y), ← h.1]
            have hrest := ih w _ b hb (Prod.ext rfl h.2)
            exact congrArg (fun r => ('"' :: r.1, r.2)) hrest
          · exact hplain hquote hquote
      · rw [if_neg hmore, Prod.mk.injEq] at h
        have hb' : c :: w = b := List.append_cancel_right h.2
        rw [if_neg hmore, h.1, ← hb']
        rfl

theorem read_string_cut (hx : current_char x ≠ '\x00') (hy : Ends y) (w : CStr) :
    Cut x y fun z => read_string ('"' :: (w ++ z)) := by
  intro t b h
  dsimp only at h ⊢
  rw [read_string_eq, Prod.mk.injEq] at h
  obtain ⟨rfl, hrest⟩ := h
  rw [read_string_eq]
  cases hread : read_string_loop 255 (w ++ x) with
  | mk text rest =>
    rw [hread] at hrest
    dsimp only at hrest
    by_cases hquote : current_char rest = '"'
    · -- the closing quote stands in front of what is left
      have hcons : rest = '"' :: b ++ x := by
        rw [string_rest, if_pos hquote] at hrest
        cases rest with
        | nil => cases hquote
        | cons d rest =>
          rw [current_char_cons] at hquote
          rw [hquote, List.cons_append, ← hrest]
          rfl
      subst hcons
      rw [read_string_loop_ends hx hy 255 w text ('"' :: b) (.inl (List.cons_ne_nil _ _)) hread]
      rfl
    · rw [string_rest, if_neg hquote] at hrest
      subst hrest
      have hopen : current_char (b ++ y) ≠ '"' := by
        cases b with
        | nil => exact hy.not_quote
        | cons d b => exact hquote
      have hb : b ≠ [] ∨ current_char x ≠ '"' := by
        cases b with
        | nil => exact .inr hquote
        | cons d b => exact .inl (List.cons_ne_nil _ _)
      rw [read_string_loop_ends hx hy 255 w text b hb hread]
      dsimp only
      rw [string_rest, if_neg hopen, decide_eq_false hopen, decide_eq_false hquote]

/-! ### The next token -/

/-- **A token that ends in front of `x` ends in front of `y`**, if a string
does. -/
theorem next_cut (hstring : ∀ w : CStr, Cut x y fun z => read_string ('"' :: (w ++ z)))
    (hy : Ends y) {c : Char} {w : CStr}
    {l : Lexer → Lexer} (hlx : skip_whitespace_and_comments (l x) = c :: (w ++ x))
    (hly : skip_whitespace_and_comments (l y) = c :: (w ++ y)) :
    Cut x y fun z => lexer_next_token (l z) := by
  have hsingle (type : TokenType) : Cut x y fun z => single type (c :: (w ++ z)) :=
    single_cut type c w
  have hequals (one two : TokenType) : Cut x y fun z => with_equals one two (c :: (w ++ z)) :=
    with_equals_cut hy one two c w
  have hstays (t : Token) : Cut x y fun z => (t, c :: (w ++ z)) := .const t (c :: w)
  refine @Cut.of_eq x y _ (fun z =>
    if c = '\x00' then ({ type := .EOF }, c :: (w ++ z))
    else if is_alpha c then read_identifier (c :: (w ++ z))
    else if is_digit c then read_number (c :: (w ++ z))
    else if c = '"' then read_string (c :: (w ++ z))
    else if c = '\x7b' then single .LBRACE (c :: (w ++ z))
    else if c = '\x7d' then single .RBRACE (c :: (w ++ z))
    else if c = '[' then single .LBRACKET (c :: (w ++ z))
    else if c = ']' then single .RBRACKET (c :: (w ++ z))
    else if c = ';' then single .SEMICOLON (c :: (w ++ z))
    else if c = ',' then single .COMMA (c :: (w ++ z))
    else if c = '.' then single .DOT (c :: (w ++ z))
    else if c = '@' then read_at_keyword (c :: (w ++ z))
    else if c = '=' then with_equals .ASSIGN .EQ (c :: (w ++ z))
    else if c = '!' then with_equals .NOT .NE (c :: (w ++ z))
    else if c = '<' then with_equals .LT .LE (c :: (w ++ z))
    else if c = '>' then with_equals .GT .GE (c :: (w ++ z))
    else if c = '&' then single .AND (c :: (w ++ z))
    else if c = '|' then single .OR (c :: (w ++ z))
    else ({ type := .ERROR, ok := false }, c :: (w ++ z))) ?_ ?_ ?_
  · rw [lexer_next_token, hlx]
    rfl
  · rw [lexer_next_token, hly]
    rfl
  refine .ite (fun _ => hstays _) fun _ => .ite (fun _ => read_identifier_cut hy (c :: w)) fun _ => ?_
  refine .ite (fun _ => read_number_cut hy c w) fun _ => .ite (fun h => ?_) fun _ => ?_
  · subst h
    exact hstring w
  refine .ite (fun _ => hsingle _) fun _ => .ite (fun _ => hsingle _) fun _ => ?_
  refine .ite (fun _ => hsingle _) fun _ => .ite (fun _ => hsingle _) fun _ => ?_
  refine .ite (fun _ => hsingle _) fun _ => .ite (fun _ => hsingle _) fun _ => ?_
  refine .ite (fun _ => hsingle _) fun _ => .ite (fun _ => read_at_keyword_cut hy c w) fun _ => ?_
  refine .ite (fun _ => hequals _ _) fun _ => .ite (fun _ => hequals _ _) fun _ => ?_
  refine .ite (fun _ => hequals _ _) fun _ => .ite (fun _ => hequals _ _) fun _ => ?_
  exact .ite (fun _ => hsingle _) fun _ => .ite (fun _ => hsingle _) fun _ => hstays _

/-- A comment at the front of a text. -/
theorem skip_of_comment {l : Lexer} (h : starts_comment l = true) :
    skip_comment l = comment_rest l.tail := by
  have hstarts := h
  rw [starts_comment, Bool.and_eq_true, decide_eq_true_eq, decide_eq_true_eq] at h
  cases l with
  | nil => cases hstarts
  | cons c l =>
    have hc : c = '/' := h.1
    rw [skip_comment, if_pos h, hc]
    exact List.dropWhile_cons_of_pos (by decide)

theorem starts_comment_cons (c : Char) (l : Lexer) :
    starts_comment (c :: l) = true ↔ c = '/' ∧ current_char l = '/' := by
  rw [starts_comment, Bool.and_eq_true, decide_eq_true_eq, decide_eq_true_eq, peek_char_cons]
  rfl

/-- What is skipped in front of a token is skipped there in front of any text. -/
theorem skip_cut {c : Char} {w : CStr} (hslash : c ≠ '/') (n : ℕ) : ∀ a : CStr, a.length ≤ n →
    skip_whitespace_and_comments (a ++ x) = c :: (w ++ x) →
    skip_whitespace_and_comments (a ++ y) = c :: (w ++ y) := by
  -- what is left is longer than `x`
  have hlong {l : Lexer} (h : skip_whitespace_and_comments l = c :: (w ++ x)) :
      x.length < l.length := by
    have hskip := skip_length l
    rw [h, List.length_cons, List.length_append] at hskip
    omega
  induction n with
  | zero =>
    intro a ha h
    rw [List.length_eq_zero_iff.mp (Nat.le_zero.mp ha)] at h
    exact absurd (hlong h) (Nat.lt_irrefl _)
  | succ n ih =>
    intro a ha h
    have hsplit (z : Lexer) (hne : a.dropWhile isspace ≠ []) :
        skip_whitespace (a ++ z) = a.dropWhile isspace ++ z := by
      rw [skip_whitespace, List.dropWhile_append, if_neg (by rwa [List.isEmpty_iff])]
    have hspace : (a.dropWhile isspace).length ≤ a.length := (List.dropWhile_sublist _).length_le
    cases hleft : a.dropWhile isspace with
    | nil =>
      have hall : skip_whitespace (a ++ x) = skip_whitespace x := by
        rw [skip_whitespace, List.dropWhile_append, hleft]
        rfl
      have hx : skip_whitespace_and_comments x = c :: (w ++ x) := by
        rw [← h, skip_eq, skip_eq (a ++ x), hall]
      exact absurd (hlong hx) (Nat.lt_irrefl _)
    | cons d v =>
      have hx := hsplit x (by rw [hleft]; exact List.cons_ne_nil _ _)
      have hy := hsplit y (by rw [hleft]; exact List.cons_ne_nil _ _)
      rw [hleft] at hx hy hspace
      rw [List.length_cons] at hspace
      rw [skip_eq, hx] at h
      rw [skip_eq, hy]
      by_cases hcomment : starts_comment (d :: v ++ x) = true
      · rw [if_pos hcomment, skip_of_comment hcomment] at h
        have hrest (z : Lexer) : comment_rest (v ++ z)
            = if (comment_rest v).isEmpty then comment_rest z else comment_rest v ++ z :=
          List.dropWhile_append
        have hh : skip_whitespace_and_comments (comment_rest (v ++ x)) = c :: (w ++ x) := h
        have hends : ¬ (comment_rest v).isEmpty = true := by
          intro hempty
          rw [hrest, if_pos hempty] at hh
          have hshort : (comment_rest x).length ≤ x.length := (List.dropWhile_sublist _).length_le
          exact absurd (hlong hh) (not_lt.mpr hshort)
        -- the comment ends inside
        have hcomment' : starts_comment (d :: v ++ y) = true := by
          rw [List.cons_append, starts_comment_cons] at hcomment ⊢
          cases v with
          | nil => exact absurd rfl hends
          | cons e v => exact hcomment
        have hshort : (comment_rest v).length ≤ v.length := (List.dropWhile_sublist _).length_le
        rw [if_pos hcomment', skip_of_comment hcomment']
        change skip_whitespace_and_comments (comment_rest (v ++ y)) = _
        rw [hrest, if_neg hends] at hh ⊢
        exact ih _ (by omega) hh
      · rw [if_neg hcomment, List.cons_append, List.cons.injEq] at h
        obtain ⟨rfl, hv⟩ := h
        rw [if_neg, List.append_cancel_right hv, List.cons_append]
        rw [List.cons_append, starts_comment_cons]
        exact fun hstarts => hslash hstarts.1

end Cut

/-! ## The rest of a text -/

/-- What a call leaves is an end of the text. -/
def Leaves (l : Lexer) (r : Token × Lexer) : Prop := r.2 <:+ l

theorem Leaves.ite {l : Lexer} {p : Prop} [Decidable p] {r r' : Token × Lexer} (hr : Leaves l r)
    (hr' : Leaves l r') : Leaves l (if p then r else r') := by
  split
  · exact hr
  · exact hr'

theorem advance_suffix (l : Lexer) : advance l <:+ l := List.tail_suffix l

theorem skip_suffix (l : Lexer) : skip_whitespace_and_comments l <:+ l := by
  have hcomment (l : Lexer) : skip_comment l <:+ l := by
    rw [skip_comment]
    split
    · exact List.dropWhile_suffix _
    · exact List.suffix_rfl
  have hloop (n : ℕ) : ∀ l : Lexer, skip_loop n l <:+ l := by
    induction n with
    | zero => exact fun l => List.suffix_rfl
    | succ n ih =>
      intro l
      rw [skip_loop_succ]
      split
      · exact (ih _).trans ((hcomment _).trans (List.dropWhile_suffix _))
      · exact List.dropWhile_suffix _
  exact hloop _ l

theorem read_string_loop_suffix (n : ℕ) : ∀ l : Lexer, (read_string_loop n l).2 <:+ l := by
  induction n with
  | zero => exact fun l => List.suffix_rfl
  | succ n ih =>
    intro l
    rw [read_string_loop]
    split
    · split
      · exact (ih _).trans ((advance_suffix _).trans (advance_suffix l))
      · exact (ih _).trans (advance_suffix l)
    · exact List.suffix_rfl

theorem read_number_leaves (l : Lexer) : Leaves l (read_number l) := by
  have htail : advance (advance l) <:+ l := (advance_suffix _).trans (advance_suffix l)
  exact .ite (.ite htail ((List.drop_suffix _ _).trans htail)) (List.drop_suffix _ _)

theorem read_string_leaves (l : Lexer) : Leaves l (read_string l) := by
  have hloop := read_string_loop_suffix 255 (advance l)
  rw [read_string]
  split
  rename_i text rest hread
  rw [hread] at hloop
  exact .ite (hloop.trans (advance_suffix l))
    ((advance_suffix rest).trans (hloop.trans (advance_suffix l)))

theorem read_at_keyword_leaves (l : Lexer) : Leaves l (read_at_keyword l) := by
  have hword (n : ℕ) (t : Token) : Leaves l (t, (advance l).drop n) :=
    (List.drop_suffix _ _).trans (advance_suffix l)
  exact .ite (.ite (hword _ _) (.ite (hword _ _) (.ite (hword _ _) (hword _ _)))) (advance_suffix l)

theorem with_equals_leaves (one two : TokenType) (l : Lexer) : Leaves l (with_equals one two l) :=
  .ite ((advance_suffix _).trans (advance_suffix l)) (advance_suffix l)

theorem lexer_next_token_leaves (l : Lexer) :
    Leaves (skip_whitespace_and_comments l) (lexer_next_token l) := by
  unfold lexer_next_token
  generalize skip_whitespace_and_comments l = l
  have hsingle (type : TokenType) : Leaves l (single type l) := advance_suffix l
  have hequals := fun one two => with_equals_leaves one two l
  have hstays (t : Token) : Leaves l (t, l) := List.suffix_rfl
  refine Leaves.ite (hstays _) (.ite (List.drop_suffix _ _) (.ite (read_number_leaves l) ?_))
  refine .ite (read_string_leaves l) (.ite (hsingle _) (.ite (hsingle _) (.ite (hsingle _) ?_)))
  refine .ite (hsingle _) (.ite (hsingle _) (.ite (hsingle _) (.ite (hsingle _) ?_)))
  refine .ite (read_at_keyword_leaves l) (.ite (hequals _ _) (.ite (hequals _ _) ?_))
  exact .ite (hequals _ _) (.ite (hequals _ _) (.ite (hsingle _) (.ite (hsingle _) (hstays _))))

theorem Comes.suffix {l l' : Lexer} (h : Comes l l') : l' <:+ l := by
  induction h with
  | refl => exact List.suffix_rfl
  | tail _ hstep ih =>
    rw [hstep.1]
    exact ((lexer_next_token_leaves _).trans (skip_suffix _)).trans ih

/-! ## Separators -/

/-- White space, and comments that end with their line. -/
inductive Separator : CStr → Prop where
  | nil : Separator []
  | space {c : Char} {gap : CStr} (hc : isspace c = true) (h : Separator gap) :
      Separator (c :: gap)
  | comment {body gap : CStr} (hbody : ∀ c ∈ body, c ≠ '\n' ∧ c ≠ '\x00') (h : Separator gap) :
      Separator ('/' :: '/' :: (body ++ '\n' :: gap))

/-- The lexer passes over separators. -/
theorem Separator.skip {gap : CStr} (h : Separator gap) (post : CStr) :
    skip_whitespace_and_comments (gap ++ post) = skip_whitespace_and_comments post := by
  induction h with
  | nil => rfl
  | space hc _ ih => rw [List.cons_append, skip_space _ hc, ih]
  | @comment body gap hbody _ ih =>
    have hstill (z : Lexer) : skip_whitespace ('/' :: '/' :: z) = '/' :: '/' :: z := rfl
    have hrest (z : Lexer) : comment_rest ('/' :: (body ++ '\n' :: z)) = '\n' :: z := by
      have hdrop : comment_rest (body ++ '\n' :: z) = comment_rest ('\n' :: z) :=
        List.dropWhile_append_of_pos fun c hc => by simp [hbody c hc]
      exact hdrop
    rw [List.cons_append, List.cons_append, List.append_assoc, List.cons_append, skip_eq, hstill,
      if_pos ((starts_comment_cons _ _).mpr ⟨rfl, rfl⟩),
      skip_of_comment ((starts_comment_cons _ _).mpr ⟨rfl, rfl⟩), List.tail_cons, hrest,
      skip_space _ rfl, ih]

/-- A separator ends every token, and is not the end of the text. -/
theorem Separator.ends {gap : CStr} (h : Separator gap) (hne : gap ≠ []) (post : CStr) :
    Ends (gap ++ post) ∧ current_char (gap ++ post) ≠ '\x00' := by
  cases h with
  | nil => exact absurd rfl hne
  | @space c gap hc =>
    rw [List.cons_append]
    have hsmall := isspace_toNat hc
    refine ⟨⟨Bool.eq_false_iff.mpr fun hword => ?_, ?_, ?_⟩, ?_⟩
    · exact absurd (alnum_toNat hword) (not_le.mpr hsmall)
    all_goals
      rintro rfl
      exact absurd hc (by decide)
  | @comment body gap =>
    have hslash : current_char ('/' :: '/' :: (body ++ '\n' :: gap) ++ post) = '/' := rfl
    rw [hslash]
    exact ⟨⟨by rw [hslash]; rfl, by rw [hslash]; decide, by rw [hslash]; decide⟩, by decide⟩

/-! ## The tokens of a text with other separators -/

section Chain

variable {x y : Lexer}

/-- A step of the lexer in front of `x`, and the same step in front of `y`. -/
theorem step_cut (hx : current_char x ≠ '\x00') (hy : Ends y) {pre b : CStr} {t : Token}
    (hnext : lexer_next_token (pre ++ x) = (t, b ++ x))
    (hmoves : (b ++ x).length < (skip_whitespace_and_comments (pre ++ x)).length) :
    lexer_next_token (pre ++ y) = (t, b ++ y) ∧
      (b ++ y).length < (skip_whitespace_and_comments (pre ++ y)).length := by
  have hleaves := lexer_next_token_leaves (pre ++ x)
  rw [hnext] at hleaves
  obtain ⟨v, hv⟩ := (List.suffix_append b x).trans hleaves
  rw [← hv, List.length_append, List.length_append] at hmoves
  cases v with
  | nil =>
    rw [List.length_nil] at hmoves
    omega
  | cons c w =>
    have hskip : skip_whitespace_and_comments (pre ++ x) = c :: (w ++ x) := hv.symm
    have hslash : c ≠ '/' := by
      rintro rfl
      have hstays : (lexer_next_token (pre ++ x)).2 = '/' :: (w ++ x) := by
        rw [lexer_next_token, hskip]
        rfl
      rw [hnext] at hstays
      have hlength := congrArg List.length hstays
      rw [List.length_append, List.length_cons, List.length_append] at hlength
      rw [List.length_cons] at hmoves
      omega
    have hskip' := skip_cut (y := y) hslash pre.length pre le_rfl hskip
    refine ⟨next_cut (read_string_cut hx hy) hy (l := fun z => pre ++ z) hskip hskip' t b hnext, ?_⟩
    rw [hskip', List.length_append, List.length_cons, List.length_append]
    rw [List.length_cons] at hmoves
    omega

/-- **Tokens that end in front of `x` end in front of `y`**, and the stream is
theirs with that of the rest behind it. -/
theorem comes_cut (hx : current_char x ≠ '\x00') (hy : Ends y) {l : Lexer} (h : Comes l x) :
    ∀ pre, l = pre ++ x → Comes (pre ++ y) y ∧
      ∃ ts, lex (pre ++ x) = (ts ++ (lex x).1, (lex x).2) ∧
        lex (pre ++ y) = (ts ++ (lex y).1, (lex y).2) := by
  induction h using ReflTransGen.head_induction_on with
  | refl =>
    intro pre hpre
    have hnil : pre = [] := List.self_eq_append_left.mp hpre
    subst hnil
    exact ⟨.refl, [], rfl, rfl⟩
  | @head l l1 hstep hrest ih =>
    rintro pre rfl
    obtain ⟨hnext, hmoves⟩ := hstep
    obtain ⟨b, rfl⟩ := Comes.suffix hrest
    obtain ⟨hcomes, ts, hts, hts'⟩ := ih b rfl
    have hread : lexer_next_token (pre ++ x) = ((lexer_next_token (pre ++ x)).1, b ++ x) :=
      Prod.ext rfl hnext.symm
    obtain ⟨hread', hmoves'⟩ := step_cut hx hy hread hmoves
    refine ⟨ReflTransGen.head ⟨by rw [hread'], hmoves'⟩ hcomes,
      (lexer_next_token (pre ++ x)).1 :: ts, ?_, ?_⟩
    · rw [lex_moves hread hmoves, hts]
      rfl
    · rw [lex_moves hread' hmoves', hts']
      rfl

theorem lex_cut (hx : current_char x ≠ '\x00') (hy : Ends y) {pre : CStr} (h : Comes (pre ++ x) x)
    (hskip : skip_whitespace_and_comments x = skip_whitespace_and_comments y) :
    lex (pre ++ x) = lex (pre ++ y) := by
  obtain ⟨-, ts, hts, hts'⟩ := comes_cut hx hy h pre rfl
  rw [hts, hts', lex_skip hskip]

end Chain

section Separated

variable {pre gap gap' post : CStr}

/-- With separators at the place, in both texts or in one of them. -/
theorem lex_separated_of_ne (hgap : Separator gap) (hgap' : Separator gap') (hne : gap ≠ [])
    (h : Comes (pre ++ (gap ++ post)) (gap ++ post))
    (h' : Comes (pre ++ (gap' ++ post)) (gap' ++ post)) :
    lex (pre ++ (gap ++ post)) = lex (pre ++ (gap' ++ post)) := by
  obtain ⟨hends, hmore⟩ := hgap.ends hne post
  have hskip : skip_whitespace_and_comments (gap ++ post)
      = skip_whitespace_and_comments (gap' ++ post) := (hgap.skip post).trans (hgap'.skip post).symm
  by_cases hmore' : current_char (gap' ++ post) = '\x00'
  · -- the end of the text ends every token
    refine lex_cut hmore ⟨?_, ?_, ?_⟩ h hskip
    all_goals
      rw [hmore']
      decide
  · exact (lex_cut hmore' hends h' hskip.symm).symm

/-- **Separators do not matter**, wherever both texts have an end of a token. -/
theorem lex_separated (hgap : Separator gap) (hgap' : Separator gap')
    (h : Comes (pre ++ (gap ++ post)) (gap ++ post))
    (h' : Comes (pre ++ (gap' ++ post)) (gap' ++ post)) :
    lex (pre ++ (gap ++ post)) = lex (pre ++ (gap' ++ post)) := by
  by_cases hne : gap = []
  · by_cases hne' : gap' = []
    · rw [hne, hne']
    · exact (lex_separated_of_ne hgap' hgap hne' h' h).symm
  · exact lex_separated_of_ne hgap hgap' hne h h'

/-- In front of another token, a separator keeps the tokens separate. -/
theorem comes_separated (hgap : Separator gap) (hgap' : Separator gap') (hne' : gap' ≠ [])
    (hnext : (lexer_next_token post).1.type ≠ .EOF)
    (h : Comes (pre ++ (gap ++ post)) (gap ++ post)) :
    Comes (pre ++ (gap' ++ post)) (gap' ++ post) := by
  have hmore : current_char (gap ++ post) ≠ '\x00' := by
    by_cases hne : gap = []
    · subst hne
      intro hend
      refine hnext ?_
      have hstill : skip_whitespace_and_comments post = post := by
        cases post with
        | nil => rfl
        | cons c post =>
          have hc : c = '\x00' := hend
          subst hc
          exact skip_still post rfl (by decide)
      rw [List.nil_append] at hend
      rw [lexer_next_token, hstill]
      rw [if_pos hend]
    · exact (hgap.ends hne post).2
  exact (comes_cut hmore (hgap'.ends hne' post).1 h pre rfl).1

/-- **Layout does not matter.** At a place between two tokens, the separator can
be replaced by any other one, or left out where the tokens stay separate: the
text is accepted as before, with the same protocol. -/
theorem layout_irrelevant (hgap : Separator gap) (hgap' : Separator gap')
    (h : Comes (pre ++ (gap ++ post)) (gap ++ post))
    (h' : gap' ≠ [] ∧ (lexer_next_token post).1.type ≠ .EOF ∨
      Comes (pre ++ (gap' ++ post)) (gap' ++ post)) (proto : ProtocolDef) :
    (pdef_parse_string (pre ++ (gap ++ post))).1 = .accepted proto ↔
      (pdef_parse_string (pre ++ (gap' ++ post))).1 = .accepted proto := by
  have hcomes : Comes (pre ++ (gap' ++ post)) (gap' ++ post) := by
    rcases h' with ⟨hne', hnext⟩ | h'
    · exact comes_separated hgap hgap' hne' hnext h
    · exact h'
  have hlex := lex_separated hgap hgap' h hcomes
  have hinit : parser_init (pre ++ (gap ++ post)) = parser_init (pre ++ (gap' ++ post)) := by
    rw [parser_init, parser_init, hlex]
  rw [accepted_iff, accepted_iff, hinit]

end Separated

set_option maxRecDepth 100000 in
/-- A comment between the name of a struct and its brace. -/
theorem comment_before_brace : ∃ proto,
    (pdef_parse_string ("A".toList ++ (" // fields\n".toList ++ "\x7buint8 x;\x7d".toList))).1
      = .accepted proto := by
  have hbody : ∀ c ∈ " fields".toList, c ≠ '\n' ∧ c ≠ '\x00' := fun c hc => by
    have hall : " fields".toList.all (fun c => !(c == '\n') && !(c == '\x00')) = true := by decide
    simpa using List.all_eq_true.mp hall c hc
  have hcomment : Separator ('/' :: '/' :: (" fields".toList ++ ['\n'])) := .comment hbody .nil
  have hgap : Separator " // fields\n".toList := .space (by decide) hcomment
  have hbetween : Comes ("A".toList ++ ([] ++ "\x7buint8 x;\x7d".toList))
      ([] ++ "\x7buint8 x;\x7d".toList) := .single (by decide)
  obtain ⟨proto, hproto⟩ : ∃ proto, (pdef_parse_string
      ("A".toList ++ ([] ++ "\x7buint8 x;\x7d".toList))).1.protocol? = some proto :=
    Option.isSome_iff_exists.mp (by decide +kernel)
  exact ⟨proto, (layout_irrelevant .nil hgap hbetween (.inl ⟨by decide, by decide⟩) proto).mp
    (ParseResult.protocol?_eq_some.mp hproto)⟩

end RxNetCap.Pdef
