/-
The tokens of a text with a line inserted behind a brace.

Up to the brace the lexer does the same on both texts, because it never looks
further ahead than one character, and the brace is none that it looks for. What
the brace is decides about the rest (`lex_inserted`): it is a token of its own,
or part of a comment that the line ends, and then the line is read; or part of
a string, and then the line is text of the string, as far as the 255 characters
of a token go.
-/
import RxNetCap.Pdef.Stream
import RxNetCap.Pdef.Strings

set_option autoImplicit false

namespace RxNetCap.Pdef

open Relation

/-! ## Skipping -/

def starts_comment (l : Lexer) : Bool := current_char l = '/' && peek_char l 1 = '/'

theorem skip_comment_lt {l : Lexer} (h : starts_comment l = true) :
    (skip_comment l).length < l.length := by
  cases l with
  | nil => cases h
  | cons c rest =>
    rw [starts_comment, Bool.and_eq_true, decide_eq_true_eq, decide_eq_true_eq] at h
    have hc : c = '/' := h.1
    rw [skip_comment, if_pos h, hc, List.dropWhile_cons_of_pos (by decide)]
    exact Nat.lt_succ_of_le (List.dropWhile_sublist _).length_le

theorem skip_loop_succ (n : ℕ) (l : Lexer) :
    skip_loop (n + 1) l = if starts_comment (skip_whitespace l) = true
      then skip_loop n (skip_comment (skip_whitespace l)) else skip_whitespace l := by
  rw [skip_loop]
  simp only [starts_comment, Bool.and_eq_true, decide_eq_true_eq]

theorem skip_whitespace_length (l : Lexer) : (skip_whitespace l).length ≤ l.length :=
  (List.dropWhile_sublist _).length_le

theorem skip_loop_turns (n : ℕ) : ∀ {m : ℕ} {l : Lexer}, l.length < n → l.length < m →
    skip_loop n l = skip_loop m l := by
  induction n with
  | zero => intro m l hn; exact absurd hn (Nat.not_lt_zero _)
  | succ n ih =>
    intro m l hn hm
    obtain ⟨m, rfl⟩ := Nat.exists_eq_succ_of_ne_zero (Nat.ne_of_gt (Nat.zero_lt_of_lt hm))
    rw [skip_loop_succ, skip_loop_succ]
    have hspace := skip_whitespace_length l
    by_cases hcomment : starts_comment (skip_whitespace l) = true
    · have hshorter := skip_comment_lt hcomment
      rw [if_pos hcomment, if_pos hcomment]
      exact ih (by omega) (by omega)
    · rw [if_neg hcomment, if_neg hcomment]

/-- White space, and then a comment with what is behind it or nothing more. -/
theorem skip_eq (l : Lexer) :
    skip_whitespace_and_comments l = if starts_comment (skip_whitespace l) = true
      then skip_whitespace_and_comments (skip_comment (skip_whitespace l))
      else skip_whitespace l := by
  have hspace := skip_whitespace_length l
  rw [skip_whitespace_and_comments, skip_loop_succ]
  by_cases hcomment : starts_comment (skip_whitespace l) = true
  · have hshorter := skip_comment_lt hcomment
    rw [if_pos hcomment, if_pos hcomment, skip_whitespace_and_comments]
    exact skip_loop_turns _ (by omega) (by omega)
  · rw [if_neg hcomment, if_neg hcomment]

/-- What a comment leaves of the text in which it is. -/
def comment_rest (l : Lexer) : Lexer := l.dropWhile fun c => c ≠ '\x00' && c ≠ '\n'

theorem comment_rest_append (b post : CStr) :
    comment_rest (b ++ '\x7b' :: post) =
      if (comment_rest b).isEmpty then comment_rest post else comment_rest b ++ '\x7b' :: post := by
  have hbrace : comment_rest ('\x7b' :: post) = comment_rest post :=
    List.dropWhile_cons_of_pos (by decide)
  rw [← hbrace]
  exact List.dropWhile_append

/-- Skipping in front of a brace stops before it, at it, or in a comment that
takes it in. -/
theorem skip_before_brace (n : ℕ) : ∀ a : CStr, a.length ≤ n →
    (∃ c b, b.length < a.length ∧
        ∀ post, skip_whitespace_and_comments (a ++ '\x7b' :: post) = c :: (b ++ '\x7b' :: post)) ∨
      (∀ post, skip_whitespace_and_comments (a ++ '\x7b' :: post) = '\x7b' :: post) ∨
      (∀ post, skip_whitespace_and_comments (a ++ '\x7b' :: post)
        = skip_whitespace_and_comments (comment_rest post)) := by
  induction n with
  | zero =>
    intro a ha
    rw [List.length_eq_zero_iff.mp (Nat.le_zero.mp ha)]
    refine .inr (.inl fun post => ?_)
    rw [skip_eq]
    rfl
  | succ n ih =>
    intro a ha
    have hsplit (post : CStr) : skip_whitespace (a ++ '\x7b' :: post)
        = a.dropWhile isspace ++ '\x7b' :: post := by
      rw [skip_whitespace, List.dropWhile_append]
      split
      · rename_i hempty
        rw [List.isEmpty_iff.mp hempty]
        rfl
      · rfl
    have hspace : (a.dropWhile isspace).length ≤ a.length := (List.dropWhile_sublist _).length_le
    generalize a.dropWhile isspace = w at hsplit hspace
    cases w with
    | nil =>
      refine .inr (.inl fun post => ?_)
      rw [skip_eq, hsplit]
      rfl
    | cons c b =>
      rw [List.length_cons] at hspace
      by_cases hcomment : c = '/' ∧ b.head? = some '/'
      · -- a comment starts here; it ends before the brace or takes it in
        obtain ⟨rfl, hb⟩ := hcomment
        have hstarts (post : CStr) : starts_comment ('/' :: b ++ '\x7b' :: post) = true := by
          cases b with
          | nil => cases hb
          | cons d b' =>
            rw [List.head?_cons, Option.some.injEq] at hb
            rw [hb]
            rfl
        have hrest (post : CStr) : skip_comment ('/' :: b ++ '\x7b' :: post)
            = comment_rest (b ++ '\x7b' :: post) := by
          have h := hstarts post
          rw [starts_comment, Bool.and_eq_true, decide_eq_true_eq, decide_eq_true_eq] at h
          rw [skip_comment, if_pos h]
          rfl
        have hskip (post : CStr) : skip_whitespace_and_comments (a ++ '\x7b' :: post)
            = skip_whitespace_and_comments (comment_rest (b ++ '\x7b' :: post)) := by
          rw [skip_eq, hsplit, if_pos (hstarts post), hrest]
        by_cases hends : (comment_rest b).isEmpty = true
        · refine .inr (.inr fun post => ?_)
          rw [hskip, comment_rest_append, if_pos hends]
        · have hinside (post : CStr) : comment_rest (b ++ '\x7b' :: post)
              = comment_rest b ++ '\x7b' :: post := by
            rw [comment_rest_append, if_neg hends]
          have hshort : (comment_rest b).length ≤ b.length := (List.dropWhile_sublist _).length_le
          rcases ih (comment_rest b) (by omega) with ⟨c', b', hb', h⟩ | h | h
          · refine .inl ⟨c', b', by omega, fun post => ?_⟩
            rw [hskip, hinside, h]
          · exact .inr (.inl fun post => by rw [hskip, hinside, h])
          · exact .inr (.inr fun post => by rw [hskip, hinside, h])
      · refine .inl ⟨c, b, by omega, fun post => ?_⟩
        rw [skip_eq, hsplit, if_neg, List.cons_append]
        intro hstarts
        rw [starts_comment, Bool.and_eq_true, decide_eq_true_eq, decide_eq_true_eq] at hstarts
        obtain ⟨hc, hnext⟩ := hstarts
        refine hcomment ⟨hc, ?_⟩
        cases b with
        | nil => cases hnext
        | cons d b' =>
          have hd : d = '/' := hnext
          rw [hd]
          rfl

/-! ## One token in front of a mark -/

section Mark

variable {e : Char}

/-- A call that gives the same token whatever is behind the mark `e`, and stops
before it or at it. -/
def Local (e : Char) (b : CStr) (r : CStr → Token × Lexer) : Prop :=
  ∃ t b', b' <:+ b ∧ ∀ post, r post = (t, b' ++ e :: post)

theorem take_chars_before {p : Char → Bool} (hp : p e = false) (w post : CStr) :
    take_chars p (w ++ e :: post) = take_chars p w := by
  rw [take_chars, take_chars, List.take_append]
  by_cases hlong : 255 ≤ w.length
  · rw [Nat.sub_eq_zero_of_le hlong, List.take_zero, List.append_nil]
  · obtain ⟨k, hk⟩ := Nat.exists_eq_add_of_lt (not_le.mp hlong)
    have hsub : 255 - w.length = k + 1 := by omega
    rw [hsub, List.take_succ_cons, List.takeWhile_append]
    split
    · rw [List.takeWhile_cons_of_neg (by rw [hp]; exact Bool.false_ne_true), List.append_nil]
      rename_i hall
      exact (List.takeWhile_prefix _).eq_of_length hall |>.symm
    · rfl

theorem take_chars_le (p : Char → Bool) (w : CStr) : (take_chars p w).length ≤ w.length :=
  (List.takeWhile_sublist _).length_le.trans (List.take_sublist _ _).length_le

/-- A token made of the characters of one kind. -/
theorem Local.of_chars {p : Char → Bool} (hp : p e = false) {w b : CStr}
    (hrest : w.drop (take_chars p w).length <:+ b) (f : CStr → Token) :
    Local e b fun post => (f (take_chars p (w ++ e :: post)),
      (w ++ e :: post).drop (take_chars p (w ++ e :: post)).length) := by
  refine ⟨f (take_chars p w), w.drop (take_chars p w).length, hrest, fun post => ?_⟩
  dsimp only
  rw [take_chars_before hp, List.drop_append_of_le_length (take_chars_le p w)]

theorem drop_chars_suffix {p : Char → Bool} {c : Char} (b : CStr) (h : p c = true) :
    (c :: b).drop (take_chars p (c :: b)).length <:+ b := by
  have hpos : 0 < (take_chars p (c :: b)).length := take_chars_length h
  obtain ⟨k, hk⟩ := Nat.exists_eq_succ_of_ne_zero hpos.ne'
  rw [hk, List.drop_succ_cons]
  exact List.drop_suffix k b

theorem read_identifier_local {c : Char} (b : CStr) (he : is_alnum e = false)
    (h : is_alpha c = true) : Local e b fun post => read_identifier (c :: b ++ e :: post) :=
  .of_chars (w := c :: b) he (drop_chars_suffix b (by rw [is_alnum, h]; rfl)) fun text =>
    { type := keyword text, text := text }

/-- The character behind the first one stands before the mark, or is none that
the lexer looks for. -/
theorem peek_before {b : CStr} {c d : Char} (post : CStr) (hd : d ≠ e) :
    peek_char (c :: b ++ e :: post) 1 = d ↔ b.head? = some d := by
  cases b with
  | nil => exact iff_of_false (fun h => hd h.symm) nofun
  | cons a b' =>
    rw [List.head?_cons, Option.some.injEq]
    rfl

theorem tail_before {b : CStr} {d : Char} (h : b.head? = some d) (post : CStr) :
    b = d :: b.tail ∧ (b ++ e :: post).tail = b.tail ++ e :: post := by
  cases b with
  | nil => cases h
  | cons a b' =>
    rw [List.head?_cons, Option.some.injEq] at h
    exact ⟨by rw [h]; rfl, rfl⟩

theorem alnum_of_hex {c : Char} (h : is_hex_digit c = true) : is_alnum c = true := by
  simp only [is_hex_digit, Bool.or_eq_true, Bool.and_eq_true, decide_eq_true_eq] at h
  simp only [is_alnum, is_alpha, Bool.or_eq_true, Bool.and_eq_true, decide_eq_true_eq]
  rcases h with (hdigit | ⟨ha, hf⟩) | ⟨ha, hf⟩
  · exact .inr hdigit
  · exact .inl (.inl (.inl ⟨ha, Char.le_trans hf (by decide : 'f' ≤ 'z')⟩))
  · exact .inl (.inl (.inr ⟨ha, Char.le_trans hf (by decide : 'F' ≤ 'Z')⟩))

/-- A mark that is in no word is no digit, and none that makes a number
hexadecimal. -/
theorem not_digit_of_not_alnum {c : Char} (h : is_alnum c = false) :
    is_digit c = false ∧ is_hex_digit c = false ∧ 'x' ≠ c ∧ 'X' ≠ c := by
  have hno {P : Prop} (himp : P → is_alnum c = true) : ¬P := fun hP => by
    rw [himp hP] at h
    cases h
  refine ⟨?_, Bool.eq_false_iff.mpr (hno alnum_of_hex), hno ?_, hno ?_⟩
  · exact Bool.eq_false_iff.mpr (hno fun hd => by rw [is_alnum, hd, Bool.or_true])
  · rintro rfl
    rfl
  · rintro rfl
    rfl

theorem read_number_local {c : Char} (b : CStr) (he : is_alnum e = false) (h : is_digit c = true) :
    Local e b fun post => read_number (c :: b ++ e :: post) := by
  obtain ⟨hdigit, hhexdigit, hx, hX⟩ := not_digit_of_not_alnum he
  by_cases hhex : c = '0' ∧ (b.head? = some 'x' ∨ b.head? = some 'X')
  · have hread (post : CStr) : read_number (c :: b ++ e :: post) =
        (let l := b.tail ++ e :: post
        let text := take_chars is_hex_digit l
        if text.length = 0 then ({ type := .NUMBER, ok := false }, l)
        else ({ type := .NUMBER, text := text, value := strtoull text 16 }, l.drop text.length)) := by
      have hcond : current_char (c :: b ++ e :: post) = '0' ∧
          (peek_char (c :: b ++ e :: post) 1 = 'x' ∨ peek_char (c :: b ++ e :: post) 1 = 'X') := by
        rw [peek_before _ hx, peek_before _ hX]
        exact hhex
      have htail : advance (advance (c :: b ++ e :: post)) = b.tail ++ e :: post := by
        rcases hhex.2 with hx | hx
        · exact (tail_before hx post).2
        · exact (tail_before hx post).2
      rw [read_number, if_pos hcond, htail]
    by_cases hempty : (take_chars is_hex_digit b.tail).length = 0
    · refine ⟨{ type := .NUMBER, ok := false }, b.tail, List.tail_suffix b, fun post => ?_⟩
      dsimp only
      rw [hread]
      dsimp only
      rw [take_chars_before hhexdigit, if_pos hempty]
    · obtain ⟨t, b', hb', hlocal⟩ := Local.of_chars (w := b.tail) (b := b) hhexdigit
        ((List.drop_suffix _ _).trans (List.tail_suffix b)) fun text =>
          { type := .NUMBER, text := text, value := strtoull text 16 }
      refine ⟨t, b', hb', fun post => ?_⟩
      dsimp only
      rw [hread, ← hlocal post]
      dsimp only
      rw [if_neg (by rw [take_chars_before hhexdigit]; exact hempty)]
  · obtain ⟨t, b', hb', hlocal⟩ := Local.of_chars (w := c :: b) hdigit (drop_chars_suffix b h)
      fun text => { type := .NUMBER, text := text, value := strtoull text 10 }
    refine ⟨t, b', hb', fun post => ?_⟩
    rw [← hlocal post]
    dsimp only
    rw [read_number, if_neg]
    rw [peek_before _ hx, peek_before _ hX]
    exact hhex

theorem single_local {type : TokenType} (c : Char) (b : CStr) :
    Local e b fun post => single type (c :: b ++ e :: post) :=
  ⟨{ type := type, text := [c] }, b, List.suffix_rfl, fun _ => rfl⟩

theorem with_equals_local {one two : TokenType} (c : Char) (b : CStr) (he : '=' ≠ e) :
    Local e b fun post => with_equals one two (c :: b ++ e :: post) := by
  by_cases hequals : b.head? = some '='
  · refine ⟨{ type := two, text := [c, '='] }, b.tail, List.tail_suffix b, fun post => ?_⟩
    dsimp only
    rw [with_equals, if_pos ((peek_before _ he).mpr hequals)]
    exact Prod.ext rfl (tail_before hequals post).2
  · refine ⟨{ type := one, text := [c] }, b, List.suffix_rfl, fun post => ?_⟩
    dsimp only
    rw [with_equals, if_neg (fun h => hequals ((peek_before _ he).mp h))]
    rfl

theorem read_at_keyword_local (c : Char) (b : CStr) (he : is_alnum e = false) :
    Local e b fun post => read_at_keyword (c :: b ++ e :: post) := by
  have hcurrent (post : CStr) : current_char (b ++ e :: post) = current_char (b ++ [e]) := by
    cases b <;> rfl
  by_cases hword : is_alpha (current_char (b ++ [e])) = true
  · obtain ⟨t, b', hb', hlocal⟩ := Local.of_chars (w := b) (b := b) he (List.drop_suffix _ _)
      fun text =>
        if text = "protocol".toList then { type := .PROTOCOL, text := text }
        else if text = "const".toList then { type := .CONST, text := text }
        else if text = "filter".toList then { type := .FILTER, text := text }
        else { type := .ERROR, text := text, ok := false }
    refine ⟨t, b', hb', fun post => ?_⟩
    rw [← hlocal post]
    dsimp only
    rw [read_at_keyword, List.cons_append, show advance (c :: (b ++ e :: post)) = b ++ e :: post
      from rfl, hcurrent]
    dsimp only
    rw [if_pos hword]
    generalize take_chars is_alnum (b ++ e :: post) = text
    repeat' split
    all_goals rfl
  · refine ⟨{ type := .AT }, b, List.suffix_rfl, fun post => ?_⟩
    dsimp only
    rw [read_at_keyword, List.cons_append, show advance (c :: (b ++ e :: post)) = b ++ e :: post
      from rfl, hcurrent]
    dsimp only
    rw [if_neg hword]

end Mark

/-- A string ends in front of the brace, or goes over it. -/
theorem read_string_loop_before (m : ℕ) : ∀ b : CStr,
    (∃ text b', b' <:+ b ∧
        ∀ post, read_string_loop m (b ++ '\x7b' :: post) = (text, b' ++ '\x7b' :: post)) ∨
      ∃ text k, text.length + (k + 1) = m ∧ ∀ post, read_string_loop m (b ++ '\x7b' :: post)
        = (text ++ '\x7b' :: (read_string_loop k post).1, (read_string_loop k post).2) := by
  induction m with
  | zero => exact fun b => .inl ⟨[], b, List.suffix_rfl, fun _ => rfl⟩
  | succ m ih =>
    intro b
    cases b with
    | nil => exact .inr ⟨[], m, Nat.zero_add _, fun _ => rfl⟩
    | cons c b =>
      -- what is read of `c`, and the rest of the front that is left then
      have hstep {d : Char} {w : CStr} (hw : w <:+ b)
          (hread : ∀ post, read_string_loop (m + 1) (c :: b ++ '\x7b' :: post)
            = (d :: (read_string_loop m (w ++ '\x7b' :: post)).1,
                (read_string_loop m (w ++ '\x7b' :: post)).2)) :
          (∃ text b', b' <:+ c :: b ∧ ∀ post,
              read_string_loop (m + 1) (c :: b ++ '\x7b' :: post) = (text, b' ++ '\x7b' :: post)) ∨
            ∃ text k, text.length + (k + 1) = m + 1 ∧ ∀ post,
              read_string_loop (m + 1) (c :: b ++ '\x7b' :: post)
                = (text ++ '\x7b' :: (read_string_loop k post).1, (read_string_loop k post).2) := by
        rcases ih w with ⟨text, b', hb', hloop⟩ | ⟨text, k, hk, hloop⟩
        · exact .inl ⟨d :: text, b', hb'.trans (hw.trans (List.suffix_cons c b)), fun post => by
            rw [hread, hloop]⟩
        · refine .inr ⟨d :: text, k, by rw [List.length_cons]; omega, fun post => ?_⟩
          rw [hread, hloop]
          rfl
      by_cases hend : c ≠ '"' ∧ c ≠ '\x00'
      · by_cases hquote : c = '\\' ∧ b.head? = some '"'
        · refine hstep (w := b.tail) (d := '"') (List.tail_suffix b) fun post => ?_
          have hcond : current_char (c :: b ++ '\x7b' :: post) = '\\' ∧
              peek_char (c :: b ++ '\x7b' :: post) 1 = '"' := by
            rw [peek_before _ (by decide)]
            exact hquote
          have htail : advance (advance (c :: b ++ '\x7b' :: post)) = b.tail ++ '\x7b' :: post :=
            (tail_before hquote.2 post).2
          rw [read_string_loop]
          dsimp only
          rw [if_pos (show current_char (c :: b ++ '\x7b' :: post) ≠ '"' ∧
            current_char (c :: b ++ '\x7b' :: post) ≠ '\x00' from hend), if_pos hcond, htail]
        · refine hstep (w := b) (d := c) List.suffix_rfl fun post => ?_
          rw [read_string_loop]
          dsimp only
          rw [if_pos (show current_char (c :: b ++ '\x7b' :: post) ≠ '"' ∧
            current_char (c :: b ++ '\x7b' :: post) ≠ '\x00' from hend), if_neg]
          · rfl
          · rw [peek_before _ (by decide)]
            exact hquote
      · refine .inl ⟨[], c :: b, List.suffix_rfl, fun post => ?_⟩
        rw [read_string_loop]
        dsimp only
        rw [if_neg (show ¬ (current_char (c :: b ++ '\x7b' :: post) ≠ '"' ∧
          current_char (c :: b ++ '\x7b' :: post) ≠ '\x00') from hend)]

theorem read_string_before (b : CStr) :
    (Local '\x7b' b fun post => read_string ('"' :: b ++ '\x7b' :: post)) ∨
      ∃ text k, text.length + (k + 1) = 255 ∧ ∀ post, read_string_loop 255 (b ++ '\x7b' :: post)
        = (text ++ '\x7b' :: (read_string_loop k post).1, (read_string_loop k post).2) := by
  rcases read_string_loop_before 255 b with ⟨text, b', hb', hloop⟩ | hover
  · left
    by_cases hquote : b'.head? = some '"'
    · refine ⟨{ type := .STRING, text := text }, b'.tail, (List.tail_suffix b').trans hb',
        fun post => ?_⟩
      obtain ⟨hcons, htail⟩ := tail_before hquote post
      have hcurrent : current_char (b' ++ '\x7b' :: post) = '"' := by
        rw [hcons]
        rfl
      dsimp only
      rw [read_string, show advance ('"' :: b ++ '\x7b' :: post) = b ++ '\x7b' :: post from rfl, hloop]
      dsimp only
      rw [if_neg (not_not.mpr hcurrent), advance, htail]
    · refine ⟨{ type := .STRING, text := text, ok := false }, b', hb', fun post => ?_⟩
      have hcurrent : current_char (b' ++ '\x7b' :: post) ≠ '"' := by
        cases b' with
        | nil => exact (by decide : '\x7b' ≠ '"')
        | cons d rest =>
          intro hd
          exact hquote (congrArg some hd)
      dsimp only
      rw [read_string, show advance ('"' :: b ++ '\x7b' :: post) = b ++ '\x7b' :: post from rfl, hloop]
      dsimp only
      rw [if_pos hcurrent]
  · exact .inr hover

/-! ## The next token of a text with a brace -/

/-- A string that goes over the brace: what it has in front of the brace, and
how many characters of the rest it can take. -/
def Straddles (b text : CStr) (k : ℕ) : Prop :=
  text.length + (k + 1) = 255 ∧ ∀ post, read_string_loop 255 (b ++ '\x7b' :: post)
    = (text ++ '\x7b' :: (read_string_loop k post).1, (read_string_loop k post).2)

/-- What a call of the lexer comes to in front of a brace: the same token
whatever is behind the brace, a final token at which it stays, or a string over
the brace. -/
def Before (c : Char) (b : CStr) (r : CStr → Token × Lexer) : Prop :=
  Local '\x7b' b r ∨ (∃ t, ∀ post, r post = (t, c :: (b ++ '\x7b' :: post))) ∨
    (c = '"' ∧ ∃ text k, Straddles b text k)

theorem Before.ite {c : Char} {b : CStr} {p : Prop} [Decidable p] {r r' : CStr → Token × Lexer}
    (hr : p → Before c b r) (hr' : ¬p → Before c b r') :
    Before c b fun post => if p then r post else r' post := by
  by_cases h : p
  · simp only [if_pos h]
    exact hr h
  · simp only [if_neg h]
    exact hr' h

theorem next_before_brace {c : Char} {b : CStr} {l : CStr → Lexer}
    (hl : ∀ post, skip_whitespace_and_comments (l post) = c :: (b ++ '\x7b' :: post)) :
    Before c b fun post => lexer_next_token (l post) := by
  have hsingle (type : TokenType) : Before c b fun post => single type (c :: (b ++ '\x7b' :: post)) :=
    .inl (single_local c b)
  have hequals (one two : TokenType) :
      Before c b fun post => with_equals one two (c :: (b ++ '\x7b' :: post)) :=
    .inl (with_equals_local c b (by decide))
  have hcurrent (post : CStr) : current_char (c :: (b ++ '\x7b' :: post)) = c := rfl
  unfold lexer_next_token
  simp only [hl, hcurrent]
  refine .ite (fun _ => .inr (.inl ⟨_, fun _ => rfl⟩)) fun _ => ?_
  refine .ite (fun h => .inl (read_identifier_local b (by decide) h)) fun _ => ?_
  refine .ite (fun h => .inl (read_number_local b (by decide) h)) fun _ => ?_
  refine .ite (fun h => ?_) fun _ => ?_
  · subst h
    exact (read_string_before b).imp id fun h => .inr ⟨rfl, h⟩
  refine .ite (fun _ => hsingle _) fun _ => .ite (fun _ => hsingle _) fun _ => ?_
  refine .ite (fun _ => hsingle _) fun _ => .ite (fun _ => hsingle _) fun _ => ?_
  refine .ite (fun _ => hsingle _) fun _ => .ite (fun _ => hsingle _) fun _ => ?_
  refine .ite (fun _ => hsingle _) fun _ => .ite (fun _ => .inl (read_at_keyword_local c b (by decide))) fun _ => ?_
  refine .ite (fun _ => hequals _ _) fun _ => .ite (fun _ => hequals _ _) fun _ => ?_
  refine .ite (fun _ => hequals _ _) fun _ => .ite (fun _ => hequals _ _) fun _ => ?_
  refine .ite (fun _ => hsingle _) fun _ => .ite (fun _ => hsingle _) fun _ => ?_
  exact .inr (.inl ⟨_, fun _ => rfl⟩)

/-! ## The stream -/

/-- The length does not matter when it is enough. -/
theorem lex_loop_turns (n : ℕ) : ∀ {m : ℕ} {l : Lexer}, l.length ≤ n → l.length ≤ m →
    lex_loop n l = lex_loop m l := by
  have hempty (k : ℕ) : lex_loop k [] = ([], { type := .EOF }) := by cases k <;> rfl
  induction n with
  | zero =>
    intro m l hn hm
    rw [List.length_eq_zero_iff.mp (Nat.le_zero.mp hn), hempty, hempty]
  | succ n ih =>
    intro m l hn hm
    cases m with
    | zero => rw [List.length_eq_zero_iff.mp (Nat.le_zero.mp hm), hempty, hempty]
    | succ m =>
      have hmoves := lexer_next_token_advances l
      have hskip := skip_length l
      rw [lex_loop, lex_loop]
      generalize lexer_next_token l = r at hmoves
      obtain ⟨t, rest⟩ := r
      dsimp only
      by_cases hstill : rest.length = (skip_whitespace_and_comments l).length
      · rw [if_pos hstill, if_pos hstill]
      · have hshorter : rest.length < (skip_whitespace_and_comments l).length :=
          hmoves.resolve_right fun h => hstill (congrArg List.length h.2)
        rw [if_neg hstill, if_neg hstill, ih (m := m) (by omega) (by omega)]

theorem lex_moves {l rest : Lexer} {t : Token} (hnext : lexer_next_token l = (t, rest))
    (hshorter : rest.length < (skip_whitespace_and_comments l).length) :
    lex l = (t :: (lex rest).1, (lex rest).2) := by
  have hskip := skip_length l
  obtain ⟨n, hn⟩ := Nat.exists_eq_succ_of_ne_zero (by omega : l.length ≠ 0)
  rw [lex, hn, lex_loop, hnext]
  dsimp only
  rw [if_neg hshorter.ne, lex_loop_turns n (by omega) le_rfl]
  rfl

theorem lex_stays {l : Lexer} {t : Token}
    (hnext : lexer_next_token l = (t, skip_whitespace_and_comments l)) : lex l = ([], t) := by
  rw [lex]
  cases l.length with
  | zero => rw [lex_loop, hnext]
  | succ n =>
    rw [lex_loop, hnext]
    dsimp only
    rw [if_pos rfl]

/-- The stream depends on what is behind the white space and the comments. -/
theorem lex_skip {l l' : Lexer}
    (h : skip_whitespace_and_comments l = skip_whitespace_and_comments l') : lex l = lex l' := by
  have hnext : lexer_next_token l = lexer_next_token l' := by
    rw [lexer_next_token, lexer_next_token, h]
  cases hr : lexer_next_token l with
  | mk t rest =>
    have hr' : lexer_next_token l' = (t, rest) := hnext.symm.trans hr
    have hmoves := lexer_next_token_advances l
    rw [hr] at hmoves
    rcases hmoves with hshorter | ⟨-, hstill⟩
    · rw [lex_moves hr hshorter, lex_moves hr' (h ▸ hshorter)]
    · dsimp only at hstill
      rw [lex_stays (hstill ▸ hr), lex_stays (h ▸ hstill ▸ hr')]

/-! ## The inserted line -/

/-- A character at which the lexer stops with an error. -/
def is_stray (c : Char) : Bool := c = '#' || c = '-' || c = ':'

/-- The characters in front of the first stray one of the line. -/
def is_plain (c : Char) : Bool := is_alnum c || c = ' ' || c = '\n' || c = ';'

theorem stray_not_alnum {e : Char} (he : is_stray e = true) : is_alnum e = false := by
  simp only [is_stray, Bool.or_eq_true, decide_eq_true_eq] at he
  rcases he with (rfl | rfl) | rfl <;> rfl

/-- Every character of a word comes behind the white space and the slash. -/
theorem alnum_toNat {c : Char} (h : is_alnum c = true) : 48 ≤ c.toNat := by
  have hzero (hle : '0' ≤ c) : 48 ≤ c.toNat := UInt32.le_iff_toNat_le.mp hle
  simp only [is_alnum, is_alpha, is_digit, Bool.or_eq_true, Bool.and_eq_true, decide_eq_true_eq] at h
  rcases h with ((⟨ha, -⟩ | ⟨ha, -⟩) | rfl) | ⟨h0, -⟩
  · exact hzero (Char.le_trans (by decide : '0' ≤ 'a') ha)
  · exact hzero (Char.le_trans (by decide : '0' ≤ 'A') ha)
  · decide
  · exact hzero h0

theorem isspace_toNat {c : Char} (h : isspace c = true) : c.toNat < 48 := by
  simp only [isspace, Bool.or_eq_true, decide_eq_true_eq] at h
  rcases h with ((((rfl | rfl) | rfl) | rfl) | h) | h
  · decide
  · decide
  · decide
  · decide
  · omega
  · omega

theorem skip_still {c : Char} (rest : CStr) (hspace : isspace c = false) (hslash : c ≠ '/') :
    skip_whitespace_and_comments (c :: rest) = c :: rest := by
  have hstill : skip_whitespace (c :: rest) = c :: rest :=
    List.dropWhile_cons_of_neg (by rw [hspace]; exact Bool.false_ne_true)
  rw [skip_eq, hstill, if_neg]
  rw [starts_comment, Bool.and_eq_true, decide_eq_true_eq]
  exact fun h => hslash h.1

theorem skip_word {c : Char} (rest : CStr) (h : is_alnum c = true) :
    skip_whitespace_and_comments (c :: rest) = c :: rest := by
  have hlarge := alnum_toNat h
  refine skip_still rest (Bool.eq_false_iff.mpr fun hspace => ?_) ?_
  · exact absurd (isspace_toNat hspace) (by omega)
  · rintro rfl
    exact absurd hlarge (by decide)

theorem skip_space {c : Char} (rest : CStr) (h : isspace c = true) :
    skip_whitespace_and_comments (c :: rest) = skip_whitespace_and_comments rest := by
  have hdrop : skip_whitespace (c :: rest) = skip_whitespace rest := List.dropWhile_cons_of_pos h
  rw [skip_eq, skip_eq rest, hdrop]

theorem lex_stray {e : Char} (he : is_stray e = true) (post : CStr) :
    (lex (e :: post)).2.type = .ERROR := by
  simp only [is_stray, Bool.or_eq_true, decide_eq_true_eq] at he
  have hskip : skip_whitespace_and_comments (e :: post) = e :: post := by
    rcases he with (rfl | rfl) | rfl
    · exact skip_still post rfl (by decide)
    · exact skip_still post rfl (by decide)
    · exact skip_still post rfl (by decide)
  have hnext : lexer_next_token (e :: post) = ({ type := .ERROR, ok := false }, e :: post) := by
    rw [lexer_next_token, hskip]
    rcases he with (rfl | rfl) | rfl <;> rfl
  rw [lex_stays (hnext.trans (by rw [hskip]))]

theorem ne_nul_of_alnum {c : Char} (h : is_alnum c = true) : c ≠ '\x00' := by
  rintro rfl
  exact absurd h (by decide)

theorem next_of_alpha {c : Char} (rest : CStr) (h : is_alpha c = true) :
    lexer_next_token (c :: rest) = read_identifier (c :: rest) := by
  have hword : is_alnum c = true := by rw [is_alnum, h, Bool.true_or]
  have hcurrent : current_char (c :: rest) = c := rfl
  rw [lexer_next_token, skip_word rest hword]
  rw [hcurrent, if_neg (ne_nul_of_alnum hword), if_pos h]

theorem not_alpha_of_digit {c : Char} (h : is_digit c = true) : is_alpha c = false := by
  rw [is_digit, Bool.and_eq_true, decide_eq_true_eq, decide_eq_true_eq] at h
  have hsmall : c.toNat ≤ 57 := UInt32.le_iff_toNat_le.mp h.2
  refine Bool.eq_false_iff.mpr fun halpha => ?_
  simp only [is_alpha, Bool.or_eq_true, Bool.and_eq_true, decide_eq_true_eq] at halpha
  rcases halpha with (⟨ha, -⟩ | ⟨ha, -⟩) | rfl
  · have hlarge : 97 ≤ c.toNat := UInt32.le_iff_toNat_le.mp ha
    omega
  · have hlarge : 65 ≤ c.toNat := UInt32.le_iff_toNat_le.mp ha
    omega
  · exact absurd hsmall (by decide)

theorem next_of_digit {c : Char} (rest : CStr) (h : is_digit c = true) :
    lexer_next_token (c :: rest) = read_number (c :: rest) := by
  have hword : is_alnum c = true := by rw [is_alnum, h, Bool.or_true]
  have hcurrent : current_char (c :: rest) = c := rfl
  rw [lexer_next_token, skip_word rest hword]
  rw [hcurrent, if_neg (ne_nul_of_alnum hword),
    if_neg (by rw [not_alpha_of_digit h]; exact Bool.false_ne_true), if_pos h]

/-- Whatever plain characters are in front of a stray one, the lexer comes to
it. -/
theorem lex_plain {e : Char} (he : is_stray e = true) (post : CStr) (n : ℕ) :
    ∀ w : CStr, w.length ≤ n → w.all is_plain → (lex (w ++ e :: post)).2.type = .ERROR := by
  have hmark := stray_not_alnum he
  induction n with
  | zero =>
    intro w hw _
    rw [List.length_eq_zero_iff.mp (Nat.le_zero.mp hw)]
    exact lex_stray he post
  | succ n ih =>
    intro w hw hplain
    cases w with
    | nil => exact lex_stray he post
    | cons c w =>
      rw [List.length_cons] at hw
      rw [List.all_cons, Bool.and_eq_true] at hplain
      obtain ⟨hc, hplain⟩ := hplain
      have hrest (w' : CStr) (hw' : w' <:+ w) : (lex (w' ++ e :: post)).2.type = .ERROR := by
        refine ih w' (hw'.length_le.trans (by omega)) (List.all_eq_true.mpr fun d hd => ?_)
        exact List.all_eq_true.mp hplain d (hw'.mem hd)
      -- a token of the front, and what is left of the front behind it
      have htoken {r : CStr → Token × Lexer} (hlocal : Local e w r)
          (hskip : skip_whitespace_and_comments (c :: (w ++ e :: post)) = c :: (w ++ e :: post))
          (hnext : lexer_next_token (c :: (w ++ e :: post)) = r post) :
          (lex (c :: w ++ e :: post)).2.type = .ERROR := by
        obtain ⟨t, w', hw', hr⟩ := hlocal
        have hlength := hw'.length_le
        rw [List.cons_append, lex_moves (hnext.trans (hr post))]
        · exact hrest w' hw'
        · rw [hskip, List.length_cons, List.length_append, List.length_append]
          omega
      simp only [is_plain, is_alnum, Bool.or_eq_true, decide_eq_true_eq] at hc
      rcases hc with (((halpha | hdigit) | hspace) | hspace) | hsemi
      · have hskip := skip_word (w ++ e :: post) (show is_alnum c = true by rw [is_alnum, halpha]; rfl)
        exact htoken (read_identifier_local w hmark halpha) hskip (next_of_alpha _ halpha)
      · have hskip := skip_word (w ++ e :: post)
          (show is_alnum c = true by rw [is_alnum, hdigit, Bool.or_true])
        exact htoken (read_number_local w hmark hdigit) hskip (next_of_digit _ hdigit)
      · rw [hspace, List.cons_append, lex_skip (skip_space _ rfl)]
        exact hrest w List.suffix_rfl
      · rw [hspace, List.cons_append, lex_skip (skip_space _ rfl)]
        exact hrest w List.suffix_rfl
      · subst hsemi
        have hskip := skip_still (w ++ e :: post) (c := ';') rfl (by decide)
        have hlocal : Local e w fun post => single .SEMICOLON (';' :: w ++ e :: post) := single_local ';' w
        refine htoken hlocal hskip ?_
        rw [lexer_next_token, hskip]
        rfl

/-! ## A string across the line -/

/-- A character that is text in a string. -/
def is_text (c : Char) : Bool := c ≠ '"' && c ≠ '\\' && c ≠ '\x00'

/-- Text in the way of a string is read as far as the string goes. -/
theorem read_string_loop_text (w post : CStr) : ∀ k : ℕ, w.all is_text → w.length ≤ k →
    read_string_loop k (w ++ post)
      = (w ++ (read_string_loop (k - w.length) post).1, (read_string_loop (k - w.length) post).2) := by
  induction w with
  | nil => exact fun k _ _ => rfl
  | cons c w ih =>
    intro k htext hk
    obtain ⟨k, rfl⟩ := Nat.exists_eq_succ_of_ne_zero (by rw [List.length_cons] at hk; omega : k ≠ 0)
    rw [List.all_cons, Bool.and_eq_true] at htext
    obtain ⟨hc, htext⟩ := htext
    rw [List.length_cons] at hk
    simp only [is_text, Bool.and_eq_true, decide_eq_true_eq] at hc
    have hcurrent : current_char (c :: w ++ post) = c := rfl
    rw [read_string_loop]
    dsimp only
    rw [hcurrent, if_pos ⟨hc.1.1, hc.2⟩, if_neg fun h => hc.1.2 h.1,
      show advance (c :: w ++ post) = w ++ post from rfl, ih k htext (Nat.le_of_succ_le_succ hk),
      List.length_cons, Nat.succ_sub_succ]
    rfl

/-- A string is the same under a lower limit that it does not reach. -/
theorem read_string_loop_enough (n : ℕ) : ∀ {k : ℕ} {l : Lexer}, k ≤ n →
    (read_string_loop n l).1.length ≤ k → read_string_loop k l = read_string_loop n l := by
  induction n with
  | zero => exact fun hk _ => by rw [Nat.le_zero.mp hk]
  | succ n ih =>
    intro k l hk hshort
    rw [read_string_loop] at hshort ⊢
    dsimp only at hshort ⊢
    by_cases hmore : current_char l ≠ '"' ∧ current_char l ≠ '\x00'
    · rw [if_pos hmore] at hshort ⊢
      -- one more character of text, and so `k` is none of the shortest
      have hpos : k ≠ 0 := by
        rintro rfl
        split at hshort <;> cases hshort
      obtain ⟨k, rfl⟩ := Nat.exists_eq_succ_of_ne_zero hpos
      rw [read_string_loop]
      dsimp only
      rw [if_pos hmore]
      by_cases hquote : current_char l = '\\' ∧ peek_char l 1 = '"'
      · rw [if_pos hquote] at hshort ⊢
        rw [if_pos hquote, ih (Nat.le_of_succ_le_succ hk) (Nat.le_of_succ_le_succ hshort)]
      · rw [if_neg hquote] at hshort ⊢
        rw [if_neg hquote, ih (Nat.le_of_succ_le_succ hk) (Nat.le_of_succ_le_succ hshort)]
    · rw [if_neg hmore]
      cases k with
      | zero => rfl
      | succ k =>
        rw [read_string_loop]
        dsimp only
        rw [if_neg hmore]

/-- Text that does not fit ends the string inside. -/
theorem read_string_loop_cut (w post : CStr) {k : ℕ} (htext : w.all is_text) (hk : k ≤ w.length) :
    (read_string_loop k (w ++ post)).2 = w.drop k ++ post := by
  have htake : (w.take k).all is_text := List.all_eq_true.mpr fun c hc =>
    List.all_eq_true.mp htext c (List.mem_of_mem_take hc)
  have hlength : (w.take k).length = k := by rw [List.length_take, Nat.min_eq_left hk]
  have hsplit : w ++ post = w.take k ++ (w.drop k ++ post) := by
    rw [← List.append_assoc, List.take_append_drop]
  rw [hsplit, read_string_loop_text _ _ k htake hlength.le, hlength, Nat.sub_self]
  rfl

/-- What a string leaves, with its closing quote if it has one. -/
def string_rest (rest : Lexer) : Lexer := if current_char rest = '"' then advance rest else rest

theorem string_rest_length (rest : Lexer) : (string_rest rest).length ≤ rest.length := by
  rw [string_rest]
  split
  · exact (List.tail_sublist _).length_le
  · exact le_rfl

theorem string_rest_of_text {w : CStr} (post : CStr) (htext : w.all is_text) (hne : w ≠ []) :
    string_rest (w ++ post) = w ++ post := by
  cases w with
  | nil => exact absurd rfl hne
  | cons c w =>
    rw [List.all_cons, Bool.and_eq_true] at htext
    have hc := htext.1
    simp only [is_text, Bool.and_eq_true, decide_eq_true_eq] at hc
    exact if_neg hc.1.1

theorem read_string_eq (x : CStr) : read_string ('"' :: x) =
    ({ type := .STRING, text := (read_string_loop 255 x).1
       ok := current_char (read_string_loop 255 x).2 = '"' },
      string_rest (read_string_loop 255 x).2) := by
  rw [read_string, show advance ('"' :: x) = x from rfl]
  dsimp only
  by_cases hquote : current_char (read_string_loop 255 x).2 = '"'
  · rw [if_neg (not_not.mpr hquote), string_rest, if_pos hquote, decide_eq_true hquote]
  · rw [if_pos hquote, string_rest, if_neg hquote, decide_eq_false hquote]

/-! ## The stream with the line -/

/-- The positions the lexer comes to. -/
abbrev Comes : Lexer → Lexer → Prop := ReflTransGen fun l l' =>
  l' = (lexer_next_token l).2 ∧ l'.length < (skip_whitespace_and_comments l).length

theorem Comes.length {l l' : Lexer} (h : Comes l l') : l'.length ≤ l.length := by
  induction h with
  | refl => exact le_rfl
  | tail _ hstep ih => exact (hstep.2.le.trans (skip_length _)).trans ih

/-- A string of the text goes over the brace in front of `post`, and of `m + n`
more characters behind the brace it takes `m`, but not all. -/
def Overlong (source post : Lexer) (m n : ℕ) : Prop :=
  ∃ l b text k, Comes source l ∧ skip_whitespace_and_comments l = '"' :: (b ++ '\x7b' :: post) ∧
    Straddles b text k ∧ m ≤ k ∧ k < (read_string_loop k post).1.length + (m + n)

theorem Straddles.unique {b text text' : CStr} {k k' : ℕ} (h : Straddles b text k)
    (h' : Straddles b text' k') : k = k' := by
  have hloop := (h.2 []).symm.trans (h'.2 [])
  have hempty (n : ℕ) : read_string_loop n [] = ([], []) := by cases n <;> rfl
  rw [hempty, hempty, Prod.mk.injEq] at hloop
  have hlength := congrArg List.length hloop.1
  rw [List.length_append, List.length_append] at hlength
  have hk := h.1
  have hk' := h'.1
  omega

section Line

variable {stem ending : CStr}

/-- A line that begins with a newline, is text for a string, and stops the
lexer wherever it starts in the stem. -/
structure Spoils (stem ending : CStr) : Prop where
  newline : stem.head? = some '\n'
  chars : stem.all fun c => is_plain c || is_stray c
  stray : ∃ w e, stem = w ++ [e] ∧ is_stray e = true
  ending : ending.all is_plain

theorem text_of_plain {c : Char} (h : (is_plain c || is_stray c) = true) : is_text c = true := by
  rw [is_text, Bool.and_eq_true, Bool.and_eq_true, decide_eq_true_eq, decide_eq_true_eq,
    decide_eq_true_eq]
  refine ⟨⟨?_, ?_⟩, ?_⟩
  · rintro rfl
    exact absurd h (by decide)
  · rintro rfl
    exact absurd h (by decide)
  · rintro rfl
    exact absurd h (by decide)

theorem Spoils.stem_text (h : Spoils stem ending) : stem.all is_text :=
  List.all_eq_true.mpr fun c hc => text_of_plain (List.all_eq_true.mp h.chars c hc)

theorem Spoils.ending_text (h : Spoils stem ending) : ending.all is_text :=
  List.all_eq_true.mpr fun c hc =>
    text_of_plain (by rw [List.all_eq_true.mp h.ending c hc, Bool.true_or])

/-- From any place in the stem the lexer comes to a stray character. -/
theorem Spoils.lex (h : Spoils stem ending) (post : CStr) {k : ℕ} (hk : k < stem.length) :
    (lex (stem.drop k ++ post)).2.type = .ERROR := by
  obtain ⟨w, e, hlast, hstray⟩ := h.stray
  have hmem : e ∈ stem.drop k := by
    rw [hlast, List.drop_append_of_le_length]
    · exact List.mem_append_right _ List.mem_cons_self
    · rw [hlast, List.length_append, List.length_singleton] at hk
      exact Nat.le_of_lt_succ hk
  have hnot {c : Char} (hc : is_stray c = true) : is_plain c ≠ true := by
    simp only [is_stray, Bool.or_eq_true, decide_eq_true_eq] at hc
    rcases hc with (rfl | rfl) | rfl <;> decide
  have hsplit : (stem.drop k).takeWhile is_plain ++ (stem.drop k).dropWhile is_plain = stem.drop k :=
    List.takeWhile_append_dropWhile
  have hfirst := List.head?_dropWhile_not is_plain (stem.drop k)
  cases hrest : (stem.drop k).dropWhile is_plain with
  | nil =>
    rw [hrest, List.append_nil] at hsplit
    rw [← hsplit] at hmem
    exact absurd (List.all_eq_true.mp List.all_takeWhile e hmem) (hnot hstray)
  | cons c rest =>
    rw [hrest] at hsplit hfirst
    have hc : is_stray c = true := by
      have hin : c ∈ stem.drop k := by
        rw [← hsplit]
        exact List.mem_append_right _ List.mem_cons_self
      have hchar := List.all_eq_true.mp h.chars c ((List.drop_sublist k stem).mem hin)
      have hhead : is_plain c = false := hfirst
      rw [hhead, Bool.false_or] at hchar
      exact hchar
    rw [← hsplit, List.append_assoc, List.cons_append]
    exact lex_plain hc _ _ _ le_rfl List.all_takeWhile

/-- The line ends a comment in its way. -/
theorem Spoils.comment_rest (h : Spoils stem ending) (post : CStr) :
    comment_rest (stem ++ post) = stem ++ post := by
  cases stem with
  | nil => cases h.newline
  | cons c w =>
    have hc : c = '\n' := Option.some.inj h.newline
    rw [hc]
    exact List.dropWhile_cons_of_neg (by decide)

/-- The same tokens, but for the text of strings. -/
def SameLex (source source' : CStr) : Prop :=
  SameTokens (lex source).1 (lex source').1 ∧ (lex source').2 = (lex source).2

theorem SameLex.refl (source : CStr) : SameLex source source :=
  ⟨List.forall₂_same.mpr fun _ _ => .inl rfl, rfl⟩

theorem SameToken.symm {t t' : Token} (h : SameToken t t') : SameToken t' t :=
  h.imp Eq.symm fun ⟨hstring, hstring', hok⟩ => ⟨hstring', hstring, hok.symm⟩

theorem SameLex.symm {source source' : CStr} (h : SameLex source source') : SameLex source' source :=
  ⟨List.Forall₂.flip (h.1.imp fun _ _ ht => ht.symm), h.2.symm⟩

theorem next_of_string {a b : CStr} (hskip : skip_whitespace_and_comments a = '"' :: b) :
    lexer_next_token a = ({ type := .STRING, text := (read_string_loop 255 b).1
                            ok := current_char (read_string_loop 255 b).2 = '"' },
      string_rest (read_string_loop 255 b).2) := by
  rw [← read_string_eq, lexer_next_token, hskip]
  rfl

theorem lex_of_string {a b : CStr} (hskip : skip_whitespace_and_comments a = '"' :: b) :
    lex a = ({ type := .STRING, text := (read_string_loop 255 b).1
               ok := current_char (read_string_loop 255 b).2 = '"' }
        :: (lex (string_rest (read_string_loop 255 b).2)).1,
      (lex (string_rest (read_string_loop 255 b).2)).2) := by
  refine lex_moves (next_of_string hskip) ?_
  rw [hskip]
  exact Nat.lt_succ_of_le ((string_rest_length _).trans (read_string_loop_length 255 b))

/-- Two strings that are left at the same place. -/
theorem SameLex.of_string {a a' b b' : CStr} (hskip : skip_whitespace_and_comments a = '"' :: b)
    (hskip' : skip_whitespace_and_comments a' = '"' :: b')
    (hrest : (read_string_loop 255 b').2 = (read_string_loop 255 b).2) : SameLex a a' := by
  rw [SameLex, lex_of_string hskip, lex_of_string hskip', hrest]
  exact ⟨.cons (.inr ⟨rfl, rfl, rfl⟩) (List.forall₂_same.mpr fun _ _ => .inl rfl), rfl⟩

/-! ## Where a string is too long -/

section Places

variable {source post b text : CStr} {k m n : ℕ}

theorem Straddles.rest_length (h : Straddles b text k)
    (hskip : skip_whitespace_and_comments source = '"' :: (b ++ '\x7b' :: post)) :
    (lexer_next_token source).2.length ≤ post.length := by
  rw [next_of_string hskip, h.2]
  exact (string_rest_length _).trans (read_string_loop_length k post)

theorem Overlong.length (h : Overlong source post m n) :
    post.length < (skip_whitespace_and_comments source).length := by
  obtain ⟨l, b, text, k, hcomes, hskip, -, -, -⟩ := h
  have hlength : post.length < (skip_whitespace_and_comments l).length := by
    rw [hskip, List.length_cons, List.length_append, List.length_cons]
    omega
  rcases hcomes.cases_head with rfl | ⟨mid, ⟨-, hshorter⟩, hcomes⟩
  · exact hlength
  · have hl := Comes.length hcomes
    have hskip := skip_length l
    omega

/-- It is the first token, or comes later. -/
theorem Overlong.cases (h : Overlong source post m n) :
    (∃ b text k, skip_whitespace_and_comments source = '"' :: (b ++ '\x7b' :: post) ∧
        Straddles b text k ∧ m ≤ k ∧ k < (read_string_loop k post).1.length + (m + n)) ∨
      ((lexer_next_token source).2.length < (skip_whitespace_and_comments source).length ∧
        Overlong (lexer_next_token source).2 post m n) := by
  obtain ⟨l, b, text, k, hcomes, h⟩ := h
  rcases hcomes.cases_head with rfl | ⟨mid, ⟨rfl, hshorter⟩, hcomes⟩
  · exact .inl ⟨b, text, k, h⟩
  · exact .inr ⟨hshorter, l, b, text, k, hcomes, h⟩

/-- Once the lexer is behind the brace there is none. -/
theorem not_overlong_behind (h : (skip_whitespace_and_comments source).length ≤ post.length) :
    ¬ Overlong source post m n :=
  fun hover => absurd hover.length (by omega)

end Places

/-! ## The stream with the line -/

/-- What the line does to the stream of `a`, the brace and `post`: it brings an
error, or it changes nothing but strings, or it is as good as blanks in the
place of the stem. -/
def Inserted (stem ending post a : CStr) : Prop :=
  let old := a ++ '\x7b' :: post
  let new := a ++ '\x7b' :: (stem ++ (ending ++ post))
  let blank := a ++ '\x7b' :: (List.replicate stem.length ' ' ++ (ending ++ post))
  (lex new).2.type = .ERROR ∧ ¬ Overlong old post stem.length ending.length ∨
    SameLex old new ∧ ¬ Overlong old post stem.length ending.length ∨
    SameLex blank new ∧ Overlong old post stem.length ending.length

/-- A token in front of the brace changes nothing. -/
theorem Inserted.of_token {post a b : CStr} {t : Token} (h : Inserted stem ending post b)
    (hnext : ∀ post, lexer_next_token (a ++ '\x7b' :: post) = (t, b ++ '\x7b' :: post))
    (hshorter : ∀ post, (b ++ '\x7b' :: post).length
      < (skip_whitespace_and_comments (a ++ '\x7b' :: post)).length) :
    Inserted stem ending post a := by
  have hlex (post : CStr) := lex_moves (hnext post) (hshorter post)
  have hover : Overlong (a ++ '\x7b' :: post) post stem.length ending.length ↔
      Overlong (b ++ '\x7b' :: post) post stem.length ending.length := by
    constructor
    · intro hover
      rcases hover.cases with ⟨b', text, k, hskip, hstraddles, -, -⟩ | ⟨-, hover⟩
      · have hbehind := hstraddles.rest_length hskip
        rw [hnext, List.length_append, List.length_cons] at hbehind
        omega
      · rw [hnext] at hover
        exact hover
    · rintro ⟨l, b', text, k, hcomes, h⟩
      exact ⟨l, b', text, k, .head ⟨by rw [hnext], hshorter post⟩ hcomes, h⟩
  have hsame {post post' : CStr} (h : SameLex (b ++ '\x7b' :: post) (b ++ '\x7b' :: post')) :
      SameLex (a ++ '\x7b' :: post) (a ++ '\x7b' :: post') := by
    rw [SameLex, hlex, hlex]
    exact ⟨.cons (.inl rfl) h.1, h.2⟩
  rcases h with ⟨herror, hnot⟩ | ⟨hlex', hnot⟩ | ⟨hlex', hlong⟩
  · refine .inl ⟨?_, mt hover.mp hnot⟩
    rw [hlex]
    exact herror
  · exact .inr (.inl ⟨hsame hlex', mt hover.mp hnot⟩)
  · exact .inr (.inr ⟨hsame hlex', hover.mpr hlong⟩)

/-- A string over the brace takes the line in, or is cut by it. -/
theorem Inserted.of_string {post a b text : CStr} {k : ℕ} (hline : Spoils stem ending)
    (hskip : ∀ post, skip_whitespace_and_comments (a ++ '\x7b' :: post) = '"' :: (b ++ '\x7b' :: post))
    (h : Straddles b text k) : Inserted stem ending post a := by
  have hover : Overlong (a ++ '\x7b' :: post) post stem.length ending.length ↔
      stem.length ≤ k ∧ k < (read_string_loop k post).1.length + (stem.length + ending.length) := by
    constructor
    · intro hover
      rcases hover.cases with ⟨b', text', k', hskip', hstraddles, hroom⟩ | ⟨-, hover⟩
      · rw [hskip, List.cons.injEq] at hskip'
        obtain rfl := List.append_cancel_right hskip'.2
        rw [h.unique hstraddles]
        exact hroom
      · have hbehind := h.rest_length (hskip post)
        have hlength := hover.length
        have hskip := skip_length (lexer_next_token (a ++ '\x7b' :: post)).2
        omega
    · exact fun hroom => ⟨_, b, text, k, .refl, hskip post, h, hroom⟩
  have hstem := hline.stem_text
  have hblank : (List.replicate stem.length ' ').all is_text :=
    List.all_eq_true.mpr fun c hc => by rw [List.eq_of_mem_replicate hc]; rfl
  by_cases hcut : k < stem.length
  · -- the string ends within the stem, which is no PDEF
    left
    refine ⟨?_, fun hlong => absurd (hover.mp hlong).1 (by omega)⟩
    have hrest := h.2 (stem ++ (ending ++ post))
    rw [lex_of_string (hskip _), hrest]
    dsimp only
    rw [read_string_loop_cut stem _ hstem hcut.le, string_rest_of_text, hline.lex _ hcut]
    · exact List.all_eq_true.mpr fun c hc => List.all_eq_true.mp hstem c (List.mem_of_mem_drop hc)
    · exact List.ne_nil_of_length_pos (by rw [List.length_drop]; omega)
  · right
    rw [not_lt] at hcut
    by_cases hlong : k < (read_string_loop k post).1.length + (stem.length + ending.length)
    · refine .inr ⟨.of_string (hskip _) (hskip _) ?_, hover.mpr ⟨hcut, hlong⟩⟩
      rw [h.2, h.2, read_string_loop_text stem _ k hstem hcut,
        read_string_loop_text _ _ k hblank (by rw [List.length_replicate]; exact hcut),
        List.length_replicate]
    · refine .inl ⟨.of_string (hskip _) (hskip _) ?_, fun hroom => hlong (hover.mp hroom).2⟩
      have hshort : read_string_loop (k - stem.length - ending.length) post = read_string_loop k post :=
        read_string_loop_enough k (by omega) (by omega)
      rw [h.2, h.2, read_string_loop_text stem _ k hstem hcut,
        read_string_loop_text ending post _ hline.ending_text (by omega), hshort]

/-- **The stream of a text with the line.** -/
theorem lex_inserted (hline : Spoils stem ending) (post : CStr) (n : ℕ) :
    ∀ a : CStr, a.length < n → Inserted stem ending post a := by
  induction n with
  | zero => exact fun a ha => absurd ha (Nat.not_lt_zero _)
  | succ n ih =>
    intro a ha
    have hstem : 0 < stem.length := by
      obtain ⟨w, e, hlast, -⟩ := hline.stray
      rw [hlast, List.length_append]
      exact Nat.lt_add_left _ Nat.zero_lt_one
    rcases skip_before_brace _ a le_rfl with ⟨c, b, hb, hskip⟩ | hskip | hskip
    · rcases next_before_brace hskip with ⟨t, b', hb', hnext⟩ | ⟨t, hnext⟩ | ⟨rfl, text, k, hover⟩
      · have hlength := hb'.length_le
        refine Inserted.of_token (ih b' (by omega)) hnext fun post => ?_
        rw [hskip, List.length_cons, List.length_append, List.length_append]
        omega
      · -- the text ends before the brace
        have hstill (post : CStr) : lexer_next_token (a ++ '\x7b' :: post) = (t, c :: (b ++ '\x7b' :: post)) :=
          hnext post
        refine .inr (.inl ⟨?_, fun hover => ?_⟩)
        · rw [SameLex, lex_stays ((hstill post).trans (by rw [hskip])),
            lex_stays ((hstill _).trans (by rw [hskip]))]
          exact ⟨.nil, rfl⟩
        · rcases hover.cases with ⟨b', text, k, hskip', hstraddles, -, -⟩ | ⟨hshorter, -⟩
          · have hbehind := hstraddles.rest_length hskip'
            rw [hstill, List.length_cons, List.length_append, List.length_cons] at hbehind
            omega
          · rw [hstill, hskip] at hshorter
            exact absurd hshorter (lt_irrefl _)
      · exact .of_string hline hskip hover
    · -- the brace is a token, and the next ones are of the line
      have hnext (post : CStr) : lexer_next_token (a ++ '\x7b' :: post)
          = ({ type := .LBRACE, text := ['\x7b'] }, post) := by
        rw [lexer_next_token, hskip]
        rfl
      refine .inl ⟨?_, fun hover => ?_⟩
      · rw [lex_moves (hnext _) (by rw [hskip]; exact Nat.lt_succ_self _)]
        exact hline.lex _ hstem
      · rcases hover.cases with ⟨b', text, k, hskip', -, -, -⟩ | ⟨-, hover⟩
        · rw [hskip] at hskip'
          cases hskip'
        · rw [hnext] at hover
          exact not_overlong_behind (skip_length post) hover
    · -- the brace is in a comment, and the line is the next one
      refine .inl ⟨?_, not_overlong_behind ?_⟩
      · rw [lex_skip (hskip _ |>.trans (by rw [hline.comment_rest]))]
        exact hline.lex _ hstem
      · rw [hskip]
        exact (skip_length _).trans (List.dropWhile_sublist _).length_le

end Line

/-! ## The end of an accepted text -/

/-- The lexer reads an accepted text to its end. -/
theorem accepted_last {source : CStr} {proto : ProtocolDef}
    (h : (pdef_parse_string source).1 = .accepted proto) : (lex source).2.type = .EOF := by
  obtain ⟨p0, p1, p2, hphases⟩ := accepted_phases.mp h
  obtain ⟨hsteps, heof⟩ := parse_blocks_steps _ hphases.blocks
  have hstill : p0.toks <:+ (lex source).1 ∧ p0.last = (lex source).2 := by
    clear heof hphases
    induction hsteps with
    | refl => exact ⟨List.suffix_rfl, rfl⟩
    | tail _ hstep ih =>
      exact ⟨(hstep.toks.trans (List.tail_suffix _)).trans ih.1, hstep.last.trans ih.2⟩
  rw [Parser.current_token] at heof
  cases htoks : p0.toks with
  | nil =>
    rw [htoks, List.headD_nil, hstill.2] at heof
    exact heof
  | cons t ts =>
    rw [htoks] at heof
    have hmem : t ∈ (lex source).1 := hstill.1.mem (by rw [htoks]; exact List.mem_cons_self)
    exact absurd heof ((lex_loop_lexed _ source).1 t hmem).2

end RxNetCap.Pdef
