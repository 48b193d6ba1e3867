/-
What the tokens of a text are like: no word of the stream is `in`, which has a
token type of its own, and the end of the text is not among the tokens that
come before it. The lexer moves on with every token until it comes to a final
one, so a text has no more tokens than characters.
-/
import RxNetCap.Pdef.Lexer
import Mathlib.Order.Lattice

set_option autoImplicit false

namespace RxNetCap.Pdef

/-! ## One token -/

/-- What is known of a token that the lexer made. -/
structure Token.Lexed (t : Token) : Prop where
  word : t.type = .IDENTIFIER → t.text ≠ "in".toList
  final : t.type = .EOF → t.ok = true

theorem Token.Lexed.of_type {t : Token} (hword : t.type ≠ .IDENTIFIER) (hfinal : t.type ≠ .EOF) :
    t.Lexed where
  word h := absurd h hword
  final h := absurd h hfinal

theorem keyword_in : keyword "in".toList = .IN := by decide

theorem keyword_ne_EOF (text : CStr) : keyword text ≠ .EOF := by
  unfold keyword
  repeat refine iteInduction (motive := (· ≠ TokenType.EOF)) (fun _ => by decide) fun _ => ?_
  decide

/-- A token of the lexer is `Lexed`, and only the end of the text is `EOF`. -/
structure Lexes (l : Lexer) (r : Token × Lexer) : Prop where
  lexed : r.1.Lexed
  stops : r.1.type = .EOF → r.2 = l

theorem Lexes.of_type {l : Lexer} {r : Token × Lexer} (hword : r.1.type ≠ .IDENTIFIER)
    (hfinal : r.1.type ≠ .EOF) : Lexes l r where
  lexed := .of_type hword hfinal
  stops h := absurd h hfinal

theorem read_identifier_lexes (l : Lexer) : Lexes l (read_identifier l) where
  lexed := {
    word := by
      intro htype htext
      have hkey : keyword (take_chars is_alnum l) = .IDENTIFIER := htype
      have htaken : take_chars is_alnum l = "in".toList := htext
      rw [htaken, keyword_in] at hkey
      cases hkey
    final := fun h => absurd h (keyword_ne_EOF _) }
  stops h := absurd h (keyword_ne_EOF _)

theorem read_number_type (l : Lexer) : (read_number l).1.type = .NUMBER := by
  unfold read_number
  dsimp only
  repeat' split
  all_goals rfl

theorem read_string_type (l : Lexer) : (read_string l).1.type = .STRING := by
  unfold read_string
  dsimp only
  split <;> rfl

theorem read_number_lexes (l : Lexer) : Lexes l (read_number l) :=
  .of_type (by rw [read_number_type]; decide) (by rw [read_number_type]; decide)

theorem read_string_lexes (l : Lexer) : Lexes l (read_string l) :=
  .of_type (by rw [read_string_type]; decide) (by rw [read_string_type]; decide)

theorem read_at_keyword_lexes (l : Lexer) : Lexes l (read_at_keyword l) := by
  have htype : (read_at_keyword l).1.type = .PROTOCOL ∨ (read_at_keyword l).1.type = .CONST ∨
      (read_at_keyword l).1.type = .FILTER ∨ (read_at_keyword l).1.type = .ERROR ∨
      (read_at_keyword l).1.type = .AT := by
    unfold read_at_keyword
    dsimp only
    repeat' split
    all_goals simp
  rcases htype with htype | htype | htype | htype | htype
  all_goals exact .of_type (by rw [htype]; decide) (by rw [htype]; decide)

theorem with_equals_lexes {one two : TokenType} {l : Lexer}
    (hone : one ≠ .IDENTIFIER ∧ one ≠ .EOF) (htwo : two ≠ .IDENTIFIER ∧ two ≠ .EOF) :
    Lexes l (with_equals one two l) := by
  unfold with_equals
  split
  · exact .of_type htwo.1 htwo.2
  · exact .of_type hone.1 hone.2

theorem single_lexes {type : TokenType} {l : Lexer} (h : type ≠ .IDENTIFIER ∧ type ≠ .EOF) :
    Lexes l (single type l) := .of_type h.1 h.2

theorem Lexes.ite {l : Lexer} {c : Prop} [Decidable c] {r r' : Token × Lexer} (hr : Lexes l r)
    (hr' : Lexes l r') : Lexes l (if c then r else r') := by
  split
  · exact hr
  · exact hr'

theorem lexer_next_token_lexes (l : Lexer) :
    Lexes (skip_whitespace_and_comments l) (lexer_next_token l) := by
  unfold lexer_next_token
  refine .ite ⟨⟨nofun, fun _ => rfl⟩, fun _ => rfl⟩ ?_
  refine .ite (read_identifier_lexes _) (.ite (read_number_lexes _) ?_)
  refine .ite (read_string_lexes _) (.ite (single_lexes (by decide)) ?_)
  refine .ite (single_lexes (by decide)) (.ite (single_lexes (by decide)) ?_)
  refine .ite (single_lexes (by decide)) (.ite (single_lexes (by decide)) ?_)
  refine .ite (single_lexes (by decide)) (.ite (single_lexes (by decide)) ?_)
  refine .ite (read_at_keyword_lexes _) (.ite (with_equals_lexes (by decide) (by decide)) ?_)
  refine .ite (with_equals_lexes (by decide) (by decide)) ?_
  refine .ite (with_equals_lexes (by decide) (by decide)) ?_
  refine .ite (with_equals_lexes (by decide) (by decide)) ?_
  refine .ite (single_lexes (by decide)) (.ite (single_lexes (by decide)) ?_)
  exact .of_type nofun nofun

/-! ## The stream -/

theorem lex_loop_lexed (n : ℕ) : ∀ l : Lexer,
    (∀ t ∈ (lex_loop n l).1, t.Lexed ∧ t.type ≠ .EOF) ∧ (lex_loop n l).2.Lexed := by
  induction n with
  | zero => intro l; exact ⟨nofun, (lexer_next_token_lexes l).lexed⟩
  | succ n ih =>
    intro l
    have hfirst := lexer_next_token_lexes l
    rw [lex_loop]
    split
    rename_i t rest hnext
    rw [hnext] at hfirst
    split
    · exact ⟨nofun, hfirst.lexed⟩
    · rename_i hmoved
      refine ⟨fun u hu => ?_, (ih rest).2⟩
      rcases List.mem_cons.mp hu with rfl | hu
      · exact ⟨hfirst.lexed, fun heof => hmoved (congrArg List.length (hfirst.stops heof))⟩
      · exact (ih rest).1 u hu

/-! ## The end of a text -/

/-- A token at which the lexer stops. -/
def Final (t : Token) : Prop := t.type = .EOF ∨ t.type = .ERROR

theorem not_final {type : TokenType} (h : type ≠ .EOF ∧ type ≠ .ERROR) {t : Token}
    (ht : t.type = type) : ¬ Final t := by
  rw [Final, ht]
  exact not_or.mpr h

theorem take_chars_length {p : Char → Bool} {c : Char} {rest : List Char} (h : p c = true) :
    0 < (take_chars p (c :: rest)).length := by
  rw [take_chars, List.take_succ_cons, List.takeWhile_cons_of_pos h]
  exact Nat.zero_lt_succ _

/-- A call of the lexer moves on, or has come to a final token. -/
def Advances (l : Lexer) (r : Token × Lexer) : Prop :=
  r.2.length < l.length ∨ (Final r.1 ∧ r.2 = l)

theorem Advances.of_drop {c : Char} {rest : List Char} {t : Token} {n : ℕ} (hn : 0 < n) :
    Advances (c :: rest) (t, (c :: rest).drop n) := by
  left
  rw [List.length_drop, List.length_cons]
  omega

theorem Advances.ite {l : Lexer} {c : Prop} [Decidable c] {r r' : Token × Lexer}
    (hr : c → Advances l r) (hr' : ¬c → Advances l r') : Advances l (if c then r else r') := by
  split
  · exact hr ‹_›
  · exact hr' ‹_›

theorem read_identifier_advances {c : Char} {rest : List Char} (h : is_alpha c = true) :
    Advances (c :: rest) (read_identifier (c :: rest)) :=
  .of_drop (take_chars_length (by rw [is_alnum, h]; rfl))

theorem read_number_advances {c : Char} {rest : List Char} (h : is_digit c = true) :
    Advances (c :: rest) (read_number (c :: rest)) := by
  refine .ite (fun _ => .ite (fun _ => ?_) fun _ => ?_) fun _ => ?_
  · exact .inl (Nat.lt_succ_of_le (List.tail_sublist _).length_le)
  · refine .inl (Nat.lt_succ_of_le ?_)
    rw [List.length_drop]
    exact (Nat.sub_le _ _).trans (List.tail_sublist _).length_le
  · exact .of_drop (take_chars_length h)

theorem read_string_loop_length (n : ℕ) : ∀ l : Lexer, (read_string_loop n l).2.length ≤ l.length := by
  have htail (l : Lexer) : (advance l).length ≤ l.length := (List.tail_sublist l).length_le
  induction n with
  | zero => intro l; exact le_rfl
  | succ n ih =>
    intro l
    rw [read_string_loop]
    split
    · split
      · exact (ih _).trans ((htail _).trans (htail l))
      · exact (ih _).trans (htail l)
    · exact le_rfl

theorem read_string_advances (c : Char) (rest : List Char) :
    Advances (c :: rest) (read_string (c :: rest)) := by
  have hloop := read_string_loop_length 255 rest
  have htail (l : Lexer) : (advance l).length ≤ l.length := (List.tail_sublist l).length_le
  rw [read_string, show advance (c :: rest) = rest from rfl]
  split
  rename_i text after hread
  rw [hread] at hloop
  split
  · exact .inl (Nat.lt_succ_of_le hloop)
  · exact .inl (Nat.lt_succ_of_le ((htail _).trans hloop))

theorem read_at_keyword_advances (c : Char) (rest : List Char) :
    Advances (c :: rest) (read_at_keyword (c :: rest)) := by
  have hrest (n : ℕ) (t : Token) : Advances (c :: rest) (t, rest.drop n) := by
    left
    rw [List.length_drop]
    exact Nat.lt_succ_of_le (Nat.sub_le _ _)
  refine .ite (fun _ => ?_) fun _ => .inl (Nat.lt_succ_self _)
  exact .ite (fun _ => hrest _ _) fun _ => .ite (fun _ => hrest _ _) fun _ =>
    .ite (fun _ => hrest _ _) fun _ => hrest _ _

theorem with_equals_advances {one two : TokenType} (c : Char) (rest : List Char) :
    Advances (c :: rest) (with_equals one two (c :: rest)) :=
  .ite (fun _ => .inl (Nat.lt_succ_of_le (List.tail_sublist _).length_le)) fun _ =>
    .inl (Nat.lt_succ_self _)

theorem lexer_next_token_advances (l : Lexer) :
    Advances (skip_whitespace_and_comments l) (lexer_next_token l) := by
  unfold lexer_next_token
  generalize skip_whitespace_and_comments l = l
  refine .ite (fun _ => .inr ⟨.inl rfl, rfl⟩) fun hne => ?_
  cases l with
  | nil => exact absurd rfl hne
  | cons c rest =>
    have hsingle (type : TokenType) : Advances (c :: rest) (single type (c :: rest)) :=
      .inl (Nat.lt_succ_self _)
    refine .ite read_identifier_advances fun _ => .ite read_number_advances fun _ => ?_
    refine .ite (fun _ => read_string_advances c rest) fun _ => ?_
    refine .ite (fun _ => hsingle _) fun _ => .ite (fun _ => hsingle _) fun _ => ?_
    refine .ite (fun _ => hsingle _) fun _ => .ite (fun _ => hsingle _) fun _ => ?_
    refine .ite (fun _ => hsingle _) fun _ => .ite (fun _ => hsingle _) fun _ => ?_
    refine .ite (fun _ => hsingle _) fun _ => .ite (fun _ => read_at_keyword_advances c rest) fun _ => ?_
    refine .ite (fun _ => with_equals_advances c rest) fun _ => ?_
    refine .ite (fun _ => with_equals_advances c rest) fun _ => ?_
    refine .ite (fun _ => with_equals_advances c rest) fun _ => ?_
    refine .ite (fun _ => with_equals_advances c rest) fun _ => ?_
    exact .ite (fun _ => hsingle _) fun _ => .ite (fun _ => hsingle _) fun _ =>
      .inr ⟨.inr rfl, rfl⟩

theorem skip_comment_length (l : Lexer) : (skip_comment l).length ≤ l.length := by
  rw [skip_comment]
  split
  · exact (List.dropWhile_sublist _).length_le
  · exact le_rfl

theorem skip_length (l : Lexer) : (skip_whitespace_and_comments l).length ≤ l.length := by
  have hspace (l : Lexer) : (skip_whitespace l).length ≤ l.length :=
    (List.dropWhile_sublist _).length_le
  have hloop (n : ℕ) : ∀ l : Lexer, (skip_loop n l).length ≤ l.length := by
    induction n with
    | zero => intro l; exact le_rfl
    | succ n ih =>
      intro l
      rw [skip_loop]
      split
      · exact (ih _).trans ((skip_comment_length _).trans (hspace l))
      · exact hspace l
  exact hloop _ l

/-- The token that repeats is a final one, and there are no more tokens than
characters. -/
theorem lex_loop_final (n : ℕ) : ∀ l : Lexer, l.length ≤ n →
    Final (lex_loop n l).2 ∧ (lex_loop n l).1.length ≤ n := by
  induction n with
  | zero =>
    intro l hl
    rw [List.length_eq_zero_iff.mp (Nat.le_zero.mp hl)]
    exact ⟨.inl rfl, le_rfl⟩
  | succ n ih =>
    intro l hl
    have hmoves := lexer_next_token_advances l
    have hskip := skip_length l
    rw [lex_loop]
    split
    rename_i t rest hnext
    rw [hnext] at hmoves
    split
    · rename_i hstill
      exact ⟨(hmoves.resolve_left hstill.not_lt).1, Nat.zero_le _⟩
    · rename_i hmoved
      have hshorter : rest.length < (skip_whitespace_and_comments l).length :=
        hmoves.resolve_right fun h => hmoved (congrArg List.length h.2)
      obtain ⟨hfinal, hlength⟩ := ih rest (by omega)
      exact ⟨hfinal, Nat.succ_le_succ hlength⟩

end RxNetCap.Pdef
