/-
What a text declares, in the words it is written in.

The parser keeps what its buffers have room for. A `Script` keeps the lexemes:
each token together with the text that starts with it, so that the whole word
or literal is at hand (`Lexeme.word`, `Lexeme.integer`), and under each
declaration the lexemes it was made of. The script is read off the lexemes
alone, by the punctuation of an accepted text; that it is what the parser read
is the subject of `RxNetCap.Pdef.Spelled`.
-/
import RxNetCap.Pdef.Stream

set_option autoImplicit false

namespace RxNetCap.Pdef

/-! ## Lexemes -/

/-- A token, and the text that starts with it. -/
structure Lexeme where
  token : Token
  start : Lexer
  deriving DecidableEq, Repr

/-- The type of its token. -/
abbrev Lexeme.type (x : Lexeme) : TokenType := x.token.type

def lexemes_loop : ℕ → Lexer → List Lexeme
  | 0, _ => []
  | n + 1, l =>
    let start := skip_whitespace_and_comments l
    let (token, rest) := lexer_next_token l
    if rest.length = start.length then []
    else { token := token, start := start } :: lexemes_loop n rest

/-- The lexemes of a text. -/
def lexemes (source : List Char) : List Lexeme := lexemes_loop source.length source

theorem lexemes_loop_tokens (n : ℕ) : ∀ l : Lexer,
    (lexemes_loop n l).map Lexeme.token = (lex_loop n l).1 := by
  induction n with
  | zero => intro l; rfl
  | succ n ih =>
    intro l
    rw [lexemes_loop, lex_loop]
    by_cases hstill : (lexer_next_token l).2.length = (skip_whitespace_and_comments l).length
    · simp only [if_pos hstill, List.map_nil]
    · simp only [if_neg hstill, List.map_cons, ih]

theorem lexemes_tokens (source : List Char) :
    (lexemes source).map Lexeme.token = (lex source).1 := lexemes_loop_tokens _ _

theorem lexemes_loop_read (n : ℕ) : ∀ l : Lexer, ∀ x ∈ lexemes_loop n l,
    ∃ l', x.start = skip_whitespace_and_comments l' ∧ x.token = (lexer_next_token l').1 := by
  induction n with
  | zero => intro l x hx; cases hx
  | succ n ih =>
    intro l x hx
    rw [lexemes_loop] at hx
    by_cases hstill : (lexer_next_token l).2.length = (skip_whitespace_and_comments l).length
    · simp only [if_pos hstill] at hx
      cases hx
    · simp only [if_neg hstill, List.mem_cons] at hx
      rcases hx with rfl | hx
      · exact ⟨l, rfl, rfl⟩
      · exact ih _ x hx

/-- A lexeme of a text, of a type. -/
structure Lexeme.Is (x : Lexeme) (source : List Char) (type : TokenType) : Prop where
  mem : x ∈ lexemes source
  type_eq : x.type = type

/-- It is what the lexer found at its place. -/
theorem Lexeme.Is.read {x : Lexeme} {source : List Char} {type : TokenType} (h : x.Is source type) :
    ∃ l, x.start = skip_whitespace_and_comments l ∧ x.token = (lexer_next_token l).1 :=
  lexemes_loop_read _ _ x h.mem

/-- No word of a text is `in`, which is a token of its own. -/
theorem Lexeme.Is.not_in {x : Lexeme} {source : List Char} {type : TokenType} (h : x.Is source type) :
    ¬(x.token.type = .IDENTIFIER ∧ x.token.text = "in".toList) := by
  rintro ⟨hword, htext⟩
  obtain ⟨l, -, htoken⟩ := h.read
  have hlexed := (lexer_next_token_lexes l).lexed
  rw [← htoken] at hlexed
  exact hlexed.word hword htext

/-! ## Whole words and literals -/

/-- The word that starts there, however long it is. -/
def Lexeme.word (x : Lexeme) : CStr := x.start.takeWhile is_alnum

/-- A literal in hexadecimal. -/
def Lexeme.hex (x : Lexeme) : Prop :=
  current_char x.start = '0' ∧ (peek_char x.start 1 = 'x' ∨ peek_char x.start 1 = 'X')

instance (x : Lexeme) : Decidable x.hex := by
  unfold Lexeme.hex
  infer_instance

/-- The digits of the literal that starts there, however many there are. -/
def Lexeme.digits (x : Lexeme) : CStr :=
  if x.hex then (x.start.drop 2).takeWhile is_hex_digit else x.start.takeWhile is_digit

def Lexeme.base (x : Lexeme) : ℕ := if x.hex then 16 else 10

/-- The number that digits stand for. -/
def digits_value (base : ℕ) (text : CStr) : ℕ :=
  text.foldl (fun n c => n * base + digit_value c) 0

/-- The literal, taken as a mathematical integer. -/
def Lexeme.integer (x : Lexeme) : ℕ := digits_value x.base x.digits

/-- A word was read as a word, and a number as a number. -/
structure Reads (start : Lexer) (r : Token × Lexer) : Prop where
  word : r.1.type = .IDENTIFIER → r.1 = (read_identifier start).1
  number : r.1.type = .NUMBER → r.1 = (read_number start).1

theorem Reads.of_type {start : Lexer} {r : Token × Lexer}
    (h : r.1.type ≠ .IDENTIFIER ∧ r.1.type ≠ .NUMBER) : Reads start r where
  word ht := absurd ht h.1
  number ht := absurd ht h.2

theorem Reads.ite {start : Lexer} {c : Prop} [Decidable c] {r r' : Token × Lexer}
    (hr : Reads start r) (hr' : Reads start r') : Reads start (if c then r else r') := by
  split
  · exact hr
  · exact hr'

theorem keyword_ne_NUMBER (text : CStr) : keyword text ≠ .NUMBER := by
  unfold keyword
  repeat refine iteInduction (motive := (· ≠ TokenType.NUMBER)) (fun _ => by decide) fun _ => ?_
  decide

theorem lexer_next_token_reads (l : Lexer) :
    Reads (skip_whitespace_and_comments l) (lexer_next_token l) := by
  unfold lexer_next_token
  generalize skip_whitespace_and_comments l = l
  have hsingle {type : TokenType} (h : type ≠ .IDENTIFIER ∧ type ≠ .NUMBER) :
      Reads l (single type l) := .of_type h
  have hequals {one two : TokenType} (h : one ≠ .IDENTIFIER ∧ one ≠ .NUMBER)
      (h' : two ≠ .IDENTIFIER ∧ two ≠ .NUMBER) : Reads l (with_equals one two l) :=
    .ite (.of_type h') (.of_type h)
  have hat : Reads l (read_at_keyword l) := by
    refine .ite (.ite (.of_type ?_) (.ite (.of_type ?_) (.ite (.of_type ?_) (.of_type ?_)))) (.of_type ?_)
    all_goals exact ⟨nofun, nofun⟩
  refine .ite (.of_type ⟨nofun, nofun⟩) ?_
  refine .ite ⟨fun _ => rfl, fun ht => absurd ht (keyword_ne_NUMBER _)⟩ ?_
  refine .ite ⟨fun ht => ?_, fun _ => rfl⟩ ?_
  · rw [read_number_type] at ht
    cases ht
  refine .ite (.of_type (by rw [read_string_type]; decide)) (.ite (hsingle (by decide)) ?_)
  refine .ite (hsingle (by decide)) (.ite (hsingle (by decide)) ?_)
  refine .ite (hsingle (by decide)) (.ite (hsingle (by decide)) ?_)
  refine .ite (hsingle (by decide)) (.ite (hsingle (by decide)) ?_)
  refine .ite hat (.ite (hequals (by decide) (by decide)) ?_)
  refine .ite (hequals (by decide) (by decide)) (.ite (hequals (by decide) (by decide)) ?_)
  refine .ite (hequals (by decide) (by decide)) (.ite (hsingle (by decide)) ?_)
  exact .ite (hsingle (by decide)) (.of_type ⟨nofun, nofun⟩)

/-- The text of a word is what a token has room for. -/
theorem Lexeme.Is.word_text {x : Lexeme} {source : List Char} (h : x.Is source .IDENTIFIER) : x.token.text = x.word.take 255 := by
  obtain ⟨l, hstart, htoken⟩ := h.read
  have hread := (lexer_next_token_reads l).word (htoken ▸ h.type_eq)
  rw [htoken, hread, ← hstart]
  exact List.take_takeWhile.symm

/-- The text of a number is what a token has room for, and its value saturates. -/
theorem Lexeme.Is.number_token {x : Lexeme} {source : List Char} (h : x.Is source .NUMBER) :
    x.token.text = x.digits.take 255 ∧
      x.token.value = min (digits_value x.base (x.digits.take 255)) UINT64_MAX := by
  obtain ⟨l, hstart, htoken⟩ := h.read
  have hread := (lexer_next_token_reads l).number (htoken ▸ h.type_eq)
  have htaken : ∀ (p : Char → Bool) (l : Lexer), take_chars p l = (l.takeWhile p).take 255 :=
    fun _ _ => List.take_takeWhile.symm
  rw [htoken, hread, ← hstart, Lexeme.digits, Lexeme.base]
  by_cases hhex : x.hex
  · have hprefix : current_char x.start = '0' ∧ (peek_char x.start 1 = 'x' ∨ peek_char x.start 1 = 'X') :=
      hhex
    have hdrop : advance (advance x.start) = x.start.drop 2 := by
      rw [advance, advance, ← List.drop_one, ← List.drop_one, List.drop_drop]
    simp only [read_number, if_pos hprefix, if_pos hhex, hdrop, htaken]
    by_cases hnone : ((x.start.drop 2).takeWhile is_hex_digit).take 255 = []
    · simp [hnone, digits_value]
    · rw [if_neg (by rwa [List.length_eq_zero_iff])]
      exact ⟨rfl, rfl⟩
  · have hprefix : ¬(current_char x.start = '0' ∧
        (peek_char x.start 1 = 'x' ∨ peek_char x.start 1 = 'X')) := hhex
    simp only [read_number, if_neg hprefix, if_neg hhex, htaken]
    exact ⟨trivial, rfl⟩

/-! ## Declarations -/

structure ConstDecl where
  name : Lexeme
  value : Lexeme
  deriving DecidableEq, Repr

/-- A field; `size` is the `[N]` of `bytes` and `string`, `count` the `[N]` of
an array. -/
structure FieldDecl where
  type : Lexeme
  size : Option Lexeme
  name : Lexeme
  count : Option Lexeme
  deriving DecidableEq, Repr

structure StructDecl where
  name : Lexeme
  fields : List FieldDecl
  deriving DecidableEq, Repr

/-- One entry of a filter block. The operands of a condition are in the order
they are written in, the mask before the value. -/
inductive FilterItem where
  | sliding (value : Lexeme)
  | sliding_max (value : Lexeme)
  | condition (path operands : List Lexeme)
  deriving DecidableEq, Repr

/-- A filter, with the constants that stand before it, the latest first. -/
structure FilterDecl where
  name : Lexeme
  items : List FilterItem
  known : List ConstDecl
  deriving DecidableEq, Repr

/-- What a text declares. The constants are in the order of the chain, the
latest first. -/
structure Script where
  constants : List ConstDecl := []
  structs : List StructDecl := []
  filters : List FilterDecl := []
  deriving DecidableEq, Repr

/-! ## Reading a script -/

/-- What follows the next token of a type. -/
def behind (type : TokenType) (l : List Lexeme) : List Lexeme :=
  (l.dropWhile fun x => x.type ≠ type).tail

theorem behind_here {type : TokenType} {x : Lexeme} (h : x.type = type) (l : List Lexeme) :
    behind type (x :: l) = l := by simp [behind, h]

theorem behind_skip {type : TokenType} {x : Lexeme} (h : x.type ≠ type) (l : List Lexeme) :
    behind type (x :: l) = behind type l := by simp [behind, h]

/-- Pass over a semicolon, if there is one. -/
def pass_semicolon : List Lexeme → List Lexeme
  | [] => []
  | x :: rest => if x.type = .SEMICOLON then rest else x :: rest

def read_const : List Lexeme → Option (ConstDecl × List Lexeme)
  | name :: _ :: value :: rest => some ({ name := name, value := value }, pass_semicolon rest)
  | _ => none

/-- The number between brackets, if there are brackets. -/
def read_brackets : List Lexeme → Option Lexeme × List Lexeme
  | bracket :: number :: close :: rest =>
    if bracket.type = .LBRACKET then (some number, rest)
    else (none, bracket :: number :: close :: rest)
  | l => (none, l)

def read_field : List Lexeme → Option (FieldDecl × List Lexeme)
  | [] => none
  | type :: rest =>
    let (size, rest) :=
      if type.type = .BYTES ∨ type.type = .STRING_TYPE then read_brackets rest else (none, rest)
    match rest with
    | [] => none
    | name :: rest =>
      let (count, rest) := read_brackets rest
      some ({ type := type, size := size, name := name, count := count }, pass_semicolon rest)

/-- The tokens of a field path. -/
def in_path (x : Lexeme) : Bool :=
  x.type = .IDENTIFIER || x.type = .DOT || x.type = .LBRACKET || x.type = .RBRACKET ||
    x.type = .NUMBER

/-- The operands of a list, up to its closing bracket. -/
def listed (l : List Lexeme) : List Lexeme :=
  (l.takeWhile fun x => x.type ≠ .RBRACKET).filter fun x => x.type ≠ .COMMA

theorem listed_close {x : Lexeme} (h : x.type = .RBRACKET) (l : List Lexeme) :
    listed (x :: l) = [] := by simp [listed, h]

theorem listed_comma {x : Lexeme} (h : x.type = .COMMA) (l : List Lexeme) :
    listed (x :: l) = listed l := by simp [listed, h]

theorem listed_operand {x : Lexeme} (h : x.type ≠ .RBRACKET ∧ x.type ≠ .COMMA) (l : List Lexeme) :
    listed (x :: l) = x :: listed l := by simp [listed, h]

/-- The operands behind a comparison, or in the list behind an `in`. -/
def read_values : List Lexeme → Option (List Lexeme × List Lexeme)
  | [] => none
  | op :: rest =>
    if op.type = .IN then
      some (listed rest.tail, behind .RBRACKET rest)
    else
      match rest with
      | [] => none
      | value :: rest => some ([value], rest)

/-- The operator of a condition and its operands. -/
def read_operands : List Lexeme → Option (List Lexeme × List Lexeme)
  | [] => none
  | op :: rest =>
    if op.type = .AND then
      match rest with
      | mask :: _ :: value :: rest => some ([mask, value], rest)
      | _ => none
    else if op.type = .NOT then read_values rest
    else read_values (op :: rest)

theorem read_values_list {op : Lexeme} (hop : op.type = .IN) (rest : List Lexeme) :
    read_values (op :: rest) = some (listed rest.tail, behind .RBRACKET rest) := by
  unfold read_values
  exact if_pos hop

theorem read_operands_not {op : Lexeme} (hop : op.type = .NOT) (rest : List Lexeme) :
    read_operands (op :: rest) = read_values rest := by
  unfold read_operands
  exact (if_neg (by rw [hop]; decide)).trans (if_pos hop)

theorem read_operands_plain {op : Lexeme} (hop : op.type ≠ .AND ∧ op.type ≠ .NOT)
    (rest : List Lexeme) : read_operands (op :: rest) = read_values (op :: rest) := by
  conv_lhs => unfold read_operands
  exact (if_neg hop.1).trans (if_neg hop.2)

def read_item : List Lexeme → Option (FilterItem × List Lexeme)
  | [] => none
  | first :: rest =>
    if first.token.text = "sliding".toList then
      match rest with
      | _ :: value :: rest => some (.sliding value, pass_semicolon rest)
      | _ => none
    else if first.token.text = "sliding_max".toList then
      match rest with
      | _ :: value :: rest => some (.sliding_max value, pass_semicolon rest)
      | _ => none
    else
      match read_operands ((first :: rest).dropWhile in_path) with
      | none => none
      | some (operands, after) =>
        some (.condition ((first :: rest).takeWhile in_path) operands, pass_semicolon after)

theorem read_item_condition {first : Lexeme} {rest operands after : List Lexeme}
    (hsliding : first.token.text ≠ "sliding".toList)
    (hmax : first.token.text ≠ "sliding_max".toList)
    (h : read_operands ((first :: rest).dropWhile in_path) = some (operands, after)) :
    read_item (first :: rest)
      = some (.condition ((first :: rest).takeWhile in_path) operands, pass_semicolon after) := by
  unfold read_item
  refine (if_neg hsliding).trans ((if_neg hmax).trans ?_)
  rw [h]

/-- Entries up to the closing brace, and what follows it. -/
def read_entries {α : Type} (entry : List Lexeme → Option (α × List Lexeme)) :
    ℕ → List Lexeme → Option (List α × List Lexeme)
  | 0, _ => none
  | _ + 1, [] => none
  | n + 1, x :: rest =>
    if x.type = .RBRACE then some ([], rest)
    else
      match entry (x :: rest) with
      | none => none
      | some (a, rest) =>
        match read_entries entry n rest with
        | none => none
        | some (entries, rest) => some (a :: entries, rest)

/-- The body of a block, behind its opening brace. -/
def read_body {α : Type} (entry : List Lexeme → Option (α × List Lexeme)) (l : List Lexeme) :
    Option (List α × List Lexeme) := read_entries entry (l.length + 1) l

def read_block (w : Script) : List Lexeme → Option (Script × List Lexeme)
  | [] => none
  | first :: rest =>
    match first.type with
    | .PROTOCOL => some (w, behind .RBRACE rest)
    | .CONST =>
      (read_body read_const rest.tail).map fun (consts, rest) =>
        ({ w with constants := consts.reverse ++ w.constants }, rest)
    | .FILTER =>
      match rest with
      | name :: _ :: body =>
        (read_body read_item body).map fun (items, rest) =>
          ({ w with filters := w.filters ++
            [{ name := name, items := items, known := w.constants }] }, rest)
      | _ => none
    | _ =>
      (read_body read_field rest.tail).map fun (fields, rest) =>
        ({ w with structs := w.structs ++ [{ name := first, fields := fields }] }, rest)

def read_blocks : ℕ → Script → List Lexeme → Option Script
  | 0, _, _ => none
  | _ + 1, w, [] => some w
  | n + 1, w, x :: rest =>
    match read_block w (x :: rest) with
    | none => none
    | some (w, rest) => read_blocks n w rest

/-- The script of a text; empty where the text is not a sequence of blocks. -/
def script (source : List Char) : Script :=
  (read_blocks ((lexemes source).length + 1) {} (lexemes source)).getD {}

end RxNetCap.Pdef
