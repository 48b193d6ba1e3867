/-
The PDEF lexer, `src/pdef/lexer.c`.

A `Lexer` is the text from its current position on, so `advance` is `tail` and
the line number is a function of how much text has been used up (`line_at`).
`lexer_next_token` returns the token, whether the call succeeded, and the rest
of the text. The parser ignores most of the success flags, so the flag travels
with the token instead of ending the run.

The lexer is deterministic and only ever asked for the next token, so the
parser's view of a text is the stream of its tokens: finitely many, and after
them one token that repeats forever (`lex`): the end of input, or the first
character no token starts with, at which the lexer does not advance.
-/
import RxNetCap.Pdef.Types

set_option autoImplicit false

namespace RxNetCap.Pdef

/-! ## Tokens -/

inductive TokenType where
  | IDENTIFIER | NUMBER | STRING
  | PROTOCOL | CONST | FILTER
  | UINT8 | UINT16 | UINT32 | UINT64
  | INT8 | INT16 | INT32 | INT64
  | BYTES | STRING_TYPE | VARBYTES
  | LBRACE | RBRACE | LBRACKET | RBRACKET
  | SEMICOLON | COMMA | DOT
  | ASSIGN | EQ | NE | LT | LE | GT | GE
  | AND | OR | IN | NOT | AT
  | EOF | ERROR
  deriving DecidableEq, Repr

/-- A token without its position; `ok` is what `lexer_next_token` returned. -/
structure Token where
  type : TokenType
  text : CStr := []
  value : ℕ := 0
  ok : Bool := true
  deriving DecidableEq, Repr

/-! ## Characters -/

def is_alpha (c : Char) : Bool :=
  ('a' ≤ c && c ≤ 'z') || ('A' ≤ c && c ≤ 'Z') || c = '_'

def is_digit (c : Char) : Bool := '0' ≤ c && c ≤ '9'

def is_hex_digit (c : Char) : Bool :=
  is_digit c || ('a' ≤ c && c ≤ 'f') || ('A' ≤ c && c ≤ 'F')

def is_alnum (c : Char) : Bool := is_alpha c || is_digit c

/-- `isspace` of the C locale. -/
def isspace (c : Char) : Bool :=
  c = ' ' || c = '\n' || c = '\t' || c = '\r' || c.toNat = 11 || c.toNat = 12

/-- The text from the lexer's position on. -/
abbrev Lexer := List Char

def current_char (l : Lexer) : Char := l.headD '\x00'

def peek_char (l : Lexer) (offset : ℕ) : Char := l.getD offset '\x00'

def advance (l : Lexer) : Lexer := l.tail

/-- The line of the position at which `rest` is what remains of `source`. -/
def line_at (source rest : List Char) : ℕ :=
  1 + (source.take (source.length - rest.length)).count '\n'

/-! ## White space and comments -/

def skip_whitespace (l : Lexer) : Lexer := l.dropWhile isspace

def skip_comment (l : Lexer) : Lexer :=
  if current_char l = '/' ∧ peek_char l 1 = '/' then
    l.dropWhile (fun c => c ≠ '\x00' && c ≠ '\n')
  else l

/-- Every turn of the loop that goes round again uses up a comment. -/
def skip_loop : ℕ → Lexer → Lexer
  | 0, l => l
  | n + 1, l =>
    let l := skip_whitespace l
    if current_char l = '/' ∧ peek_char l 1 = '/' then skip_loop n (skip_comment l) else l

def skip_whitespace_and_comments (l : Lexer) : Lexer := skip_loop (l.length + 1) l

/-! ## Words, numbers, strings -/

/-- The characters a token of at most 255 takes from the front. -/
def take_chars (p : Char → Bool) (l : Lexer) : CStr := (l.take 255).takeWhile p

def keyword (text : CStr) : TokenType :=
  if text = "uint8".toList then .UINT8
  else if text = "uint16".toList then .UINT16
  else if text = "uint32".toList then .UINT32
  else if text = "uint64".toList then .UINT64
  else if text = "int8".toList then .INT8
  else if text = "int16".toList then .INT16
  else if text = "int32".toList then .INT32
  else if text = "int64".toList then .INT64
  else if text = "bytes".toList then .BYTES
  else if text = "string".toList then .STRING_TYPE
  else if text = "varbytes".toList then .VARBYTES
  else if text = "in".toList then .IN
  else .IDENTIFIER

def read_identifier (l : Lexer) : Token × Lexer :=
  let text := take_chars is_alnum l
  ({ type := keyword text, text := text }, l.drop text.length)

def digit_value (c : Char) : ℕ :=
  if is_digit c then c.toNat - '0'.toNat
  else if 'a' ≤ c then c.toNat - 'a'.toNat + 10
  else c.toNat - 'A'.toNat + 10

/-- `strtoull` on a text of digits of the base. -/
def strtoull (text : CStr) (base : ℕ) : ℕ :=
  min (text.foldl (fun n c => n * base + digit_value c) 0) UINT64_MAX

def read_number (l : Lexer) : Token × Lexer :=
  if current_char l = '0' ∧ (peek_char l 1 = 'x' ∨ peek_char l 1 = 'X') then
    let l := advance (advance l)
    let text := take_chars is_hex_digit l
    if text.length = 0 then ({ type := .NUMBER, ok := false }, l)
    else ({ type := .NUMBER, text := text, value := strtoull text 16 }, l.drop text.length)
  else
    let text := take_chars is_digit l
    ({ type := .NUMBER, text := text, value := strtoull text 10 }, l.drop text.length)

/-- The loop of `read_string`: at most `n` further characters of text. -/
def read_string_loop : ℕ → Lexer → CStr × Lexer
  | 0, l => ([], l)
  | n + 1, l =>
    let c := current_char l
    if c ≠ '"' ∧ c ≠ '\x00' then
      if c = '\\' ∧ peek_char l 1 = '"' then
        let (text, rest) := read_string_loop n (advance (advance l))
        ('"' :: text, rest)
      else
        let (text, rest) := read_string_loop n (advance l)
        (c :: text, rest)
    else ([], l)

def read_string (l : Lexer) : Token × Lexer :=
  let (text, rest) := read_string_loop 255 (advance l)
  if current_char rest ≠ '"' then ({ type := .STRING, text := text, ok := false }, rest)
  else ({ type := .STRING, text := text }, advance rest)

/-- The word after an `@`. -/
def read_at_keyword (l : Lexer) : Token × Lexer :=
  let l := advance l
  if is_alpha (current_char l) then
    let text := take_chars is_alnum l
    let rest := l.drop text.length
    if text = "protocol".toList then ({ type := .PROTOCOL, text := text }, rest)
    else if text = "const".toList then ({ type := .CONST, text := text }, rest)
    else if text = "filter".toList then ({ type := .FILTER, text := text }, rest)
    else ({ type := .ERROR, text := text, ok := false }, rest)
  else ({ type := .AT }, l)

/-! ## `lexer_next_token` -/

/-- A token of one character. -/
def single (type : TokenType) (l : Lexer) : Token × Lexer :=
  ({ type := type, text := [current_char l] }, advance l)

/-- A token of one character, or of two when `=` follows. -/
def with_equals (one two : TokenType) (l : Lexer) : Token × Lexer :=
  if peek_char l 1 = '=' then
    ({ type := two, text := [current_char l, '='] }, advance (advance l))
  else single one l

def lexer_next_token (l : Lexer) : Token × Lexer :=
  let l := skip_whitespace_and_comments l
  let c := current_char l
  if c = '\x00' then ({ type := .EOF }, l)
  else if is_alpha c then read_identifier l
  else if is_digit c then read_number l
  else if c = '"' then read_string l
  else if c = '{' then single .LBRACE l
  else if c = '}' then single .RBRACE l
  else if c = '[' then single .LBRACKET l
  else if c = ']' then single .RBRACKET l
  else if c = ';' then single .SEMICOLON l
  else if c = ',' then single .COMMA l
  else if c = '.' then single .DOT l
  else if c = '@' then read_at_keyword l
  else if c = '=' then with_equals .ASSIGN .EQ l
  else if c = '!' then with_equals .NOT .NE l
  else if c = '<' then with_equals .LT .LE l
  else if c = '>' then with_equals .GT .GE l
  else if c = '&' then single .AND l
  else if c = '|' then single .OR l
  else ({ type := .ERROR, ok := false }, l)

/-! ## The stream of a text -/

/-- The tokens of a text, then the one that repeats. The stream has stopped
moving when a call leaves the position where the skipping left it. -/
def lex_loop : ℕ → Lexer → List Token × Token
  | 0, l => ([], (lexer_next_token l).1)
  | n + 1, l =>
    let (t, rest) := lexer_next_token l
    if rest.length = (skip_whitespace_and_comments l).length then ([], t)
    else
      let (ts, last) := lex_loop n rest
      (t :: ts, last)

def lex (source : List Char) : List Token × Token := lex_loop source.length source

/-- The line each token of the stream starts on. -/
def lines_loop (source : List Char) : ℕ → Lexer → List ℕ
  | 0, _ => []
  | n + 1, l =>
    line_at source (skip_whitespace_and_comments l)
      :: lines_loop source n (lexer_next_token l).2

end RxNetCap.Pdef
