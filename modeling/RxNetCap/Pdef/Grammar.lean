/-
The grammar of PDEF texts, as languages of lexemes.

A terminal is a token that the lexer could read. The rules are those of the
guide and of the parser's own messages: a field starts with one of the eleven
type words or with the name of a declared struct, `bytes` and `string` carry a
size, arrays are of nested fields, a `varbytes` field comes last, a list of
ports starts with a port, and `!` stands before `in` only. A semicolon may be
left out.
-/
import RxNetCap.Pdef.Script
import RxNetCap.Lib.Succession

set_option autoImplicit false

namespace RxNetCap.Pdef.Grammar

open RxNetCap.Succession
open scoped Computability

/-! ## Terminals -/

/-- One token that the lexer could read, of a kind. -/
def one (kind : Token → Prop) : Language Lexeme :=
  {w | ∃ x : Lexeme, w = [x] ∧ x.token.ok = true ∧ kind x.token}

def tok (type : TokenType) : Language Lexeme := one fun t => t.type = type

/-- One of some words. -/
def word (texts : List String) : Language Lexeme :=
  one fun t => t.type = .IDENTIFIER ∧ t.text ∈ texts.map String.toList

def semicolon : Language Lexeme := 1 + tok .SEMICOLON

def assigned (value : Language Lexeme) : Language Lexeme := tok .ASSIGN * value

def bracketed : Language Lexeme := tok .LBRACKET * tok .NUMBER * tok .RBRACKET

/-! ## `@protocol` and `@const` -/

def ports : Language Lexeme := tok .NUMBER * (tok .COMMA * tok .NUMBER)∗

def setting : Language Lexeme :=
  word ["name"] * assigned (tok .STRING + tok .IDENTIFIER)
    + word ["endian"] * assigned (word ["big", "little", "auto"])
    + word ["ports"] * assigned ports

def protocol_block : Language Lexeme :=
  tok .PROTOCOL * tok .LBRACE * (setting * semicolon)∗ * tok .RBRACE

def constant : Language Lexeme := tok .IDENTIFIER * assigned (tok .NUMBER)

def const_block : Language Lexeme :=
  tok .CONST * tok .LBRACE * (constant * semicolon)∗ * tok .RBRACE

/-! ## Structs -/

def scalar_types : List TokenType :=
  [.UINT8, .UINT16, .UINT32, .UINT64, .INT8, .INT16, .INT32, .INT64]

/-- The eleven type words. -/
def type_words : List TokenType := scalar_types ++ [.BYTES, .STRING_TYPE, .VARBYTES]

def field (declared : List CStr) : Language Lexeme :=
  one (fun t => t.type ∈ scalar_types) * tok .IDENTIFIER
    + (tok .BYTES + tok .STRING_TYPE) * bracketed * tok .IDENTIFIER
    + one (fun t => t.type = .IDENTIFIER ∧ t.text ∈ declared) * tok .IDENTIFIER * (1 + bracketed)

def last_field : Language Lexeme := tok .VARBYTES * tok .IDENTIFIER

def struct_body (declared : List CStr) : Language Lexeme :=
  (field declared * semicolon)∗ * (1 + last_field * semicolon)

def struct_block (declared : List CStr) : Language Lexeme :=
  tok .IDENTIFIER * tok .LBRACE * struct_body declared * tok .RBRACE

/-! ## `@filter` -/

def operand : Language Lexeme := tok .NUMBER + tok .IDENTIFIER

/-- A field path; `sliding` and `sliding_max` are settings. -/
def path : Language Lexeme :=
  one (fun t => t.type = .IDENTIFIER ∧ t.text ∉ ["sliding".toList, "sliding_max".toList])
    * bracketed∗ * (tok .DOT * tok .IDENTIFIER * bracketed∗)∗

def value_list : Language Lexeme :=
  tok .LBRACKET * operand * (tok .COMMA * operand)∗ * tok .RBRACKET

/-- Any comparison but `=`. -/
def comparison : Language Lexeme := one fun t => t.type ∈ [.EQ, .NE, .GT, .GE, .LT, .LE]

def operation : Language Lexeme :=
  tok .AND * operand * assigned operand
    + assigned operand
    + comparison * operand
    + (tok .NOT * tok .IN + tok .IN) * value_list

def item : Language Lexeme :=
  word ["sliding"] * assigned (word ["true", "false"] + tok .NUMBER)
    + word ["sliding_max"] * assigned (tok .NUMBER)
    + path * operation

def filter_block : Language Lexeme :=
  tok .FILTER * tok .IDENTIFIER * tok .LBRACE * (item * semicolon)∗ * tok .RBRACE

/-! ## Texts -/

def block (declared : List CStr) : Language Lexeme :=
  protocol_block + const_block + filter_block + struct_block declared

/-- The name of a block that declares a struct. -/
def struct_name : List Lexeme → Option CStr
  | [] => none
  | first :: _ => if first.type = .IDENTIFIER then some first.token.text else none

/-- The structs that some blocks declare. -/
def declared (blocks : List (List Lexeme)) : List CStr := blocks.filterMap struct_name

/-- A text is a sequence of blocks, whose fields name the structs that it declares. -/
def Derives (l : List Lexeme) : Prop :=
  ∃ blocks : List (List Lexeme), l = blocks.flatten ∧ ∀ b ∈ blocks, b ∈ block (declared blocks)

/-! ## Terminals and the words they begin -/

variable {kind : Token → Prop} {type : TokenType}

theorem one_begins {P : Lexeme → Prop} (h : ∀ x : Lexeme, kind x.token → P x) :
    Begins P (one kind) := by
  rintro w ⟨x, rfl, -, hx⟩
  exact ⟨x, [], rfl, h x hx⟩

theorem tok_begins : Begins (fun x : Lexeme => x.type = type) (tok type) := one_begins fun _ h => h

theorem word_begins {texts : List String} :
    Begins (fun x : Lexeme => x.type = .IDENTIFIER ∧ x.token.text ∈ texts.map String.toList) (word texts) :=
  one_begins fun _ h => h

theorem operand_begins : Begins (fun x : Lexeme => x.type = .NUMBER ∨ x.type = .IDENTIFIER) operand :=
  .add (tok_begins.mono fun _ h => .inl h) (tok_begins.mono fun _ h => .inr h)

/-! ## What stands beside what -/

/-- What may stand behind `=`, and behind `!`. -/
def Beside (x y : Lexeme) : Prop :=
  (x.type = .ASSIGN → y.type ≠ .COMMA) ∧ (x.type = .NOT → y.type = .IN)

instance (x y : Lexeme) : Decidable (Beside x y) := by
  unfold Beside
  infer_instance

/-- Neither `=` nor `!`. -/
def Plain (x : Lexeme) : Prop := x.type ≠ .ASSIGN ∧ x.type ≠ .NOT

theorem Plain.beside (x y : Lexeme) (h : Plain x) : Beside x y :=
  ⟨fun hx => absurd hx h.1, fun hx => absurd hx h.2⟩

/-- A readable token inside a block. -/
def Inner (x : Lexeme) : Prop := x.token.ok = true ∧ x.type ≠ .RBRACE

/-- Words of the inside of a block. -/
abbrev Inside (L : Language Lexeme) : Prop := Settled Inner Beside Plain L

variable {L M : Language Lexeme}

theorem one_inside (h : ∀ t, kind t → t.type ≠ .RBRACE ∧ t.type ≠ .ASSIGN ∧ t.type ≠ .NOT) :
    Inside (one kind) := by
  refine settled_letters ?_
  rintro w ⟨x, rfl, hok, hx⟩
  exact ⟨x, rfl, ⟨hok, (h _ hx).1⟩, (h _ hx).2⟩

theorem tok_inside (h : type ≠ .RBRACE ∧ type ≠ .ASSIGN ∧ type ≠ .NOT) : Inside (tok type) := by
  refine one_inside ?_
  rintro t rfl
  exact h

theorem word_inside (texts : List String) : Inside (word texts) := by
  refine one_inside fun t ht => ?_
  rw [ht.1]
  decide

theorem inside_mul (hL : Inside L) (hM : Inside M) : Inside (L * M) := hL.mul Plain.beside hM

theorem inside_kstar (hL : Inside L) : Inside L∗ := hL.kstar Plain.beside

theorem semicolon_inside : Inside semicolon := settled_one.add (tok_inside (by decide))

theorem bracketed_inside : Inside bracketed :=
  inside_mul (inside_mul (tok_inside (by decide)) (tok_inside (by decide))) (tok_inside (by decide))

/-- What is assigned does not start with a comma. -/
theorem assigned_inside (hbegins : Begins (fun x : Lexeme => x.type ≠ .COMMA) L) (hL : Inside L) :
    Inside (assigned L) := by
  refine .lead ?_ hbegins hL
  rintro w ⟨x, rfl, hok, hx⟩
  have hx : x.type = .ASSIGN := hx
  refine ⟨x, rfl, ⟨hok, by rw [hx]; decide⟩, fun y hy => ⟨fun _ => hy, fun hnot => ?_⟩⟩
  rw [hx] at hnot
  cases hnot

/-- A token of a type that is no comma. -/
theorem tok_no_comma (h : type ≠ .COMMA) : Begins (fun x : Lexeme => x.type ≠ .COMMA) (tok type) :=
  tok_begins.mono fun _ hx => hx ▸ h

theorem word_no_comma (texts : List String) : Begins (fun x : Lexeme => x.type ≠ .COMMA) (word texts) :=
  word_begins.mono fun x hx => by
    rw [hx.1]
    decide

theorem operand_inside : Inside operand := (tok_inside (by decide)).add (tok_inside (by decide))

theorem assigned_operand_inside : Inside (assigned operand) :=
  assigned_inside (.add (tok_no_comma (by decide)) (tok_no_comma (by decide))) operand_inside

theorem setting_inside : Inside setting := by
  have hports : Inside ports := inside_mul (tok_inside (by decide))
    (inside_kstar (inside_mul (tok_inside (by decide)) (tok_inside (by decide))))
  refine .add (.add (inside_mul (word_inside _) (assigned_inside ?_ ?_))
    (inside_mul (word_inside _) (assigned_inside (word_no_comma _) (word_inside _))))
    (inside_mul (word_inside _) (assigned_inside (tok_no_comma (by decide)).mul hports))
  · exact .add (tok_no_comma (by decide)) (tok_no_comma (by decide))
  · exact .add (tok_inside (by decide)) (tok_inside (by decide))

theorem constant_inside : Inside constant :=
  inside_mul (tok_inside (by decide))
    (assigned_inside (tok_no_comma (by decide)) (tok_inside (by decide)))

theorem field_inside (declared : List CStr) : Inside (field declared) := by
  have hscalar : Inside (one fun t => t.type ∈ scalar_types) := by
    refine one_inside fun t ht => ?_
    generalize t.type = type at ht
    revert type
    decide
  have hnamed : Inside (one fun t => t.type = .IDENTIFIER ∧ t.text ∈ declared) := by
    refine one_inside fun t ht => ?_
    rw [ht.1]
    decide
  have hsized : Inside (tok .BYTES + tok .STRING_TYPE) :=
    .add (tok_inside (by decide)) (tok_inside (by decide))
  have hname : Inside (tok .IDENTIFIER) := tok_inside (by decide)
  exact .add (.add (inside_mul hscalar hname) (inside_mul (inside_mul hsized bracketed_inside) hname))
    (inside_mul (inside_mul hnamed hname) (settled_one.add bracketed_inside))

theorem struct_body_inside (declared : List CStr) : Inside (struct_body declared) := by
  have hlast : Inside last_field := inside_mul (tok_inside (by decide)) (tok_inside (by decide))
  exact inside_mul (inside_kstar (inside_mul (field_inside declared) semicolon_inside))
    (settled_one.add (inside_mul hlast semicolon_inside))

/-- The tokens of a path, whatever is asked of them. -/
theorem path_settled {Good : Lexeme → Prop} {R : Lexeme → Lexeme → Prop} {Free : Lexeme → Prop}
    (hfree : ∀ x y, Free x → R x y)
    (h : ∀ x : Lexeme, x.token.ok = true → x.type ∈ [.IDENTIFIER, .DOT, .LBRACKET, .RBRACKET, .NUMBER] →
      Good x ∧ Free x) : Settled Good R Free path := by
  have hone : ∀ {kind : Token → Prop}, (∀ t, kind t →
      t.type ∈ [.IDENTIFIER, .DOT, .LBRACKET, .RBRACKET, .NUMBER]) → Settled Good R Free (one kind) := by
    intro kind hkind
    refine settled_letters ?_
    rintro w ⟨x, rfl, hok, hx⟩
    exact ⟨x, rfl, h x hok (hkind _ hx)⟩
  have htok : ∀ type ∈ [TokenType.IDENTIFIER, .DOT, .LBRACKET, .RBRACKET, .NUMBER],
      Settled Good R Free (tok type) := by
    intro type htype
    refine hone ?_
    rintro t rfl
    exact htype
  have hindices : Settled Good R Free bracketed∗ :=
    (((htok _ (by decide)).mul hfree (htok _ (by decide))).mul hfree (htok _ (by decide))).kstar hfree
  have hfirst : Settled Good R Free
      (one fun t => t.type = .IDENTIFIER ∧ t.text ∉ ["sliding".toList, "sliding_max".toList]) := by
    refine hone fun t ht => ?_
    rw [ht.1]
    decide
  have hstep : Settled Good R Free (tok .DOT * tok .IDENTIFIER * bracketed∗) :=
    ((htok _ (by decide)).mul hfree (htok _ (by decide))).mul hfree hindices
  exact (hfirst.mul hfree hindices).mul hfree (hstep.kstar hfree)

theorem path_inside : Inside path := by
  refine path_settled Plain.beside fun x hok hx => ?_
  have hplain : ∀ type ∈ [TokenType.IDENTIFIER, .DOT, .LBRACKET, .RBRACKET, .NUMBER],
      type ≠ .RBRACE ∧ type ≠ .ASSIGN ∧ type ≠ .NOT := by decide
  exact ⟨⟨hok, (hplain _ hx).1⟩, (hplain _ hx).2⟩

theorem value_list_inside : Inside value_list :=
  inside_mul (inside_mul (inside_mul (tok_inside (by decide)) operand_inside)
    (inside_kstar (inside_mul (tok_inside (by decide)) operand_inside))) (tok_inside (by decide))

theorem operation_inside : Inside operation := by
  have hcomparison : Inside comparison := by
    refine one_inside fun t ht => ?_
    generalize t.type = type at ht
    revert type
    decide
  have hin : Inside (tok .IN) := tok_inside (by decide)
  have hnot_in : Inside (tok .NOT * tok .IN) := by
    refine .lead ?_ tok_begins hin
    rintro w ⟨x, rfl, hok, hx⟩
    have hx : x.type = .NOT := hx
    refine ⟨x, rfl, ⟨hok, by rw [hx]; decide⟩, fun y hy => ⟨fun hassign => ?_, fun _ => hy⟩⟩
    rw [hx] at hassign
    cases hassign
  exact .add (.add (.add (inside_mul (inside_mul (tok_inside (by decide)) operand_inside)
    assigned_operand_inside) assigned_operand_inside) (inside_mul hcomparison operand_inside))
    (inside_mul (hnot_in.add hin) value_list_inside)

theorem item_inside : Inside item := by
  have hbool : Inside (assigned (word ["true", "false"] + tok .NUMBER)) :=
    assigned_inside (.add (word_no_comma _) (tok_no_comma (by decide)))
      (.add (word_inside _) (tok_inside (by decide)))
  have hmax : Inside (assigned (tok .NUMBER)) :=
    assigned_inside (tok_no_comma (by decide)) (tok_inside (by decide))
  exact .add (.add (inside_mul (word_inside _) hbool) (inside_mul (word_inside _) hmax))
    (inside_mul path_inside operation_inside)

end RxNetCap.Pdef.Grammar
