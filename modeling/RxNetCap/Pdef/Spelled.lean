/-
The script of an accepted text is what the parser read.

`Shows source l p` says that the lexemes `l` are the tokens still to come. Each lemma
follows one function of the parser: where it returns, the reader of the same
name reads the lexemes it took, and what it returns is what its buffers keep of
them. The loops of the parser and of the reader take the same turns.
-/
import RxNetCap.Pdef.Script
import RxNetCap.Pdef.Phases

set_option autoImplicit false

namespace RxNetCap.Pdef

open RxNetCap.ErrState

variable {source : List Char} {l : List Lexeme} {p q : Parser} {u : Unit}

/-! ## What the buffers keep -/

/-- The entry of a constant. -/
def stored_const (c : ConstDecl) : CStr × ℕ :=
  (cstr 64 c.name.token.text, c.value.token.value)

/-- The field of a struct, before the structs are laid out. -/
def declared_field (e : Endian) (d : FieldDecl) : Field :=
  { name_field (token_to_field_type d.type.type) (d.size.elim 0 fun x => u32 x.token.value)
      (cstr 64 d.type.token.text) (cstr 64 d.name.token.text) with
    is_array := d.count.isSome
    array_size := d.count.elim 1 fun x => u32 x.token.value
    endian := e
    is_variable := token_to_field_type d.type.type = .VARBYTES }

/-- The literal behind an operand: itself, or the value of the constant that
the look-up finds. -/
def resolve (known : List ConstDecl) (x : Lexeme) : Lexeme :=
  if x.type = .NUMBER then x
  else ((known.find? fun c => cstr 64 c.name.token.text = x.token.text).map ConstDecl.value).getD x

/-- The operands of a condition, in the order of the text. -/
def operand_values (cond : FilterCondition) : List ℕ :=
  match cond.op with
  | .MASK => [cond.mask, cond.value]
  | .IN | .NOT_IN => cond.value_list
  | _ => [cond.value]

/-- The value an operand comes to. -/
def operand_value (known : List ConstDecl) (x : Lexeme) : ℕ := (resolve known x).token.value

/-- What a `sliding` entry says. -/
def switched (x : Lexeme) : Bool :=
  if x.type = .NUMBER then x.token.value ≠ 0 else x.token.text = "true".toList

def FilterItem.sliding? : FilterItem → Option Lexeme
  | .sliding x => some x
  | _ => none

def FilterItem.sliding_max? : FilterItem → Option Lexeme
  | .sliding_max x => some x
  | _ => none

def FilterItem.condition? : FilterItem → Option (List Lexeme × List Lexeme)
  | .condition path operands => some (path, operands)
  | _ => none

/-- The last `sliding` entry of some items, which is the one that counts. -/
def last_sliding (items : List FilterItem) : Option Lexeme :=
  (items.filterMap FilterItem.sliding?).getLast?

def last_sliding_max (items : List FilterItem) : Option Lexeme :=
  (items.filterMap FilterItem.sliding_max?).getLast?

/-- How a lexeme appears in a field path. -/
def lexeme_text (x : Lexeme) : CStr :=
  match x.type with
  | .LBRACKET => ['[']
  | .RBRACKET => [']']
  | .DOT => ['.']
  | .NUMBER => decimal x.token.value
  | _ => x.token.text

/-- The field name that a path comes to. -/
def path_text (path : List Lexeme) : CStr := path.flatMap lexeme_text

/-- What is kept of a condition: the field it names, and its operands. -/
def kept_condition (known : List ConstDecl) (c : List Lexeme × List Lexeme) : CStr × List ℕ :=
  (cstr 128 (path_text c.1), c.2.map (operand_value known))

/-- The same, of a condition that was read. -/
def FilterCondition.kept (cond : FilterCondition) : CStr × List ℕ :=
  (cond.field_name, operand_values cond)

/-! ## The tokens to come -/

/-- The lexemes that are still to come. -/
structure Shows (source : List Char) (l : List Lexeme) (p : Parser) : Prop where
  toks : p.toks = l.map Lexeme.token
  real : ∀ x ∈ l, x ∈ lexemes source ∧ x.type ≠ .EOF
  final : Final p.last

theorem Shows.congr {p' : Parser} (h : Shows source l p) (htoks : p'.toks = p.toks)
    (hlast : p'.last = p.last) : Shows source l p' where
  toks := htoks.trans h.toks
  real := h.real
  final := hlast ▸ h.final

/-- The parser looks at a lexeme unless the text has ended. -/
theorem Shows.head (h : Shows source l p) (hreal : ¬ Final p.current_token) :
    ∃ x rest, l = x :: rest ∧ x.token = p.current_token ∧ p.toks = x.token :: rest.map Lexeme.token := by
  cases l with
  | nil =>
    rw [Parser.current_token, h.toks] at hreal
    exact absurd h.final hreal
  | cons x rest =>
    refine ⟨x, rest, rfl, ?_, h.toks⟩
    rw [Parser.current_token, h.toks]
    rfl

theorem Shows.is {x : Lexeme} {rest : List Lexeme} {type : TokenType} (h : Shows source (x :: rest) p)
    (htype : x.type = type) : x.Is source type := ⟨(h.real x List.mem_cons_self).1, htype⟩

/-- After a token is taken. -/
theorem Shows.tail {x : Lexeme} {rest : List Lexeme} {p' : Parser} (h : Shows source (x :: rest) p)
    (htoks : p'.toks = p.toks.tail) (hlast : p'.last = p.last) : Shows source rest p' where
  toks := by rw [htoks, h.toks]; rfl
  real y hy := h.real y (List.mem_cons_of_mem _ hy)
  final := hlast ▸ h.final

/-- Taking a token of a known type. -/
theorem Shows.take {type : TokenType} {p' : Parser} (h : Shows source l p)
    (htype : p.current_token.type = type) (htoks : p'.toks = p.toks.tail)
    (hlast : p'.last = p.last) (hreal : type ≠ .EOF ∧ type ≠ .ERROR) :
    ∃ x rest, l = x :: rest ∧ x.token = p.current_token ∧ x.type = type ∧ Shows source rest p' := by
  obtain ⟨x, rest, rfl, hx, -⟩ := h.head (not_final hreal htype)
  exact ⟨x, rest, rfl, hx, by rw [Lexeme.type, hx, htype], h.tail htoks hlast⟩

/-- An optional semicolon. -/
theorem optional_semicolon_reads (hl : Shows source l p) (h : optional_semicolon p = .ok u q) :
    Shows source (pass_semicolon l) q := by
  rw [optional_semicolon_ok] at h
  by_cases hsemi : p.current_token.type = .SEMICOLON
  · rw [if_pos hsemi] at h
    obtain ⟨x, rest, rfl, -, hx, hrest⟩ := hl.take hsemi (congrArg Parser.toks h).symm
      (congrArg Parser.last h).symm (by decide)
    rw [pass_semicolon, if_pos hx]
    exact hrest
  · rw [if_neg hsemi] at h
    rw [← h]
    cases l with
    | nil => exact hl
    | cons x rest =>
      have hx : x.type = p.current_token.type := by rw [Parser.current_token, hl.toks]; rfl
      rw [pass_semicolon, hx, if_neg hsemi]
      exact hl

/-! ## Entries -/

section Entries

variable {α : Type} {entry : List Lexeme → Option (α × List Lexeme)} {n : ℕ}

/-- At the closing brace the entries end. -/
theorem Shows.entries_end (hl : Shows source l p) (hbrace : p.current_token.type = .RBRACE) :
    ∃ close rest, l = close :: rest ∧ read_entries entry (n + 1) l = some ([], rest) := by
  obtain ⟨close, rest, rfl, hclose, -⟩ := hl.head (not_final (by decide) hbrace)
  refine ⟨close, rest, rfl, ?_⟩
  rw [read_entries, if_pos (by rw [Lexeme.type, hclose, hbrace])]

/-- Anywhere else one more entry is read. -/
theorem Shows.entries_more (hl : Shows source l p) (hbrace : p.current_token.type ≠ .RBRACE) {a : α}
    {rest end_ : List Lexeme} {as : List α} (hentry : entry l = some (a, rest)) (hl0 : l ≠ [])
    (hmore : read_entries entry n rest = some (as, end_)) :
    read_entries entry (n + 1) l = some (a :: as, end_) := by
  cases l with
  | nil => exact absurd rfl hl0
  | cons x l =>
    have hx : x.type ≠ .RBRACE := by
      rw [Parser.current_token, hl.toks] at hbrace
      exact hbrace
    rw [read_entries, if_neg hx, hentry]
    simp only [hmore]

end Entries

/-! ## Constants -/

/-- The chain of constants is what the script says of it. -/
structure Chained (source : List Char) (consts : List ConstDecl) (p : Parser) : Prop where
  stored : p.proto.constants.map (fun e => (e.name, e.value)) = consts.map stored_const
  sound : ∀ c ∈ consts, c.name.Is source .IDENTIFIER ∧ c.value.Is source .NUMBER

theorem Chained.congr {consts : List ConstDecl} {p' : Parser} (h : Chained source consts p)
    (hsame : p'.proto.constants = p.proto.constants) : Chained source consts p' where
  stored := hsame ▸ h.stored
  sound := h.sound

theorem parse_const_entry_reads {consts : List ConstDecl} (hl : Shows source l p)
    (hconsts : Chained source consts p) (h : parse_const_entry p = .ok u q) :
    ∃ c rest, read_const l = some (c, rest) ∧ Shows source rest q ∧ Chained source (c :: consts) q := by
  simp only [parse_const_entry, bind_ok, current_token_ok, parser_require_ok,
    parser_skip_token_ok, parser_expect_ok, add_constant_ok] at h
  obtain ⟨_, _, ⟨hname, rfl⟩, _, _, ⟨rfl, rfl⟩, _, p1, hp1, _, p2, ⟨hassign, hp2, -⟩, _, _,
    ⟨hvalue, rfl⟩, _, _, ⟨rfl, rfl⟩, _, p3, hp3, _, p4, hp4, hsemi⟩ := h
  obtain ⟨name, l1, rfl, hx, hword, hl1⟩ := hl.take hname (congrArg Parser.toks hp1).symm
    (congrArg Parser.last hp1).symm (by decide)
  obtain ⟨assign, l2, rfl, -, -, hl2⟩ := hl1.take hassign (congrArg Parser.toks hp2).symm
    (congrArg Parser.last hp2).symm (by decide)
  obtain ⟨value, l3, rfl, hy, hnumber, hl3⟩ := hl2.take hvalue (congrArg Parser.toks hp3).symm
    (congrArg Parser.last hp3).symm (by decide)
  have hl4 : Shows source l3 p4 := hl3.congr (congrArg Parser.toks hp4).symm (congrArg Parser.last hp4).symm
  have hframe := (optional_semicolon_quiet _ _ _ hsemi).frame
  refine ⟨{ name := name, value := value }, _, rfl, optional_semicolon_reads hl4 hsemi, ?_⟩
  have hsame : p3.proto.constants = p.proto.constants := by rw [← hp3, ← hp2, ← hp1]
  have hchain : Chained source ({ name := name, value := value } :: consts) p4 := by
    refine ⟨?_, ?_⟩
    · rw [← hp4, List.map_cons, List.map_cons, hsame, hconsts.stored, stored_const, hx, hy]
      congr 2
      exact List.take_take.trans (by rw [min_self]; rfl)
    · intro c hc
      rcases List.mem_cons.mp hc with rfl | hc
      · exact ⟨hl.is hword, hl2.is hnumber⟩
      · exact hconsts.sound c hc
  exact hchain.congr (by rw [hframe])

theorem parse_const_entries_reads (n : ℕ) : ∀ {l : List Lexeme} {consts : List ConstDecl}
    {p q : Parser} {u : Unit}, Shows source l p → Chained source consts p → parse_const_entries n p = .ok u q →
    ∃ new rest close, read_entries read_const n l = some (new, rest) ∧ Shows source (close :: rest) q ∧
      Chained source (new.reverse ++ consts) q := by
  induction n with
  | zero => intro _ _ _ _ _ _ _ h; exact ((throw_ok _ _ _ _).mp h).elim
  | succ n ih =>
    intro l consts p q u hl hconsts h
    simp only [parse_const_entries, bind_ok, current_token_ok, ite_ok, pure_ok] at h
    obtain ⟨_, _, ⟨rfl, rfl⟩, ⟨hbrace, _, p1, hentry, hrest⟩ | ⟨hbrace, -, rfl⟩⟩ := h
    · obtain ⟨c, l1, hread, hl1, hconsts1⟩ := parse_const_entry_reads hl hconsts hentry
      obtain ⟨new, rest, close, hmore, hend, hconsts2⟩ := ih hl1 hconsts1 hrest
      refine ⟨c :: new, rest, close, hl.entries_more hbrace hread ?_ hmore, hend, ?_⟩
      · rintro rfl
        cases hread
      · rw [List.reverse_cons, List.append_assoc]
        exact hconsts2
    · obtain ⟨close, rest, rfl, hread⟩ := hl.entries_end (not_not.mp hbrace)
      exact ⟨[], rest, close, hread, hl, hconsts⟩

theorem parse_const_block_reads {w : Script} (hl : Shows source l p) (hconsts : Chained source w.constants p)
    (h : parse_const_block p = .ok u q) : ∃ first l1 new rest, l = first :: l1 ∧
      first.type = .CONST ∧ read_body read_const l1.tail = some (new, rest) ∧
      Shows source rest q ∧ Chained source (new.reverse ++ w.constants) q := by
  simp only [parse_const_block, bind_ok, turns_ok, parser_expect_ok] at h
  obtain ⟨_, p1, ⟨hconst, hp1, -⟩, _, p2, ⟨hbrace, hp2, -⟩, _, _, ⟨rfl, rfl⟩, _, p3, hentries,
    hclose, hp3, -⟩ := h
  obtain ⟨first, l1, rfl, -, hfirst, hl1⟩ := hl.take hconst (congrArg Parser.toks hp1).symm
    (congrArg Parser.last hp1).symm (by decide)
  obtain ⟨_, l2, rfl, -, -, hl2⟩ := hl1.take hbrace (congrArg Parser.toks hp2).symm
    (congrArg Parser.last hp2).symm (by decide)
  have hconsts2 : Chained source w.constants p2 := hconsts.congr (by rw [← hp2, ← hp1])
  obtain ⟨new, rest, close, hread, hend, hconsts3⟩ := parse_const_entries_reads _ hl2 hconsts2 hentries
  rw [hl2.toks, List.length_map] at hread
  exact ⟨first, _, new, rest, rfl, hfirst, hread,
    hend.tail (congrArg Parser.toks hp3).symm (congrArg Parser.last hp3).symm,
    hconsts3.congr (by rw [← hp3])⟩

/-! ## Structs -/

/-- A number between brackets. -/
theorem Shows.brackets {p1 p2 p3 : Parser} (hl : Shows source l p)
    (hopen : p.current_token.type = .LBRACKET) (hp1 : { p with toks := p.toks.tail } = p1)
    (hnumber : p1.current_token.type = .NUMBER) (hp2 : { p1 with toks := p1.toks.tail } = p2)
    (hclose : p2.current_token.type = .RBRACKET) (hp3 : { p2 with toks := p2.toks.tail } = p3) :
    ∃ x rest, read_brackets l = (some x, rest) ∧ x.token = p1.current_token ∧ x.Is source .NUMBER ∧
      Shows source rest p3 := by
  obtain ⟨_, l1, rfl, -, hbracket, hl1⟩ := hl.take hopen (congrArg Parser.toks hp1).symm
    (congrArg Parser.last hp1).symm (by decide)
  obtain ⟨x, l2, rfl, hx, htype, hl2⟩ := hl1.take hnumber (congrArg Parser.toks hp2).symm
    (congrArg Parser.last hp2).symm (by decide)
  obtain ⟨_, l3, rfl, -, -, hl3⟩ := hl2.take hclose (congrArg Parser.toks hp3).symm
    (congrArg Parser.last hp3).symm (by decide)
  exact ⟨x, l3, by rw [read_brackets, if_pos hbracket], hx, hl1.is htype, hl3⟩

theorem Shows.no_brackets (hl : Shows source l p) (hopen : p.current_token.type ≠ .LBRACKET) :
    read_brackets l = (none, l) := by
  unfold read_brackets
  split
  · rename_i bracket number close rest
    rw [Parser.current_token, hl.toks] at hopen
    exact if_neg hopen
  · rfl

theorem parse_bytes_size_reads {n : ℕ} (hl : Shows source l p) (h : parse_bytes_size p = .ok n q) :
    ∃ x rest, read_brackets l = (some x, rest) ∧ n = u32 x.token.value ∧ x.Is source .NUMBER ∧
      Shows source rest q := by
  simp only [parse_bytes_size, bind_ok, current_token_ok, ite_ok, parser_error_ok, pure_ok,
    parser_require_ok, parser_skip_token_ok, parser_expect_ok] at h
  obtain ⟨_, _, ⟨rfl, rfl⟩, ⟨hopen, _, p1, hp1, _, _, ⟨hnumber, rfl⟩, _, _, ⟨rfl, rfl⟩, _, p2, hp2,
    _, p3, ⟨hclose, hp3, -⟩, rfl, rfl⟩ | ⟨-, hfalse⟩⟩ := h
  · obtain ⟨x, rest, hread, hx, hnum, hrest⟩ := hl.brackets hopen hp1 hnumber hp2 hclose hp3
    exact ⟨x, rest, hread, by rw [hx], hnum, hrest⟩
  · exact hfalse.elim

theorem parse_array_size_reads {f f' : Field} (hl : Shows source l p) (h : parse_array_size f p = .ok f' q) :
    ∃ count rest, read_brackets l = (count, rest) ∧ Shows source rest q ∧ (∀ x ∈ count, x.Is source .NUMBER) ∧
      f' = { f with is_array := f.is_array || count.isSome
                    array_size := count.elim f.array_size fun x => u32 x.token.value } := by
  simp only [parse_array_size, bind_ok, current_token_ok, ite_ok, parser_error_ok, pure_ok,
    parser_require_ok, parser_skip_token_ok, parser_expect_ok] at h
  obtain ⟨_, _, ⟨rfl, rfl⟩, ⟨hopen, h⟩ | ⟨hopen, rfl, rfl⟩⟩ := h
  · rcases h with ⟨-, _, _, hfalse, -⟩ | ⟨-, h⟩
    · exact hfalse.elim
    obtain ⟨_, p1, hp1, _, _, ⟨hnumber, rfl⟩, _, _, ⟨rfl, rfl⟩, h⟩ := h
    rcases h with ⟨-, _, _, hfalse, -⟩ | ⟨-, _, p2, hp2, _, p3, ⟨hclose, hp3, -⟩, rfl, rfl⟩
    · exact hfalse.elim
    obtain ⟨x, rest, hread, hx, hnum, hrest⟩ := hl.brackets hopen hp1 hnumber hp2 hclose hp3
    exact ⟨some x, rest, hread, hrest, by simpa using hnum, by simp [hx]⟩
  · exact ⟨none, l, hl.no_brackets hopen, hl, by simp, by simp⟩

/-- The types that have a size of their own. -/
theorem sized_type (type : TokenType) :
    (token_to_field_type type = .BYTES ∨ token_to_field_type type = .STRING) ↔
      type = .BYTES ∨ type = .STRING_TYPE := by
  cases type <;> simp [token_to_field_type]

/-- A token that stands before another is a lexeme, whatever its type. -/
theorem Shows.before {p1 : Parser} (hl : Shows source l p) (hp1 : { p with toks := p.toks.tail } = p1)
    (hreal : ¬ Final p1.current_token) :
    ∃ x rest, l = x :: rest ∧ x.token = p.current_token ∧ Shows source rest p1 := by
  cases l with
  | nil =>
    refine absurd ?_ hreal
    rw [← hp1, Parser.current_token, hl.toks]
    exact hl.final
  | cons x rest =>
    refine ⟨x, rest, rfl, ?_, hl.tail (congrArg Parser.toks hp1).symm (congrArg Parser.last hp1).symm⟩
    rw [Parser.current_token, hl.toks]
    rfl

/-- The lexemes of a field that the parser accepts. -/
structure FieldLexemes (source : List Char) (d : FieldDecl) : Prop where
  type : d.type ∈ lexemes source
  name : d.name.Is source .IDENTIFIER
  sized : d.size.isSome → token_to_field_type d.type.type = .BYTES ∨
    token_to_field_type d.type.type = .STRING
  size : ∀ x ∈ d.size, x.Is source .NUMBER
  count : ∀ x ∈ d.count, x.Is source .NUMBER

theorem parse_struct_field_reads {f : Field} (hl : Shows source l p) (h : parse_struct_field p = .ok f q) :
    ∃ d rest, read_field l = some (d, pass_semicolon rest) ∧ Shows source rest q ∧ FieldLexemes source d ∧
      f = declared_field p.proto.default_endian d := by
  have hendian : q.proto.default_endian = p.proto.default_endian := by
    rw [(parse_struct_field_quiet _ _ _ h).frame]
  simp only [parse_struct_field, bind_ok, current_token_ok, parser_skip_token_ok] at h
  obtain ⟨_, _, ⟨rfl, rfl⟩, _, p1, hp1, h⟩ := h
  have htype : ∃ type l1, l = type :: l1 ∧ type.token = p.current_token ∧ Shows source l1 p1 := by
    refine hl.before hp1 ?_
    simp only [ite_ok, bind_ok, current_token_ok, pure_ok, parser_require_ok] at h
    rcases h with ⟨-, n, p2, hsize, -⟩ | ⟨-, n, _, ⟨-, rfl⟩, _, _, ⟨hname, -⟩, -⟩
    · simp only [parse_bytes_size, bind_ok, current_token_ok, ite_ok, parser_error_ok] at hsize
      obtain ⟨_, _, ⟨rfl, rfl⟩, ⟨hopen, -⟩ | ⟨-, hfalse⟩⟩ := hsize
      · exact not_final (by decide) hopen
      · exact hfalse.elim
    · exact not_final (by decide) hname
  obtain ⟨type, l1, rfl, htype, hl1⟩ := htype
  -- the size, where the type has one
  obtain ⟨size, l2, p2, n, hsize, hn, hsizenum, hl2, h⟩ : ∃ size l2 p2 n,
      (if type.type = .BYTES ∨ type.type = .STRING_TYPE then read_brackets l1 else (none, l1))
        = (size, l2) ∧ n = size.elim 0 (fun x => u32 x.token.value) ∧ (∀ x ∈ size, x.Is source .NUMBER) ∧
      Shows source l2 p2 ∧
      ∃ p3, p2.current_token.type = .IDENTIFIER ∧ { p2 with toks := p2.toks.tail } = p3 ∧
        ∃ f', parse_array_size (name_field (token_to_field_type type.type) n
          (cstr 64 type.token.text) (cstr 64 p2.current_token.text)) p3 = .ok f' q ∧
        f = { f' with endian := q.proto.default_endian
                      is_variable := token_to_field_type type.type = .VARBYTES } := by
    simp only [ite_ok, bind_ok, pure_ok, current_token_ok, get_ok, parser_require_ok,
      parser_skip_token_ok, ← htype] at h
    rcases h with ⟨hsized, n, p2, hsize, _, _, ⟨hname, rfl⟩, _, _, ⟨rfl, rfl⟩, _, p3, hp3, f', _, harray,
      _, _, ⟨rfl, rfl⟩, rfl, rfl⟩ | ⟨hsized, n, p2, ⟨rfl, rfl⟩, _, _, ⟨hname, rfl⟩, _, _, ⟨rfl, rfl⟩, _, p3,
      hp3, f', _, harray, _, _, ⟨rfl, rfl⟩, rfl, rfl⟩
    · obtain ⟨x, l2, hread, hx, hnum, hl2⟩ := parse_bytes_size_reads hl1 hsize
      refine ⟨some x, l2, p2, n, ?_, hx, by simpa using hnum, hl2, p3, hname, hp3, f', harray, rfl⟩
      rw [if_pos ((sized_type _).mp hsized), hread]
    · refine ⟨none, l1, p1, 0, ?_, rfl, by simp, hl1, p3, hname, hp3, f', harray, rfl⟩
      rw [if_neg (fun hs => hsized ((sized_type _).mpr hs))]
  obtain ⟨p3, hname, hp3, f', harray, rfl⟩ := h
  obtain ⟨name, l3, rfl, hx, hword, hl3⟩ := hl2.take hname (congrArg Parser.toks hp3).symm
    (congrArg Parser.last hp3).symm (by decide)
  obtain ⟨count, rest, hcount, hrest, hcountnum, rfl⟩ := parse_array_size_reads hl3 harray
  refine ⟨{ type := type, size := size, name := name, count := count }, rest, ?_, hrest,
    ⟨(hl.real type List.mem_cons_self).1, hl2.is hword, ?_, hsizenum, hcountnum⟩, ?_⟩
  · simp only [read_field, hsize, hcount]
  · intro hsome
    by_contra hsized
    rw [if_neg (fun hs => hsized ((sized_type _).mpr hs))] at hsize
    rw [← (Prod.mk.inj hsize).1] at hsome
    cases hsome
  · rw [declared_field, hendian, ← hn, hx]
    have hplain : ∀ t n a b, (name_field t n a b).is_array = false ∧ (name_field t n a b).array_size = 1 := by
      intro t n a b
      unfold name_field
      split
      · exact ⟨rfl, rfl⟩
      · exact ⟨rfl, rfl⟩
    simp only [(hplain _ _ _ _).1, (hplain _ _ _ _).2, Bool.false_or]

theorem parse_struct_fields_reads (n : ℕ) : ∀ {l : List Lexeme} {s s' : StructDef} {p q : Parser},
    Shows source l p → parse_struct_fields n s p = .ok s' q → ∃ ds rest close,
      read_entries read_field n l = some (ds, rest) ∧ Shows source (close :: rest) q ∧
      (∀ d ∈ ds, FieldLexemes source d) ∧
      s'.fields.elems = s.fields.elems ++ ds.map (declared_field p.proto.default_endian) := by
  induction n with
  | zero => intro _ _ _ _ _ _ h; exact ((throw_ok _ _ _ _).mp h).elim
  | succ n ih =>
    intro l s s' p q hl h
    simp only [parse_struct_fields, bind_ok, current_token_ok, ite_ok, pure_ok,
      parser_error_ok] at h
    obtain ⟨_, _, ⟨rfl, rfl⟩, ⟨hbrace, h⟩ | ⟨hbrace, rfl, rfl⟩⟩ := h
    · rcases h with ⟨-, _, _, hfalse, -⟩ | ⟨-, fields, p1, hreserve, f, p2, hfield, _, p3, hsemi, hrest⟩
      · exact hfalse.elim
      obtain ⟨helems, hp1⟩ := reserve_elems hreserve
      have hl1 : Shows source l p1 := hl.congr (by rw [hp1]) (by rw [hp1])
      obtain ⟨d, l2, hread, hl2, hd, hf⟩ := parse_struct_field_reads hl1 hfield
      obtain ⟨ds, rest, close, hmore, hend, hds, hfields⟩ := ih (optional_semicolon_reads hl2 hsemi) hrest
      refine ⟨d :: ds, rest, close, hl.entries_more hbrace hread ?_ hmore, hend,
        List.forall_mem_cons.mpr ⟨hd, hds⟩, ?_⟩
      · rintro rfl
        cases hread
      · have hendian1 : p1.proto.default_endian = p.proto.default_endian := by rw [hp1]
        have hendian3 : p3.proto.default_endian = p.proto.default_endian := by
          rw [(optional_semicolon_quiet _ _ _ hsemi).frame,
            (parse_struct_field_quiet _ _ _ hfield).frame, hp1]
        rw [hfields, Table.push_elems, helems, hf, hendian1, hendian3, List.map_cons,
          List.append_assoc]
        rfl
    · obtain ⟨close, rest, rfl, hread⟩ := hl.entries_end (not_not.mp hbrace)
      exact ⟨[], rest, close, hread, hl, by simp, by simp⟩

/-- A struct of the table is what the script says of it. -/
structure KeepsStruct (source : List Char) (s : StructDef) (d : StructDecl) : Prop where
  word : d.name.Is source .IDENTIFIER
  sound : ∀ f ∈ d.fields, FieldLexemes source f
  name : s.name = cstr 64 d.name.token.text
  fields : ∃ e, s.fields.elems = d.fields.map (declared_field e)

theorem parse_struct_def_reads (hl : Shows source l p) (h : parse_struct_def p = .ok u q) :
    ∃ first l1 ds rest s, l = first :: l1 ∧ first.type = .IDENTIFIER ∧
      read_body read_field l1.tail = some (ds, rest) ∧ Shows source rest q ∧
      q.temp_structs.elems = p.temp_structs.elems ++ [s] ∧
      KeepsStruct source s { name := first, fields := ds } := by
  simp only [parse_struct_def, bind_ok, get_ok, consult_ok, current_token_ok, turns_ok,
    modify_ok, ite_ok, throw_ok, parser_require_ok, parser_skip_token_ok, parser_expect_ok] at h
  obtain ⟨_, _, ⟨hname, rfl⟩, _, _, ⟨rfl, rfl⟩, _, _, rfl, _, _, ⟨rfl, rfl⟩, _, _, ⟨rfl, rfl⟩, h⟩ := h
  rcases h with ⟨-, _, _, hfalse, -⟩ | ⟨-, _, _, ⟨rfl, rfl⟩, h⟩
  · exact hfalse.elim
  obtain ⟨_, p1, hp1, _, p2, ⟨hbrace, hp2, -⟩, fields, p3, hcalloc, _, _, ⟨rfl, rfl⟩, s, p4, hfields,
    _, p5, hp5, hclose, hq, -⟩ := h
  obtain ⟨first, l1, rfl, hx, hfirst, hl1⟩ := hl.take hname (congrArg Parser.toks hp1).symm
    (congrArg Parser.last hp1).symm (by decide)
  obtain ⟨_, l2, rfl, -, -, hl2⟩ := hl1.take hbrace (congrArg Parser.toks hp2).symm
    (congrArg Parser.last hp2).symm (by decide)
  have hname' := (parse_struct_fields_ok _ hfields).1
  have hframe := (parse_struct_fields_ok _ hfields).2.1.frame
  rw [calloc_ok] at hcalloc
  obtain ⟨hnil, hp3⟩ := hcalloc
  have hl3 : Shows source l2 p3 := hl2.congr (congrArg Parser.toks hp3).symm (congrArg Parser.last hp3).symm
  obtain ⟨ds, rest, close, hread, hend, hlexemes, hds⟩ := parse_struct_fields_reads _ hl3 hfields
  rw [hl3.toks, List.length_map] at hread
  refine ⟨first, _, ds, rest, s, rfl, hfirst, hread, ?_, ?_, hl.is hfirst, hlexemes, ?_,
    p3.proto.default_endian, ?_⟩
  · exact hend.tail (by rw [← hq, ← hp5]) (by rw [← hq, ← hp5])
  · rw [← hq, ← hp5, Table.push_elems, hframe, ← hp3, ← hp2, ← hp1]
  · rw [hname', hx]
    rfl
  · rw [hds, ← hnil]
    rfl

/-! ## Operands -/

theorem find_constant_from_finds {name : CStr} (entries : List ConstantEntry) :
    ∀ {p q : Parser} {v : Option ℕ}, find_constant_from name entries p = .ok v q →
      v = (entries.find? (·.name = name)).map ConstantEntry.value ∧ q.toks = p.toks := by
  induction entries with
  | nil =>
    intro p q v h
    rw [find_constant_from, pure_ok] at h
    obtain ⟨rfl, rfl⟩ := h
    exact ⟨rfl, rfl⟩
  | cons e rest ih =>
    intro p q v h
    simp only [find_constant_from, bind_ok, consult_ok, ite_ok, pure_ok] at h
    obtain ⟨_, _, rfl, ⟨hname, rfl, rfl⟩ | ⟨hname, h⟩⟩ := h
    · exact ⟨by simp [hname], rfl⟩
    · rw [List.find?_cons_of_neg (by simpa using hname)]
      obtain ⟨hv, htoks⟩ := ih h
      exact ⟨hv, htoks⟩

theorem lookup_constant_finds {name : CStr} {v : Option ℕ} (h : lookup_constant name p = .ok v q) :
    v = (p.proto.constants.find? (·.name = name)).map ConstantEntry.value ∧ q.toks = p.toks := by
  simp only [lookup_constant, bind_ok, get_ok, consult_ok] at h
  obtain ⟨_, _, ⟨rfl, rfl⟩, _, _, rfl, _, _, ⟨rfl, rfl⟩, h⟩ := h
  obtain ⟨hv, htoks⟩ := find_constant_from_finds _ h
  exact ⟨hv, htoks⟩

/-- The chain and the script find the same. -/
theorem find_stored (name : CStr) (known : List ConstDecl) : ∀ entries : List ConstantEntry,
    entries.map (fun e => (e.name, e.value)) = known.map stored_const →
    (entries.find? (·.name = name)).map ConstantEntry.value
      = (known.find? fun c => cstr 64 c.name.token.text = name).map fun c => c.value.token.value := by
  induction known with
  | nil =>
    intro entries h
    rw [List.map_eq_nil_iff.mp h]
    rfl
  | cons c known ih =>
    intro entries h
    cases entries with
    | nil => cases h
    | cons e entries =>
      rw [List.map_cons, List.map_cons, List.cons.injEq, stored_const, Prod.mk.injEq] at h
      obtain ⟨⟨hname, hvalue⟩, hrest⟩ := h
      by_cases hc : cstr 64 c.name.token.text = name
      · rw [List.find?_cons_of_pos (by simpa [hname] using hc),
          List.find?_cons_of_pos (by simpa using hc)]
        exact congrArg some hvalue
      · rw [List.find?_cons_of_neg (by simpa [hname] using hc),
          List.find?_cons_of_neg (by simpa using hc)]
        exact ih entries hrest

theorem parse_operand_reads {known : List ConstDecl} {text : String} {v : ℕ} (hl : Shows source l p)
    (hknown : Chained source known p) (h : parse_operand text p = .ok v q) :
    ∃ x rest, l = x :: rest ∧ (x.type = .NUMBER ∨ x.type = .IDENTIFIER) ∧
      (resolve known x).Is source .NUMBER ∧ v = operand_value known x ∧ Shows source rest q := by
  have hlast : q.last = p.last := by rw [(parse_operand_quiet _ _ _ _ h).frame]
  simp only [parse_operand, bind_ok, current_token_ok, ite_ok, parser_skip_token_ok, pure_ok,
    parser_error_ok] at h
  obtain ⟨_, _, ⟨rfl, rfl⟩, ⟨hnumber, _, p1, hp1, rfl, rfl⟩ | ⟨hnumber, ⟨hname, found, p1, hlookup, h⟩ |
    ⟨-, hfalse⟩⟩⟩ := h
  · obtain ⟨x, rest, rfl, hx, htype, hrest⟩ := hl.take hnumber (congrArg Parser.toks hp1).symm hlast
      (by decide)
    have hself : resolve known x = x := if_pos htype
    exact ⟨x, rest, rfl, .inl htype, by rw [hself]; exact hl.is htype,
      by rw [operand_value, hself, hx], hrest⟩
  · obtain ⟨hfound, htoks⟩ := lookup_constant_finds hlookup
    rw [find_stored _ known _ hknown.stored] at hfound
    cases found with
    | none => exact ((parser_error_ok _ _ _ _).mp h).elim
    | some value =>
      simp only [bind_ok, parser_skip_token_ok, pure_ok] at h
      obtain ⟨_, p2, hp2, rfl, rfl⟩ := h
      obtain ⟨x, rest, rfl, hx, htype, hrest⟩ := hl.take hname
        (by rw [← hp2, htoks]) hlast (by decide)
      obtain ⟨c, hc, hvalue⟩ := Option.map_eq_some_iff.mp hfound.symm
      have hself : resolve known x = c.value := by
        rw [resolve, if_neg (by rw [htype]; decide), hx, hc]
        rfl
      have hnumber := (hknown.sound c (List.mem_of_find?_eq_some hc)).2
      exact ⟨x, rest, rfl, .inr htype, by rw [hself]; exact hnumber,
        by rw [operand_value, hself, hvalue], hrest⟩
  · exact hfalse.elim

/-- The operands of a list that has begun. -/
theorem parse_value_list_reads {known : List ConstDecl} (n : ℕ) : ∀ {l : List Lexeme}
    {values values' : Table ℕ} {p q : Parser}, Shows source l p → Chained source known p →
    parse_value_list n values p = .ok values' q →
    Shows source (behind .RBRACKET l) q ∧ (∀ x ∈ listed l, (resolve known x).Is source .NUMBER) ∧
      values'.elems = values.elems ++ (listed l).map (operand_value known) := by
  induction n with
  | zero => intro _ _ _ _ _ _ _ h; exact ((throw_ok _ _ _ _).mp h).elim
  | succ n ih =>
    intro l values values' p q hl hknown h
    simp only [parse_value_list, bind_ok, current_token_ok, ite_ok, pure_ok, parser_error_ok,
      parser_skip_token_ok] at h
    obtain ⟨room, p1, hreserve, v, p2, hoperand, _, _, ⟨rfl, rfl⟩, h⟩ := h
    obtain ⟨helems, hp1⟩ := reserve_elems hreserve
    have hknown1 : Chained source known p1 := hknown.congr (by rw [hp1])
    obtain ⟨x, l2, rfl, htype, hx, rfl, hl2⟩ := parse_operand_reads
      (hl.congr (by rw [hp1]) (by rw [hp1])) hknown1 hoperand
    have hknown2 : Chained source known p2 := hknown1.congr (by
      rw [(parse_operand_quiet _ _ _ _ hoperand).frame])
    have hkeep : x.type ≠ .RBRACKET ∧ x.type ≠ .COMMA := by
      rcases htype with h | h <;> rw [h] <;> decide
    rw [listed_operand hkeep, behind_skip hkeep.1]
    rcases h with ⟨hcomma, _, p3, hp3, hrest⟩ | ⟨-, ⟨hclose, _, p3, hp3, rfl, rfl⟩ | ⟨-, hfalse⟩⟩
    · obtain ⟨c, l3, rfl, -, hc, hl3⟩ := hl2.take hcomma (congrArg Parser.toks hp3).symm
        (congrArg Parser.last hp3).symm (by decide)
      obtain ⟨hend, hxs, hvalues⟩ := ih hl3 (hknown2.congr (by rw [← hp3])) hrest
      rw [listed_comma hc, behind_skip (by rw [hc]; decide)]
      refine ⟨hend, List.forall_mem_cons.mpr ⟨hx, hxs⟩, ?_⟩
      rw [hvalues, Table.push_elems, helems, List.append_assoc]
      rfl
    · obtain ⟨c, l3, rfl, -, hc, hl3⟩ := hl2.take hclose (congrArg Parser.toks hp3).symm
        (congrArg Parser.last hp3).symm (by decide)
      rw [listed_close hc, behind_here hc]
      refine ⟨hl3, by simpa using hx, ?_⟩
      rw [Table.push_elems, helems]
      rfl
    · exact hfalse.elim

theorem parse_in_list_reads {known : List ConstDecl} {op : ConditionOp} {cond cond' : FilterCondition}
    (hl : Shows source l p) (hknown : Chained source known p) (hin : p.current_token.type = .IN)
    (h : parse_in_list op cond p = .ok cond' q) :
    ∃ x rest, l = x :: rest ∧ x.type = .IN ∧ Shows source (behind .RBRACKET rest) q ∧
      (∀ y ∈ listed rest.tail, (resolve known y).Is source .NUMBER) ∧
      cond'.op = op ∧ cond'.value_list = (listed rest.tail).map (operand_value known) := by
  simp only [parse_in_list, bind_ok, turns_ok, ite_ok, parser_error_ok, pure_ok,
    parser_skip_token_ok, parser_expect_ok, calloc_ok] at h
  obtain ⟨_, p1, hp1, _, p2, ⟨hopen, hp2, -⟩, _, _, ⟨-, rfl⟩, t, p3, ⟨ht, hp3⟩, values, p4, hlist, h⟩ := h
  obtain ⟨x, l1, rfl, -, hx, hl1⟩ := hl.take hin (congrArg Parser.toks hp1).symm
    (congrArg Parser.last hp1).symm (by decide)
  obtain ⟨bracket, l2, rfl, -, hbracket, hl2⟩ := hl1.take hopen (congrArg Parser.toks hp2).symm
    (congrArg Parser.last hp2).symm (by decide)
  have hl3 : Shows source l2 p3 := hl2.congr (congrArg Parser.toks hp3).symm (congrArg Parser.last hp3).symm
  obtain ⟨hend, hlisted, hvalues⟩ := parse_value_list_reads _ hl3
    (hknown.congr (by rw [← hp3, ← hp2, ← hp1])) hlist
  rcases h with ⟨-, _, _, hfalse, -⟩ | ⟨-, rfl, rfl⟩
  · exact hfalse.elim
  · refine ⟨x, bracket :: l2, rfl, hx, ?_, hlisted, rfl, ?_⟩
    · rw [behind_skip (by rw [hbracket]; decide)]
      exact hend
    · rw [FilterCondition.value_list, List.tail_cons]
      simp only [Option.map_some, Option.getD_some]
      rw [hvalues, ← ht, List.nil_append]

/-! ## Conditions -/

theorem comparison_op_plain {type : TokenType} {op : ConditionOp} (h : comparison_op type = some op) :
    (op ≠ .IN ∧ op ≠ .NOT_IN ∧ op ≠ .MASK) ∧ type ≠ .EOF ∧ type ≠ .ERROR ∧ type ≠ .IN ∧
      type ≠ .AND ∧ type ≠ .NOT := by
  cases type <;> simp [comparison_op] at h <;> subst h <;> decide

theorem operand_values_plain {cond : FilterCondition} (h : cond.op ≠ .IN ∧ cond.op ≠ .NOT_IN ∧
    cond.op ≠ .MASK) : operand_values cond = [cond.value] := by
  unfold operand_values
  split
  · exact absurd ‹_› h.2.2
  · exact absurd ‹_› h.1
  · exact absurd ‹_› h.2.1
  · rfl

/-- What an operator has read: a whole list, or everything but the value. -/
inductive OperatorRead (source : List Char) (known : List ConstDecl) (l rest : List Lexeme) (cond : FilterCondition) : Prop
  | list (operands : List Lexeme) (op : cond.op = .IN ∨ cond.op = .NOT_IN)
      (read : read_operands l = some (operands, rest))
      (literals : ∀ x ∈ operands, (resolve known x).Is source .NUMBER)
      (values : operand_values cond = operands.map (operand_value known))
  | pending (before : List Lexeme) (op : cond.op ≠ .IN ∧ cond.op ≠ .NOT_IN)
      (read : ∀ x after, rest = x :: after → read_operands l = some (before ++ [x], after))
      (literals : ∀ x ∈ before, (resolve known x).Is source .NUMBER)
      (values : ∀ v, operand_values { cond with value := v }
        = before.map (operand_value known) ++ [v])

/-- The type of the token the parser looks at. -/
theorem Shows.head_type {x : Lexeme} {rest : List Lexeme} (hl : Shows source (x :: rest) p) :
    x.type = p.current_token.type := by
  rw [Parser.current_token, hl.toks]
  rfl

/-- A `!` is passed over. -/
theorem parse_not_reads {negate : Bool} (hl : Shows source l p) (hand : p.current_token.type ≠ .AND)
    (h : parse_not p = .ok negate q) : ∃ rest, Shows source rest q ∧ q.proto = p.proto ∧
      (rest ≠ [] → l ≠ [] ∧ read_operands l = read_values rest ∧
        (rest = l ∨ ∃ first ∈ l.head?, in_path first = false)) := by
  simp only [parse_not, bind_ok, current_token_ok, ite_ok, parser_skip_token_ok, pure_ok] at h
  obtain ⟨_, _, ⟨rfl, rfl⟩, ⟨hnot, _, p1, hp1, rfl, rfl⟩ | ⟨hnot, rfl, rfl⟩⟩ := h
  · obtain ⟨x, rest, rfl, -, hx, hrest⟩ := hl.take hnot (congrArg Parser.toks hp1).symm
      (congrArg Parser.last hp1).symm (by decide)
    refine ⟨rest, hrest, by rw [← hp1], fun _ => ⟨by simp, ?_, .inr ⟨x, rfl, by simp [in_path, hx]⟩⟩⟩
    exact read_operands_not hx rest
  · refine ⟨l, hl, rfl, fun hne => ⟨hne, ?_, .inl rfl⟩⟩
    cases l with
    | nil => exact absurd rfl hne
    | cons x rest => exact read_operands_plain ⟨hl.head_type ▸ hand, hl.head_type ▸ hnot⟩ rest

/-- A comparison, or a list, behind the `!` that may stand before it. -/
theorem comparison_reads {known : List ConstDecl} {cond cond' : FilterCondition} {op : ConditionOp}
    (hl : Shows source l p) (hknown : Chained source known p) (hop : op = .IN ∨ op = .NOT_IN)
    (h : (p.current_token.type = .IN ∨
        p.current_token.type = .IDENTIFIER ∧ p.current_token.text = "in".toList) ∧
        parse_in_list op cond p = .ok cond' q ∨
      ¬(p.current_token.type = .IN ∨
        p.current_token.type = .IDENTIFIER ∧ p.current_token.text = "in".toList) ∧
        parse_comparison cond p = .ok cond' q) :
    ∃ first l' rest, l = first :: l' ∧ in_path first = false ∧ Shows source rest q ∧
      ∀ l0, read_operands l0 = read_values l → OperatorRead source known l0 rest cond' := by
  rcases h with ⟨hin, h⟩ | ⟨hin, h⟩
  · -- no word of a text is `in`, so it is the token of that name
    have hin : p.current_token.type = .IN := by
      refine hin.resolve_right fun hword => ?_
      obtain ⟨x, rest, rfl, hx, -⟩ := hl.head (not_final (by decide) hword.1)
      exact (hl.is rfl).not_in (hx ▸ hword)
    obtain ⟨x, rest, rfl, hx, hend, hlisted, hop', hvalues⟩ := parse_in_list_reads hl hknown hin h
    refine ⟨x, rest, _, rfl, by simp [in_path, hx], hend, fun l0 hl0 => ?_⟩
    refine .list (listed rest.tail) (hop' ▸ hop) ?_ hlisted ?_
    · rw [hl0, read_values_list hx]
    · rw [← hvalues, operand_values]
      rcases hop with rfl | rfl <;> rw [hop']
  · simp only [parse_comparison, bind_ok, current_token_ok] at h
    obtain ⟨_, _, ⟨rfl, rfl⟩, h⟩ := h
    cases hcmp : comparison_op p.current_token.type with
    | none => simp only [hcmp, parser_error_ok] at h
    | some cmp =>
      simp only [hcmp, bind_ok, pure_ok, parser_skip_token_ok] at h
      obtain ⟨_, p1, hp1, rfl, rfl⟩ := h
      obtain ⟨hplain, heof, herror, hnin, -⟩ := comparison_op_plain hcmp
      obtain ⟨x, rest, rfl, -, hx, hrest⟩ := hl.take rfl (congrArg Parser.toks hp1).symm
        (congrArg Parser.last hp1).symm ⟨heof, herror⟩
      have hpath : in_path x = false := by
        rw [in_path, hx]
        generalize p.current_token.type = type at hcmp
        cases type <;> simp [comparison_op] at hcmp <;> rfl
      refine ⟨x, rest, rest, rfl, hpath, hrest, fun l0 hl0 => ?_⟩
      refine .pending [] ⟨hplain.1, hplain.2.1⟩ ?_ (by simp) fun v => operand_values_plain hplain
      rintro y after rfl
      rw [hl0, read_values, if_neg (by rw [hx]; exact hnin)]
      rfl

theorem parse_operator_reads {known : List ConstDecl} {cond cond' : FilterCondition}
    (hl : Shows source l p) (hknown : Chained source known p) (h : parse_operator cond p = .ok cond' q) :
    ∃ first l' rest, l = first :: l' ∧ in_path first = false ∧ Shows source rest q ∧
      OperatorRead source known l rest cond' := by
  simp only [parse_operator, bind_ok, current_token_ok, ite_ok, pure_ok, parser_skip_token_ok,
    parser_expect_ok] at h
  obtain ⟨_, _, ⟨rfl, rfl⟩, ⟨hand, _, p1, hp1, mask, p2, hmask, _, p3, ⟨hassign, hp3, -⟩, rfl, rfl⟩ |
    ⟨hand, negate, p1, hnot, _, _, ⟨rfl, rfl⟩, h⟩⟩ := h
  · -- a mask, and the value is still to come
    obtain ⟨op, l1, rfl, -, hop, hl1⟩ := hl.take hand (congrArg Parser.toks hp1).symm
      (congrArg Parser.last hp1).symm (by decide)
    obtain ⟨x, l2, rfl, -, hx, rfl, hl2⟩ := parse_operand_reads hl1 (hknown.congr (by rw [← hp1])) hmask
    obtain ⟨assign, l3, rfl, -, -, hl3⟩ := hl2.take hassign (congrArg Parser.toks hp3).symm
      (congrArg Parser.last hp3).symm (by decide)
    refine ⟨op, _, l3, rfl, by simp [in_path, hop], hl3, .pending [x] (by simp) ?_ (by simpa using hx)
      fun v => rfl⟩
    rintro y after rfl
    rw [read_operands, if_pos hop]
    rfl
  · obtain ⟨l1, hl1, hproto, hsame⟩ := parse_not_reads hl hand hnot
    have hop : (if negate = true then ConditionOp.NOT_IN else .IN) = .IN ∨
        (if negate = true then ConditionOp.NOT_IN else .IN) = .NOT_IN := by
      cases negate
      · exact .inl rfl
      · exact .inr rfl
    obtain ⟨first, l', rest, rfl, hfirst, hrest, hread⟩ :=
      comparison_reads hl1 (hknown.congr (by rw [hproto])) hop h
    obtain ⟨hl0, hsame, hpath⟩ := hsame (by simp)
    rcases hpath with rfl | ⟨head, hhead, hpath⟩
    · exact ⟨first, l', rest, rfl, hfirst, hrest, hread _ hsame⟩
    · cases l with
      | nil => cases hhead
      | cons x l =>
        cases hhead
        exact ⟨head, l, rest, rfl, hpath, hrest, hread _ hsame⟩

/-! ## Field paths -/

theorem append_token_ok {out_size : ℕ} {out token out' : CStr} :
    append_token out_size out token p = .ok out' q ↔
      out.length + token.length < out_size ∧ out ++ token = out' ∧ p = q := by
  simp only [append_token, ite_ok, bind_ok, parser_error_ok, pure_ok, ge_iff_le, not_le]
  constructor
  · rintro (⟨-, _, _, hfalse, -⟩ | ⟨hfits, rfl, rfl⟩)
    · exact hfalse.elim
    · exact ⟨hfits, rfl, rfl⟩
  · rintro ⟨hfits, rfl, rfl⟩
    exact .inr ⟨hfits, rfl, rfl⟩

/-- Some lexemes of a path were taken and written out. -/
structure Walks (source : List Char) (l : List Lexeme) (out out' : CStr) (q : Parser) : Prop where
  taken : ∃ path rest, l = path ++ rest ∧ (∀ x ∈ path, in_path x = true) ∧ Shows source rest q ∧
    out' = out ++ path_text path

theorem Walks.nil {out : CStr} (hl : Shows source l p) : Walks source l out out p :=
  ⟨[], l, rfl, by simp, hl, by simp [path_text]⟩

theorem Walks.cons {x : Lexeme} {rest : List Lexeme} {out out' : CStr} (hx : in_path x = true)
    (h : Walks source rest (out ++ lexeme_text x) out' q) : Walks source (x :: rest) out out' q := by
  obtain ⟨path, after, rfl, hpath, hafter, rfl⟩ := h.taken
  refine ⟨x :: path, after, rfl, ?_, hafter, ?_⟩
  · intro y hy
    rcases List.mem_cons.mp hy with rfl | hy
    · exact hx
    · exact hpath y hy
  · rw [List.append_assoc]
    rfl

theorem Walks.trans {out mid out' : CStr} (h : Walks source l out mid p)
    (hnext : ∀ rest, Shows source rest p → Walks source rest mid out' q) : Walks source l out out' q := by
  obtain ⟨path, rest, rfl, hpath, hrest, rfl⟩ := h.taken
  obtain ⟨path', rest', rfl, hpath', hrest', rfl⟩ := (hnext rest hrest).taken
  refine ⟨path ++ path', rest', by rw [List.append_assoc], ?_, hrest', ?_⟩
  · intro x hx
    rcases List.mem_append.mp hx with hx | hx
    · exact hpath x hx
    · exact hpath' x hx
  · simp only [path_text, List.flatMap_append, List.append_assoc]

theorem parse_field_indices_walks {out_size : ℕ} (n : ℕ) : ∀ {l : List Lexeme} {out out' : CStr}
    {p q : Parser}, Shows source l p → parse_field_indices out_size n out p = .ok out' q →
    Walks source l out out' q := by
  induction n with
  | zero => intro _ _ _ _ _ _ h; exact ((throw_ok _ _ _ _).mp h).elim
  | succ n ih =>
    intro l out out' p q hl h
    simp only [parse_field_indices, bind_ok, current_token_ok, ite_ok, pure_ok, append_token_ok,
      parser_require_ok, parser_skip_token_ok, parser_expect_ok] at h
    obtain ⟨_, _, ⟨rfl, rfl⟩, ⟨hopen, _, _, ⟨-, rfl, rfl⟩, _, p1, hp1, _, _, ⟨hnumber, rfl⟩, _, _,
      ⟨rfl, rfl⟩, _, _, ⟨-, rfl, rfl⟩, _, p2, hp2, _, p3, ⟨hclose, hp3, -⟩, _, _, ⟨-, rfl, rfl⟩,
      hrest⟩ | ⟨-, rfl, rfl⟩⟩ := h
    · obtain ⟨x, l1, rfl, -, hx, hl1⟩ := hl.take hopen (congrArg Parser.toks hp1).symm
        (congrArg Parser.last hp1).symm (by decide)
      obtain ⟨y, l2, rfl, hytok, hy, hl2⟩ := hl1.take hnumber (congrArg Parser.toks hp2).symm
        (congrArg Parser.last hp2).symm (by decide)
      obtain ⟨z, l3, rfl, -, hz, hl3⟩ := hl2.take hclose (congrArg Parser.toks hp3).symm
        (congrArg Parser.last hp3).symm (by decide)
      refine .cons (by simp [in_path, hx]) (.cons (by simp [in_path, hy]) (.cons (by simp [in_path, hz]) ?_))
      have htexts : lexeme_text x = ['['] ∧ lexeme_text y = decimal p1.current_token.value ∧
          lexeme_text z = [']'] := by
        simp only [lexeme_text, hx, hy, hz, hytok, and_self]
      rw [htexts.1, htexts.2.1, htexts.2.2]
      exact ih hl3 hrest
    · exact .nil hl

theorem parse_field_steps_walks {out_size : ℕ} (n : ℕ) : ∀ {l : List Lexeme} {out out' : CStr}
    {p q : Parser}, Shows source l p → p.current_token.type = .IDENTIFIER →
    parse_field_steps out_size n out p = .ok out' q → Walks source l out out' q := by
  induction n with
  | zero => intro _ _ _ _ _ _ _ h; exact ((throw_ok _ _ _ _).mp h).elim
  | succ n ih =>
    intro l out out' p q hl hword h
    simp only [parse_field_steps, bind_ok, current_token_ok, ite_ok, pure_ok, append_token_ok,
      parser_require_ok, parser_skip_token_ok, turns_ok] at h
    obtain ⟨_, _, ⟨rfl, rfl⟩, _, _, ⟨-, rfl, rfl⟩, _, p1, hp1, _, _, ⟨rfl, rfl⟩, out2, p2, hindices, _, _,
      ⟨rfl, rfl⟩, h⟩ := h
    obtain ⟨x, l1, rfl, hx, htype, hl1⟩ := hl.take hword (congrArg Parser.toks hp1).symm
      (congrArg Parser.last hp1).symm (by decide)
    refine .cons (by simp [in_path, htype]) ?_
    have htext : lexeme_text x = p.current_token.text := by simp only [lexeme_text, htype, hx]
    rw [htext]
    refine (parse_field_indices_walks _ hl1 hindices).trans fun l2 hl2 => ?_
    rcases h with ⟨hdot, _, _, ⟨-, rfl, rfl⟩, _, p3, hp3, _, _, ⟨hnext, rfl⟩, hrest⟩ | ⟨-, rfl, rfl⟩
    · obtain ⟨y, l3, rfl, -, hy, hl3⟩ := hl2.take hdot (congrArg Parser.toks hp3).symm
        (congrArg Parser.last hp3).symm (by decide)
      refine .cons (by simp [in_path, hy]) ?_
      rw [show lexeme_text y = ['.'] by simp only [lexeme_text, hy]]
      exact ih hl3 hnext hrest
    · exact .nil hl2

theorem parse_field_path_walks {out_size : ℕ} {path : CStr} (hl : Shows source l p)
    (h : parse_field_path out_size p = .ok path q) : Walks source l [] path q := by
  simp only [parse_field_path, bind_ok, parser_require_ok, turns_ok] at h
  obtain ⟨_, _, ⟨hword, rfl⟩, _, _, ⟨-, rfl⟩, h⟩ := h
  exact parse_field_steps_walks _ hl hword h

/-- What a condition has read. -/
theorem parse_condition_reads {known : List ConstDecl} {cond : FilterCondition} (hl : Shows source l p)
    (hknown : Chained source known p) (h : parse_condition p = .ok cond q) :
    ∃ operands rest, read_operands (l.dropWhile in_path) = some (operands, rest) ∧ Shows source rest q ∧
      (∀ x ∈ operands, (resolve known x).Is source .NUMBER) ∧
      operand_values cond = operands.map (operand_value known) ∧
      cond.field_name = cstr 128 (path_text (l.takeWhile in_path)) := by
  simp only [parse_condition, bind_ok, parser_require_ok, ite_ok, pure_ok] at h
  obtain ⟨_, _, ⟨-, rfl⟩, path, p1, hpath, cond1, p2, hop, h⟩ := h
  obtain ⟨walked, l1, rfl, hwalked, hl1, rfl⟩ := (parse_field_path_walks hl hpath).taken
  have hknown1 : Chained source known p1 := hknown.congr (by
    rw [(parse_field_path_quiet _ _ _ _ hpath).frame])
  obtain ⟨first, l2, rest, rfl, hfirst, hrest, hread⟩ := parse_operator_reads hl1 hknown1 hop
  obtain ⟨-, hname, hmoves⟩ := parse_operator_moves rfl hop
  have htake : (walked ++ first :: l2).takeWhile in_path = walked := by
    rw [List.takeWhile_append_of_pos hwalked, List.takeWhile_cons_of_neg (by simp [hfirst]),
      List.append_nil]
  have hdrop : (walked ++ first :: l2).dropWhile in_path = first :: l2 := by
    rw [List.dropWhile_append_of_pos hwalked, List.dropWhile_cons_of_neg (by simp [hfirst])]
  rw [htake, hdrop]
  rcases h with ⟨hplain, v, p3, hvalue, rfl, rfl⟩ | ⟨hlist, rfl, rfl⟩
  · cases hread with
    | list operands hop => exact absurd hop (by tauto)
    | pending before hop hread hbefore hvalues =>
      obtain ⟨x, after, rfl, -, hx, rfl, hafter⟩ := parse_operand_reads hrest
        (hknown1.congr (by rw [hmoves.frame])) hvalue
      refine ⟨before ++ [x], after, hread x after rfl, hafter, ?_, ?_, hname⟩
      · intro y hy
        rcases List.mem_append.mp hy with hy | hy
        · exact hbefore y hy
        · exact List.mem_singleton.mp hy ▸ hx
      rw [hvalues, List.map_append]
      rfl
  · cases hread with
    | list operands hop hread hlisted hvalues =>
      exact ⟨operands, rest, hread, hrest, hlisted, hvalues, hname⟩
    | pending before hop => exact absurd hop hlist

/-! ## Filters -/

/-- The lexemes of an item that the parser accepts. -/
def FilterItem.Lexemes (source : List Char) (known : List ConstDecl) : FilterItem → Prop
  | .sliding x => x ∈ lexemes source
  | .sliding_max x => x.Is source .NUMBER
  | .condition _ operands => ∀ x ∈ operands, (resolve known x).Is source .NUMBER

/-- What reading some items makes of a filter under construction. -/
structure ReadInto (source : List Char) (known : List ConstDecl) (items : List FilterItem) (rule rule' : TempFilterRule) :
    Prop where
  sound : ∀ i ∈ items, i.Lexemes source known
  name : rule'.name = rule.name
  conditions : rule'.conditions.elems.map FilterCondition.kept
    = rule.conditions.elems.map FilterCondition.kept
      ++ (items.filterMap FilterItem.condition?).map (kept_condition known)
  sliding : rule'.sliding_window = (last_sliding items).elim rule.sliding_window switched
  sliding_max : rule'.sliding_max_offset
    = (last_sliding_max items).elim rule.sliding_max_offset fun x => u32 x.token.value

theorem ReadInto.nil (known : List ConstDecl) (rule : TempFilterRule) : ReadInto source known [] rule rule where
  sound := by simp
  name := rfl
  conditions := by simp
  sliding := rfl
  sliding_max := rfl

/-- The later of two entries counts. -/
theorem elim_getLast? {α β : Type} (g : α → β) (a b : List α) (d : β) :
    (a ++ b).getLast?.elim d g = b.getLast?.elim (a.getLast?.elim d g) g := by
  rw [List.getLast?_append]
  cases b.getLast? with
  | none => rfl
  | some x => rfl

theorem ReadInto.trans {known : List ConstDecl} {items items' : List FilterItem}
    {rule rule' rule'' : TempFilterRule} (h1 : ReadInto source known items rule rule')
    (h2 : ReadInto source known items' rule' rule'') : ReadInto source known (items ++ items') rule rule'' where
  sound i hi := (List.mem_append.mp hi).elim (h1.sound i) (h2.sound i)
  name := h2.name.trans h1.name
  conditions := by
    rw [h2.conditions, h1.conditions, List.filterMap_append, List.map_append, List.append_assoc]
  sliding := by
    rw [h2.sliding, h1.sliding, last_sliding, last_sliding, last_sliding, List.filterMap_append,
      elim_getLast?]
  sliding_max := by
    rw [h2.sliding_max, h1.sliding_max, last_sliding_max, last_sliding_max, last_sliding_max,
      List.filterMap_append, elim_getLast?]

/-- The value of a setting, behind its name and its `=`. -/
theorem Shows.setting {p1 p2 p3 : Parser} {type : TokenType} (hl : Shows source l p)
    (hword : p.current_token.type = .IDENTIFIER) (hp1 : { p with toks := p.toks.tail } = p1)
    (hassign : p1.current_token.type = .ASSIGN) (hp2 : { p1 with toks := p1.toks.tail } = p2)
    (htype : p2.current_token.type = type) (hreal : type ≠ .EOF ∧ type ≠ .ERROR)
    (hp3 : { p2 with toks := p2.toks.tail } = p3) :
    ∃ word assign value rest, l = word :: assign :: value :: rest ∧ word.token = p.current_token ∧
      value.token = p2.current_token ∧ value.type = type ∧ Shows source rest p3 := by
  obtain ⟨word, l1, rfl, hx, -, hl1⟩ := hl.take hword (congrArg Parser.toks hp1).symm
    (congrArg Parser.last hp1).symm (by decide)
  obtain ⟨assign, l2, rfl, -, -, hl2⟩ := hl1.take hassign (congrArg Parser.toks hp2).symm
    (congrArg Parser.last hp2).symm (by decide)
  obtain ⟨value, l3, rfl, hy, htype, hl3⟩ := hl2.take htype (congrArg Parser.toks hp3).symm
    (congrArg Parser.last hp3).symm hreal
  exact ⟨word, assign, value, l3, rfl, hx, hy, htype, hl3⟩

theorem parse_sliding_reads {b : Bool} (hl : Shows source l p) (hword : p.current_token.type = .IDENTIFIER)
    (h : parse_sliding p = .ok b q) : ∃ word assign value rest, l = word :: assign :: value :: rest ∧
      word.token = p.current_token ∧ b = switched value ∧ value ∈ lexemes source ∧ Shows source rest q := by
  have hfound : ∀ {word assign value : Lexeme} {rest : List Lexeme},
      Shows source (word :: assign :: value :: rest) p → value ∈ lexemes source :=
    fun hl => (hl.real _ (by simp)).1
  simp only [parse_sliding, bind_ok, parser_skip_token_ok, parser_expect_ok, current_token_ok,
    ite_ok, pure_ok, parser_error_ok] at h
  obtain ⟨_, p1, hp1, _, p2, ⟨hassign, hp2, -⟩, _, _, ⟨rfl, rfl⟩, ⟨hname, h⟩ |
    ⟨hname, ⟨hnumber, _, p3, hp3, rfl, rfl⟩ | ⟨-, hfalse⟩⟩⟩ := h
  · rcases h with ⟨htrue, _, p3, hp3, rfl, rfl⟩ | ⟨htrue, ⟨-, _, p3, hp3, rfl, rfl⟩ | ⟨-, hfalse⟩⟩
    · obtain ⟨word, assign, value, rest, rfl, hx, hy, htype, hrest⟩ :=
        hl.setting hword hp1 hassign hp2 hname (by decide) hp3
      refine ⟨word, assign, value, rest, rfl, hx, ?_, hfound hl, hrest⟩
      rw [switched, if_neg (by rw [htype]; decide), hy, htrue]
      exact (decide_eq_true rfl).symm
    · obtain ⟨word, assign, value, rest, rfl, hx, hy, htype, hrest⟩ :=
        hl.setting hword hp1 hassign hp2 hname (by decide) hp3
      refine ⟨word, assign, value, rest, rfl, hx, ?_, hfound hl, hrest⟩
      rw [switched, if_neg (by rw [htype]; decide), hy]
      exact (decide_eq_false htrue).symm
    · exact hfalse.elim
  · obtain ⟨word, assign, value, rest, rfl, hx, hy, htype, hrest⟩ :=
      hl.setting hword hp1 hassign hp2 hnumber (by decide) hp3
    exact ⟨word, assign, value, rest, rfl, hx, by rw [switched, if_pos htype, hy], hfound hl, hrest⟩
  · exact hfalse.elim

theorem parse_sliding_max_reads {n : ℕ} (hl : Shows source l p) (hword : p.current_token.type = .IDENTIFIER)
    (h : parse_sliding_max p = .ok n q) : ∃ word assign value rest,
      l = word :: assign :: value :: rest ∧ word.token = p.current_token ∧
      n = u32 value.token.value ∧ value.Is source .NUMBER ∧ Shows source rest q := by
  simp only [parse_sliding_max, bind_ok, parser_skip_token_ok, parser_expect_ok, current_token_ok,
    parser_require_ok, pure_ok] at h
  obtain ⟨_, p1, hp1, _, p2, ⟨hassign, hp2, -⟩, _, _, ⟨hnumber, rfl⟩, _, _, ⟨rfl, rfl⟩, _, p3, hp3,
    rfl, rfl⟩ := h
  obtain ⟨word, assign, value, rest, rfl, hx, hy, htype, hrest⟩ :=
    hl.setting hword hp1 hassign hp2 hnumber (by decide) hp3
  exact ⟨word, assign, value, rest, rfl, hx, by rw [hy], ⟨(hl.real value (by simp)).1, htype⟩, hrest⟩

theorem parse_filter_item_reads {known : List ConstDecl} {rule rule' : TempFilterRule}
    (hl : Shows source l p) (hknown : Chained source known p) (h : parse_filter_item rule p = .ok rule' q) :
    ∃ item rest, read_item l = some (item, rest) ∧ Shows source rest q ∧ ReadInto source known [item] rule rule' := by
  simp only [parse_filter_item, bind_ok, current_token_ok, ite_ok, pure_ok] at h
  obtain ⟨_, _, ⟨rfl, rfl⟩, ⟨⟨hword, htext⟩, b, p1, hsliding, _, p2, hsemi, rfl, rfl⟩ | ⟨hnot, h⟩⟩ := h
  · obtain ⟨word, assign, value, rest, rfl, hx, rfl, hfound, hrest⟩ := parse_sliding_reads hl hword hsliding
    refine ⟨.sliding value, _, ?_, optional_semicolon_reads hrest hsemi, List.forall_mem_singleton.mpr hfound, rfl,
      by simp [FilterItem.condition?], rfl, rfl⟩
    rw [read_item, if_pos (by rw [hx, htext])]
  rcases h with ⟨⟨hword, htext⟩, n, p1, hmax, _, p2, hsemi, rfl, rfl⟩ |
    ⟨hnot', conditions, p1, hreserve, cond, p2, hcond, _, p3, hsemi, rfl, rfl⟩
  · obtain ⟨word, assign, value, rest, rfl, hx, rfl, hnum, hrest⟩ := parse_sliding_max_reads hl hword hmax
    refine ⟨.sliding_max value, _, ?_, optional_semicolon_reads hrest hsemi, List.forall_mem_singleton.mpr hnum, rfl,
      by simp [FilterItem.condition?], rfl, rfl⟩
    rw [read_item, if_neg (by rw [hx, htext]; decide), if_pos (by rw [hx, htext])]
  · obtain ⟨helems, hp1⟩ := reserve_elems hreserve
    have hl1 : Shows source l p1 := hl.congr (by rw [hp1]) (by rw [hp1])
    have hhead : p1.current_token = p.current_token := by rw [hp1]; rfl
    have hword : p.current_token.type = .IDENTIFIER := by
      simp only [parse_condition, bind_ok, parser_require_ok] at hcond
      obtain ⟨_, _, ⟨hword, -⟩, -⟩ := hcond
      rwa [hhead] at hword
    obtain ⟨operands, rest, hread, hrest, hliterals, hvalues, hname⟩ :=
      parse_condition_reads hl1 (hknown.congr (by rw [hp1])) hcond
    obtain ⟨first, l', rfl, hx, -⟩ := hl.head (not_final (by decide) hword)
    refine ⟨.condition ((first :: l').takeWhile in_path) operands, pass_semicolon rest, ?_,
      optional_semicolon_reads hrest hsemi, List.forall_mem_singleton.mpr hliterals, rfl, ?_, rfl, rfl⟩
    · exact read_item_condition (fun htext => hnot ⟨hword, hx ▸ htext⟩)
        (fun htext => hnot' ⟨hword, hx ▸ htext⟩) hread
    · simp only [Table.push_elems, helems, List.map_append, List.map_cons, List.map_nil,
        FilterItem.condition?, List.filterMap_cons, List.filterMap_nil, FilterCondition.kept,
        kept_condition, hvalues, hname]

theorem parse_filter_items_reads {known : List ConstDecl} (n : ℕ) : ∀ {l : List Lexeme}
    {rule rule' : TempFilterRule} {p q : Parser}, Shows source l p → Chained source known p →
    parse_filter_items n rule p = .ok rule' q → ∃ items rest close,
      read_entries read_item n l = some (items, rest) ∧ Shows source (close :: rest) q ∧
      ReadInto source known items rule rule' := by
  induction n with
  | zero => intro _ _ _ _ _ _ _ h; exact ((throw_ok _ _ _ _).mp h).elim
  | succ n ih =>
    intro l rule rule' p q hl hknown h
    simp only [parse_filter_items, bind_ok, current_token_ok, ite_ok, pure_ok] at h
    obtain ⟨_, _, ⟨rfl, rfl⟩, ⟨hbrace, rule1, p1, hitem, hrest⟩ | ⟨hbrace, rfl, rfl⟩⟩ := h
    · obtain ⟨item, l1, hread, hl1, hinto⟩ := parse_filter_item_reads hl hknown hitem
      have hknown1 : Chained source known p1 := hknown.congr (by
        rw [(parse_filter_item_grows hitem).moves.frame])
      obtain ⟨items, rest, close, hmore, hend, hinto'⟩ := ih hl1 hknown1 hrest
      refine ⟨item :: items, rest, close, hl.entries_more hbrace hread ?_ hmore, hend,
        hinto.trans hinto'⟩
      rintro rfl
      cases hread
    · obtain ⟨close, rest, rfl, hread⟩ := hl.entries_end (not_not.mp hbrace)
      exact ⟨[], rest, close, hread, hl, .nil known rule⟩

/-- A filter of the table is what the script says of it. -/
structure KeepsFilter (source : List Char) (rule : TempFilterRule) (d : FilterDecl) : Prop where
  sound : ∀ i ∈ d.items, i.Lexemes source d.known
  name : rule.name = cstr 64 d.name.token.text
  conditions : rule.conditions.elems.map FilterCondition.kept
    = (d.items.filterMap FilterItem.condition?).map (kept_condition d.known)
  sliding : rule.sliding_window = (last_sliding d.items).elim false switched
  sliding_max : rule.sliding_max_offset
    = (last_sliding_max d.items).elim 0 fun x => u32 x.token.value

theorem parse_filter_block_reads {w : Script} (hl : Shows source l p) (hknown : Chained source w.constants p)
    (h : parse_filter_block p = .ok u q) : ∃ first name brace body items rest rule,
      l = first :: name :: brace :: body ∧ first.type = .FILTER ∧
      read_body read_item body = some (items, rest) ∧ Shows source rest q ∧
      q.temp_filter_rules.elems = p.temp_filter_rules.elems ++ [rule] ∧
      KeepsFilter source rule { name := name, items := items, known := w.constants } := by
  simp only [parse_filter_block, bind_ok, get_ok, consult_ok, current_token_ok, turns_ok,
    modify_ok, ite_ok, parser_error_ok, parser_require_ok, parser_skip_token_ok,
    parser_expect_ok] at h
  obtain ⟨_, p1, ⟨hfilter, hp1, -⟩, _, _, ⟨hname, rfl⟩, _, _, ⟨rfl, rfl⟩, _, _, rfl, _, _, ⟨rfl, rfl⟩,
    _, _, ⟨rfl, rfl⟩, h⟩ := h
  rcases h with ⟨-, _, _, hfalse, -⟩ | ⟨-, _, _, ⟨rfl, rfl⟩, h⟩
  · exact hfalse.elim
  obtain ⟨_, p2, hp2, _, p3, ⟨hbrace, hp3, -⟩, conditions, p4, hcalloc, _, _, ⟨rfl, rfl⟩, rule, p5,
    hitems, _, p6, hp6, hclose, hq, -⟩ := h
  obtain ⟨first, l1, rfl, -, hfirst, hl1⟩ := hl.take hfilter (congrArg Parser.toks hp1).symm
    (congrArg Parser.last hp1).symm (by decide)
  obtain ⟨name, l2, rfl, hx, -, hl2⟩ := hl1.take hname (congrArg Parser.toks hp2).symm
    (congrArg Parser.last hp2).symm (by decide)
  obtain ⟨brace, body, rfl, -, -, hl3⟩ := hl2.take hbrace (congrArg Parser.toks hp3).symm
    (congrArg Parser.last hp3).symm (by decide)
  rw [calloc_ok] at hcalloc
  obtain ⟨hnil, hp4⟩ := hcalloc
  have hl4 : Shows source body p4 := hl3.congr (congrArg Parser.toks hp4).symm (congrArg Parser.last hp4).symm
  have hknown4 : Chained source w.constants p4 := hknown.congr (by rw [← hp4, ← hp3, ← hp2, ← hp1])
  obtain ⟨items, rest, close, hread, hend, hinto⟩ := parse_filter_items_reads _ hl4 hknown4 hitems
  rw [hl4.toks, List.length_map] at hread
  have hframe := (parse_filter_items_grows _ hitems).moves.frame
  refine ⟨first, name, brace, body, items, rest, rule, rfl, hfirst, hread, ?_, ?_,
    hinto.sound, ?_, ?_, ?_, ?_⟩
  · exact hend.tail (by rw [← hq, ← hp6]) (by rw [← hq, ← hp6])
  · rw [← hq, ← hp6, Table.push_elems, hframe, ← hp4, ← hp3, ← hp2, ← hp1]
  · rw [hinto.name, hx]
    rfl
  · rw [hinto.conditions, ← hnil]
    rfl
  · exact hinto.sliding
  · exact hinto.sliding_max

/-! ## The `@protocol` block -/

/-- Some lexemes were taken, none of them a closing brace. -/
def Skims (source : List Char) (l : List Lexeme) (q : Parser) : Prop :=
  ∃ taken rest, l = taken ++ rest ∧ (∀ x ∈ taken, x.type ≠ .RBRACE) ∧ Shows source rest q

theorem Skims.nil (hl : Shows source l p) : Skims source l p := ⟨[], l, rfl, by simp, hl⟩

theorem Skims.trans (h : Skims source l p) (hnext : ∀ rest, Shows source rest p → Skims source rest q) : Skims source l q := by
  obtain ⟨taken, rest, rfl, htaken, hrest⟩ := h
  obtain ⟨taken', rest', rfl, htaken', hrest'⟩ := hnext rest hrest
  refine ⟨taken ++ taken', rest', by rw [List.append_assoc], ?_, hrest'⟩
  intro x hx
  rcases List.mem_append.mp hx with hx | hx
  · exact htaken x hx
  · exact htaken' x hx

/-- One token of a known type. -/
theorem Shows.skim {type : TokenType} {p' : Parser} (hl : Shows source l p)
    (htype : p.current_token.type = type) (htoks : p'.toks = p.toks.tail) (hlast : p'.last = p.last)
    (hreal : (type ≠ .EOF ∧ type ≠ .ERROR) ∧ type ≠ .RBRACE) : Skims source l p' := by
  obtain ⟨x, rest, rfl, -, hx, hrest⟩ := hl.take htype htoks hlast hreal.1
  refine ⟨[x], rest, rfl, ?_, hrest⟩
  intro y hy
  rw [List.mem_singleton.mp hy, hx]
  exact hreal.2

theorem parse_protocol_name_skims (hl : Shows source l p) (h : parse_protocol_name p = .ok u q) : Skims source l q := by
  simp only [parse_protocol_name, bind_ok, current_token_ok, ite_ok, modify_ok,
    parser_skip_token_ok, parser_error_ok] at h
  obtain ⟨_, _, ⟨rfl, rfl⟩, ⟨htype, _, p1, hp1, hq⟩ | ⟨-, hfalse⟩⟩ := h
  · have htoks : q.toks = p.toks.tail := by rw [← hq, ← hp1]
    have hlast : q.last = p.last := by rw [← hq, ← hp1]
    rcases htype with htype | htype
    · exact hl.skim htype htoks hlast (by decide)
    · exact hl.skim htype htoks hlast (by decide)
  · exact hfalse.elim

theorem parse_protocol_endian_skims (hl : Shows source l p) (h : parse_protocol_endian p = .ok u q) :
    Skims source l q := by
  simp only [parse_protocol_endian, set_endian, bind_ok, current_token_ok, ite_ok, modify_ok,
    parser_skip_token_ok, parser_error_ok] at h
  obtain ⟨_, _, ⟨rfl, rfl⟩, ⟨-, _, _, hfalse, -⟩ | ⟨hword, h⟩⟩ := h
  · exact hfalse.elim
  have hset : q.toks = p.toks.tail ∧ q.last = p.last := by
    rcases h with ⟨-, _, p1, hp1, hq⟩ | ⟨-, ⟨-, _, p1, hp1, hq⟩ | ⟨-, ⟨-, _, p1, hp1, hq⟩ |
      ⟨-, _, _, hfalse, -⟩⟩⟩
    · exact ⟨by rw [← hq, ← hp1], by rw [← hq, ← hp1]⟩
    · exact ⟨by rw [← hq, ← hp1], by rw [← hq, ← hp1]⟩
    · exact ⟨by rw [← hq, ← hp1], by rw [← hq, ← hp1]⟩
    · exact hfalse.elim
  exact hl.skim (not_not.mp hword) hset.1 hset.2 (by decide)

theorem parse_protocol_ports_skims (n : ℕ) : ∀ {l : List Lexeme} {p q : Parser} {u : Unit},
    Shows source l p → parse_protocol_ports n p = .ok u q → Skims source l q := by
  induction n with
  | zero => intro _ _ _ _ _ h; exact ((throw_ok _ _ _ _).mp h).elim
  | succ n ih =>
    intro l p q u hl h
    have hport : ∀ {l : List Lexeme} {p : Parser}, Shows source l p → (do
        parser_require .NUMBER "Expected port number"
        parser_skip_token
        if (← current_token).type = .COMMA then parse_protocol_ports n : ParseM Unit) p = .ok u q →
          Skims source l q := by
      intro l p hl h
      simp only [bind_ok, current_token_ok, ite_ok, pure_ok, parser_require_ok,
        parser_skip_token_ok] at h
      obtain ⟨_, _, ⟨hnumber, rfl⟩, _, p1, hp1, _, _, ⟨rfl, rfl⟩, h⟩ := h
      refine (hl.skim hnumber (congrArg Parser.toks hp1).symm (congrArg Parser.last hp1).symm
        (by decide)).trans fun rest hrest => ?_
      rcases h with ⟨-, h⟩ | ⟨-, -, rfl⟩
      · exact ih hrest h
      · exact .nil hrest
    rw [parse_protocol_ports] at h
    simp only [bind_ok _ _ p, current_token_ok] at h
    obtain ⟨_, _, ⟨rfl, rfl⟩, h⟩ := h
    rw [ite_ok] at h
    rcases h with ⟨hcomma, h⟩ | ⟨-, h⟩
    · rw [bind_ok] at h
      obtain ⟨_, p1, hp1, h⟩ := h
      rw [parser_skip_token_ok] at hp1
      exact (hl.skim hcomma (congrArg Parser.toks hp1).symm (congrArg Parser.last hp1).symm
        (by decide)).trans fun rest hrest => hport hrest h
    · exact hport hl h

theorem parse_protocol_entry_skims (hl : Shows source l p) (h : parse_protocol_entry p = .ok u q) : Skims source l q := by
  simp only [parse_protocol_entry, bind_ok, current_token_ok, turns_ok, ite_ok, parser_require_ok,
    parser_skip_token_ok, parser_expect_ok, parser_error_ok] at h
  obtain ⟨_, _, ⟨hword, rfl⟩, _, _, ⟨rfl, rfl⟩, _, p1, hp1, _, p2, ⟨hassign, hp2, -⟩, h⟩ := h
  refine (hl.skim hword (congrArg Parser.toks hp1).symm (congrArg Parser.last hp1).symm
    (by decide)).trans fun l1 hl1 => ?_
  refine (hl1.skim hassign (congrArg Parser.toks hp2).symm (congrArg Parser.last hp2).symm
    (by decide)).trans fun l2 hl2 => ?_
  have hvalue : ∃ p3, Skims source l2 p3 ∧ ∃ u, optional_semicolon p3 = .ok u q := by
    rcases h with ⟨-, _, p3, h, hsemi⟩ | ⟨-, ⟨-, _, p3, h, hsemi⟩ |
      ⟨-, ⟨-, _, _, ⟨-, rfl⟩, _, p3, h, hsemi⟩ | ⟨-, _, _, hfalse, -⟩⟩⟩
    · exact ⟨p3, parse_protocol_name_skims hl2 h, _, hsemi⟩
    · exact ⟨p3, parse_protocol_endian_skims hl2 h, _, hsemi⟩
    · exact ⟨p3, parse_protocol_ports_skims _ hl2 h, _, hsemi⟩
    · exact hfalse.elim
  obtain ⟨p3, hskims, _, hsemi⟩ := hvalue
  refine hskims.trans fun l3 hl3 => ?_
  rw [optional_semicolon_ok] at hsemi
  by_cases htype : p3.current_token.type = .SEMICOLON
  · rw [if_pos htype] at hsemi
    exact hl3.skim htype (congrArg Parser.toks hsemi).symm (congrArg Parser.last hsemi).symm (by decide)
  · rw [if_neg htype] at hsemi
    exact hsemi ▸ .nil hl3

theorem parse_protocol_entries_skims (n : ℕ) : ∀ {l : List Lexeme} {p q : Parser} {u : Unit},
    Shows source l p → parse_protocol_entries n p = .ok u q → Skims source l q := by
  induction n with
  | zero => intro _ _ _ _ _ h; exact ((throw_ok _ _ _ _).mp h).elim
  | succ n ih =>
    intro l p q u hl h
    simp only [parse_protocol_entries, bind_ok, current_token_ok, ite_ok, pure_ok] at h
    obtain ⟨_, _, ⟨rfl, rfl⟩, ⟨-, _, p1, hentry, hrest⟩ | ⟨-, -, rfl⟩⟩ := h
    · exact (parse_protocol_entry_skims hl hentry).trans fun rest hl1 => ih hl1 hrest
    · exact .nil hl

theorem parse_protocol_block_reads (hl : Shows source l p) (h : parse_protocol_block p = .ok u q) :
    ∃ first rest, l = first :: rest ∧ first.type = .PROTOCOL ∧ Shows source (behind .RBRACE rest) q := by
  simp only [parse_protocol_block, bind_ok, get_ok, consult_ok, turns_ok, parser_expect_ok] at h
  obtain ⟨_, p1, ⟨hprotocol, hp1, -⟩, _, p2, ⟨hbrace, hp2, -⟩, _, _, ⟨rfl, rfl⟩, _, p3, hp3, _, _,
    ⟨-, rfl⟩, _, p4, hentries, hclose, hq, -⟩ := h
  obtain ⟨first, l1, rfl, -, hfirst, hl1⟩ := hl.take hprotocol (congrArg Parser.toks hp1).symm
    (congrArg Parser.last hp1).symm (by decide)
  obtain ⟨brace, l2, rfl, -, hopen, hl2⟩ := hl1.take hbrace (congrArg Parser.toks hp2).symm
    (congrArg Parser.last hp2).symm (by decide)
  have hl3 : Shows source l2 p3 := hl2.congr (congrArg Parser.toks hp3).symm (congrArg Parser.last hp3).symm
  obtain ⟨taken, rest, rfl, htaken, hrest⟩ := parse_protocol_entries_skims _ hl3 hentries
  obtain ⟨close, after, rfl, -, hbrace, hafter⟩ := hrest.take hclose (congrArg Parser.toks hq).symm
    (congrArg Parser.last hq).symm (by decide)
  refine ⟨first, _, rfl, hfirst, ?_⟩
  rw [behind_skip (by rw [hopen]; decide)]
  have hskip : (taken ++ close :: after).dropWhile (fun x => x.type ≠ .RBRACE) = close :: after := by
    rw [List.dropWhile_append_of_pos (by simpa using htaken),
      List.dropWhile_cons_of_neg (by simp [hbrace])]
  rw [behind, hskip]
  exact hafter

/-! ## The blocks of a text -/

/-- The parser has read what the script says. -/
structure KeepsScript (source : List Char) (w : Script) (p : Parser) : Prop where
  constants : Chained source w.constants p
  structs : List.Forall₂ (KeepsStruct source) p.temp_structs.elems w.structs
  filters : List.Forall₂ (KeepsFilter source) p.temp_filter_rules.elems w.filters

theorem KeepsScript.congr {w : Script} {p' : Parser} (h : KeepsScript source w p)
    (hconsts : p'.proto.constants = p.proto.constants)
    (hstructs : p'.temp_structs = p.temp_structs)
    (hfilters : p'.temp_filter_rules = p.temp_filter_rules) : KeepsScript source w p' where
  constants := h.constants.congr hconsts
  structs := by rw [hstructs]; exact h.structs
  filters := by rw [hfilters]; exact h.filters

theorem parse_block_reads {w : Script} (hl : Shows source l p) (hw : KeepsScript source w p)
    (h : parse_block p = .ok u q) :
    ∃ w' rest, read_block w l = some (w', rest) ∧ Shows source rest q ∧ KeepsScript source w' q := by
  simp only [parse_block, bind_ok, current_token_ok] at h
  obtain ⟨token, _, ⟨rfl, rfl⟩, h⟩ := h
  generalize htype : p.current_token.type = type at h
  cases type
  case PROTOCOL =>
    obtain ⟨first, rest, rfl, hfirst, hrest⟩ := parse_protocol_block_reads hl h
    obtain ⟨-, -, hsettings⟩ := parse_protocol_block_ok h
    refine ⟨w, _, ?_, hrest, ?_⟩
    · simp only [read_block, hfirst]
    · exact hw.congr (by rw [hsettings.frame]) (by rw [hsettings.frame]) (by rw [hsettings.frame])
  case CONST =>
    obtain ⟨first, l1, new, rest, rfl, hfirst, hread, hrest, hconsts⟩ :=
      parse_const_block_reads hl hw.constants h
    obtain ⟨-, entries, hadds⟩ := parse_const_block_ok h
    refine ⟨{ w with constants := new.reverse ++ w.constants }, rest, ?_, hrest, hconsts, ?_, ?_⟩
    · simp only [read_block, hfirst, hread, Option.map_some]
    · rw [hadds.frame]
      exact hw.structs
    · rw [hadds.frame]
      exact hw.filters
  case FILTER =>
    obtain ⟨first, name, brace, body, items, rest, rule, rfl, hfirst, hread, hrest, hrules, hrule⟩ :=
      parse_filter_block_reads hl hw.constants h
    obtain ⟨rule', -, hframe, -⟩ := parse_filter_block_ok h
    refine ⟨{ w with filters := w.filters ++
      [{ name := name, items := items, known := w.constants }] }, rest, ?_, hrest, ?_, ?_, ?_⟩
    · simp only [read_block, hfirst, hread, Option.map_some]
    · exact hw.constants.congr (by rw [hframe])
    · rw [hframe]
      exact hw.structs
    · rw [hrules]
      exact List.rel_append hw.filters (.cons hrule .nil)
  case IDENTIFIER =>
    obtain ⟨first, l1, ds, rest, s, rfl, hfirst, hread, hrest, hstructs, hs⟩ :=
      parse_struct_def_reads hl h
    obtain ⟨s', -, hframe, -⟩ := parse_struct_def_ok h
    refine ⟨{ w with structs := w.structs ++ [{ name := first, fields := ds }] }, rest, ?_, hrest,
      ?_, ?_, ?_⟩
    · simp only [read_block, hfirst, hread, Option.map_some]
    · exact hw.constants.congr (by rw [hframe])
    · rw [hstructs]
      exact List.rel_append hw.structs (.cons hs .nil)
    · rw [hframe]
      exact hw.filters
  all_goals exact ((parser_error_ok _ _ _ _).mp h).elim

theorem parse_blocks_reads (n : ℕ) : ∀ {l : List Lexeme} {w : Script} {p q : Parser} {u : Unit},
    Shows source l p → KeepsScript source w p → parse_blocks n p = .ok u q →
    ∃ w', read_blocks n w l = some w' ∧ KeepsScript source w' q := by
  induction n with
  | zero => intro _ _ _ _ _ _ _ h; exact ((throw_ok _ _ _ _).mp h).elim
  | succ n ih =>
    intro l w p q u hl hw h
    simp only [parse_blocks, bind_ok, current_token_ok, ite_ok, pure_ok] at h
    obtain ⟨_, _, ⟨rfl, rfl⟩, ⟨hmore, _, p1, hblock, hrest⟩ | ⟨heof, -, rfl⟩⟩ := h
    · obtain ⟨w1, l1, hread, hl1, hw1⟩ := parse_block_reads hl hw hblock
      obtain ⟨w', hread', hw'⟩ := ih hl1 hw1 hrest
      refine ⟨w', ?_, hw'⟩
      cases l with
      | nil => cases hread
      | cons x l =>
        rw [read_blocks, hread]
        exact hread'
    · cases l with
      | nil => exact ⟨w, rfl, hw⟩
      | cons x l =>
        rw [← hl.head_type] at heof
        exact absurd (not_not.mp heof) (hl.real x List.mem_cons_self).2

/-- At the start of a text. -/
theorem shows_init (source : List Char) : Shows source (lexemes source) (parser_init source) where
  toks := (lexemes_tokens source).symm
  real x hx := by
    have hmem : x.token ∈ (lex source).1 := by
      rw [← lexemes_tokens]
      exact List.mem_map_of_mem hx
    exact ⟨hx, ((lex_loop_lexed source.length source).1 x.token hmem).2⟩
  final := (lex_loop_final source.length source le_rfl).1

/-- **The script of a text that parses is what the parser has read.** -/
theorem script_kept {source : List Char} {p : Parser} (h : after_blocks source = some p) :
    KeepsScript source (script source) p := by
  have hblocks := returned_eq_some.mp h
  have hlength : (parser_init source).toks.length = (lexemes source).length := by
    rw [(shows_init source).toks, List.length_map]
  rw [hlength] at hblocks
  have hnone : KeepsScript source {} (parser_init source) := ⟨⟨rfl, by simp⟩, .nil, .nil⟩
  obtain ⟨w, hread, hw⟩ := parse_blocks_reads _ (shows_init source) hnone hblocks
  rw [script, hread]
  exact hw

/-- Neither laying out the structs nor compiling the filters adds a constant. -/
theorem Phases.constants_eq {proto : ProtocolDef} {p0 p1 p2 : Parser} (h : Phases source proto p0 p1 p2) :
    proto.constants = p0.proto.constants := by
  obtain ⟨-, hflat⟩ := flatten_structs_ok h.flatten
  obtain ⟨rules, -, hp2⟩ := compile_filter_rules_ok h.compile
  rw [← h.result, hp2, hflat.frame]
  rfl

/-! ## Two lists side by side -/

/-- Two lists that follow a third follow each other. -/
theorem forall₂_common {α β γ : Type} {R : α → β → Prop} {S : α → γ → Prop} {as : List α}
    {bs : List β} {cs : List γ} (h : List.Forall₂ R as bs) (h' : List.Forall₂ S as cs) :
    List.Forall₂ (fun b c => ∃ a, R a b ∧ S a c) bs cs := by
  induction h generalizing cs with
  | nil =>
    cases h'
    exact .nil
  | cons hab _ ih =>
    cases h' with
    | cons hac hrest => exact .cons ⟨_, hab, hac⟩ (ih hrest)

/-- Along two lists that correspond, a relation may be checked on one side. -/
theorem forall₂_iff {β γ : Type} {R Q : β → γ → Prop} {P : γ → Prop} {bs : List β} {cs : List γ}
    (h : List.Forall₂ R bs cs) (hiff : ∀ b c, R b c → (Q b c ↔ P c)) :
    List.Forall₂ Q bs cs ↔ ∀ c ∈ cs, P c := by
  induction h with
  | nil => simp
  | cons hbc _ ih => rw [List.forall₂_cons, ih, hiff _ _ hbc, List.forall_mem_cons]

end RxNetCap.Pdef
