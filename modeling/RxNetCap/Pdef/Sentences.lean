/-
What the grammar says of a text that it derives.

The readers of `RxNetCap.Pdef.Script` take the words of the grammar apart as they
were put together: an entry is read to its end because no entry starts with a
semicolon or a bracket. So the script of such a text has the structs of its
blocks, and the types of their fields are as the grammar wants them.
-/
import RxNetCap.Pdef.Grammar

set_option autoImplicit false

namespace RxNetCap.Pdef.Grammar

open RxNetCap.Succession
open scoped Computability

/-! ## Texts as the grammar wants them -/

/-- The type of a field: one of the eleven words, or a declared struct. -/
def FieldStart (declared : List CStr) (x : Lexeme) : Prop :=
  x.type ∈ type_words ∨ x.type = .IDENTIFIER ∧ x.token.text ∈ declared

instance (declared : List CStr) (x : Lexeme) : Decidable (FieldStart declared x) := by
  unfold FieldStart
  infer_instance

/-- The names of some structs, as they are written. -/
def struct_names (structs : List StructDecl) : List CStr := structs.map fun s => s.name.token.text

/-- Every field of a script starts as it should. -/
def Typed (declared : List CStr) (structs : List StructDecl) : Prop :=
  ∀ s ∈ structs, ∀ d ∈ s.fields, FieldStart declared d.type

instance (declared : List CStr) (structs : List StructDecl) : Decidable (Typed declared structs) := by
  unfold Typed
  infer_instance

/-- The lexer could read every token; the type of every field is one of the
eleven words or the name of a declared struct, written out in full; no comma
stands behind `=`, and nothing but `in` behind `!`. -/
structure Documented (source : List Char) : Prop where
  readable : ∀ x ∈ lexemes source, x.token.ok = true
  typed : Typed (struct_names (script source).structs) (script source).structs
  signs : (lexemes source).IsChain Beside

/-! ## Blocks are settled -/

variable {kind : Token → Prop} {type : TokenType} {L M : Language Lexeme}

/-- Words of whole blocks. -/
abbrev Whole (L : Language Lexeme) : Prop := Settled (fun x => x.token.ok = true) Beside Plain L

theorem Inside.whole (h : Inside L) : Whole L where
  good w hw x hx := (h.good w hw x hx).1
  chain := h.chain
  last := h.last

theorem tok_whole (h : type ≠ .ASSIGN ∧ type ≠ .NOT) : Whole (tok type) := by
  refine settled_letters ?_
  rintro w ⟨x, rfl, hok, hx⟩
  have hx : x.type = type := hx
  refine ⟨x, rfl, hok, ?_⟩
  rw [Plain, hx]
  exact h

theorem whole_mul (hL : Whole L) (hM : Whole M) : Whole (L * M) := hL.mul Plain.beside hM

theorem block_whole (declared : List CStr) : Whole (block declared) := by
  have hprotocol : Whole protocol_block := whole_mul (whole_mul (whole_mul (tok_whole (by decide))
    (tok_whole (by decide))) (inside_kstar (inside_mul setting_inside semicolon_inside)).whole)
    (tok_whole (by decide))
  have hconst : Whole const_block := whole_mul (whole_mul (whole_mul (tok_whole (by decide))
    (tok_whole (by decide))) (inside_kstar (inside_mul constant_inside semicolon_inside)).whole)
    (tok_whole (by decide))
  have hfilter : Whole filter_block := whole_mul (whole_mul (whole_mul (whole_mul (tok_whole (by decide))
    (tok_whole (by decide))) (tok_whole (by decide)))
    (inside_kstar (inside_mul item_inside semicolon_inside)).whole) (tok_whole (by decide))
  have hstruct : Whole (struct_block declared) := whole_mul (whole_mul (whole_mul (tok_whole (by decide))
    (tok_whole (by decide))) (struct_body_inside declared).whole) (tok_whole (by decide))
  exact .add (.add (.add hprotocol hconst) hfilter) hstruct

/-! ## Reading an entry -/

/-- A token that no entry in front of it can take. -/
def Fresh (x : Lexeme) : Prop := x.type ≠ .SEMICOLON ∧ x.type ≠ .LBRACKET

variable {y : Lexeme} {l : List Lexeme}

/-- The first lexeme of a word of one token. -/
theorem mem_tok {w : List Lexeme} (h : w ∈ tok type) : ∃ x : Lexeme, w = [x] ∧ x.type = type := by
  obtain ⟨x, rfl, -, hx⟩ := h
  exact ⟨x, rfl, hx⟩

theorem mem_assigned {w : List Lexeme} (h : w ∈ assigned L) : ∃ x, ∃ v ∈ L, w = x :: v := by
  obtain ⟨a, ha, v, hv, rfl⟩ := Language.mem_mul.mp h
  obtain ⟨x, rfl, -⟩ := mem_tok ha
  exact ⟨x, v, hv, rfl⟩

theorem mem_operand {w : List Lexeme} (h : w ∈ operand) :
    ∃ x : Lexeme, w = [x] ∧ (x.type = .NUMBER ∨ x.type = .IDENTIFIER) := by
  rcases (Language.mem_add _ _ _).mp h with h | h
  · obtain ⟨x, rfl, hx⟩ := mem_tok h
    exact ⟨x, rfl, .inl hx⟩
  · obtain ⟨x, rfl, hx⟩ := mem_tok h
    exact ⟨x, rfl, .inr hx⟩

theorem pass_semicolon_word {w : List Lexeme} (hw : w ∈ semicolon) (hy : Fresh y) :
    pass_semicolon (w ++ y :: l) = y :: l := by
  rcases (Language.mem_add _ _ _).mp hw with hw | hw
  · rw [(Language.mem_one w).mp hw, List.nil_append, pass_semicolon, if_neg hy.1]
  · obtain ⟨x, rfl, hx⟩ := mem_tok hw
    rw [List.singleton_append, pass_semicolon, if_pos hx]

/-- What stands behind an entry does not start with a bracket. -/
theorem semicolon_no_bracket {w : List Lexeme} (hw : w ∈ semicolon) (hy : Fresh y) :
    ∃ x rest, w ++ y :: l = x :: rest ∧ x.type ≠ .LBRACKET := by
  rcases (Language.mem_add _ _ _).mp hw with hw | hw
  · rw [(Language.mem_one w).mp hw]
    exact ⟨y, l, rfl, hy.2⟩
  · obtain ⟨x, rfl, hx⟩ := mem_tok hw
    exact ⟨x, y :: l, rfl, by rw [hx]; decide⟩

theorem read_const_word {w : List Lexeme} (hw : w ∈ constant * semicolon) (hy : Fresh y) :
    ∃ c, read_const (w ++ y :: l) = some (c, y :: l) := by
  obtain ⟨_, ha, s, hs, rfl⟩ := Language.mem_mul.mp hw
  obtain ⟨_, hname, _, hvalue, rfl⟩ := Language.mem_mul.mp ha
  obtain ⟨name, rfl, -⟩ := mem_tok hname
  obtain ⟨eq, _, hnumber, rfl⟩ := mem_assigned hvalue
  obtain ⟨value, rfl, -⟩ := mem_tok hnumber
  exact ⟨{ name := name, value := value }, congrArg (fun r => some (_, r)) (pass_semicolon_word hs hy)⟩

theorem read_brackets_word {w : List Lexeme} (hw : w ∈ bracketed) :
    ∃ x, read_brackets (w ++ l) = (some x, l) := by
  obtain ⟨_, ha, _, hclose, rfl⟩ := Language.mem_mul.mp hw
  obtain ⟨_, hopen, _, hnumber, rfl⟩ := Language.mem_mul.mp ha
  obtain ⟨first, rfl, hfirst⟩ := mem_tok hopen
  obtain ⟨number, rfl, -⟩ := mem_tok hnumber
  obtain ⟨last, rfl, -⟩ := mem_tok hclose
  exact ⟨number, if_pos hfirst⟩

theorem read_brackets_none {x : Lexeme} (hx : x.type ≠ .LBRACKET) :
    read_brackets (x :: l) = (none, x :: l) := by
  unfold read_brackets
  split
  · rename_i bracket number close rest heq
    cases heq
    exact if_neg hx
  · rfl

/-- A field, once its type and the brackets behind its type and its name are known. -/
theorem read_field_parts {type : Lexeme} (name : Lexeme) {size count : Option Lexeme} {rest after l' : List Lexeme}
    (hsize : (if type.type = .BYTES ∨ type.type = .STRING_TYPE then read_brackets rest else (none, rest))
      = (size, name :: after)) (hcount : read_brackets after = (count, l')) :
    ∃ d, read_field (type :: rest) = some (d, pass_semicolon l') ∧ d.type = type := by
  refine ⟨{ type := type, size := size, name := name, count := count }, ?_, rfl⟩
  simp only [read_field, hsize, hcount]

/-- An entry of a struct: a field, or the last one. -/
def entry (declared : List CStr) : Language Lexeme := (field declared + last_field) * semicolon

theorem read_field_word {declared : List CStr} {w : List Lexeme} (hw : w ∈ entry declared) (hy : Fresh y) :
    ∃ d, read_field (w ++ y :: l) = some (d, y :: l) ∧ FieldStart declared d.type := by
  obtain ⟨a, ha, s, hs, rfl⟩ := Language.mem_mul.mp hw
  obtain ⟨next, after, hnext, hopen⟩ := semicolon_no_bracket (l := l) hs hy
  have hsemi := pass_semicolon_word (l := l) hs hy
  have hnone : read_brackets (s ++ y :: l) = (none, s ++ y :: l) := by
    rw [hnext]
    exact read_brackets_none hopen
  rw [List.append_assoc]
  -- a type word that has no size of its own, and a name
  have hshort : ∀ {type name : Lexeme}, type.type ∈ type_words →
      (type.type ≠ .BYTES ∧ type.type ≠ .STRING_TYPE) →
      ∃ d, read_field ([type] ++ [name] ++ (s ++ y :: l)) = some (d, y :: l) ∧ FieldStart declared d.type := by
    intro type name htype hsized
    obtain ⟨d, hread, rfl⟩ := read_field_parts name (if_neg (not_or.mpr hsized)) hnone
    rw [hsemi] at hread
    exact ⟨d, hread, .inl htype⟩
  have hsizes : ∀ type ∈ scalar_types, type ∈ type_words ∧ type ≠ .BYTES ∧ type ≠ .STRING_TYPE := by decide
  rcases (Language.mem_add _ _ _).mp ha with hfield | hlast
  · rcases (Language.mem_add _ _ _).mp hfield with hunnamed | hnamed
    · rcases (Language.mem_add _ _ _).mp hunnamed with hscalar | hsized
      · obtain ⟨_, ⟨type, rfl, -, htype⟩, _, hname, rfl⟩ := Language.mem_mul.mp hscalar
        obtain ⟨name, rfl, -⟩ := mem_tok hname
        exact hshort (hsizes _ htype).1 (hsizes _ htype).2
      · obtain ⟨_, hfront, _, hname, rfl⟩ := Language.mem_mul.mp hsized
        obtain ⟨t, ht, brackets, hbrackets, rfl⟩ := Language.mem_mul.mp hfront
        obtain ⟨name, rfl, -⟩ := mem_tok hname
        obtain ⟨type, rfl, htype⟩ :
            ∃ type : Lexeme, t = [type] ∧ (type.type = .BYTES ∨ type.type = .STRING_TYPE) := by
          rcases (Language.mem_add _ _ _).mp ht with h | h
          · obtain ⟨x, hx, htype⟩ := mem_tok h
            exact ⟨x, hx, .inl htype⟩
          · obtain ⟨x, hx, htype⟩ := mem_tok h
            exact ⟨x, hx, .inr htype⟩
        obtain ⟨size, hsize⟩ := read_brackets_word (l := name :: (s ++ y :: l)) hbrackets
        obtain ⟨d, hread, rfl⟩ := read_field_parts name ((if_pos htype).trans hsize) hnone
        rw [hsemi] at hread
        refine ⟨d, ?_, .inl ?_⟩
        · rw [← hread]
          simp only [List.append_assoc, List.cons_append, List.nil_append]
        · rcases htype with h | h
          all_goals
            rw [h]
            decide
    · obtain ⟨_, hfront, brackets, hbrackets, rfl⟩ := Language.mem_mul.mp hnamed
      obtain ⟨_, ⟨type, rfl, -, htype, hdeclared⟩, _, hname, rfl⟩ := Language.mem_mul.mp hfront
      obtain ⟨name, rfl, -⟩ := mem_tok hname
      have hcount : ∃ count, read_brackets (brackets ++ (s ++ y :: l)) = (count, s ++ y :: l) := by
        rcases (Language.mem_add _ _ _).mp hbrackets with h | h
        · rw [(Language.mem_one _).mp h]
          exact ⟨none, hnone⟩
        · obtain ⟨x, hx⟩ := read_brackets_word (l := s ++ y :: l) h
          exact ⟨some x, hx⟩
      obtain ⟨count, hcount⟩ := hcount
      have hsized : ¬(type.type = .BYTES ∨ type.type = .STRING_TYPE) := by
        rw [show type.type = .IDENTIFIER from htype]
        decide
      obtain ⟨d, hread, rfl⟩ := read_field_parts name (if_neg hsized) hcount
      rw [hsemi] at hread
      refine ⟨d, ?_, .inr ⟨htype, hdeclared⟩⟩
      rw [← hread]
      simp only [List.cons_append, List.nil_append]
  · obtain ⟨_, ht, _, hname, rfl⟩ := Language.mem_mul.mp hlast
    obtain ⟨type, rfl, htype⟩ := mem_tok ht
    obtain ⟨name, rfl, -⟩ := mem_tok hname
    refine hshort ?_ ?_
    · rw [htype]
      decide
    · rw [htype]
      decide

/-! ## Reading an item -/

theorem path_in_path {w : List Lexeme} (hw : w ∈ path) : ∀ x ∈ w, in_path x = true := by
  have hsettled : Settled (fun x => in_path x = true) (fun _ _ => True) (fun _ => True) path := by
    refine path_settled (fun _ _ _ => trivial) fun x _ hx => ⟨?_, trivial⟩
    have htypes : ∀ type ∈ [TokenType.IDENTIFIER, .DOT, .LBRACKET, .RBRACKET, .NUMBER],
        type = .IDENTIFIER ∨ type = .DOT ∨ type = .LBRACKET ∨ type = .RBRACKET ∨ type = .NUMBER := by
      decide
    rcases htypes _ hx with h | h | h | h | h
    all_goals simp [in_path, h]
  exact hsettled.good w hw

theorem path_begins : Begins (fun x : Lexeme => x.type = .IDENTIFIER ∧
    x.token.text ≠ "sliding".toList ∧ x.token.text ≠ "sliding_max".toList) path := by
  refine .mul (.mul ((one_begins fun _ h => h).mono fun x hx => ⟨hx.1, ?_⟩))
  exact ⟨fun h => hx.2 (by rw [h]; exact List.mem_cons_self),
    fun h => hx.2 (by rw [h]; exact List.mem_cons_of_mem _ List.mem_cons_self)⟩

/-- A list ends at its bracket. -/
theorem behind_value_list {w : List Lexeme} (hw : w ∈ value_list) : behind .RBRACKET (w ++ l) = l := by
  obtain ⟨_, hfront, _, hend, rfl⟩ := Language.mem_mul.mp hw
  obtain ⟨close, rfl, hclose⟩ := mem_tok hend
  have hsettled : ∀ type : TokenType, type ≠ .RBRACKET →
      Settled (fun x : Lexeme => x.type ≠ .RBRACKET) (fun _ _ => True) (fun _ => True) (tok type) := by
    intro type htype
    refine settled_letters ?_
    rintro w ⟨x, rfl, -, hx⟩
    have hx : x.type = type := hx
    exact ⟨x, rfl, hx ▸ htype, trivial⟩
  have hfree : ∀ x y : Lexeme, True → True := fun _ _ _ => trivial
  have hoperand := (hsettled .NUMBER (by decide)).add (hsettled .IDENTIFIER (by decide))
  have hmore := ((hsettled .COMMA (by decide)).mul hfree hoperand).kstar hfree
  have hinside := (((hsettled .LBRACKET (by decide)).mul hfree hoperand).mul hfree hmore).good _ hfront
  rw [behind, List.append_assoc, List.dropWhile_append_of_pos (by simpa using hinside),
    List.singleton_append, List.dropWhile_cons_of_neg (by simp [hclose]), List.tail_cons]

theorem read_values_operand {op : Lexeme} {v : List Lexeme} (hop : op.type ≠ .IN) (hv : v ∈ operand) :
    ∃ values, read_values (op :: (v ++ l)) = some (values, l) := by
  obtain ⟨x, rfl, -⟩ := mem_operand hv
  exact ⟨[x], if_neg hop⟩

/-- An operation starts outside the path, and is read to its end. -/
theorem read_operands_word {w : List Lexeme} (hw : w ∈ operation) :
    ∃ op rest, w = op :: rest ∧ in_path op = false ∧
      ∃ operands, read_operands (w ++ l) = some (operands, l) := by
  have hcompare : ∀ {op : Lexeme} {v : List Lexeme},
      op.type ∈ [TokenType.ASSIGN, .EQ, .NE, .GT, .GE, .LT, .LE] → v ∈ operand →
      in_path op = false ∧ ∃ operands, read_operands (op :: v ++ l) = some (operands, l) := by
    intro op v hop hv
    have hkinds : ∀ type ∈ [TokenType.ASSIGN, .EQ, .NE, .GT, .GE, .LT, .LE],
        (type ≠ .AND ∧ type ≠ .NOT) ∧ type ≠ .IN ∧ type ≠ .IDENTIFIER ∧ type ≠ .DOT ∧
          type ≠ .LBRACKET ∧ type ≠ .RBRACKET ∧ type ≠ .NUMBER := by decide
    obtain ⟨hplain, hin, h1, h2, h3, h4, h5⟩ := hkinds _ hop
    refine ⟨by simp [in_path, h1, h2, h3, h4, h5], ?_⟩
    obtain ⟨values, hvalues⟩ := read_values_operand (l := l) hin hv
    exact ⟨values, (read_operands_plain hplain _).trans hvalues⟩
  rcases (Language.mem_add _ _ _).mp hw with hnolist | hlist
  · rcases (Language.mem_add _ _ _).mp hnolist with hequal | hother
    · rcases (Language.mem_add _ _ _).mp hequal with hmask | hassign
      · -- a mask
        obtain ⟨_, hfront, _, hvalue, rfl⟩ := Language.mem_mul.mp hmask
        obtain ⟨_, hand, _, hbits, rfl⟩ := Language.mem_mul.mp hfront
        obtain ⟨op, rfl, hop⟩ := mem_tok hand
        obtain ⟨mask, rfl, -⟩ := mem_operand hbits
        obtain ⟨eq, _, hassigned, rfl⟩ := mem_assigned hvalue
        obtain ⟨value, rfl, -⟩ := mem_operand hassigned
        exact ⟨op, _, rfl, by simp [in_path, hop], [mask, value], if_pos hop⟩
      · obtain ⟨_, heq, v, hv, rfl⟩ := Language.mem_mul.mp hassign
        obtain ⟨op, rfl, hop⟩ := mem_tok heq
        exact ⟨op, v, rfl, hcompare (by rw [hop]; decide) hv⟩
    · obtain ⟨_, ⟨op, rfl, -, hop⟩, v, hv, rfl⟩ := Language.mem_mul.mp hother
      exact ⟨op, v, rfl, hcompare (List.mem_cons_of_mem _ hop) hv⟩
  · obtain ⟨_, hword, v, hv, rfl⟩ := Language.mem_mul.mp hlist
    have hend : behind .RBRACKET (v ++ l) = l := behind_value_list hv
    rcases (Language.mem_add _ _ _).mp hword with hnot | hin
    · obtain ⟨_, hmark, _, hin, rfl⟩ := Language.mem_mul.mp hnot
      obtain ⟨op, rfl, hop⟩ := mem_tok hmark
      obtain ⟨x, rfl, hx⟩ := mem_tok hin
      refine ⟨op, x :: v, rfl, by simp [in_path, hop], listed (v ++ l).tail, ?_⟩
      exact (read_operands_not hop _).trans ((read_values_list hx _).trans
        (congrArg (fun r => some (_, r)) hend))
    · obtain ⟨x, rfl, hx⟩ := mem_tok hin
      refine ⟨x, v, rfl, by simp [in_path, hx], listed (v ++ l).tail, ?_⟩
      exact (read_operands_plain (by rw [hx]; decide) _).trans ((read_values_list hx _).trans
        (congrArg (fun r => some (_, r)) hend))

theorem read_item_word {w : List Lexeme} (hw : w ∈ item * semicolon) (hy : Fresh y) :
    ∃ i, read_item (w ++ y :: l) = some (i, y :: l) := by
  obtain ⟨a, ha, s, hs, rfl⟩ := Language.mem_mul.mp hw
  have hsemi := pass_semicolon_word (l := l) hs hy
  rcases (Language.mem_add _ _ _).mp ha with hsetting | hcondition
  · rcases (Language.mem_add _ _ _).mp hsetting with hsliding | hmax
    · obtain ⟨_, ⟨name, rfl, -, -, htext⟩, _, hassign, rfl⟩ := Language.mem_mul.mp hsliding
      obtain ⟨eq, v, hv, rfl⟩ := mem_assigned hassign
      obtain ⟨value, rfl⟩ : ∃ value, v = [value] := by
        rcases (Language.mem_add _ _ _).mp hv with ⟨x, hx, -⟩ | ⟨x, hx, -⟩
        · exact ⟨x, hx⟩
        · exact ⟨x, hx⟩
      have htext : name.token.text = "sliding".toList := List.mem_singleton.mp htext
      exact ⟨.sliding value, (if_pos htext).trans (congrArg (fun r => some (_, r)) hsemi)⟩
    · obtain ⟨_, ⟨name, rfl, -, -, htext⟩, _, hassign, rfl⟩ := Language.mem_mul.mp hmax
      obtain ⟨eq, v, hv, rfl⟩ := mem_assigned hassign
      obtain ⟨value, rfl, -⟩ := mem_tok hv
      have htext : name.token.text = "sliding_max".toList := List.mem_singleton.mp htext
      have hother : name.token.text ≠ "sliding".toList := by
        rw [htext]
        decide
      exact ⟨.sliding_max value, (if_neg hother).trans ((if_pos htext).trans
        (congrArg (fun r => some (_, r)) hsemi))⟩
  · obtain ⟨walked, hpath, o, ho, rfl⟩ := Language.mem_mul.mp hcondition
    obtain ⟨first, steps, rfl, -, hsliding, hmax⟩ := path_begins walked hpath
    obtain ⟨op, rest, rfl, hop, operands, hread⟩ := read_operands_word (l := s ++ y :: l) ho
    have hdrop : (first :: steps ++ (op :: rest ++ (s ++ y :: l))).dropWhile in_path
        = op :: rest ++ (s ++ y :: l) := by
      rw [List.dropWhile_append_of_pos (path_in_path hpath), List.cons_append,
        List.dropWhile_cons_of_neg (by simp [hop])]
    refine ⟨.condition ((first :: steps ++ (op :: rest ++ (s ++ y :: l))).takeWhile in_path) operands, ?_⟩
    rw [List.append_assoc, List.append_assoc]
    rw [← hdrop] at hread
    exact (read_item_condition hsliding hmax hread).trans (congrArg (fun r => some (_, r)) hsemi)

/-! ## Reading a block -/

/-- Entries that are read to their ends, one by one, are read up to the brace. -/
theorem read_entries_words {α : Type} {read : List Lexeme → Option (α × List Lexeme)} {E : Language Lexeme}
    {P : α → Prop} {close : Lexeme} (hclose : close.type = .RBRACE)
    (hread : ∀ w ∈ E, ∀ y l, Fresh y → ∃ a, read (w ++ y :: l) = some (a, y :: l) ∧ P a)
    (hbegins : Begins (fun x : Lexeme => Fresh x ∧ x.type ≠ .RBRACE) E) (n : ℕ) :
    ∀ ws : List (List Lexeme), (∀ w ∈ ws, w ∈ E) → ws.flatten.length < n →
      ∃ as, read_entries read n (ws.flatten ++ close :: l) = some (as, l) ∧ ∀ a ∈ as, P a := by
  have hfresh : Fresh close := by
    rw [Fresh, hclose]
    decide
  induction n with
  | zero => exact fun _ _ hn => absurd hn (Nat.not_lt_zero _)
  | succ n ih =>
    intro ws hws hn
    cases ws with
    | nil => exact ⟨[], if_pos hclose, by simp⟩
    | cons w ws =>
      obtain ⟨x, rest, rfl, -, hx⟩ := hbegins w (hws w List.mem_cons_self)
      have hrest : ∀ w ∈ ws, w ∈ E := fun w hw => hws w (List.mem_cons_of_mem _ hw)
      -- what stands behind the first entry: the next one, or the brace
      obtain ⟨y, l', hl', hy⟩ : ∃ y l', ws.flatten ++ close :: l = y :: l' ∧ Fresh y := by
        cases ws with
        | nil => exact ⟨close, l, rfl, hfresh⟩
        | cons w' ws =>
          obtain ⟨y, rest', rfl, hy, -⟩ := hbegins w' (hrest w' List.mem_cons_self)
          exact ⟨y, rest' ++ ws.flatten ++ close :: l, by simp, hy⟩
      obtain ⟨a, hentry, ha⟩ := hread _ (hws _ List.mem_cons_self) y l' hy
      rw [List.flatten_cons, List.length_append, List.length_cons] at hn
      obtain ⟨as, hmore, has⟩ := ih ws hrest (by omega)
      refine ⟨a :: as, ?_, List.forall_mem_cons.mpr ⟨ha, has⟩⟩
      rw [← hl', List.cons_append] at hentry
      rw [List.flatten_cons, List.append_assoc, List.cons_append, read_entries, if_neg hx, hentry]
      simp only [hmore]

/-- The body of a block. -/
theorem read_body_words {α : Type} {read : List Lexeme → Option (α × List Lexeme)} {E : Language Lexeme}
    {P : α → Prop} {close : Lexeme} {body : List Lexeme} (hclose : close.type = .RBRACE)
    (hread : ∀ w ∈ E, ∀ y l, Fresh y → ∃ a, read (w ++ y :: l) = some (a, y :: l) ∧ P a)
    (hbegins : Begins (fun x : Lexeme => Fresh x ∧ x.type ≠ .RBRACE) E) (hbody : body ∈ E∗) :
    ∃ as, read_body read (body ++ close :: l) = some (as, l) ∧ ∀ a ∈ as, P a := by
  obtain ⟨ws, rfl, hws⟩ := Language.mem_kstar.mp hbody
  refine read_entries_words hclose hread hbegins _ ws hws ?_
  rw [List.length_append]
  omega

/-- A word or a type may follow any entry. -/
theorem begins_word : Begins (fun x : Lexeme => Fresh x ∧ x.type ≠ .RBRACE) (tok .IDENTIFIER) := by
  refine tok_begins.mono fun x hx => ?_
  rw [Fresh, hx]
  decide

theorem item_begins : Begins (fun x : Lexeme => Fresh x ∧ x.type ≠ .RBRACE) (item * semicolon) := by
  have hword : ∀ x : Lexeme, x.type = .IDENTIFIER → Fresh x ∧ x.type ≠ .RBRACE := by
    intro x hx
    rw [Fresh, hx]
    decide
  exact .mul (.add (.add (.mul (word_begins.mono fun x hx => hword x hx.1))
    (.mul (word_begins.mono fun x hx => hword x hx.1))) (.mul (path_begins.mono fun x hx => hword x hx.1)))

theorem entry_begins (declared : List CStr) :
    Begins (fun x : Lexeme => Fresh x ∧ x.type ≠ .RBRACE) (entry declared) := by
  have hplain : ∀ type, (type ∈ type_words ∨ type = .IDENTIFIER) →
      (type ≠ .SEMICOLON ∧ type ≠ .LBRACKET) ∧ type ≠ .RBRACE := by
    intro type
    cases type <;> decide
  have hone : ∀ {kind : Token → Prop}, (∀ t, kind t → t.type ∈ type_words ∨ t.type = .IDENTIFIER) →
      Begins (fun x : Lexeme => Fresh x ∧ x.type ≠ .RBRACE) (one kind) :=
    fun h => one_begins fun x hx => hplain _ (h _ hx)
  refine .mul (.add (.add (.add (.mul (hone fun t ht => .inl (List.mem_append_left _ ht)))
    (.mul (.mul (.add (hone ?_) (hone ?_))))) (.mul (.mul (hone fun t ht => .inr ht.1)))) (.mul (hone ?_)))
  all_goals
    rintro t ht
    rw [ht]
    decide

/-- A struct body is a sequence of entries. -/
theorem struct_body_entries {declared : List CStr} {w : List Lexeme} (hw : w ∈ struct_body declared) :
    w ∈ (entry declared)∗ := by
  have hentry : ∀ {a : List Lexeme}, a ∈ field declared * semicolon ∨ a ∈ last_field * semicolon →
      a ∈ entry declared := by
    intro a ha
    rw [entry, add_mul]
    exact (Language.mem_add _ _ _).mpr ha
  obtain ⟨_, hfields, last, hlast, rfl⟩ := Language.mem_mul.mp hw
  obtain ⟨ws, rfl, hws⟩ := Language.mem_kstar.mp hfields
  rcases (Language.mem_add _ _ _).mp hlast with hnone | hlast
  · rw [(Language.mem_one _).mp hnone, List.append_nil]
    exact Language.join_mem_kstar fun w hw => hentry (.inl (hws w hw))
  · refine Language.mem_kstar.mpr ⟨ws ++ [last], by simp, fun w hw => ?_⟩
    rcases List.mem_append.mp hw with hw | hw
    · exact hentry (.inl (hws w hw))
    · exact List.mem_singleton.mp hw ▸ hentry (.inr hlast)

theorem behind_body {body : List Lexeme} {close : Lexeme} (hbody : ∀ x ∈ body, x.type ≠ .RBRACE)
    (hclose : close.type = .RBRACE) : behind .RBRACE (body ++ close :: l) = l := by
  rw [behind, List.dropWhile_append_of_pos (by simpa using hbody),
    List.dropWhile_cons_of_neg (by simp [hclose]), List.tail_cons]

/-- A block that is a word, and a body between braces. -/
theorem mem_braced {w : List Lexeme} (h : w ∈ tok type * tok .LBRACE * L * tok .RBRACE) :
    ∃ first brace body close, w = first :: brace :: (body ++ [close]) ∧ first.type = type ∧
      brace.type = .LBRACE ∧ body ∈ L ∧ close.type = .RBRACE := by
  obtain ⟨_, hfront, _, hend, rfl⟩ := Language.mem_mul.mp h
  obtain ⟨_, hhead, body, hbody, rfl⟩ := Language.mem_mul.mp hfront
  obtain ⟨_, hword, _, hopen, rfl⟩ := Language.mem_mul.mp hhead
  obtain ⟨first, rfl, hfirst⟩ := mem_tok hword
  obtain ⟨brace, rfl, hbrace⟩ := mem_tok hopen
  obtain ⟨close, rfl, hclose⟩ := mem_tok hend
  exact ⟨first, brace, body, close, rfl, hfirst, hbrace, hbody, hclose⟩

/-- **A block is read to its brace**: it adds the struct that it declares, if it
declares one, with fields that start as they should. -/
theorem read_block_word {names : List CStr} {b : List Lexeme} (hb : b ∈ block names) (w : Script)
    (l : List Lexeme) : ∃ w' new, read_block w (b ++ l) = some (w', l) ∧
      w'.structs = w.structs ++ new ∧ struct_names new = (struct_name b).toList ∧ Typed names new := by
  rcases (Language.mem_add _ _ _).mp hb with hother | hstruct
  · rcases (Language.mem_add _ _ _).mp hother with hplain | hfilter
    · rcases (Language.mem_add _ _ _).mp hplain with hprotocol | hconst
      · obtain ⟨first, brace, body, close, rfl, hfirst, hbrace, hbody, hclose⟩ := mem_braced hprotocol
        have hinner := (inside_kstar (inside_mul setting_inside semicolon_inside)).good body hbody
        refine ⟨w, [], ?_, (List.append_nil _).symm, ?_, nofun⟩
        · simp only [List.append_assoc, List.cons_append, List.nil_append, read_block, hfirst]
          rw [behind_skip (by rw [hbrace]; decide), behind_body (fun x hx => (hinner x hx).2) hclose]
        · simp [struct_name, struct_names, hfirst]
      · obtain ⟨first, brace, body, close, rfl, hfirst, -, hbody, hclose⟩ := mem_braced hconst
        obtain ⟨consts, hread, -⟩ := read_body_words (P := fun _ => True) (l := l) hclose
          (fun w hw y l hy => (read_const_word hw hy).imp fun _ h => ⟨h, trivial⟩) begins_word.mul.mul hbody
        refine ⟨{ w with constants := consts.reverse ++ w.constants }, [], ?_,
          (List.append_nil _).symm, ?_, nofun⟩
        · simp only [List.append_assoc, List.cons_append, List.nil_append, read_block, hfirst, List.tail_cons,
            hread, Option.map_some]
        · simp [struct_name, struct_names, hfirst]
    · obtain ⟨_, hfront, _, hend, rfl⟩ := Language.mem_mul.mp hfilter
      obtain ⟨_, hhead, body, hbody, rfl⟩ := Language.mem_mul.mp hfront
      obtain ⟨_, hnamed, _, hopen, rfl⟩ := Language.mem_mul.mp hhead
      obtain ⟨_, hword, _, hname, rfl⟩ := Language.mem_mul.mp hnamed
      obtain ⟨first, rfl, hfirst⟩ := mem_tok hword
      obtain ⟨name, rfl, -⟩ := mem_tok hname
      obtain ⟨brace, rfl, -⟩ := mem_tok hopen
      obtain ⟨close, rfl, hclose⟩ := mem_tok hend
      obtain ⟨items, hread, -⟩ := read_body_words (P := fun _ => True) (l := l) hclose
        (fun w hw y l hy => (read_item_word hw hy).imp fun _ h => ⟨h, trivial⟩) item_begins hbody
      refine ⟨{ w with filters := w.filters ++ [{ name := name, items := items, known := w.constants }] },
        [], ?_, (List.append_nil _).symm, ?_, nofun⟩
      · simp only [List.append_assoc, List.cons_append, List.nil_append, read_block, hfirst, hread,
          Option.map_some]
      · simp [struct_name, struct_names, hfirst]
  · obtain ⟨first, brace, body, close, rfl, hfirst, -, hbody, hclose⟩ := mem_braced hstruct
    obtain ⟨fields, hread, hfields⟩ := read_body_words (P := fun d : FieldDecl => FieldStart names d.type) (l := l) hclose
      (fun w hw y l hy => read_field_word hw hy) (entry_begins names) (struct_body_entries hbody)
    refine ⟨{ w with structs := w.structs ++ [{ name := first, fields := fields }] },
      [{ name := first, fields := fields }], ?_, rfl, ?_, ?_⟩
    · simp only [List.append_assoc, List.cons_append, List.nil_append, read_block, hfirst, List.tail_cons,
        hread, Option.map_some]
    · simp [struct_name, struct_names, hfirst]
    · intro s hs
      rw [List.mem_singleton.mp hs]
      exact hfields

/-! ## Reading a text -/

theorem Typed.append {names : List CStr} {structs structs' : List StructDecl} (h : Typed names structs)
    (h' : Typed names structs') : Typed names (structs ++ structs') :=
  fun s hs => (List.mem_append.mp hs).elim (h s) (h' s)

theorem block_begins (names : List CStr) : Begins (fun _ => True) (block names) := by
  have htok : ∀ {type : TokenType}, Begins (fun _ : Lexeme => True) (tok type) :=
    tok_begins.mono fun _ _ => trivial
  exact .add (.add (.add (.mul (.mul (.mul htok))) (.mul (.mul (.mul htok))))
    (.mul (.mul (.mul (.mul htok))))) (.mul (.mul (.mul htok)))

/-- The script of blocks has the structs that they declare. -/
theorem read_blocks_words {names : List CStr} (n : ℕ) : ∀ (blocks : List (List Lexeme)) (w : Script),
    (∀ b ∈ blocks, b ∈ block names) → blocks.flatten.length < n → ∃ w' new,
      read_blocks n w blocks.flatten = some w' ∧ w'.structs = w.structs ++ new ∧
      struct_names new = declared blocks ∧ Typed names new := by
  induction n with
  | zero => exact fun _ _ _ hn => absurd hn (Nat.not_lt_zero _)
  | succ n ih =>
    intro blocks w hblocks hn
    cases blocks with
    | nil => exact ⟨w, [], rfl, (List.append_nil _).symm, rfl, nofun⟩
    | cons b blocks =>
      obtain ⟨x, rest, hx, -⟩ := block_begins names b (hblocks b List.mem_cons_self)
      obtain ⟨w1, new1, hread, hstructs1, hnames1, htyped1⟩ :=
        read_block_word (hblocks b List.mem_cons_self) w blocks.flatten
      rw [List.flatten_cons, List.length_append, hx, List.length_cons] at hn
      obtain ⟨w', new, hmore, hstructs, hnames, htyped⟩ :=
        ih blocks w1 (fun b hb => hblocks b (List.mem_cons_of_mem _ hb)) (by omega)
      refine ⟨w', new1 ++ new, ?_, by rw [hstructs, hstructs1, List.append_assoc], ?_, htyped1.append htyped⟩
      · rw [List.flatten_cons]
        rw [hx, List.cons_append] at hread ⊢
        rw [read_blocks, hread]
        exact hmore
      · rw [struct_names, List.map_append, ← struct_names, ← struct_names, hnames1, hnames, declared, declared,
          List.filterMap_cons]
        cases struct_name b <;> rfl

/-- The structs of the script are those of the blocks. -/
theorem script_words {names : List CStr} {source : List Char} {blocks : List (List Lexeme)}
    (hl : lexemes source = blocks.flatten) (hblocks : ∀ b ∈ blocks, b ∈ block names) :
    struct_names (script source).structs = declared blocks ∧ Typed names (script source).structs := by
  obtain ⟨w, new, hread, hstructs, hnames, htyped⟩ := read_blocks_words ((lexemes source).length + 1)
    blocks {} hblocks (by rw [hl]; omega)
  rw [← hl] at hread
  rw [script, hread, Option.getD_some, hstructs]
  exact ⟨hnames, htyped⟩

/-- **A text that the grammar derives is documented.** -/
theorem Derives.documented {source : List Char} (h : Derives (lexemes source)) : Documented source := by
  obtain ⟨blocks, hl, hblocks⟩ := h
  obtain ⟨hnames, htyped⟩ := script_words hl hblocks
  have hwhole := (block_whole (declared blocks)).flatten Plain.beside blocks hblocks
  rw [← hl] at hwhole
  refine ⟨hwhole.good _ rfl, ?_, hwhole.chain _ rfl⟩
  rw [hnames]
  exact htyped

end RxNetCap.Pdef.Grammar
