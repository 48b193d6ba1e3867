/-
What the functions of the parser leave alone.

`Moves A B p q` says of a step from `p` to `q` that it took tokens, that it
turned the owned blocks `A` into `B`, and that the protocol and the tables are
what they were. A *quiet* step moves no block: it takes tokens and looks up
constants. Most functions of the parser are quiet, and this file shows it of
each; what the rest do is said in `RxNetCap.Pdef.Blocks`.
-/
import RxNetCap.Pdef.Inversion

set_option autoImplicit false

namespace RxNetCap.Pdef

open RxNetCap.Ledger RxNetCap.ErrState

variable {α β : Type}

/-! ## The relation -/

/-- The blocks the parser holds: its four tables, the constants, the fields of
the structs, the parsed filters, and the compiled ones. -/
def held (p : Parser) : List ℕ :=
  [p.proto.ptr, p.temp_structs.ptr, p.temp_filters.ptr, p.temp_filter_rules.ptr]
    ++ p.proto.constants.map ConstantEntry.ptr
    ++ p.temp_structs.elems.map (·.fields.ptr)
    ++ p.temp_filters.elems.flatMap code_blocks
    ++ p.temp_filter_rules.elems.flatMap condition_blocks

section Held

variable (p : Parser)

/-- The same, as a sum of its parts. -/
theorem held_parts : (held p : Multiset ℕ) =
    ([p.proto.ptr, p.temp_structs.ptr, p.temp_filters.ptr, p.temp_filter_rules.ptr] : List ℕ)
      + (p.proto.constants.map ConstantEntry.ptr : List ℕ)
      + (p.temp_structs.elems.map (·.fields.ptr) : List ℕ)
      + (p.temp_filters.elems.flatMap code_blocks : List ℕ)
      + (p.temp_filter_rules.elems.flatMap condition_blocks : List ℕ) := by
  simp only [held, Multiset.coe_add]

theorem proto_held : p.proto.ptr ∈ held p := by simp [held]

theorem temp_structs_held : p.temp_structs.ptr ∈ held p := by simp [held]

theorem temp_filter_rules_held : p.temp_filter_rules.ptr ∈ held p := by simp [held]

variable {p}

theorem constant_held {e : ConstantEntry} (h : e ∈ p.proto.constants) : e.ptr ∈ held p := by
  have := List.mem_map_of_mem (f := ConstantEntry.ptr) h
  simp only [held, List.mem_append]
  tauto

theorem fields_held {s : StructDef} (h : s ∈ p.temp_structs.elems) : s.fields.ptr ∈ held p := by
  have := List.mem_map_of_mem (f := fun s : StructDef => s.fields.ptr) h
  simp only [held, List.mem_append]
  tauto

theorem conditions_held {rule : TempFilterRule} (h : rule ∈ p.temp_filter_rules.elems) :
    rule.conditions.ptr ∈ held p := by
  have := List.mem_flatMap.mpr ⟨rule, h, show rule.conditions.ptr ∈ condition_blocks rule by
    simp [condition_blocks]⟩
  simp only [held, List.mem_append]
  tauto

end Held

/-- From `p` to `q` tokens were taken and the blocks `A` turned into `B`. -/
structure Moves (A B : Multiset ℕ) (p q : Parser) : Prop where
  frame : q = { p with toks := q.toks, heap := q.heap }
  toks : q.toks <:+ p.toks
  heap : Transfers (held p) p.heap q.heap A B

/-- Tokens were taken and blocks consulted. -/
abbrev Quiet (p q : Parser) : Prop := Moves 0 0 p q

namespace Moves

variable {A B C : Multiset ℕ} {p q r : Parser}

theorem held_eq (h : Moves A B p q) : held q = held p := by
  rw [h.frame]
  rfl

theorem refl (p : Parser) : Moves A A p p where
  frame := rfl
  toks := List.suffix_rfl
  heap := .refl

theorem trans (h1 : Moves A B p q) (h2 : Moves B C q r) : Moves A C p r where
  frame := by
    have h := h2.frame
    rw [h1.frame] at h
    exact h
  toks := h2.toks.trans h1.toks
  heap := h1.heap.trans (h1.held_eq ▸ h2.heap)

/-- What a step does not touch stays owned. -/
theorem add_right (h : Moves A B p q) (X : Multiset ℕ) : Moves (A + X) (B + X) p q where
  frame := h.frame
  toks := h.toks
  heap := h.heap.frame X

/-- A quiet step between two that move blocks. -/
theorem then_quiet (h1 : Moves A B p q) (h2 : Quiet q r) : Moves A B p r := by
  have h := h2.add_right B
  rw [Multiset.zero_add] at h
  exact h1.trans h

theorem after_quiet (h2 : Moves A B q r) (h1 : Quiet p q) : Moves A B p r := by
  have h := h1.add_right A
  rw [Multiset.zero_add] at h
  exact h.trans h2

instance : Std.Refl Quiet := ⟨refl⟩

instance : IsTrans Parser Quiet := ⟨fun _ _ _ h1 h2 => h1.trans h2⟩

/-- Taking a token. -/
theorem tail (p : Parser) : Quiet p { p with toks := p.toks.tail } where
  frame := rfl
  toks := List.tail_suffix _
  heap := .refl

/-- Consulting a block that may be consulted. -/
theorem consult {t : ℕ} (ht : t ∈ held p) : Quiet p { p with heap := p.heap.consult t } where
  frame := rfl
  toks := List.suffix_rfl
  heap := .consult ht

end Moves

/-- What a step owes at its end: the parser still owns all it holds. -/
def Keeps (p q : Parser) : Prop := Transfers [] p.heap q.heap (held p) (held q)

theorem Keeps.trans {p q r : Parser} (h1 : Keeps p q) (h2 : Keeps q r) : Keeps p r :=
  Transfers.trans h1 h2

theorem Moves.keeps {p q : Parser} (h : Quiet p q) : Keeps p q := by
  have hlend := h.heap.lend [] (held p) fun t ht => .inr ht
  rw [Multiset.zero_add] at hlend
  rw [Keeps, h.held_eq]
  exact hlend

/-- A program that is quiet whenever it returns. -/
abbrev IsQuiet (x : ParseM α) : Prop := Preserves Quiet x

/-! ## Tokens -/

theorem parser_error_quiet (text : String) : IsQuiet (parser_error text : ParseM α) :=
  .throw _

theorem current_token_quiet : IsQuiet current_token :=
  .bind .get fun _ => .pure _

theorem turns_quiet : IsQuiet turns :=
  .bind .get fun _ => .pure _

theorem parser_next_token_quiet : IsQuiet parser_next_token := by
  intro p b q h
  rw [parser_next_token_ok] at h
  rw [← h.1]
  exact .tail p

theorem parser_skip_token_quiet : IsQuiet parser_skip_token :=
  .bind parser_next_token_quiet fun _ => .pure _

theorem parser_expect_quiet (type : TokenType) : IsQuiet (parser_expect type) := by
  intro p u q h
  rw [parser_expect_ok] at h
  rw [← h.2.1]
  exact .tail p

theorem parser_require_quiet (type : TokenType) (text : String) :
    IsQuiet (parser_require type text) := by
  intro p u q h
  rw [parser_require_ok] at h
  rw [← h.2]
  exact .refl p

theorem optional_semicolon_quiet : IsQuiet optional_semicolon :=
  .bind current_token_quiet fun _ => .ite parser_skip_token_quiet (.pure _)

/-! ## Constants and operands -/

/-- The walk along a part of the chain consults the entries of that part. -/
theorem find_constant_from_quiet (name : CStr) (entries : List ConstantEntry) :
    ∀ {p q : Parser} {v : Option ℕ}, (∀ e ∈ entries, e ∈ p.proto.constants) →
      find_constant_from name entries p = .ok v q → Quiet p q := by
  induction entries with
  | nil =>
    intro p q v _ h
    rw [find_constant_from, pure_ok] at h
    rw [← h.2]
    exact .refl p
  | cons e rest ih =>
    intro p q v hsub h
    have hconsult : Quiet p { p with heap := p.heap.consult e.ptr } :=
      .consult (constant_held (hsub e List.mem_cons_self))
    simp only [find_constant_from, bind_ok, consult_ok, ite_ok, pure_ok] at h
    obtain ⟨_, _, rfl, ⟨-, -, rfl⟩ | ⟨-, hrest⟩⟩ := h
    · exact hconsult
    · exact hconsult.trans (ih (fun c hc => hsub c (List.mem_cons_of_mem _ hc)) hrest)

theorem lookup_constant_quiet (name : CStr) : IsQuiet (lookup_constant name) := by
  intro p v q h
  simp only [lookup_constant, bind_ok, get_ok, consult_ok] at h
  obtain ⟨_, _, ⟨rfl, rfl⟩, _, _, rfl, _, _, ⟨rfl, rfl⟩, h⟩ := h
  have hproto : Quiet p { p with heap := p.heap.consult p.proto.ptr } :=
    .consult (proto_held p)
  exact hproto.trans (find_constant_from_quiet name _ (fun _ he => he) h)

theorem parse_operand_quiet (text : String) : IsQuiet (parse_operand text) := by
  refine .bind current_token_quiet fun token => .ite ?_ (.ite ?_ (parser_error_quiet text))
  · exact .bind parser_skip_token_quiet fun _ => .pure _
  · refine .bind (lookup_constant_quiet _) fun found => ?_
    cases found with
    | none => exact parser_error_quiet _
    | some value => exact .bind parser_skip_token_quiet fun _ => .pure _

/-! ## Lists of ports, field paths -/

theorem parse_protocol_ports_quiet (n : ℕ) : IsQuiet (parse_protocol_ports n) := by
  induction n with
  | zero => exact .throw _
  | succ n ih =>
    have hport : IsQuiet (do
        parser_require .NUMBER "Expected port number"
        parser_skip_token
        if (← current_token).type = .COMMA then parse_protocol_ports n) :=
      .bind (parser_require_quiet _ _) fun _ => .bind parser_skip_token_quiet fun _ =>
        .bind current_token_quiet fun _ => .ite ih (.pure _)
    refine .bind current_token_quiet fun _ => .ite ?_ ?_
    · exact .bind parser_skip_token_quiet fun _ => hport
    · exact hport

theorem append_token_quiet (out_size : ℕ) (out token : CStr) :
    IsQuiet (append_token out_size out token) :=
  .ite (parser_error_quiet _) (.pure _)

theorem parse_field_indices_quiet (out_size n : ℕ) : ∀ out : CStr,
    IsQuiet (parse_field_indices out_size n out) := by
  induction n with
  | zero => intro out; exact .throw _
  | succ n ih =>
    intro out
    refine .bind current_token_quiet fun _ => .ite ?_ (.pure _)
    refine .bind (append_token_quiet _ _ _) fun _ => .bind parser_skip_token_quiet fun _ => ?_
    refine .bind (parser_require_quiet _ _) fun _ => .bind current_token_quiet fun _ => ?_
    refine .bind (append_token_quiet _ _ _) fun _ => .bind parser_skip_token_quiet fun _ => ?_
    exact .bind (parser_expect_quiet _) fun _ => .bind (append_token_quiet _ _ _) fun _ => ih _

theorem parse_field_steps_quiet (out_size n : ℕ) : ∀ out : CStr,
    IsQuiet (parse_field_steps out_size n out) := by
  induction n with
  | zero => intro out; exact .throw _
  | succ n ih =>
    intro out
    refine .bind current_token_quiet fun _ => .bind (append_token_quiet _ _ _) fun _ => ?_
    refine .bind parser_skip_token_quiet fun _ => .bind turns_quiet fun _ => ?_
    refine .bind (parse_field_indices_quiet _ _ _) fun _ => .bind current_token_quiet fun _ => ?_
    refine .ite ?_ (.pure _)
    refine .bind (append_token_quiet _ _ _) fun _ => .bind parser_skip_token_quiet fun _ => ?_
    exact .bind (parser_require_quiet _ _) fun _ => ih _

theorem parse_field_path_quiet (out_size : ℕ) : IsQuiet (parse_field_path out_size) :=
  .bind (parser_require_quiet _ _) fun _ => .bind turns_quiet fun _ =>
    parse_field_steps_quiet _ _ _

/-! ## Operators and settings of a filter -/

theorem parse_comparison_quiet (cond : FilterCondition) : IsQuiet (parse_comparison cond) := by
  refine .bind current_token_quiet fun token => ?_
  cases comparison_op token.type with
  | none => exact parser_error_quiet _
  | some op => exact .bind parser_skip_token_quiet fun _ => .pure _

theorem parse_not_quiet : IsQuiet parse_not :=
  .bind current_token_quiet fun _ => .ite (.bind parser_skip_token_quiet fun _ => .pure _) (.pure _)

theorem parse_sliding_quiet : IsQuiet parse_sliding := by
  refine .bind parser_skip_token_quiet fun _ => .bind (parser_expect_quiet _) fun _ => ?_
  refine .bind current_token_quiet fun _ => .ite (.ite ?_ (.ite ?_ (parser_error_quiet _)))
    (.ite ?_ (parser_error_quiet _))
  all_goals exact .bind parser_skip_token_quiet fun _ => .pure _

theorem parse_sliding_max_quiet : IsQuiet parse_sliding_max := by
  refine .bind parser_skip_token_quiet fun _ => .bind (parser_expect_quiet _) fun _ => ?_
  refine .bind (parser_require_quiet _ _) fun _ => .bind current_token_quiet fun _ => ?_
  exact .bind parser_skip_token_quiet fun _ => .pure _

/-! ## The fields of a struct -/

theorem parse_bytes_size_quiet : IsQuiet parse_bytes_size := by
  refine .bind current_token_quiet fun _ => .ite ?_ (parser_error_quiet _)
  refine .bind parser_skip_token_quiet fun _ => .bind (parser_require_quiet _ _) fun _ => ?_
  refine .bind current_token_quiet fun _ => .bind parser_skip_token_quiet fun _ => ?_
  exact .bind (parser_expect_quiet _) fun _ => .pure _

theorem parse_array_size_quiet (f : Field) : IsQuiet (parse_array_size f) := by
  refine .bind current_token_quiet fun _ => .ite ?_ (.pure _)
  have hindex : IsQuiet (do
      parser_skip_token
      parser_require .NUMBER "Expected array size after '['"
      let array_size := u32 (← current_token).value
      if array_size = 0 then parser_error "Array size must be greater than 0"
      parser_skip_token
      parser_expect .RBRACKET
      return { f with is_array := true, array_size := array_size }) := by
    refine .bind parser_skip_token_quiet fun _ => .bind (parser_require_quiet _ _) fun _ => ?_
    refine .bind current_token_quiet fun _ => .ite (.bind (parser_error_quiet _) fun _ => ?_) ?_
    all_goals
      refine .bind parser_skip_token_quiet fun _ => ?_
      exact .bind (parser_expect_quiet _) fun _ => .pure _
  exact .ite (.bind (parser_error_quiet _) fun _ => hindex) hindex

theorem parse_struct_field_quiet : IsQuiet parse_struct_field := by
  refine .bind current_token_quiet fun _ => .bind parser_skip_token_quiet fun _ => ?_
  have hname (type : FieldType) (size : ℕ) (type_name : CStr) : IsQuiet (do
      parser_require .IDENTIFIER "Expected field name"
      let field_name := cstr 64 (← current_token).text
      parser_skip_token
      let f ← parse_array_size (name_field type size type_name field_name)
      return { f with endian := (← get).proto.default_endian, is_variable := type = FieldType.VARBYTES }) :=
    .bind (parser_require_quiet _ _) fun _ => .bind current_token_quiet fun _ =>
      .bind parser_skip_token_quiet fun _ => .bind (parse_array_size_quiet _) fun _ =>
        .bind .get fun _ => .pure _
  refine .ite (.bind parse_bytes_size_quiet fun size => ?_) (.bind (.pure _) fun size => ?_)
  all_goals exact hname _ _ _

end RxNetCap.Pdef
