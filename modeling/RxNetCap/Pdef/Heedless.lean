/-
The parser and what the lexer reports.

A token carries its type, text and value, and whether the lexer managed to read
it. The parser goes by the first three; the last is seen in one place only, the
silent failure of `parser_expect`. So a run that returns does the same over the
same tokens with nothing reported, and one that fails aloud fails there too.
-/
import RxNetCap.Pdef.Blind
import RxNetCap.Pdef.ParseString

set_option autoImplicit false

namespace RxNetCap.Pdef

open RxNetCap.Ledger RxNetCap.ErrState

variable {α β : Type}

/-! ## Tokens without their reports -/

/-- The token as if the lexer had reported no error. -/
def Token.unreported (t : Token) : Token := { t with ok := true }

/-- The parser over tokens without reports. -/
def heed (p : Parser) : Parser :=
  { p with toks := p.toks.map Token.unreported, last := p.last.unreported }

theorem heed_current_token (p : Parser) :
    (heed p).current_token = p.current_token.unreported := by
  obtain ⟨toks, last, heap, proto, structs, filters, rules, set⟩ := p
  cases toks <;> rfl

theorem heed_peek_token (p : Parser) : (heed p).peek_token = p.peek_token.unreported := by
  obtain ⟨toks, last, heap, proto, structs, filters, rules, set⟩ := p
  match toks with
  | [] => rfl
  | [_] => rfl
  | _ :: _ :: _ => rfl

theorem heed_tail (p : Parser) :
    { heed p with toks := (heed p).toks.tail } = heed { p with toks := p.toks.tail } := by
  simp only [heed, List.map_tail]

/-- `x` does not go by the reports of the lexer, but for the silent failure. -/
abbrev Heedless (x : ParseM α) : Prop := Follows heed (· = .error .silent) x

theorem Detached.heedless {x : ParseM α} (hx : Detached x) : Heedless x := by
  intro p
  have hrun := hx.blind.follows (p.toks.map Token.unreported) p.last.unreported p
  cases hcase : x p with
  | ok a q =>
    obtain ⟨htoks, hlast⟩ := hx.blind.still hcase
    rw [hcase] at hrun
    have hsame : heed q = q.reading (p.toks.map Token.unreported) p.last.unreported := by
      rw [heed, Parser.reading, htoks, hlast]
    show x (heed p) = .ok a (heed q)
    rw [hsame]
    exact hrun
  | error e q =>
    rw [hcase] at hrun
    exact hrun.imp False.elim id

/-! ## Taking tokens -/

/-- What follows uses the token's type, text and value. -/
theorem current_token_heedless {f : Token → ParseM β} (hsame : ∀ t, f t.unreported = f t)
    (hf : ∀ t, Heedless (f t)) : Heedless (current_token >>= f) := by
  refine .get_bind (fun p => ?_) fun p => hf p.current_token
  show f (heed p).current_token = f p.current_token
  rw [heed_current_token, hsame]

theorem turns_heedless : Heedless turns := by
  intro p
  show EStateM.Result.ok ((p.toks.map Token.unreported).length + 1) (heed p) = _
  rw [List.length_map]

theorem parser_error_heedless (text : String) : Heedless (parser_error text : ParseM α) :=
  .throw _

theorem parser_skip_token_heedless : Heedless parser_skip_token := by
  intro p
  show EStateM.Result.ok () { heed p with toks := (heed p).toks.tail } = _
  rw [heed_tail]

theorem parser_require_heedless (type : TokenType) (text : String) :
    Heedless (parser_require type text) :=
  current_token_heedless (fun _ => rfl) fun _ => .ite (parser_error_heedless _) (.pure _)

theorem optional_semicolon_heedless : Heedless optional_semicolon :=
  current_token_heedless (fun _ => rfl) fun _ => .ite parser_skip_token_heedless (.pure _)

/-- The one place that goes by a report: without it, the failure is gone. -/
theorem parser_expect_heedless (type : TokenType) : Heedless (parser_expect type) := by
  intro p
  have hheed : parser_expect type (heed p) =
      if p.current_token.type ≠ type then
        .error (.error (.expected type p.current_token.type (heed p).toks.length)) (heed p)
      else .ok () (heed { p with toks := p.toks.tail }) := by
    rw [parser_expect_run, heed_current_token, heed_tail, heed_peek_token]
    rfl
  rw [parser_expect_run, hheed]
  by_cases htype : p.current_token.type ≠ type
  · simp only [if_pos htype]
    exact .inr ⟨_, _, rfl⟩
  · simp only [if_neg htype]
    by_cases hok : (!({ p with toks := p.toks.tail } : Parser).peek_token.ok) = true
    · rw [if_pos hok]
      exact .inl rfl
    · rw [if_neg hok]

/-! ## Constants and operands -/

theorem parse_operand_heedless (text : String) : Heedless (parse_operand text) := by
  refine current_token_heedless (fun _ => rfl) fun token =>
    .ite ?_ (.ite ?_ (parser_error_heedless _))
  · exact .bind parser_skip_token_heedless fun _ => .pure _
  · refine .bind (lookup_constant_detached _).heedless fun found => ?_
    cases found with
    | none => exact parser_error_heedless _
    | some value => exact .bind parser_skip_token_heedless fun _ => .pure _

/-! ## `@protocol` and `@const` -/

theorem parse_protocol_name_heedless : Heedless parse_protocol_name := by
  refine current_token_heedless (fun _ => rfl) fun _ => .ite ?_ (parser_error_heedless _)
  exact .bind (.modify fun _ => rfl) fun _ => parser_skip_token_heedless

theorem parse_protocol_endian_heedless : Heedless parse_protocol_endian := by
  refine current_token_heedless (fun _ => rfl) fun token => ?_
  have hset (default_endian : Endian) (mode : EndianMode) : Heedless (do
      set_endian default_endian mode
      parser_skip_token) :=
    .bind (set_endian_detached _ _).heedless fun _ => parser_skip_token_heedless
  have hvalue : Heedless (do
      if token.text = "big".toList then set_endian .BIG .BIG
      else if token.text = "little".toList then set_endian .LITTLE .LITTLE
      else if token.text = "auto".toList then set_endian .BIG .AUTO
      else
        parser_error ("Expected 'big' or 'little' or 'auto' for endian, got '"
          ++ String.ofList token.text ++ "'")
      parser_skip_token) :=
    .ite (hset _ _) (.ite (hset _ _) (.ite (hset _ _)
      (.bind (parser_error_heedless _) fun _ => parser_skip_token_heedless)))
  exact .ite (.bind (parser_error_heedless _) fun _ => hvalue) hvalue

theorem parse_protocol_ports_heedless (n : ℕ) : Heedless (parse_protocol_ports n) := by
  induction n with
  | zero => exact .throw _
  | succ n ih =>
    have hport : Heedless (do
        parser_require .NUMBER "Expected port number"
        parser_skip_token
        if (← current_token).type = .COMMA then parse_protocol_ports n) :=
      .bind (parser_require_heedless _ _) fun _ => .bind parser_skip_token_heedless fun _ =>
        current_token_heedless (fun _ => rfl) fun _ => .ite ih (.pure _)
    refine current_token_heedless (fun _ => rfl) fun _ => .ite ?_ hport
    exact .bind parser_skip_token_heedless fun _ => hport

theorem parse_protocol_entry_heedless : Heedless parse_protocol_entry := by
  refine .bind (parser_require_heedless _ _) fun _ => ?_
  refine current_token_heedless (fun _ => rfl) fun _ => ?_
  refine .bind parser_skip_token_heedless fun _ => .bind (parser_expect_heedless _) fun _ => ?_
  refine .ite ?_ (.ite ?_ (.ite ?_ ?_))
  · exact .bind parse_protocol_name_heedless fun _ => optional_semicolon_heedless
  · exact .bind parse_protocol_endian_heedless fun _ => optional_semicolon_heedless
  · exact .bind turns_heedless fun _ => .bind (parse_protocol_ports_heedless _) fun _ =>
      optional_semicolon_heedless
  · exact .bind (parser_error_heedless _) fun _ => optional_semicolon_heedless

theorem parse_protocol_entries_heedless (n : ℕ) : Heedless (parse_protocol_entries n) := by
  induction n with
  | zero => exact .throw _
  | succ n ih =>
    exact current_token_heedless (fun _ => rfl) fun _ =>
      .ite (.bind parse_protocol_entry_heedless fun _ => ih) (.pure _)

theorem parse_protocol_block_heedless : Heedless parse_protocol_block :=
  .bind (parser_expect_heedless _) fun _ => .bind (parser_expect_heedless _) fun _ =>
    .get_bind (fun _ => rfl) fun _ => .bind (consult_detached _).heedless fun _ =>
      .bind turns_heedless fun _ => .bind (parse_protocol_entries_heedless _) fun _ =>
        parser_expect_heedless _

theorem parse_const_entry_heedless : Heedless parse_const_entry := by
  refine .bind (parser_require_heedless _ _) fun _ => ?_
  refine current_token_heedless (fun _ => rfl) fun _ => ?_
  refine .bind parser_skip_token_heedless fun _ => .bind (parser_expect_heedless _) fun _ => ?_
  refine .bind (parser_require_heedless _ _) fun _ => ?_
  refine current_token_heedless (fun _ => rfl) fun _ => ?_
  exact .bind parser_skip_token_heedless fun _ =>
    .bind (add_constant_detached _ _).heedless fun _ => optional_semicolon_heedless

theorem parse_const_entries_heedless (n : ℕ) : Heedless (parse_const_entries n) := by
  induction n with
  | zero => exact .throw _
  | succ n ih =>
    exact current_token_heedless (fun _ => rfl) fun _ =>
      .ite (.bind parse_const_entry_heedless fun _ => ih) (.pure _)

theorem parse_const_block_heedless : Heedless parse_const_block :=
  .bind (parser_expect_heedless _) fun _ => .bind (parser_expect_heedless _) fun _ =>
    .bind turns_heedless fun _ => .bind (parse_const_entries_heedless _) fun _ =>
      parser_expect_heedless _

/-! ## Field paths -/

theorem parse_field_indices_heedless (out_size n : ℕ) : ∀ out : CStr,
    Heedless (parse_field_indices out_size n out) := by
  induction n with
  | zero => intro out; exact .throw _
  | succ n ih =>
    intro out
    refine current_token_heedless (fun _ => rfl) fun _ => .ite ?_ (.pure _)
    refine .bind (append_token_detached _ _ _).heedless fun _ => ?_
    refine .bind parser_skip_token_heedless fun _ => .bind (parser_require_heedless _ _) fun _ => ?_
    refine current_token_heedless (fun _ => rfl) fun _ => ?_
    refine .bind (append_token_detached _ _ _).heedless fun _ => ?_
    refine .bind parser_skip_token_heedless fun _ => .bind (parser_expect_heedless _) fun _ => ?_
    exact .bind (append_token_detached _ _ _).heedless fun _ => ih _

theorem parse_field_steps_heedless (out_size n : ℕ) : ∀ out : CStr,
    Heedless (parse_field_steps out_size n out) := by
  induction n with
  | zero => intro out; exact .throw _
  | succ n ih =>
    intro out
    refine current_token_heedless (fun _ => rfl) fun _ => ?_
    refine .bind (append_token_detached _ _ _).heedless fun _ => ?_
    refine .bind parser_skip_token_heedless fun _ => .bind turns_heedless fun _ => ?_
    refine .bind (parse_field_indices_heedless _ _ _) fun _ => ?_
    refine current_token_heedless (fun _ => rfl) fun _ => .ite ?_ (.pure _)
    refine .bind (append_token_detached _ _ _).heedless fun _ => ?_
    exact .bind parser_skip_token_heedless fun _ =>
      .bind (parser_require_heedless _ _) fun _ => ih _

theorem parse_field_path_heedless (out_size : ℕ) : Heedless (parse_field_path out_size) :=
  .bind (parser_require_heedless _ _) fun _ => .bind turns_heedless fun _ =>
    parse_field_steps_heedless _ _ _

/-! ## `@filter` -/

theorem parse_value_list_heedless (n : ℕ) : ∀ values : Table ℕ,
    Heedless (parse_value_list n values) := by
  induction n with
  | zero => intro values; exact .throw _
  | succ n ih =>
    intro values
    refine .bind (reserve_detached _).heedless fun _ => .bind (parse_operand_heedless _) fun _ => ?_
    refine current_token_heedless (fun _ => rfl) fun _ =>
      .ite ?_ (.ite ?_ (parser_error_heedless _))
    · exact .bind parser_skip_token_heedless fun _ => ih _
    · exact .bind parser_skip_token_heedless fun _ => .pure _

theorem parse_in_list_heedless (op : ConditionOp) (cond : FilterCondition) :
    Heedless (parse_in_list op cond) := by
  refine .bind parser_skip_token_heedless fun _ => .bind (parser_expect_heedless _) fun _ => ?_
  refine .bind turns_heedless fun _ => .bind (calloc_detached _).heedless fun _ => ?_
  refine .bind (parse_value_list_heedless _ _) fun _ => .ite ?_ (.pure _)
  exact .bind (parser_error_heedless _) fun _ => .pure _

theorem parse_comparison_heedless (cond : FilterCondition) :
    Heedless (parse_comparison cond) := by
  refine current_token_heedless (fun _ => rfl) fun token => ?_
  cases comparison_op token.type with
  | none => exact parser_error_heedless _
  | some op => exact .bind parser_skip_token_heedless fun _ => .pure _

theorem parse_not_heedless : Heedless parse_not :=
  current_token_heedless (fun _ => rfl) fun _ =>
    .ite (.bind parser_skip_token_heedless fun _ => .pure _) (.pure _)

theorem parse_operator_heedless (cond : FilterCondition) : Heedless (parse_operator cond) := by
  refine current_token_heedless (fun _ => rfl) fun _ => .ite ?_ ?_
  · exact .bind parser_skip_token_heedless fun _ => .bind (parse_operand_heedless _) fun _ =>
      .bind (parser_expect_heedless _) fun _ => .pure _
  · exact .bind parse_not_heedless fun _ => current_token_heedless (fun _ => rfl) fun _ =>
      .ite (parse_in_list_heedless _ _) (parse_comparison_heedless _)

theorem parse_condition_heedless : Heedless parse_condition := by
  refine .bind (parser_require_heedless _ _) fun _ => .bind (parse_field_path_heedless _) fun _ => ?_
  refine .bind (parse_operator_heedless _) fun _ => .ite ?_ (.pure _)
  exact .bind (parse_operand_heedless _) fun _ => .pure _

theorem parse_sliding_heedless : Heedless parse_sliding := by
  refine .bind parser_skip_token_heedless fun _ => .bind (parser_expect_heedless _) fun _ => ?_
  refine current_token_heedless (fun _ => rfl) fun _ =>
    .ite (.ite ?_ (.ite ?_ (parser_error_heedless _))) (.ite ?_ (parser_error_heedless _))
  all_goals exact .bind parser_skip_token_heedless fun _ => .pure _

theorem parse_sliding_max_heedless : Heedless parse_sliding_max := by
  refine .bind parser_skip_token_heedless fun _ => .bind (parser_expect_heedless _) fun _ => ?_
  refine .bind (parser_require_heedless _ _) fun _ => ?_
  refine current_token_heedless (fun _ => rfl) fun _ => ?_
  exact .bind parser_skip_token_heedless fun _ => .pure _

theorem parse_filter_item_heedless (rule : TempFilterRule) :
    Heedless (parse_filter_item rule) := by
  refine current_token_heedless (fun _ => rfl) fun _ => .ite ?_ (.ite ?_ ?_)
  · exact .bind parse_sliding_heedless fun _ => .bind optional_semicolon_heedless fun _ => .pure _
  · exact .bind parse_sliding_max_heedless fun _ =>
      .bind optional_semicolon_heedless fun _ => .pure _
  · exact .bind (reserve_detached _).heedless fun _ => .bind parse_condition_heedless fun _ =>
      .bind optional_semicolon_heedless fun _ => .pure _

theorem parse_filter_items_heedless (n : ℕ) : ∀ rule : TempFilterRule,
    Heedless (parse_filter_items n rule) := by
  induction n with
  | zero => intro rule; exact .throw _
  | succ n ih =>
    intro rule
    exact current_token_heedless (fun _ => rfl) fun _ =>
      .ite (.bind (parse_filter_item_heedless _) fun _ => ih _) (.pure _)

theorem parse_filter_block_heedless : Heedless parse_filter_block := by
  refine .bind (parser_expect_heedless _) fun _ => .bind (parser_require_heedless _ _) fun _ => ?_
  refine .get_bind (fun _ => rfl) fun _ => .bind (consult_detached _).heedless fun _ => ?_
  refine .get_bind (fun _ => rfl) fun _ => .get_bind (fun _ => rfl) fun _ => ?_
  refine .ite (.bind (parser_error_heedless _) fun _ => ?_) ?_
  all_goals
    refine current_token_heedless (fun _ => rfl) fun _ => ?_
    refine .bind parser_skip_token_heedless fun _ => .bind (parser_expect_heedless _) fun _ => ?_
    refine .bind (calloc_detached _).heedless fun _ => .bind turns_heedless fun _ => ?_
    refine .bind (parse_filter_items_heedless _ _) fun _ => ?_
    exact .bind (.modify fun _ => rfl) fun _ => parser_expect_heedless _

/-! ## Structs -/

theorem parse_bytes_size_heedless : Heedless parse_bytes_size := by
  refine current_token_heedless (fun _ => rfl) fun _ => .ite ?_ (parser_error_heedless _)
  refine .bind parser_skip_token_heedless fun _ => .bind (parser_require_heedless _ _) fun _ => ?_
  refine current_token_heedless (fun _ => rfl) fun _ => ?_
  exact .bind parser_skip_token_heedless fun _ => .bind (parser_expect_heedless _) fun _ => .pure _

theorem parse_array_size_heedless (f : Field) : Heedless (parse_array_size f) := by
  refine current_token_heedless (fun _ => rfl) fun _ => .ite ?_ (.pure _)
  refine .ite (.bind (parser_error_heedless _) fun _ => ?_) ?_
  all_goals
    refine .bind parser_skip_token_heedless fun _ => .bind (parser_require_heedless _ _) fun _ => ?_
    refine current_token_heedless (fun _ => rfl) fun _ => ?_
    refine .ite (.bind (parser_error_heedless _) fun _ => ?_) ?_
    all_goals
      refine .bind parser_skip_token_heedless fun _ => ?_
      exact .bind (parser_expect_heedless _) fun _ => .pure _

theorem parse_struct_field_heedless : Heedless parse_struct_field := by
  refine current_token_heedless (fun _ => rfl) fun _ => .bind parser_skip_token_heedless fun _ => ?_
  have hname (type : FieldType) (size : ℕ) (type_name : CStr) : Heedless (do
      parser_require .IDENTIFIER "Expected field name"
      let field_name := cstr 64 (← current_token).text
      parser_skip_token
      let f ← parse_array_size (name_field type size type_name field_name)
      return { f with
        endian := (← get).proto.default_endian, is_variable := type = FieldType.VARBYTES }) :=
    .bind (parser_require_heedless _ _) fun _ => current_token_heedless (fun _ => rfl) fun _ =>
      .bind parser_skip_token_heedless fun _ => .bind (parse_array_size_heedless _) fun _ =>
        .get_bind (fun _ => rfl) fun _ => .pure _
  exact .ite (.bind parse_bytes_size_heedless fun _ => hname _ _ _) (hname _ _ _)

theorem parse_struct_fields_heedless (n : ℕ) : ∀ s : StructDef,
    Heedless (parse_struct_fields n s) := by
  induction n with
  | zero => intro s; exact .throw _
  | succ n ih =>
    intro s
    refine current_token_heedless (fun _ => rfl) fun _ => .ite ?_ (.pure _)
    refine .ite (.bind (parser_error_heedless _) fun _ => ?_) ?_
    all_goals
      refine .bind (reserve_detached _).heedless fun _ => .bind parse_struct_field_heedless fun _ => ?_
      exact .bind optional_semicolon_heedless fun _ => ih _

theorem parse_struct_def_heedless : Heedless parse_struct_def := by
  refine .bind (parser_require_heedless _ _) fun _ => ?_
  refine .get_bind (fun _ => rfl) fun _ => .bind (consult_detached _).heedless fun _ => ?_
  refine .get_bind (fun _ => rfl) fun _ => .get_bind (fun _ => rfl) fun _ => ?_
  refine .ite (.bind (.throw _) fun _ => ?_) ?_
  all_goals
    refine current_token_heedless (fun _ => rfl) fun _ => ?_
    refine .bind parser_skip_token_heedless fun _ => .bind (parser_expect_heedless _) fun _ => ?_
    refine .bind (calloc_detached _).heedless fun _ => .bind turns_heedless fun _ => ?_
    refine .bind (parse_struct_fields_heedless _ _) fun _ => ?_
    exact .bind (.modify fun _ => rfl) fun _ => parser_expect_heedless _

/-! ## The text -/

theorem parse_block_heedless : Heedless parse_block := by
  refine current_token_heedless (fun _ => rfl) fun token => ?_
  split
  · exact parse_protocol_block_heedless
  · exact parse_const_block_heedless
  · exact parse_filter_block_heedless
  · exact parse_struct_def_heedless
  · exact parser_error_heedless _

theorem parse_blocks_heedless (n : ℕ) : Heedless (parse_blocks n) := by
  induction n with
  | zero => exact .throw _
  | succ n ih =>
    exact current_token_heedless (fun _ => rfl) fun _ =>
      .ite (.bind parse_block_heedless fun _ => ih) (.pure _)

/-- **A parse that returns does the same over the tokens without their
reports**, and one that fails aloud fails there too. -/
theorem parse_source_heedless : Heedless parse_source :=
  .bind turns_heedless fun _ => .bind (parse_blocks_heedless _) fun _ =>
    .bind flatten_structs_detached.heedless fun _ => compile_filter_rules_detached.heedless

end RxNetCap.Pdef
