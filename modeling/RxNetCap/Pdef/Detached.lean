/-
What of the parser reads no token.

A *detached* program neither takes nor reads a token, nor the name of the protocol:
it is put together from allocations, changes to the other tables and reports of
errors, with conditions and sequences, and has no loop that could run out of
turns. The heap, the table of constants, the flattening of the structs and the
compilation of the filters are all detached, so what holds of every detached program
(`Detached.blind`, `Detached.tracks`, `Detached.ends`) holds of them.
-/
import RxNetCap.Pdef.Compile

set_option autoImplicit false

namespace RxNetCap.Pdef

open RxNetCap.Ledger

variable {α : Type}

/-- The parser with other tokens ahead, and another name for the protocol. -/
def Parser.dressed (ts : List Token) (last : Token) (name : CStr) (p : Parser) : Parser :=
  { p with toks := ts, last := last, proto := { p.proto with name := name } }

/-- Programs that do the same whatever tokens stand ahead and whatever the
protocol is called. -/
inductive Detached : {α : Type} → ParseM α → Prop where
  | pure {α : Type} (a : α) : Detached (pure a : ParseM α)
  | error {α : Type} (text : String) : Detached (parser_error text : ParseM α)
  | overrun {α : Type} : Detached (throw .overrun : ParseM α)
  | malloc : Detached malloc
  | modify {m : Parser → Parser}
      (h : ∀ p ts last name, m (p.dressed ts last name) = (m p).dressed ts last name) :
      Detached (modify m : ParseM PUnit)
  | get_bind {β : Type} {f : Parser → ParseM β}
      (hsame : ∀ p ts last name, f (p.dressed ts last name) = f p) (hf : ∀ p, Detached (f p)) :
      Detached (get >>= f)
  | bind {α β : Type} {x : ParseM α} {f : α → ParseM β} (hx : Detached x) (hf : ∀ a, Detached (f a)) :
      Detached (x >>= f)
  | ite {α : Type} {c : Prop} [Decidable c] {x y : ParseM α} (hx : Detached x) (hy : Detached y) :
      Detached (if c then x else y)
  | or_free {α : Type} (ptr : ℕ) {x : ParseM α} (hx : Detached x) : Detached (or_free ptr x)

/-! ## The heap and the constants -/

theorem free_detached (t : ℕ) : Detached (free t) := .modify fun _ _ _ _ => rfl

theorem consult_detached (t : ℕ) : Detached (consult t) := .modify fun _ _ _ _ => rfl

theorem calloc_detached (cap : ℕ) : Detached (calloc cap : ParseM (Table α)) :=
  .bind .malloc fun _ => .pure _

theorem reserve_detached (t : Table α) : Detached (reserve t) :=
  .ite (.bind (free_detached _) fun _ => .bind .malloc fun _ => .ite .overrun (.pure _)) (.pure _)

theorem add_constant_detached (name : CStr) (value : ℕ) : Detached (add_constant name value) :=
  .bind .malloc fun _ => .get_bind (fun _ _ _ _ => rfl) fun _ =>
    .bind (consult_detached _) fun _ => .modify fun _ _ _ _ => rfl

theorem find_constant_from_detached (name : CStr) (entries : List ConstantEntry) :
    Detached (find_constant_from name entries) := by
  induction entries with
  | nil => exact .pure _
  | cons entry rest ih => exact .bind (consult_detached _) fun _ => .ite (.pure _) ih

theorem lookup_constant_detached (name : CStr) : Detached (lookup_constant name) :=
  .get_bind (fun _ _ _ _ => rfl) fun _ => .bind (consult_detached _) fun _ =>
    .get_bind (fun _ _ _ _ => rfl) fun _ => find_constant_from_detached _ _

theorem set_endian_detached (default_endian : Endian) (mode : EndianMode) :
    Detached (set_endian default_endian mode) := .modify fun _ _ _ _ => rfl

theorem append_token_detached (out_size : ℕ) (out token : CStr) :
    Detached (append_token out_size out token) :=
  .ite (.bind (.error _) fun _ => .pure _) (.pure _)

/-! ## The flattening -/

theorem parse_nested_field_names_detached (name : CStr) : Detached (parse_nested_field_names name) := by
  have hnames : Detached (do
      let type_name := name.takeWhile (· ≠ '.')
      let field_name := (name.dropWhile (· ≠ '.')).tail
      if type_name.length ≥ 64 then
        parser_error ("Nested type name too long: " ++ String.ofList name)
      if field_name.length ≥ 64 then
        parser_error ("Nested field name too long: " ++ String.ofList name)
      return (type_name, field_name)) := by
    refine .ite (.bind (.error _) fun _ => ?_) ?_
    all_goals exact .ite (.bind (.error _) fun _ => .pure _) (.pure _)
  exact .ite (.bind (.error _) fun _ => hnames) hnames

theorem require_struct_detached (type_name : CStr) : Detached (require_struct type_name) := by
  have hfind : Detached (find_struct_by_name type_name) :=
    .get_bind (fun _ _ _ _ => rfl) fun _ => .bind (consult_detached _) fun _ =>
      .get_bind (fun _ _ _ _ => rfl) fun _ => .bind (consult_detached _) fun _ =>
        .get_bind (fun _ _ _ _ => rfl) fun _ => .pure _
  refine .bind hfind fun found => ?_
  cases found with
  | none => exact .error _
  | some nested => exact .pure _

theorem expand_fields_detached (field_name : CStr) (base_offset : ℕ) (fields : List Field) :
    ∀ expanded : Table Field, Detached (expand_fields field_name base_offset fields expanded) := by
  induction fields with
  | nil => intro expanded; exact .pure _
  | cons src rest ih => intro expanded; exact .bind (reserve_detached _) fun _ => ih _

theorem expand_nested_field_detached (nested_name : CStr) (expanded : Table Field)
    (base_offset : ℕ) : Detached (expand_nested_field nested_name expanded base_offset) :=
  .bind (.or_free _ (parse_nested_field_names_detached _)) fun _ =>
    .bind (.or_free _ (require_struct_detached _)) fun _ =>
      .bind (consult_detached _) fun _ => expand_fields_detached _ _ _ _

theorem expand_elements_detached (f : Field) (type_name field_name : CStr) (offset min_size n : ℕ) :
    ∀ (idx : ℕ) (expanded : Table Field),
      Detached (expand_elements f type_name field_name offset min_size n idx expanded) := by
  induction n with
  | zero => intro idx expanded; exact .pure _
  | succ n ih => intro idx expanded; exact .bind (expand_nested_field_detached _ _ _) fun _ => ih _ _

theorem update_struct_detached (i : ℕ) (g : StructDef → StructDef) : Detached (update_struct i g) :=
  .modify fun _ _ _ _ => rfl

theorem flatten_nested_detached (i : ℕ) (s_name : CStr) (f : Field) (count : ℕ) (x : Expansion) :
    Detached (flatten_nested i s_name f count x) := by
  refine .bind (.or_free _ (parse_nested_field_names_detached _)) fun names => ?_
  refine .bind (.or_free _ (require_struct_detached _)) fun nested => ?_
  have hexpand : Detached (do
      let expanded ← expand_elements f names.1 names.2 x.offset nested.min_size count 0 x.fields
      if nested.has_variable then set_has_variable i true
      return ({ fields := expanded
                offset := u32 (x.offset + nested.min_size * count)
                variable_seen := x.variable_seen || nested.has_variable } : Expansion)) :=
    .bind (expand_elements_detached _ _ _ _ _ _ _ _) fun _ =>
      .ite (.bind (update_struct_detached _ _) fun _ => .pure _) (.pure _)
  exact .ite (.bind (.or_free _ (.error _)) fun _ => hexpand) hexpand

theorem flatten_leaf_detached (i : ℕ) (s_name : CStr) (f : Field) (x : Expansion) :
    Detached (flatten_leaf i s_name f x) := by
  refine .ite (.bind (.or_free _ (.error _)) fun _ => ?_) ?_
  all_goals
    refine .bind (reserve_detached _) fun _ => .ite ?_ (.pure _)
    exact .bind (update_struct_detached _ _) fun _ => .pure _

theorem flatten_field_detached (i : ℕ) (s_name : CStr) (f : Field) (x : Expansion) :
    Detached (flatten_field i s_name f x) := by
  refine .ite (.bind (.or_free _ (.error _)) fun _ => ?_) ?_
  all_goals
    refine .ite (.bind (.or_free _ (.error _)) fun _ => ?_) ?_
    all_goals exact .ite (flatten_nested_detached _ _ _ _ _) (flatten_leaf_detached _ _ _ _)

theorem flatten_fields_detached (i : ℕ) (s_name : CStr) (fields : List Field) :
    ∀ x : Expansion, Detached (flatten_fields i s_name fields x) := by
  induction fields with
  | nil => intro x; exact .pure _
  | cons f rest ih => intro x; exact .bind (flatten_field_detached _ _ _ _) fun _ => ih _

theorem flatten_struct_detached (i : ℕ) (s : StructDef) : Detached (flatten_struct i s) :=
  .get_bind (fun _ _ _ _ => rfl) fun _ => .bind (consult_detached _) fun _ =>
    .bind (calloc_detached _) fun _ => .bind (update_struct_detached _ _) fun _ =>
      .bind (consult_detached _) fun _ => .bind (flatten_fields_detached _ _ _ _) fun _ =>
        .bind (update_struct_detached _ _) fun _ => free_detached _

theorem flatten_from_detached (n : ℕ) : ∀ i : ℕ, Detached (flatten_from n i) := by
  induction n with
  | zero => intro i; exact .pure _
  | succ n ih =>
    intro i
    refine .get_bind (fun _ _ _ _ => rfl) fun p => ?_
    cases p.temp_structs.elems[i]? with
    | none => exact .pure _
    | some s => exact .bind (flatten_struct_detached _ _) fun _ => ih _

theorem flatten_structs_detached : Detached flatten_structs :=
  .get_bind (fun _ _ _ _ => rfl) fun _ => .bind (consult_detached _) fun _ =>
    .get_bind (fun _ _ _ _ => rfl) fun _ => flatten_from_detached _ _

/-! ## The compilation -/

theorem size_conditions_detached (rule_name : CStr) (ptr : ℕ) (conds : List FilterCondition) :
    ∀ (sizes : List ℕ) (total_size : ℕ),
      Detached (size_conditions rule_name ptr conds sizes total_size) := by
  induction conds with
  | nil => intro sizes total_size; exact .pure _
  | cons cond rest ih =>
    intro sizes total_size
    rw [size_conditions]
    cases cond_size cond with
    | none => exact .or_free _ (.error _)
    | some size => exact ih _ _

theorem emit_detached (ins : Instruction) (code : Table Instruction × ℕ) : Detached (emit ins code) :=
  .ite (.bind .overrun fun _ => .pure _) (.pure _)

theorem emit_in_detached (next_start fail_label : ℕ) (values : List ℕ)
    (code : Table Instruction × ℕ) : Detached (emit_in next_start fail_label values code) := by
  fun_induction emit_in next_start fail_label values code with
  | case1 code => exact .pure _
  | case2 code value => exact .bind (emit_detached _ _) fun _ => emit_detached _ _
  | case3 code value rest hrest ih =>
    exact .bind (emit_detached _ _) fun _ => .bind (emit_detached _ _) fun _ =>
      .bind (emit_detached _ _) fun _ => ih _

theorem emit_not_in_detached (next_start fail_label : ℕ) (values : List ℕ) :
    ∀ code : Table Instruction × ℕ, Detached (emit_not_in next_start fail_label values code) := by
  induction values with
  | nil => intro code; exact .pure _
  | cons value rest ih =>
    intro code
    exact .bind (emit_detached _ _) fun _ => .bind (emit_detached _ _) fun _ =>
      .bind (emit_detached _ _) fun _ => ih _

theorem emit_comparison_detached (fail_label : ℕ) (cond : FilterCondition)
    (code : Table Instruction × ℕ) : Detached (emit_comparison fail_label cond code) :=
  .bind (emit_detached _ _) fun _ => emit_detached _ _

theorem emit_condition_detached (field : Field) (cond : FilterCondition)
    (start next_start fail_label : ℕ) (bytecode : Table Instruction) :
    Detached (emit_condition field cond start next_start fail_label bytecode) := by
  refine .bind (emit_detached _ _) fun code => ?_
  cases cond.op with
  | IN => exact .bind (emit_in_detached _ _ _ _) fun _ => .pure _
  | NOT_IN => exact .bind (emit_not_in_detached _ _ _ _) fun _ => .pure _
  | _ => exact .bind (emit_comparison_detached _ _ _) fun _ => .pure _

theorem require_field_detached (s : StructDef) (scratch : Scratch) (bytecode : Table Instruction)
    (path : CStr) : Detached (require_field s scratch bytecode path) := by
  unfold require_field
  cases find_field_by_path s path with
  | some field => exact .pure _
  | none => exact .or_free _ (.or_free _ (.or_free _ (.error _)))

theorem emit_conditions_detached (s : StructDef) (scratch : Scratch) (success_label fail_label : ℕ)
    (conds : List FilterCondition) (starts : List ℕ) (bytecode : Table Instruction) :
    Detached (emit_conditions s scratch success_label fail_label conds starts bytecode) := by
  induction conds generalizing starts bytecode with
  | nil => exact .pure _
  | cons cond conds ih =>
    cases starts with
    | nil => exact .pure _
    | cons start starts =>
      exact .bind (require_field_detached _ _ _ _) fun _ =>
        .bind (emit_condition_detached _ _ _ _ _ _) fun _ => ih _ _

theorem calloc_code_detached (n : ℕ) : Detached (calloc_code n) :=
  .bind .malloc fun _ => .pure _

theorem compile_filter_rule_detached (temp_rule : TempFilterRule) :
    Detached (compile_filter_rule temp_rule) := by
  refine .get_bind (fun _ _ _ _ => rfl) fun _ => .bind (consult_detached _) fun _ => ?_
  refine .bind (consult_detached _) fun _ => .get_bind (fun _ _ _ _ => rfl) fun _ => ?_
  refine .bind (consult_detached _) fun _ => .get_bind (fun _ _ _ _ => rfl) fun p => ?_
  cases target_struct p.temp_structs.elems temp_rule with
  | none => exact .error _
  | some s =>
    refine .bind (consult_detached _) fun _ => .bind .malloc fun _ => ?_
    refine .bind (size_conditions_detached _ _ _ _ _) fun _ => .bind (calloc_code_detached _) fun _ => ?_
    refine .bind .malloc fun _ => .bind (emit_conditions_detached _ _ _ _ _ _ _) fun _ => ?_
    refine .bind (calloc_code_detached _) fun _ => .bind (free_detached _) fun _ => ?_
    exact .bind (free_detached _) fun _ => .pure _

theorem compile_rules_detached (rules : List TempFilterRule) : Detached (compile_rules rules) := by
  induction rules with
  | nil => exact .pure _
  | cons temp_rule rest ih =>
    exact .bind (compile_filter_rule_detached _) fun _ => .bind (.modify fun _ _ _ _ => rfl) fun _ => ih

theorem compile_filter_rules_detached : Detached compile_filter_rules :=
  .get_bind (fun _ _ _ _ => rfl) fun _ => .bind (consult_detached _) fun _ =>
    .get_bind (fun _ _ _ _ => rfl) fun _ => compile_rules_detached _

end RxNetCap.Pdef
