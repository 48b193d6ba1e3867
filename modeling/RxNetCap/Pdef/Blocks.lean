/-
What each block of a text adds to the parser.

One lemma for each function that allocates, then one for each of the four kinds
of block: a struct, a filter, a list of constants, the `@protocol` settings.
`BlockStep` collects the four, and everything later that holds of every
accepted text is an induction over the steps of `parse_blocks`.
-/
import RxNetCap.Pdef.Frame
import Mathlib.Algebra.Order.Group.Multiset
import Mathlib.Logic.Relation

set_option autoImplicit false

namespace RxNetCap.Pdef

open RxNetCap.Ledger RxNetCap.ErrState

variable {α : Type}

/-! ## Tables -/

theorem reserve_moves {t t' : Table α} {p q : Parser} (h : reserve t p = .ok t' q) :
    t'.elems = t.elems ∧ Moves {t.ptr} {t'.ptr} p q := by
  rw [reserve_ok] at h
  rcases h with ⟨-, rfl, rfl⟩ | ⟨-, -, rfl, rfl⟩
  · exact ⟨rfl, .refl p⟩
  · refine ⟨rfl, rfl, List.suffix_rfl, ?_⟩
    exact Transfers.trans (B := 0) Transfers.free Transfers.malloc

theorem calloc_moves {cap : ℕ} {t : Table α} {p q : Parser} (h : calloc cap p = .ok t q) :
    t.elems = [] ∧ Moves 0 {t.ptr} p q := by
  rw [calloc_ok] at h
  obtain ⟨rfl, rfl⟩ := h
  exact ⟨rfl, rfl, List.suffix_rfl, Transfers.malloc⟩

/-! ## Conditions -/

/-- The block of a condition's list operand. -/
def value_block (cond : FilterCondition) : Multiset ℕ := (cond.values.map Table.ptr).toList

/-- The list operand is there exactly for the two list operators, and is not
empty. -/
structure WellFormed (cond : FilterCondition) : Prop where
  list_op : cond.values.isSome ↔ cond.op = .IN ∨ cond.op = .NOT_IN
  nonempty : cond.values.isSome → cond.value_list ≠ []

theorem parse_value_list_moves (n : ℕ) : ∀ {values values' : Table ℕ} {p q : Parser},
    parse_value_list n values p = .ok values' q →
    values'.elems ≠ [] ∧ Moves {values.ptr} {values'.ptr} p q := by
  induction n with
  | zero => intro _ _ _ _ h; exact ((throw_ok _ _ _ _).mp h).elim
  | succ n ih =>
    intro values values' p q h
    simp only [parse_value_list, bind_ok, current_token_ok] at h
    obtain ⟨t, p1, hreserve, val, p2, hoperand, token, _, ⟨-, rfl⟩, h⟩ := h
    have hroom := (reserve_moves hreserve).2
    have hval := hroom.then_quiet (parse_operand_quiet _ _ _ _ hoperand)
    simp only [ite_ok, bind_ok, pure_ok, parser_error_ok] at h
    rcases h with ⟨-, _, p3, hskip, hrest⟩ | ⟨-, ⟨-, _, p3, hskip, rfl, rfl⟩ | ⟨-, hfalse⟩⟩
    · have hmoves := hval.then_quiet (parser_skip_token_quiet _ _ _ hskip)
      exact ⟨(ih hrest).1, hmoves.trans (ih hrest).2⟩
    · exact ⟨by simp, hval.then_quiet (parser_skip_token_quiet _ _ _ hskip)⟩
    · exact hfalse.elim

theorem parse_in_list_moves {op : ConditionOp} {cond cond' : FilterCondition} {p q : Parser}
    (h : parse_in_list op cond p = .ok cond' q) :
    ∃ values, cond' = { cond with op := op, values := some values } ∧ values.elems ≠ [] ∧
      Moves 0 {values.ptr} p q := by
  simp only [parse_in_list, bind_ok, turns_ok, ite_ok, parser_error_ok, pure_ok] at h
  obtain ⟨_, p1, hskip, _, p2, hexpect, _, _, ⟨-, rfl⟩, t, p3, hcalloc, values, p4, hlist, h⟩ := h
  have hfirst := (parser_skip_token_quiet _ _ _ hskip).trans
    (parser_expect_quiet _ _ _ _ hexpect)
  have hlist' := parse_value_list_moves _ hlist
  have hmoves := ((calloc_moves hcalloc).2.trans hlist'.2).after_quiet hfirst
  rcases h with ⟨-, _, _, hfalse, -⟩ | ⟨-, rfl, rfl⟩
  · exact hfalse.elim
  · exact ⟨values, rfl, hlist'.1, hmoves⟩

/-- An operator, read into a condition that has no list yet. -/
theorem parse_operator_moves {cond cond' : FilterCondition} {p q : Parser}
    (hnone : cond.values = none) (h : parse_operator cond p = .ok cond' q) :
    WellFormed cond' ∧ cond'.field_name = cond.field_name ∧ Moves 0 (value_block cond') p q := by
  simp only [parse_operator, bind_ok, current_token_ok, ite_ok, pure_ok] at h
  obtain ⟨_, _, ⟨-, rfl⟩, ⟨-, h⟩ | ⟨-, h⟩⟩ := h
  · obtain ⟨_, p1, hskip, mask, p2, hmask, _, p3, hexpect, rfl, rfl⟩ := h
    refine ⟨⟨by simp [hnone], by simp [hnone]⟩, rfl, ?_⟩
    have hquiet := ((parser_skip_token_quiet _ _ _ hskip).trans
      (parse_operand_quiet _ _ _ _ hmask)).trans (parser_expect_quiet _ _ _ _ hexpect)
    simpa [value_block, hnone] using hquiet
  · obtain ⟨negate, p1, hnot, _, _, ⟨-, rfl⟩, ⟨-, hlist⟩ | ⟨-, hcmp⟩⟩ := h
    · obtain ⟨values, rfl, hne, hmoves⟩ := parse_in_list_moves hlist
      refine ⟨⟨?_, fun _ => hne⟩, rfl, hmoves.after_quiet (parse_not_quiet _ _ _ hnot)⟩
      cases negate <;> simp
    · have hquiet := (parse_not_quiet _ _ _ hnot).trans (parse_comparison_quiet _ _ _ _ hcmp)
      simp only [parse_comparison, bind_ok, current_token_ok] at hcmp
      obtain ⟨token, _, ⟨-, rfl⟩, hcmp⟩ := hcmp
      cases hop : comparison_op token.type with
      | none => simp only [hop, parser_error_ok] at hcmp
      | some op =>
        simp only [hop, bind_ok, pure_ok] at hcmp
        obtain ⟨_, _, -, rfl, rfl⟩ := hcmp
        have hplain : op ≠ .IN ∧ op ≠ .NOT_IN := by
          unfold comparison_op at hop
          split at hop <;> first | cases hop; decide | cases hop
        refine ⟨⟨by simp [hnone, hplain], by simp [hnone]⟩, rfl, ?_⟩
        simpa [value_block, hnone] using hquiet

theorem parse_condition_moves {cond : FilterCondition} {p q : Parser}
    (h : parse_condition p = .ok cond q) :
    WellFormed cond ∧ Moves 0 (value_block cond) p q := by
  simp only [parse_condition, bind_ok] at h
  obtain ⟨_, p1, hrequire, path, p2, hpath, cond1, p3, hop, h⟩ := h
  have hfirst := (parser_require_quiet _ _ _ _ _ hrequire).trans
    (parse_field_path_quiet _ _ _ _ hpath)
  obtain ⟨hwf, -, hmoves⟩ := parse_operator_moves rfl hop
  have hmoves := hmoves.after_quiet hfirst
  simp only [ite_ok, bind_ok, pure_ok] at h
  rcases h with ⟨-, value, p4, hvalue, rfl, rfl⟩ | ⟨-, rfl, rfl⟩
  · exact ⟨⟨hwf.list_op, hwf.nonempty⟩, hmoves.then_quiet (parse_operand_quiet _ _ _ _ hvalue)⟩
  · exact ⟨hwf, hmoves⟩

/-! ## Filters -/

/-- The blocks of a parsed filter. -/
def rule_blocks (rule : TempFilterRule) : Multiset ℕ :=
  {rule.conditions.ptr} + (rule.conditions.elems.map value_block).sum

/-- They are the blocks that `parser_cleanup` releases. -/
theorem rule_blocks_eq (rule : TempFilterRule) : rule_blocks rule = condition_blocks rule := by
  have hvalues (conds : List FilterCondition) : (conds.map value_block).sum
      = ((conds.filterMap fun c => c.values.map Table.ptr : List ℕ) : Multiset ℕ) := by
    induction conds with
    | nil => rfl
    | cons cond rest ih =>
      rw [List.map_cons, List.sum_cons, ih, value_block]
      cases hv : cond.values with
      | none => simp [hv]
      | some values => simp [hv]
  rw [rule_blocks, hvalues, condition_blocks, ← Multiset.coe_add, add_comm]
  rfl

/-- A filter under construction may be built on by its name and its settings,
and its conditions are well formed. -/
structure RuleGrows (rule rule' : TempFilterRule) (p q : Parser) : Prop where
  name : rule'.name = rule.name
  conditions : (∀ c ∈ rule.conditions.elems, WellFormed c) →
    ∀ c ∈ rule'.conditions.elems, WellFormed c
  moves : Moves (rule_blocks rule) (rule_blocks rule') p q

theorem RuleGrows.trans {rule rule' rule'' : TempFilterRule} {p q r : Parser}
    (h1 : RuleGrows rule rule' p q) (h2 : RuleGrows rule' rule'' q r) :
    RuleGrows rule rule'' p r where
  name := h2.name.trans h1.name
  conditions := fun h => h2.conditions (h1.conditions h)
  moves := h1.moves.trans h2.moves

/-- A setting changes no condition. -/
theorem RuleGrows.setting {rule rule' : TempFilterRule} {p q : Parser}
    (hname : rule'.name = rule.name) (hconds : rule'.conditions = rule.conditions)
    (hquiet : Quiet p q) : RuleGrows rule rule' p q where
  name := hname
  conditions := by
    rw [hconds]
    exact id
  moves := by
    have h := hquiet.add_right (rule_blocks rule)
    rw [zero_add] at h
    rwa [show rule_blocks rule' = rule_blocks rule by rw [rule_blocks, hconds, ← rule_blocks]]

theorem parse_filter_item_grows {rule rule' : TempFilterRule} {p q : Parser}
    (h : parse_filter_item rule p = .ok rule' q) : RuleGrows rule rule' p q := by
  simp only [parse_filter_item, bind_ok, current_token_ok, ite_ok, pure_ok] at h
  obtain ⟨token, _, ⟨-, rfl⟩, ⟨-, h⟩ | ⟨-, ⟨-, h⟩ | ⟨-, h⟩⟩⟩ := h
  · obtain ⟨sliding, p1, hsliding, _, p2, hsemi, rfl, rfl⟩ := h
    exact .setting rfl rfl ((parse_sliding_quiet _ _ _ hsliding).trans
      (optional_semicolon_quiet _ _ _ hsemi))
  · obtain ⟨sliding_max, p1, hmax, _, p2, hsemi, rfl, rfl⟩ := h
    exact .setting rfl rfl ((parse_sliding_max_quiet _ _ _ hmax).trans
      (optional_semicolon_quiet _ _ _ hsemi))
  · obtain ⟨conditions, p1, hreserve, cond, p2, hcond, _, p3, hsemi, rfl, rfl⟩ := h
    obtain ⟨helems, hroom⟩ := reserve_moves hreserve
    obtain ⟨hwf, hmoves⟩ := parse_condition_moves hcond
    refine ⟨rfl, ?_, ?_⟩
    · intro hall c hc
      simp only [Table.push_elems, helems, List.mem_append, List.mem_singleton] at hc
      rcases hc with hc | rfl
      · exact hall c hc
      · exact hwf
    · -- the table moves first, then the list operand of the new condition comes in
      have h1 := hroom.add_right (rule.conditions.elems.map value_block).sum
      have h2 := (hmoves.then_quiet (optional_semicolon_quiet _ _ _ hsemi)).add_right
        ({conditions.ptr} + (rule.conditions.elems.map value_block).sum)
      rw [zero_add] at h2
      have hsum : rule_blocks { rule with conditions := conditions.push cond }
          = value_block cond
            + ({conditions.ptr} + (rule.conditions.elems.map value_block).sum) := by
        simp only [rule_blocks, Table.push_ptr, Table.push_elems, helems, List.map_append,
          List.sum_append, List.map_cons, List.map_nil, List.sum_cons, List.sum_nil, add_zero]
        ac_rfl
      rw [hsum]
      exact h1.trans h2

theorem parse_filter_items_grows (n : ℕ) : ∀ {rule rule' : TempFilterRule} {p q : Parser},
    parse_filter_items n rule p = .ok rule' q → RuleGrows rule rule' p q := by
  induction n with
  | zero => intro _ _ _ _ h; exact ((throw_ok _ _ _ _).mp h).elim
  | succ n ih =>
    intro rule rule' p q h
    simp only [parse_filter_items, bind_ok, current_token_ok, ite_ok, pure_ok] at h
    obtain ⟨_, _, ⟨-, rfl⟩, ⟨-, rule1, p1, hitem, hrest⟩ | ⟨-, rfl, rfl⟩⟩ := h
    · exact (parse_filter_item_grows hitem).trans (ih hrest)
    · exact .setting rfl rfl (.refl _)

/-- What `parse_filter_block` adds. -/
theorem parse_filter_block_ok {p q : Parser} {u : Unit} (h : parse_filter_block p = .ok u q) :
    ∃ rule, (∀ c ∈ rule.conditions.elems, WellFormed c) ∧
      q = { p with toks := q.toks, heap := q.heap
                   temp_filter_rules := p.temp_filter_rules.push rule } ∧
      q.toks <:+ p.toks.tail ∧ Transfers (held p) p.heap q.heap 0 (rule_blocks rule) := by
  simp only [parse_filter_block, bind_ok, get_ok, consult_ok, current_token_ok, turns_ok,
    modify_ok, ite_ok, parser_error_ok] at h
  obtain ⟨_, p1, hexpect, _, p2, hrequire, _, _, ⟨rfl, rfl⟩, _, _, rfl, _, _, ⟨rfl, rfl⟩, _, _,
    ⟨rfl, rfl⟩, h⟩ := h
  rcases h with ⟨-, _, _, hfalse, -⟩ | ⟨-, _, _, ⟨-, rfl⟩, h⟩
  · exact hfalse.elim
  obtain ⟨_, p3, hskip, _, p4, hbrace, conditions, p5, hcalloc, _, _, ⟨-, rfl⟩, rule, p6, hitems,
    _, _, rfl, hend⟩ := h
  have hgrows := parse_filter_items_grows _ hitems
  obtain ⟨hnil, hcalloc⟩ := calloc_moves hcalloc
  have hblocks (name : CStr) :
      rule_blocks { name := name, conditions := conditions } = {conditions.ptr} := by
    simp [rule_blocks, hnil]
  have hbody := hgrows.moves
  rw [hblocks] at hbody
  rw [parser_expect_ok] at hexpect
  obtain ⟨-, hp1, -⟩ := hexpect
  have hbefore : Quiet p1 p4 :=
    ((parser_require_quiet _ _ _ _ _ hrequire).trans (.consult (proto_held _))).trans
      ((parser_skip_token_quiet _ _ _ hskip).trans (parser_expect_quiet _ _ _ _ hbrace))
  have hin : Moves 0 (rule_blocks rule) p1 p6 := (hcalloc.trans hbody).after_quiet hbefore
  have hout := parser_expect_quiet _ _ _ _ hend
  have hfirst : Quiet p p1 := by rw [← hp1]; exact .tail p
  refine ⟨rule, hgrows.conditions (by simp [hnil]), ?_, ?_, ?_⟩
  · rw [hout.frame, hin.frame, hfirst.frame]
  · have htoks : p1.toks = p.toks.tail := by rw [← hp1]
    rw [← htoks]
    exact hout.toks.trans hin.toks
  · rw [parser_expect_ok] at hend
    rw [← hend.2.1]
    exact (hin.after_quiet hfirst).heap

/-! ## Constants -/

theorem add_constant_ok {name : CStr} {value : ℕ} {p q : Parser} {u : Unit} :
    add_constant name value p = .ok u q ↔
      { p with heap := p.heap.malloc.2.consult p.proto.ptr
               proto := { p.proto with constants :=
                { ptr := p.heap.malloc.1, name := cstr 64 name, value := value }
                  :: p.proto.constants } } = q := by
  simp [add_constant, bind_ok, malloc_ok, get_ok, consult_ok, modify_ok]

/-- From `p` to `q` constants were put in front of the chain. -/
structure AddsConstants (entries : List ConstantEntry) (p q : Parser) : Prop where
  frame : q = { p with toks := q.toks, heap := q.heap
                       proto := { p.proto with constants := entries ++ p.proto.constants } }
  toks : q.toks <:+ p.toks
  heap : Transfers (held p) p.heap q.heap 0 (entries.map ConstantEntry.ptr : List ℕ)

namespace AddsConstants

variable {entries entries' : List ConstantEntry} {p q r : Parser}

theorem of_quiet (h : Quiet p q) : AddsConstants [] p q where
  frame := h.frame
  toks := h.toks
  heap := h.heap

theorem mem_held (h : AddsConstants entries p q) {t : ℕ} (ht : t ∈ held q) :
    t ∈ held p ∨ t ∈ entries.map ConstantEntry.ptr := by
  rw [h.frame] at ht
  simp only [held, List.map_append, List.mem_append] at ht ⊢
  tauto

theorem trans (h1 : AddsConstants entries p q) (h2 : AddsConstants entries' q r) :
    AddsConstants (entries' ++ entries) p r where
  frame := by
    have h := h2.frame
    rw [h1.frame] at h
    rw [List.append_assoc]
    exact h
  toks := h2.toks.trans h1.toks
  heap := by
    -- the second step may consult the constants that the first one added
    have hlend := h2.heap.lend (held p) (entries.map ConstantEntry.ptr : List ℕ)
      (fun t ht => h1.mem_held ht)
    rw [zero_add, Multiset.coe_add, ← List.map_append] at hlend
    exact h1.heap.trans hlend

end AddsConstants

theorem parse_const_entry_adds {p q : Parser} {u : Unit} (h : parse_const_entry p = .ok u q) :
    ∃ entry, AddsConstants [entry] p q := by
  simp only [parse_const_entry, bind_ok, current_token_ok] at h
  obtain ⟨_, p1, hrequire, _, _, ⟨rfl, rfl⟩, _, p2, hskip, _, p3, hassign, _, p4, hnumber, _, _,
    ⟨rfl, rfl⟩, _, p5, hskip', _, p6, hadd, hsemi⟩ := h
  have hbefore : Quiet p p5 :=
    ((parser_require_quiet _ _ _ _ _ hrequire).trans (parser_skip_token_quiet _ _ _ hskip)).trans
      ((parser_expect_quiet _ _ _ _ hassign).trans ((parser_require_quiet _ _ _ _ _ hnumber).trans
        (parser_skip_token_quiet _ _ _ hskip')))
  rw [add_constant_ok] at hadd
  have hentry : AddsConstants [{ ptr := p5.heap.malloc.1, name := cstr 64 (cstr 64 p1.current_token.text)
                                 value := p4.current_token.value }] p5 p6 := by
    rw [← hadd]
    refine ⟨rfl, List.suffix_rfl, ?_⟩
    exact Transfers.trans Transfers.malloc (.consult (proto_held _))
  have h1 := (AddsConstants.of_quiet hbefore).trans hentry
  exact ⟨_, h1.trans (.of_quiet (optional_semicolon_quiet _ _ _ hsemi))⟩

theorem parse_const_entries_adds (n : ℕ) : ∀ {p q : Parser} {u : Unit},
    parse_const_entries n p = .ok u q → ∃ entries, AddsConstants entries p q := by
  induction n with
  | zero => intro _ _ _ h; exact ((throw_ok _ _ _ _).mp h).elim
  | succ n ih =>
    intro p q u h
    simp only [parse_const_entries, bind_ok, current_token_ok, ite_ok, pure_ok] at h
    obtain ⟨_, _, ⟨-, rfl⟩, ⟨-, _, p1, hentry, hrest⟩ | ⟨-, -, rfl⟩⟩ := h
    · obtain ⟨entry, hadd⟩ := parse_const_entry_adds hentry
      obtain ⟨entries, hadds⟩ := ih hrest
      exact ⟨_, hadd.trans hadds⟩
    · exact ⟨[], .of_quiet (.refl p)⟩

/-- What `parse_const_block` adds. -/
theorem parse_const_block_ok {p q : Parser} {u : Unit} (h : parse_const_block p = .ok u q) :
    q.toks <:+ p.toks.tail ∧ ∃ entries, AddsConstants entries p q := by
  simp only [parse_const_block, bind_ok, turns_ok] at h
  obtain ⟨_, p1, hexpect, _, p2, hbrace, _, _, ⟨-, rfl⟩, _, p3, hentries, hend⟩ := h
  have hfirst := parser_expect_quiet _ _ _ _ hexpect
  have hbrace := parser_expect_quiet _ _ _ _ hbrace
  have hend := parser_expect_quiet _ _ _ _ hend
  rw [parser_expect_ok] at hexpect
  obtain ⟨-, hp1, -⟩ := hexpect
  obtain ⟨entries, hadds⟩ := parse_const_entries_adds _ hentries
  refine ⟨?_, _, ((AddsConstants.of_quiet (hfirst.trans hbrace)).trans hadds).trans
    (.of_quiet hend)⟩
  have htoks : p1.toks = p.toks.tail := by rw [← hp1]
  rw [← htoks]
  exact hend.toks.trans (hadds.toks.trans hbrace.toks)

/-! ## The protocol settings -/

/-- The byte order that fields are tagged with under a mode; in automatic mode
it is `BIG`. -/
def mode_endian : EndianMode → Endian
  | .LITTLE => .LITTLE
  | _ => .BIG

/-- The tag of the protocol is the tag of its mode. -/
def SettledEndian (proto : ProtocolDef) : Prop :=
  proto.default_endian = mode_endian proto.endian_mode

/-- From `p` to `q` only settings of the protocol changed. -/
structure Settings (p q : Parser) : Prop where
  frame : q = { p with toks := q.toks, heap := q.heap, endian_set := q.endian_set
                       proto := { p.proto with
                        name := q.proto.name, default_endian := q.proto.default_endian
                        endian_mode := q.proto.endian_mode } }
  settled : SettledEndian p.proto → SettledEndian q.proto
  toks : q.toks <:+ p.toks
  heap : Transfers (held p) p.heap q.heap 0 0

namespace Settings

variable {p q r : Parser}

theorem of_quiet (h : Quiet p q) : Settings p q := by
  have hproto : q.proto = p.proto := by rw [h.frame]
  refine ⟨?_, by rw [hproto]; exact id, h.toks, h.heap⟩
  rw [hproto]
  exact h.frame.trans (by rw [h.frame])

theorem trans (h1 : Settings p q) (h2 : Settings q r) : Settings p r where
  frame := by
    have h := h2.frame
    rw [h1.frame] at h
    exact h
  settled := h2.settled ∘ h1.settled
  toks := h2.toks.trans h1.toks
  heap := by
    have hb : held q = held p := by
      rw [h1.frame]
      rfl
    exact h1.heap.trans (hb ▸ h2.heap)

end Settings

theorem set_endian_settings {de : Endian} {mode : EndianMode} {p q : Parser} {u : Unit}
    (h : set_endian de mode p = .ok u q) (hmode : de = mode_endian mode) : Settings p q := by
  rw [set_endian, modify_ok] at h
  rw [← h]
  exact ⟨rfl, fun _ => hmode, List.suffix_rfl, .refl⟩

theorem parse_protocol_name_settings {p q : Parser} {u : Unit}
    (h : parse_protocol_name p = .ok u q) : Settings p q := by
  simp only [parse_protocol_name, bind_ok, current_token_ok, ite_ok, modify_ok,
    parser_error_ok] at h
  obtain ⟨_, _, ⟨rfl, rfl⟩, ⟨-, _, _, rfl, hskip⟩ | ⟨-, hfalse⟩⟩ := h
  · have hname : Settings p { p with proto := { p.proto with name := cstr 64 p.current_token.text } } :=
      ⟨rfl, id, List.suffix_rfl, .refl⟩
    exact hname.trans (.of_quiet (parser_skip_token_quiet _ _ _ hskip))
  · exact hfalse.elim

theorem parse_protocol_endian_settings {p q : Parser} {u : Unit}
    (h : parse_protocol_endian p = .ok u q) : Settings p q := by
  simp only [parse_protocol_endian, bind_ok, current_token_ok, ite_ok, parser_error_ok] at h
  obtain ⟨_, _, ⟨-, rfl⟩, ⟨-, _, _, hfalse, -⟩ | ⟨-, h⟩⟩ := h
  · exact hfalse.elim
  rcases h with ⟨-, _, p1, hset, hskip⟩ | ⟨-, ⟨-, _, p1, hset, hskip⟩ | ⟨-, ⟨-, _, p1, hset, hskip⟩
    | ⟨-, _, _, hfalse, -⟩⟩⟩
  · exact (set_endian_settings hset rfl).trans (.of_quiet (parser_skip_token_quiet _ _ _ hskip))
  · exact (set_endian_settings hset rfl).trans (.of_quiet (parser_skip_token_quiet _ _ _ hskip))
  · exact (set_endian_settings hset rfl).trans (.of_quiet (parser_skip_token_quiet _ _ _ hskip))
  · exact hfalse.elim

theorem parse_protocol_entry_settings {p q : Parser} {u : Unit}
    (h : parse_protocol_entry p = .ok u q) : Settings p q := by
  simp only [parse_protocol_entry, bind_ok, current_token_ok, turns_ok, ite_ok,
    parser_error_ok] at h
  obtain ⟨_, p1, hrequire, _, _, ⟨-, rfl⟩, _, p2, hskip, _, p3, hassign, h⟩ := h
  have hbefore : Settings p p3 := .of_quiet ((parser_require_quiet _ _ _ _ _ hrequire).trans
    ((parser_skip_token_quiet _ _ _ hskip).trans (parser_expect_quiet _ _ _ _ hassign)))
  have hsemi {p4 : Parser} {w : Unit} (hs : optional_semicolon p4 = .ok w q) : Settings p4 q :=
    .of_quiet (optional_semicolon_quiet _ _ _ hs)
  rcases h with ⟨-, _, p4, hname, hs⟩ | ⟨-, ⟨-, _, p4, hendian, hs⟩ | ⟨-,
    ⟨-, _, _, ⟨-, rfl⟩, _, p4, hports, hs⟩ | ⟨-, _, _, hfalse, -⟩⟩⟩
  · exact hbefore.trans ((parse_protocol_name_settings hname).trans (hsemi hs))
  · exact hbefore.trans ((parse_protocol_endian_settings hendian).trans (hsemi hs))
  · exact hbefore.trans ((Settings.of_quiet (parse_protocol_ports_quiet _ _ _ _ hports)).trans
      (hsemi hs))
  · exact hfalse.elim

theorem parse_protocol_entries_settings (n : ℕ) : ∀ {p q : Parser} {u : Unit},
    parse_protocol_entries n p = .ok u q → Settings p q := by
  induction n with
  | zero => intro _ _ _ h; exact ((throw_ok _ _ _ _).mp h).elim
  | succ n ih =>
    intro p q u h
    simp only [parse_protocol_entries, bind_ok, current_token_ok, ite_ok, pure_ok] at h
    obtain ⟨_, _, ⟨-, rfl⟩, ⟨-, _, p1, hentry, hrest⟩ | ⟨-, -, rfl⟩⟩ := h
    · exact (parse_protocol_entry_settings hentry).trans (ih hrest)
    · exact .of_quiet (.refl p)

/-- What `parse_protocol_block` changes. A text that is over has no block: its
last token repeats, and is not both the keyword and the brace. -/
theorem parse_protocol_block_ok {p q : Parser} {u : Unit} (h : parse_protocol_block p = .ok u q) :
    (∃ t ∈ p.toks.head?, t.type = .PROTOCOL) ∧ q.toks <:+ p.toks.tail ∧ Settings p q := by
  simp only [parse_protocol_block, bind_ok, get_ok, consult_ok, turns_ok] at h
  obtain ⟨_, p1, hexpect, _, p2, hbrace, _, _, ⟨rfl, rfl⟩, _, _, rfl, _, _, ⟨-, rfl⟩, _, p3,
    hentries, hend⟩ := h
  have hfirst := parser_expect_quiet _ _ _ _ hexpect
  have hlbrace := (parser_expect_ok _ _ _ _).mp hbrace
  have hbrace := (parser_expect_quiet _ _ _ _ hbrace).trans (.consult (proto_held _))
  have hend := parser_expect_quiet _ _ _ _ hend
  rw [parser_expect_ok] at hexpect
  obtain ⟨hkeyword, hp1, -⟩ := hexpect
  have hsettings := parse_protocol_entries_settings _ hentries
  refine ⟨?_, ?_, ((Settings.of_quiet (hfirst.trans hbrace)).trans hsettings).trans (.of_quiet hend)⟩
  · cases htoks : p.toks with
    | nil =>
      have hsame : p1.current_token = p.current_token := by
        rw [← hp1]
        simp [Parser.current_token, htoks]
      rw [hsame, hkeyword] at hlbrace
      exact absurd hlbrace.1 (by decide)
    | cons t ts =>
      refine ⟨t, rfl, ?_⟩
      rw [← hkeyword, Parser.current_token, htoks]
      rfl
  have htoks : p1.toks = p.toks.tail := by rw [← hp1]
  rw [← htoks]
  exact hend.toks.trans (hsettings.toks.trans hbrace.toks)

/-! ## Structs -/

/-- A field as the parser leaves it, in a text whose byte order is `e`. -/
structure ParsedField (e : Endian) (f : Field) : Prop where
  endian : f.endian = e
  offset : f.offset = 0
  is_variable : f.is_variable = decide (f.type = .VARBYTES)
  array : f.is_array → f.type = .NESTED
  array_size : 0 < f.array_size ∧ f.array_size < 2 ^ 32
  single : f.is_array = false → f.array_size = 1
  size : f.size < 2 ^ 32
  fixed : f.type ≠ .BYTES → f.type ≠ .STRING → f.size = field_type_size f.type

/-- An array keeps what its field is otherwise. -/
theorem parse_array_size_field {f f' : Field} {p q : Parser}
    (h : parse_array_size f p = .ok f' q) :
    ∃ is_array n, f' = { f with is_array := is_array, array_size := n } ∧
      ((is_array = f.is_array ∧ n = f.array_size) ∨
        (f.type = .NESTED ∧ is_array = true ∧ 0 < n ∧ n < 2 ^ 32)) := by
  simp only [parse_array_size, bind_ok, current_token_ok, ite_ok, pure_ok, parser_error_ok] at h
  obtain ⟨_, _, ⟨-, rfl⟩, ⟨-, h⟩ | ⟨-, rfl, rfl⟩⟩ := h
  · rcases h with ⟨-, _, _, hfalse, -⟩ | ⟨htype, h⟩
    · exact hfalse.elim
    obtain ⟨_, _, -, _, _, -, token, _, ⟨-, rfl⟩, h⟩ := h
    rcases h with ⟨-, _, _, hfalse, -⟩ | ⟨hpos, _, _, -, _, _, -, rfl, rfl⟩
    · exact hfalse.elim
    · exact ⟨true, _, rfl, .inr ⟨not_not.mp htype, rfl, Nat.pos_of_ne_zero hpos, u32_lt _⟩⟩
  · exact ⟨f.is_array, f.array_size, rfl, .inl ⟨rfl, rfl⟩⟩

theorem parse_bytes_size_lt {n : ℕ} {p q : Parser} (h : parse_bytes_size p = .ok n q) :
    n < 2 ^ 32 := by
  simp only [parse_bytes_size, bind_ok, current_token_ok, ite_ok, pure_ok, parser_error_ok] at h
  obtain ⟨_, _, ⟨-, rfl⟩, ⟨-, _, _, -, _, _, -, token, _, ⟨-, rfl⟩, _, _, -, _, _, -, rfl, rfl⟩
    | ⟨-, hfalse⟩⟩ := h
  · exact u32_lt _
  · exact hfalse.elim

/-- What stands before the optional array size. -/
structure NamedField (type : FieldType) (f : Field) : Prop where
  type_eq : f.type = type
  offset : f.offset = 0
  is_array : f.is_array = false
  array_size : f.array_size = 1
  size : f.size < 2 ^ 32
  fixed : type ≠ .BYTES → type ≠ .STRING → f.size = field_type_size type

theorem name_field_named {type : FieldType} {size : ℕ} (type_name field_name : CStr)
    (h : size < 2 ^ 32) : NamedField type (name_field type size type_name field_name) := by
  have hsize : field_type_size type < 2 ^ 32 := by cases type <;> decide
  unfold name_field
  by_cases hn : type = .NESTED
  · subst hn
    rw [if_pos rfl]
    exact ⟨rfl, rfl, rfl, rfl, hsize, fun _ _ => rfl⟩
  · rw [if_neg hn]
    refine ⟨rfl, rfl, rfl, rfl, ?_, fun hb hs => if_neg (by simp [hb, hs])⟩
    by_cases hb : type = .BYTES ∨ type = .STRING
    · simpa [hb] using h
    · simpa [hb] using hsize

theorem parse_struct_field_parsed {f : Field} {p q : Parser}
    (h : parse_struct_field p = .ok f q) : ParsedField p.proto.default_endian f := by
  have hendian : q.proto.default_endian = p.proto.default_endian := by
    rw [(parse_struct_field_quiet _ _ _ h).frame]
  simp only [parse_struct_field, bind_ok, current_token_ok] at h
  obtain ⟨token, _, ⟨-, rfl⟩, _, p1, hskip, h⟩ := h
  obtain ⟨f0, f1, p3, hnamed, harray, rfl⟩ : ∃ f0 f1 p3,
      NamedField (token_to_field_type token.type) f0 ∧ parse_array_size f0 p3 = .ok f1 q ∧
      f = { f1 with endian := q.proto.default_endian
                    is_variable := token_to_field_type token.type = .VARBYTES } := by
    simp only [ite_ok, bind_ok, pure_ok, current_token_ok, get_ok] at h
    rcases h with ⟨-, size, p2, hsize, _, _, -, _, _, ⟨-, rfl⟩, _, p3, -, f1, _, harray, _, _,
      ⟨rfl, rfl⟩, rfl, rfl⟩ | ⟨-, size, p2, ⟨rfl, rfl⟩, _, _, -, _, _, ⟨-, rfl⟩, _, p3, -, f1, _,
      harray, _, _, ⟨rfl, rfl⟩, rfl, rfl⟩
    · exact ⟨_, f1, p3, name_field_named _ _ (parse_bytes_size_lt hsize), harray, rfl⟩
    · exact ⟨_, f1, p3, name_field_named _ _ (Nat.two_pow_pos _), harray, rfl⟩
  obtain ⟨is_array, n, rfl, hn⟩ := parse_array_size_field harray
  have htype := hnamed.type_eq
  rw [hendian]
  refine ⟨rfl, hnamed.offset, ?_, ?_, ?_, ?_, hnamed.size, ?_⟩
  · simp only [htype]
  · intro harr
    rcases hn with ⟨rfl, rfl⟩ | ⟨hnested, -⟩
    · rw [hnamed.is_array] at harr
      cases harr
    · exact hnested
  · rcases hn with ⟨rfl, rfl⟩ | ⟨-, -, hpos, hlt⟩
    · rw [hnamed.array_size]
      decide
    · exact ⟨hpos, hlt⟩
  · intro harr
    rcases hn with ⟨rfl, rfl⟩ | ⟨-, rfl, -⟩
    · exact hnamed.array_size
    · cases harr
  · intro hb hs
    simp only [htype] at hb hs ⊢
    exact hnamed.fixed hb hs

/-- A struct as the parser leaves it. -/
structure ParsedStruct (e : Endian) (s : StructDef) : Prop where
  fields : ∀ f ∈ s.fields.elems, ParsedField e f
  min_size : s.min_size = 0
  has_variable : s.has_variable = s.fields.elems.any Field.is_variable
  variable_last : ∀ f ∈ s.fields.elems.dropLast, f.is_variable = false

theorem parse_struct_fields_ok (n : ℕ) : ∀ {s s' : StructDef} {p q : Parser},
    parse_struct_fields n s p = .ok s' q →
    s'.name = s.name ∧ Moves {s.fields.ptr} {s'.fields.ptr} p q ∧
      (ParsedStruct p.proto.default_endian s → ParsedStruct p.proto.default_endian s') := by
  induction n with
  | zero => intro _ _ _ _ h; exact ((throw_ok _ _ _ _).mp h).elim
  | succ n ih =>
    intro s s' p q h
    simp only [parse_struct_fields, bind_ok, current_token_ok, ite_ok, pure_ok,
      parser_error_ok] at h
    obtain ⟨_, _, ⟨-, rfl⟩, ⟨-, h⟩ | ⟨-, rfl, rfl⟩⟩ := h
    · rcases h with ⟨-, _, _, hfalse, -⟩ | ⟨hvar, fields, p1, hreserve, f, p2, hfield, _, p3,
        hsemi, hrest⟩
      · exact hfalse.elim
      obtain ⟨helems, hroom⟩ := reserve_moves hreserve
      have hfirst : Moves {s.fields.ptr} {fields.ptr} p p3 :=
        (hroom.then_quiet (parse_struct_field_quiet _ _ _ hfield)).then_quiet
          (optional_semicolon_quiet _ _ _ hsemi)
      have hp1 : p1.proto.default_endian = p.proto.default_endian := by rw [hroom.frame]
      have hp3 : p3.proto.default_endian = p.proto.default_endian := by rw [hfirst.frame]
      have hparsed := parse_struct_field_parsed hfield
      rw [hp1] at hparsed
      obtain ⟨hname, hmoves, hkeeps⟩ := ih hrest
      rw [hp3] at hkeeps
      refine ⟨hname, hfirst.trans hmoves, fun hs => hkeeps ⟨?_, hs.min_size, ?_, ?_⟩⟩
      · intro g hg
        simp only [Table.push_elems, helems, List.mem_append, List.mem_singleton] at hg
        rcases hg with hg | rfl
        · exact hs.fields g hg
        · exact hparsed
      · simp [helems, hs.has_variable]
      · -- a field is added only while no field so far is variable
        intro g hg
        simp only [Table.push_elems, helems, List.dropLast_concat] at hg
        have hnone : s.fields.elems.any Field.is_variable = false := by
          rw [← hs.has_variable]
          simpa using hvar
        simpa using List.any_eq_false.mp hnone g hg
    · exact ⟨rfl, .refl p, id⟩

/-- What `parse_struct_def` adds. -/
theorem parse_struct_def_ok {p q : Parser} {u : Unit} (h : parse_struct_def p = .ok u q) :
    ∃ s, ParsedStruct p.proto.default_endian s ∧
      q = { p with toks := q.toks, heap := q.heap, temp_structs := p.temp_structs.push s } ∧
      q.toks <:+ p.toks.tail ∧ Transfers (held p) p.heap q.heap 0 {s.fields.ptr} := by
  simp only [parse_struct_def, bind_ok, get_ok, consult_ok, current_token_ok, turns_ok,
    modify_ok, ite_ok, throw_ok] at h
  obtain ⟨_, p1, hrequire, _, _, ⟨rfl, rfl⟩, _, _, rfl, _, _, ⟨rfl, rfl⟩, _, _, ⟨rfl, rfl⟩, h⟩ := h
  rcases h with ⟨-, _, _, hfalse, -⟩ | ⟨-, _, _, ⟨-, rfl⟩, h⟩
  · exact hfalse.elim
  obtain ⟨_, p3, hskip, _, p4, hbrace, fields, p5, hcalloc, _, _, ⟨-, rfl⟩, s, p6, hfields,
    _, _, rfl, hend⟩ := h
  rw [parser_require_ok] at hrequire
  obtain ⟨-, rfl⟩ := hrequire
  obtain ⟨hnil, hcalloc⟩ := calloc_moves hcalloc
  obtain ⟨hname, hbody, hparsed⟩ := parse_struct_fields_ok _ hfields
  have hconsult : Quiet p { p with heap := p.heap.consult p.proto.ptr } :=
    .consult (proto_held _)
  have hskip' := parser_skip_token_quiet _ _ _ hskip
  have hbefore : Quiet p p4 := (hconsult.trans hskip').trans (parser_expect_quiet _ _ _ _ hbrace)
  have hin : Moves 0 {s.fields.ptr} p p6 := (hcalloc.trans hbody).after_quiet hbefore
  have hout := parser_expect_quiet _ _ _ _ hend
  rw [parser_skip_token_ok] at hskip
  have htoks : p3.toks = p.toks.tail := by rw [← hskip]
  have hp5 : p5.proto.default_endian = p.proto.default_endian := by
    rw [(hcalloc.after_quiet hbefore).frame]
  rw [hp5] at hparsed
  refine ⟨s, hparsed ⟨by simp [hnil], rfl, by simp [hnil], by simp [hnil]⟩, ?_, ?_, ?_⟩
  · rw [hout.frame, hin.frame]
  · rw [← htoks]
    exact hout.toks.trans ((hcalloc.trans hbody).toks.trans
      (parser_expect_quiet _ _ _ _ hbrace).toks)
  · rw [parser_expect_ok] at hend
    rw [← hend.2.1]
    exact hin.heap

/-! ## Any block -/

/-- What one block does, by its kind. -/
inductive BlockKind (p q : Parser) : Prop where
  | protocol (first : ∃ t ∈ p.toks.head?, t.type = .PROTOCOL) (settings : Settings p q)
  | constants (entries : List ConstantEntry) (adds : AddsConstants entries p q)
  | filter (rule : TempFilterRule) (conditions : ∀ c ∈ rule.conditions.elems, WellFormed c)
      (frame : q = { p with toks := q.toks, heap := q.heap
                            temp_filter_rules := p.temp_filter_rules.push rule })
      (heap : Transfers (held p) p.heap q.heap 0 (rule_blocks rule))
  | struct (first : p.current_token.type = .IDENTIFIER) (s : StructDef)
      (parsed : ParsedStruct p.proto.default_endian s)
      (frame : q = { p with toks := q.toks, heap := q.heap
                            temp_structs := p.temp_structs.push s })
      (heap : Transfers (held p) p.heap q.heap 0 {s.fields.ptr})

/-- One block was read. -/
structure BlockStep (p q : Parser) : Prop where
  toks : q.toks <:+ p.toks.tail
  kind : BlockKind p q

theorem BlockStep.last {p q : Parser} (h : BlockStep p q) : q.last = p.last := by
  cases h.kind with
  | protocol _ settings => rw [settings.frame]
  | constants entries adds => rw [adds.frame]
  | filter rule _ frame _ => rw [frame]
  | struct _ s _ frame _ => rw [frame]

theorem parse_block_step {p q : Parser} {u : Unit} (h : parse_block p = .ok u q) :
    BlockStep p q := by
  simp only [parse_block, bind_ok, current_token_ok] at h
  obtain ⟨token, _, ⟨rfl, rfl⟩, h⟩ := h
  generalize htype : p.current_token.type = type at h
  cases type
  case PROTOCOL =>
    obtain ⟨hfirst, htoks, hsettings⟩ := parse_protocol_block_ok h
    exact ⟨htoks, .protocol hfirst hsettings⟩
  case CONST =>
    obtain ⟨htoks, entries, hadds⟩ := parse_const_block_ok h
    exact ⟨htoks, .constants entries hadds⟩
  case FILTER =>
    obtain ⟨rule, hconds, hframe, htoks, hheap⟩ := parse_filter_block_ok h
    exact ⟨htoks, .filter rule hconds hframe hheap⟩
  case IDENTIFIER =>
    obtain ⟨s, hparsed, hframe, htoks, hheap⟩ := parse_struct_def_ok h
    exact ⟨htoks, .struct htype s hparsed hframe hheap⟩
  all_goals exact ((parser_error_ok _ _ _ _).mp h).elim

open Relation in
/-- **A text that parses is read block by block.** -/
theorem parse_blocks_steps (n : ℕ) : ∀ {p q : Parser} {u : Unit}, parse_blocks n p = .ok u q →
    ReflTransGen BlockStep p q ∧ q.current_token.type = .EOF := by
  induction n with
  | zero => intro _ _ _ h; exact ((throw_ok _ _ _ _).mp h).elim
  | succ n ih =>
    intro p q u h
    simp only [parse_blocks, bind_ok, current_token_ok, ite_ok, pure_ok] at h
    obtain ⟨_, _, ⟨rfl, rfl⟩, ⟨-, _, p1, hblock, hrest⟩ | ⟨heof, -, rfl⟩⟩ := h
    · obtain ⟨hsteps, heof⟩ := ih hrest
      exact ⟨.head (parse_block_step hblock) hsteps, heof⟩
    · exact ⟨.refl, not_not.mp heof⟩

end RxNetCap.Pdef
