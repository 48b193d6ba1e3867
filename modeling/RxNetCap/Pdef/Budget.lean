/-
What reading a text costs.

The reading is followed with a budget: the number of tokens that are left.
Every turn of every loop spends a token or ends in an error, so no loop runs
out of turns; and a table of the parser that grows gets at most one element for
a token, so its capacity can double as often as it has to while the tokens are
fewer than `2 ^ 31`. The two tables that do not grow are another matter: the
filters are counted before one is added, the structs are not.

Every triple here excludes `Stop.overrun` and `Stop.out_of_turns`, and says
that the table of the compiled filters is still as it was.
-/
import RxNetCap.Pdef.Blocks
import RxNetCap.Pdef.Stream
import RxNetCap.Lib.Triple

set_option autoImplicit false

namespace RxNetCap.Pdef

open RxNetCap.Ledger RxNetCap.ErrState

variable {α β : Type}

/-! ## What is left -/

/-- The three temporary tables. -/
structure Tables where
  structs : Table StructDef
  filters : Table FilterRule
  rules : Table TempFilterRule

def Parser.tables (p : Parser) : Tables where
  structs := p.temp_structs
  filters := p.temp_filters
  rules := p.temp_filter_rules

/-- The parser has the tables `X` and at most `k` tokens ahead. -/
structure Left (X : Tables) (k : ℕ) (p : Parser) : Prop where
  ends : Final p.last
  toks : p.toks.length ≤ k
  tables : p.tables = X
  fits : p.temp_filters.count ≤ p.temp_filters.cap

/-- The same, with the current token in `T`. -/
def Facing (X : Tables) (k : ℕ) (T : Token → Prop) (p : Parser) : Prop :=
  Left X k p ∧ T p.current_token

/-- Of `k` tokens at least `n` have been spent. -/
def Spent (X : Tables) (k n : ℕ) (p : Parser) : Prop := ∃ j, n + j ≤ k ∧ Left X j p

/-- The error is one the source reports, and the compiled filters are within
their table. -/
def Told (e : Stop) (p : Parser) : Prop :=
  (∃ e', e = .error e') ∧ p.temp_filters.count ≤ p.temp_filters.cap

theorem told_heap_free (e : Stop) (p : Parser) (h : Heap) (he : Told e p) :
    Told e { p with heap := h } := he

/-- Nothing of it depends on the heap. -/
def HeapFree (P : Parser → Prop) : Prop := ∀ (p : Parser) (h : Heap), P p → P { p with heap := h }

section Rules

variable {X : Tables} {k : ℕ} {T : Token → Prop} {Q : β → Parser → Prop}

theorem Left.mono {j : ℕ} {p : Parser} (h : Left X j p) (hjk : j ≤ k) : Left X k p :=
  ⟨h.ends, h.toks.trans hjk, h.tables, h.fits⟩

theorem Left.spent {j n : ℕ} {p : Parser} (h : Left X j p) (hjk : n + j ≤ k) : Spent X k n p :=
  ⟨j, hjk, h⟩

theorem Left.heapFree : HeapFree (Left X k) := fun _ _ h => ⟨h.ends, h.toks, h.tables, h.fits⟩

theorem Facing.congr {p q : Parser} (h : Facing X k T p) (htoks : q.toks = p.toks)
    (hlast : q.last = p.last) (htables : q.tables = p.tables) : Facing X k T q := by
  have hfilters : q.temp_filters = p.temp_filters := congrArg Tables.filters htables
  refine ⟨⟨?_, ?_, ?_, ?_⟩, ?_⟩
  · rw [hlast]
    exact h.1.ends
  · rw [htoks]
    exact h.1.toks
  · rw [htables]
    exact h.1.tables
  · rw [hfilters]
    exact h.1.fits
  · rw [Parser.current_token, htoks, hlast]
    exact h.2

theorem Spent.mono {j m n : ℕ} {p : Parser} (h : Spent X j m p) (hjk : n + j ≤ k + m) :
    Spent X k n p := by
  obtain ⟨i, hi, hleft⟩ := h
  exact ⟨i, by omega, hleft⟩

theorem Facing.heapFree : HeapFree (Facing X k T) := fun p h hp => ⟨Left.heapFree p h hp.1, hp.2⟩

/-- A current token that is not final is one of those ahead. -/
theorem Facing.step {p : Parser} (hT : ∀ t, T t → ¬ Final t) (h : Facing X k T p) :
    ∃ j, j + 1 = k ∧ Left X j { p with toks := p.toks.tail } := by
  have hne : p.toks ≠ [] := by
    intro hnil
    have hcurrent : p.current_token = p.last := by rw [Parser.current_token, hnil]; rfl
    refine hT _ h.2 ?_
    rw [hcurrent]
    exact h.1.ends
  have hpos : 0 < p.toks.length := List.length_pos_iff.mpr hne
  have hle := h.1.toks
  refine ⟨k - 1, by omega, h.1.ends, ?_, h.1.tables, h.1.fits⟩
  rw [List.length_tail]
  omega

theorem tell {P : Parser → Prop} (hP : ∀ p, P p → p.temp_filters.count ≤ p.temp_filters.cap)
    (text : String) {R : α → Parser → Prop} : Triple P (parser_error text : ParseM α) R Told :=
  .throw fun p hp => ⟨⟨_, rfl⟩, hP p hp⟩

theorem Left.tell (text : String) {R : α → Parser → Prop} :
    Triple (Left X k) (parser_error text : ParseM α) R Told := Pdef.tell (fun _ h => h.fits) text

theorem Facing.tell (text : String) {R : α → Parser → Prop} :
    Triple (Facing X k T) (parser_error text : ParseM α) R Told :=
  Pdef.tell (fun _ h => h.1.fits) text

theorem tell_then {P : Parser → Prop} (hP : ∀ p, P p → p.temp_filters.count ≤ p.temp_filters.cap)
    (text : String) {f : α → ParseM β} : Triple P (parser_error text >>= f) Q Told :=
  .bind (Q := fun _ _ => False) (tell hP text) fun _ _ => False.elim

theorem Left.token {f : Token → ParseM β}
    (h : ∀ token, Triple (Facing X k (· = token)) (f token) Q Told) :
    Triple (Left X k) (current_token >>= f) Q Told := by
  intro p hp
  exact h p.current_token p ⟨hp, rfl⟩

theorem Facing.token {f : Token → ParseM β}
    (h : ∀ token, T token → Triple (Facing X k (· = token)) (f token) Q Told) :
    Triple (Facing X k T) (current_token >>= f) Q Told := by
  intro p hp
  exact h p.current_token hp.2 p ⟨hp.1, rfl⟩

theorem Left.require {type : TokenType} {text : String} {f : Unit → ParseM β}
    (h : Triple (Facing X k (·.type = type)) (f ()) Q Told) :
    Triple (Left X k) (parser_require type text >>= f) Q Told := by
  refine .bind (Q := fun _ => Facing X k (·.type = type)) (Left.token fun token => ?_) fun _ => h
  refine .ite (fun _ => Facing.tell _) fun htype => .pure ?_
  rintro p ⟨hleft, rfl⟩
  exact ⟨hleft, not_not.mp htype⟩

theorem Facing.take {f : Unit → ParseM β} (hT : ∀ t, T t → ¬ Final t)
    (h : ∀ j, j + 1 = k → Triple (Left X j) (f ()) Q Told) :
    Triple (Facing X k T) (parser_skip_token >>= f) Q Told := by
  refine .bind (Q := fun _ q => ∃ j, j + 1 = k ∧ Left X j q) ?_ fun _ => .of_exists h
  intro p hp
  exact hp.step hT

theorem Facing.last (hT : ∀ t, T t → ¬ Final t) :
    Triple (Facing X k T) parser_skip_token (fun _ => Spent X k 1) Told := by
  intro p hp
  obtain ⟨j, hj, hleft⟩ := hp.step hT
  exact hleft.spent (by omega)

/-- Take the current token, which may be the one that repeats. -/
theorem Facing.skip : Triple (Facing X k T) parser_skip_token (fun _ => Left X k) Told := by
  intro p hp
  exact ⟨hp.1.ends, (List.tail_sublist _).length_le.trans hp.1.toks, hp.1.tables, hp.1.fits⟩

theorem Left.expect_meets {type : TokenType} (htype : type ≠ .EOF ∧ type ≠ .ERROR) :
    Triple (Left X k) (parser_expect type) (fun _ q => ∃ j, j + 1 = k ∧ Left X j q) Told := by
  intro p hp
  rw [parser_expect_run]
  by_cases hcase : p.current_token.type ≠ type
  · rw [if_pos hcase]
    exact ⟨⟨_, rfl⟩, hp.fits⟩
  · rw [if_neg hcase]
    cases hok : ({ p with toks := p.toks.tail } : Parser).peek_token.ok with
    | true =>
      exact Facing.step (T := fun t => t.type = type) (fun _ => not_final htype) ⟨hp, not_not.mp hcase⟩
    | false => exact ⟨⟨_, rfl⟩, hp.fits⟩

theorem Left.expect {type : TokenType} (htype : type ≠ .EOF ∧ type ≠ .ERROR) {f : Unit → ParseM β}
    (h : ∀ j, j + 1 = k → Triple (Left X j) (f ()) Q Told) :
    Triple (Left X k) (parser_expect type >>= f) Q Told :=
  .bind (Left.expect_meets htype) fun _ => .of_exists h

theorem optional_semicolon_spent :
    Triple (Left X k) optional_semicolon (fun _ => Left X k) Told := by
  refine Left.token fun token => .ite (fun _ => ?_) fun _ => .pure fun p hp => hp.1
  exact Facing.skip

/-- `turns` is enough for the tokens that are left. -/
theorem Left.turns {f : ℕ → ParseM β}
    (h : ∀ n j, j ≤ k → j < n → Triple (Left X j) (f n) Q Told) :
    Triple (Left X k) (turns >>= f) Q Told := by
  intro p hp
  exact h _ p.toks.length hp.toks (Nat.lt_succ_self _) p ⟨hp.ends, le_rfl, hp.tables, hp.fits⟩

theorem Facing.turns {f : ℕ → ParseM β}
    (h : ∀ n j, j ≤ k → j < n → Triple (Facing X j T) (f n) Q Told) :
    Triple (Facing X k T) (turns >>= f) Q Told := by
  intro p hp
  exact h _ p.toks.length hp.1.toks (Nat.lt_succ_self _) p
    ⟨⟨hp.1.ends, le_rfl, hp.1.tables, hp.1.fits⟩, hp.2⟩

end Rules

/-! ## The heap and the tables -/

section Heap

variable {P : Parser → Prop} (hP : HeapFree P) {Q : β → Parser → Prop} {E : Stop → Parser → Prop}

include hP

theorem HeapFree.malloc : Triple P malloc (fun _ => P) E := fun p hp => hP p _ hp

theorem HeapFree.free (t : ℕ) : Triple P (free t) (fun _ => P) E := fun p hp => hP p _ hp

theorem HeapFree.consult (t : ℕ) : Triple P (consult t) (fun _ => P) E := fun p hp => hP p _ hp

theorem HeapFree.calloc (cap : ℕ) :
    Triple P (calloc cap : ParseM (Table α)) (fun t p => (t.elems = [] ∧ t.cap = cap) ∧ P p) E :=
  .bind hP.malloc fun _ => .pure fun _ hp => ⟨⟨rfl, rfl⟩, hp⟩

/-- A table that is not larger than it should be, and can grow. -/
structure Grows (t : Table α) : Prop where
  pos : 0 < t.cap
  fits : t.count ≤ t.cap

omit hP in
theorem Grows.push {t : Table α} (h : t.count < t.cap) (x : α) : Grows (t.push x) where
  pos := (Nat.zero_le _).trans_lt h
  fits := by
    rw [Table.count, Table.push_elems, List.length_append]
    exact h

/-- Below `2 ^ 31` elements the doubled capacity is larger than the one before. -/
theorem HeapFree.reserve {t : Table α} (ht : Grows t) (hsmall : t.count < 2 ^ 31) :
    Triple P (reserve t) (fun t' p => (t'.elems = t.elems ∧ t'.count < t'.cap) ∧ P p) Told := by
  refine .ite (fun hfull => .bind (hP.free _) fun _ => .bind hP.malloc fun ptr => ?_) fun hroom => ?_
  · have hcap : t.cap = t.count := le_antisymm hfull ht.fits
    have hdouble : u32 (t.cap * 2) = t.cap * 2 := u32_of_lt (by omega)
    have hpos := ht.pos
    have hmore : t.count < u32 (t.cap * 2) := by omega
    refine .ite (fun hstill => absurd hmore (not_lt.mpr hstill)) fun _ => .pure fun p hp => ?_
    exact ⟨⟨rfl, hmore⟩, hp⟩
  · exact .pure fun p hp => ⟨⟨rfl, not_le.mp hroom⟩, hp⟩

theorem HeapFree.find_constant_from (name : CStr) (entries : List ConstantEntry) :
    Triple P (find_constant_from name entries) (fun _ => P) Told := by
  induction entries with
  | nil => exact .pure fun _ hp => hp
  | cons entry rest ih =>
    exact .bind (hP.consult _) fun _ => .ite (fun _ => .pure fun _ hp => hp) fun _ => ih

theorem HeapFree.lookup_constant (name : CStr) :
    Triple P (lookup_constant name) (fun _ => P) Told := by
  refine .get_bind fun p hp => .bind (Q := fun _ => P) ?_ fun _ => .get_bind fun q hq => ?_
  · rintro _ rfl
    exact hP _ _ hp
  · refine .before ?_ (hP.find_constant_from name _)
    rintro _ rfl
    exact hq

end Heap

section Reading

variable {X : Tables} {k : ℕ}

theorem parse_operand_spent (text : String) :
    Triple (Left X k) (parse_operand text) (fun _ => Spent X k 1) Told := by
  refine Left.token fun token => .ite (fun htype => ?_) fun _ => .ite (fun htype => ?_) fun _ =>
    Facing.tell _
  · refine Facing.take ?_ fun j hj => .pure fun p hp => hp.spent (by omega)
    rintro _ rfl
    exact not_final (by decide) htype
  · refine .bind (Facing.heapFree.lookup_constant _) fun value => ?_
    cases value with
    | none => exact Facing.tell _
    | some value =>
      refine Facing.take ?_ fun j hj => .pure fun p hp => hp.spent (by omega)
      rintro _ rfl
      exact not_final (by decide) htype

/-! ## `@protocol` and `@const` -/

theorem parse_protocol_name_spent :
    Triple (Left X k) parse_protocol_name (fun _ => Spent X k 1) Told := by
  refine Left.token fun token => .ite (fun htype => ?_) fun _ => Facing.tell _
  refine .bind (Q := fun _ => Facing X k (· = token)) ?_ fun _ => ?_
  · exact .modify fun p hp => hp.congr rfl rfl rfl
  · refine Facing.last ?_
    rintro _ rfl
    rcases htype with htype | htype
    · exact not_final (by decide) htype
    · exact not_final (by decide) htype

theorem set_endian_left {T : Token → Prop} (default_endian : Endian) (mode : EndianMode) :
    Triple (Facing X k T) (set_endian default_endian mode) (fun _ => Facing X k T) Told :=
  .modify fun _ hp => hp.congr rfl rfl rfl

theorem parse_protocol_endian_spent :
    Triple (Left X k) parse_protocol_endian (fun _ => Spent X k 1) Told := by
  refine Left.token fun token => .ite (fun _ => tell_then (fun _ h => h.1.fits) _) fun htype => ?_
  have hlast : Triple (Facing X k (· = token)) parser_skip_token (fun _ => Spent X k 1) Told := by
    refine Facing.last ?_
    rintro _ rfl
    exact not_final (by decide) (not_not.mp htype)
  refine .ite (fun _ => .bind (set_endian_left _ _) fun _ => hlast) fun _ => ?_
  refine .ite (fun _ => .bind (set_endian_left _ _) fun _ => hlast) fun _ => ?_
  refine .ite (fun _ => .bind (set_endian_left _ _) fun _ => hlast) fun _ => ?_
  exact tell_then (fun _ h => h.1.fits) _

/-- One turn: an optional comma and a number. -/
theorem parse_protocol_ports_spent (n : ℕ) : ∀ {k : ℕ}, k < n →
    Triple (Left X k) (parse_protocol_ports n) (fun _ => Spent X k 1) Told := by
  induction n with
  | zero => intro k hk; exact absurd hk (Nat.not_lt_zero k)
  | succ n ih =>
    intro k hk
    have hnumber {f : Unit → ParseM Unit} (hf : ∀ j, j + 1 = k →
        Triple (Left X j) (f ()) (fun _ => Spent X k 1) Told) :
        Triple (Left X k) (parser_require .NUMBER "Expected port number" >>= fun _ =>
          parser_skip_token >>= f) (fun _ => Spent X k 1) Told :=
      Left.require (Facing.take (fun _ => not_final (by decide)) hf)
    have hrest : Triple (Left X k) (parser_require .NUMBER "Expected port number" >>= fun _ =>
        parser_skip_token >>= fun _ => current_token >>= fun token =>
          if token.type = .COMMA then parse_protocol_ports n else pure ())
        (fun _ => Spent X k 1) Told := by
      refine hnumber fun j hj => Left.token fun token => .ite (fun _ => ?_) fun _ => ?_
      · exact (Triple.before (fun p hp => hp.1) (ih (by omega))).after fun _ p hp => hp.mono (by omega)
      · exact .pure fun p hp => hp.1.spent (by omega)
    refine Left.token fun token => .ite (fun _ => ?_) fun _ => ?_
    · exact .bind Facing.skip fun _ => hrest
    · exact .before (fun p hp => hp.1) hrest

theorem parse_protocol_entry_spent :
    Triple (Left X k) parse_protocol_entry (fun _ => Spent X k 1) Told := by
  refine Left.require (Facing.token fun token htype => Facing.take ?_ fun j hj => ?_)
  · rintro _ rfl
    exact not_final (by decide) htype
  refine Left.expect (by decide) fun i hi => ?_
  have hend {x : ParseM Unit} (hx : Triple (Left X i) x (fun _ => Spent X i 1) Told) :
      Triple (Left X i) (x >>= fun _ => optional_semicolon) (fun _ => Spent X k 1) Told := by
    refine .bind hx fun _ => .of_exists fun m hm => ?_
    exact optional_semicolon_spent.after fun _ p hp => hp.spent (by omega)
  refine .ite (fun _ => hend parse_protocol_name_spent) fun _ => ?_
  refine .ite (fun _ => hend parse_protocol_endian_spent) fun _ => ?_
  refine .ite (fun _ => ?_) fun _ => tell_then (fun _ h => h.fits) _
  refine Left.turns fun n m hm hn => .bind (parse_protocol_ports_spent n hn) fun _ =>
    .of_exists fun l hl => ?_
  exact optional_semicolon_spent.after fun _ p hp => hp.spent (by omega)

/-- A loop over the entries of a block that ends at its closing brace. -/
theorem entries_spent {loop : ℕ → ParseM Unit} {entry : ParseM Unit}
    (hsucc : ∀ n, loop (n + 1) = do
      if (← current_token).type ≠ .RBRACE then
        entry
        loop n)
    (hentry : ∀ k, Triple (Left X k) entry (fun _ => Spent X k 1) Told) (n : ℕ) :
    ∀ {k : ℕ}, k < n → Triple (Left X k) (loop n) (fun _ => Spent X k 0) Told := by
  induction n with
  | zero => intro k hk; exact absurd hk (Nat.not_lt_zero k)
  | succ n ih =>
    intro k hk
    rw [hsucc]
    refine Left.token fun token => .ite (fun _ => ?_) fun _ => .pure fun p hp => hp.1.spent (by omega)
    refine .bind (.before (fun p hp => hp.1) (hentry k)) fun _ => .of_exists fun j hj => ?_
    exact (ih (by omega)).after fun _ p hp => hp.mono (by omega)

theorem parse_protocol_block_spent :
    Triple (Left X k) parse_protocol_block (fun _ => Spent X k 1) Told := by
  refine Left.expect (by decide) fun j hj => Left.expect (by decide) fun i hi => ?_
  refine .get_bind fun p hp => .bind (Q := fun _ => Left X i) ?_ fun _ => ?_
  · rintro _ rfl
    exact Left.heapFree _ _ hp
  refine Left.turns fun n m hm hn => .bind
    (entries_spent (fun _ => rfl) (fun _ => parse_protocol_entry_spent) n hn) fun _ =>
      .of_exists fun l hl => ?_
  refine (Left.expect_meets (by decide)).after ?_
  rintro - q ⟨o, ho, hleft⟩
  exact hleft.spent (by omega)

theorem add_constant_left (name : CStr) (value : ℕ) :
    Triple (Left X k) (add_constant name value) (fun _ => Left X k) Told := by
  refine .bind Left.heapFree.malloc fun ptr => .get_bind fun p hp => ?_
  refine .bind (Q := fun _ => Left X k) ?_ fun _ => ?_
  · rintro _ rfl
    exact Left.heapFree _ _ hp
  · exact .modify fun q hq => ⟨hq.ends, hq.toks, hq.tables, hq.fits⟩

theorem parse_const_entry_spent :
    Triple (Left X k) parse_const_entry (fun _ => Spent X k 1) Told := by
  refine Left.require (Facing.token fun token htype => Facing.take ?_ fun j hj => ?_)
  · rintro _ rfl
    exact not_final (by decide) htype
  refine Left.expect (by decide) fun i hi => Left.require (Facing.token fun token htype => ?_)
  refine Facing.take ?_ fun m hm => .bind (add_constant_left _ _) fun _ => ?_
  · rintro _ rfl
    exact not_final (by decide) htype
  · exact optional_semicolon_spent.after fun _ p hp => hp.spent (by omega)

theorem parse_const_block_spent :
    Triple (Left X k) parse_const_block (fun _ => Spent X k 1) Told := by
  refine Left.expect (by decide) fun j hj => Left.expect (by decide) fun i hi => ?_
  refine Left.turns fun n m hm hn => .bind
    (entries_spent (fun _ => rfl) (fun _ => parse_const_entry_spent) n hn) fun _ =>
      .of_exists fun l hl => ?_
  refine (Left.expect_meets (by decide)).after ?_
  rintro - q ⟨o, ho, hleft⟩
  exact hleft.spent (by omega)

/-! ## Field paths -/

theorem append_token_left {T : Token → Prop} (out_size : ℕ) (out token : CStr) :
    Triple (Facing X k T) (append_token out_size out token) (fun _ => Facing X k T) Told :=
  .ite (fun _ => tell_then (fun _ h => h.1.fits) _) fun _ => .pure fun _ hp => hp

theorem append_token_then {out_size : ℕ} {out token : CStr} {f : CStr → ParseM β}
    {Q : β → Parser → Prop} (h : ∀ out, Triple (Left X k) (f out) Q Told) :
    Triple (Left X k) (append_token out_size out token >>= f) Q Told := by
  refine .bind (Q := fun _ => Facing X k fun _ => True) ?_ fun out => ?_
  · exact .before (fun p hp => ⟨hp, trivial⟩) (append_token_left _ _ _)
  · exact .before (fun p hp => hp.1) (h out)

theorem parse_field_indices_spent (out_size n : ℕ) : ∀ {k : ℕ} (out : CStr), k < n →
    Triple (Left X k) (parse_field_indices out_size n out) (fun _ => Spent X k 0) Told := by
  induction n with
  | zero => intro k out hk; exact absurd hk (Nat.not_lt_zero k)
  | succ n ih =>
    intro k out hk
    refine Left.token fun token => .ite (fun htype => ?_) fun _ => .pure fun p hp => hp.1.spent (by omega)
    refine .bind (append_token_left _ _ _) fun out1 => Facing.take ?_ fun j hj => ?_
    · rintro _ rfl
      exact not_final (by decide) htype
    refine Left.require (Facing.token fun number hnumber => ?_)
    refine .bind (append_token_left _ _ _) fun out2 => Facing.take ?_ fun i hi => ?_
    · rintro _ rfl
      exact not_final (by decide) hnumber
    refine Left.expect (by decide) fun m hm => append_token_then fun out3 => ?_
    exact (ih out3 (by omega)).after fun _ p hp => hp.mono (by omega)

theorem parse_field_steps_spent (out_size n : ℕ) : ∀ {k : ℕ} (out : CStr), k < n →
    Triple (Facing X k (·.type = .IDENTIFIER)) (parse_field_steps out_size n out)
      (fun _ => Spent X k 1) Told := by
  induction n with
  | zero => intro k out hk; exact absurd hk (Nat.not_lt_zero k)
  | succ n ih =>
    intro k out hk
    refine Facing.token fun token htype => .bind (append_token_left _ _ _) fun out1 => ?_
    refine Facing.take ?_ fun j hj => Left.turns fun turns i hi hturns => ?_
    · rintro _ rfl
      exact not_final (by decide) htype
    refine .bind (parse_field_indices_spent _ _ _ hturns) fun out2 => .of_exists fun m hm => ?_
    refine Left.token fun dot => .ite (fun hdot => ?_) fun _ => .pure fun p hp => hp.1.spent (by omega)
    refine .bind (append_token_left _ _ _) fun out3 => Facing.take ?_ fun l hl => ?_
    · rintro _ rfl
      exact not_final (by decide) hdot
    refine Left.require ((ih out3 (by omega)).after fun _ p hp => hp.mono (by omega))

theorem parse_field_path_spent (out_size : ℕ) :
    Triple (Left X k) (parse_field_path out_size) (fun _ => Spent X k 1) Told := by
  refine Left.require (Facing.turns fun n j hj hn => ?_)
  exact (parse_field_steps_spent _ _ _ hn).after fun _ p hp => hp.mono (by omega)

/-! ## `@filter` -/

/-- The elements of the tables of a condition, and the one it is itself. -/
def cond_weight (cond : FilterCondition) : ℕ := 1 + cond.value_list.length

/-- The elements of the tables of a filter. -/
def rule_weight (rule : TempFilterRule) : ℕ := (rule.conditions.elems.map cond_weight).sum

theorem count_le_rule_weight (rule : TempFilterRule) : rule.conditions.count ≤ rule_weight rule := by
  rw [rule_weight, Table.count]
  induction rule.conditions.elems with
  | nil => exact le_rfl
  | cons cond rest ih =>
    rw [List.map_cons, List.sum_cons, List.length_cons, cond_weight]
    omega

theorem parse_value_list_spent (n : ℕ) : ∀ {k : ℕ} {values : Table ℕ}, k < n → Grows values →
    values.count + k < 2 ^ 31 → Triple (Left X k) (parse_value_list n values)
      (fun values' q => ∃ j, values'.count + j ≤ values.count + k ∧ Left X j q) Told := by
  induction n with
  | zero => intro k values hk; exact absurd hk (Nat.not_lt_zero k)
  | succ n ih =>
    intro k values hk hgrows hsmall
    refine .bind (Left.heapFree.reserve hgrows (by omega)) fun values1 => .of_fact ?_
    rintro ⟨helems, hroom⟩
    have hcount : values1.count = values.count := congrArg List.length helems
    refine .bind (parse_operand_spent _) fun val => .of_exists fun j hj => ?_
    have hpush : (values1.push val).count = values.count + 1 := by
      rw [Table.count, Table.push_elems, List.length_append, ← Table.count, hcount]
      rfl
    refine Left.token fun token => .ite (fun hcomma => ?_) fun _ => .ite (fun hclose => ?_) fun _ =>
      Facing.tell _
    · refine Facing.take ?_ fun i hi => ?_
      · rintro _ rfl
        exact not_final (by decide) hcomma
      refine (ih (by omega) (.push hroom val) (by omega)).after ?_
      rintro values' q ⟨m, hm, hleft⟩
      exact ⟨m, by omega, hleft⟩
    · refine Facing.take ?_ fun i hi => .pure fun p hp => ⟨i, by omega, hp⟩
      rintro _ rfl
      exact not_final (by decide) hclose

/-- The values of a condition are paid for, and nothing else of it is. -/
def ListPaid (X : Tables) (k : ℕ) (cond : FilterCondition) (q : Parser) : Prop :=
  Spent X k cond.value_list.length q

theorem parse_in_list_spent (op : ConditionOp) (cond : FilterCondition) {token : Token}
    (hsmall : k < 2 ^ 31) (htoken : ¬ Final token) :
    Triple (Facing X k (· = token)) (parse_in_list op cond) (ListPaid X k) Told := by
  refine Facing.take ?_ fun j hj => Left.expect (by decide) fun i hi => ?_
  · rintro _ rfl
    exact htoken
  refine Left.turns fun n m hm hn => .bind (Left.heapFree.calloc 4) fun values => .of_fact ?_
  rintro ⟨hnil, hcap⟩
  have hgrows : Grows values := ⟨by omega, by rw [Table.count, hnil]; exact Nat.zero_le _⟩
  have hzero : values.count = 0 := by rw [Table.count, hnil]; rfl
  refine .bind (parse_value_list_spent n hn hgrows (by omega)) fun values' => .of_exists fun l hl => ?_
  refine .ite (fun _ => tell_then (fun _ h => h.fits) _) fun _ => .pure fun p hp => ?_
  have hlength : ({ cond with op := op, values := some values' } : FilterCondition).value_list.length
      = values'.count := rfl
  exact ⟨l, by omega, hp⟩

theorem parse_comparison_spent {cond : FilterCondition} (hcond : cond.values = none) :
    Triple (Left X k) (parse_comparison cond) (ListPaid X k) Told := by
  refine Left.token fun token => ?_
  cases hop : comparison_op token.type with
  | none => exact Facing.tell _
  | some op =>
    refine Facing.take ?_ fun j hj => .pure fun p hp => hp.spent ?_
    · rintro _ rfl
      refine fun hfinal => ?_
      rcases hfinal with hfinal | hfinal
      · rw [hfinal] at hop
        cases hop
      · rw [hfinal] at hop
        cases hop
    · rw [FilterCondition.value_list, hcond]
      show 0 + j ≤ k
      omega

theorem parse_not_left : Triple (Left X k) parse_not (fun _ => Left X k) Told := by
  refine Left.token fun token => .ite (fun _ => ?_) fun _ => .pure fun p hp => hp.1
  exact .bind Facing.skip fun _ => .pure fun p hp => hp

theorem parse_operator_spent {cond : FilterCondition} (hcond : cond.values = none)
    (hsmall : k < 2 ^ 31) : Triple (Left X k) (parse_operator cond) (ListPaid X k) Told := by
  refine Left.token fun token => .ite (fun hand => ?_) fun _ => ?_
  · refine Facing.take ?_ fun j hj => .bind (parse_operand_spent _) fun mask => .of_exists fun i hi => ?_
    · rintro _ rfl
      exact not_final (by decide) hand
    refine Left.expect (by decide) fun m hm => .pure fun p hp => hp.spent ?_
    rw [FilterCondition.value_list, hcond]
    show 0 + m ≤ k
    omega
  · refine .bind (.before (fun p hp => hp.1) parse_not_left) fun negate => Left.token fun op => ?_
    refine .ite (fun hin => parse_in_list_spent _ _ hsmall ?_) fun _ =>
      .before (fun p hp => hp.1) (parse_comparison_spent hcond)
    rcases hin with hin | hin
    · exact not_final (by decide) hin
    · exact not_final (by decide) hin.1

theorem parse_condition_spent (hsmall : k < 2 ^ 31) :
    Triple (Left X k) parse_condition (fun cond => Spent X k (cond_weight cond)) Told := by
  refine Left.require (.bind (.before (fun p hp => hp.1) (parse_field_path_spent _)) fun path =>
    .of_exists fun j hj => ?_)
  refine .bind (parse_operator_spent rfl (by omega)) fun cond => .of_exists fun i hi => ?_
  have hweight (value : ℕ) : cond_weight { cond with value := value } = cond_weight cond := rfl
  have hcost : cond_weight cond + i ≤ k := by rw [cond_weight]; omega
  refine .ite (fun _ => ?_) fun _ => .pure fun p hp => hp.spent hcost
  refine .bind (parse_operand_spent _) fun value => .of_exists fun m hm => .pure fun p hp => ?_
  exact hp.spent (by rw [hweight]; omega)

/-! ## The entries of a filter -/

/-- What a filter gains in weight is paid for, and a token more where an entry
was read. -/
structure RulePaid (X : Tables) (k n : ℕ) (rule rule' : TempFilterRule) (q : Parser) : Prop where
  grows : Grows rule'.conditions
  paid : ∃ j, n + j ≤ k ∧ rule_weight rule' + j ≤ rule_weight rule + k ∧ Left X j q

theorem RulePaid.of_spent {rule rule' : TempFilterRule} {n : ℕ} {q : Parser}
    (hgrows : Grows rule.conditions) (hsame : rule'.conditions = rule.conditions)
    (hq : Spent X k n q) : RulePaid X k n rule rule' q := by
  obtain ⟨j, hj, hleft⟩ := hq
  refine ⟨by rw [hsame]; exact hgrows, j, hj, ?_, hleft⟩
  have hweight : rule_weight rule' = rule_weight rule := by rw [rule_weight, hsame, rule_weight]
  omega

theorem parse_sliding_spent {token : Token} (htoken : token.type = .IDENTIFIER) :
    Triple (Facing X k (· = token)) parse_sliding (fun _ => Spent X k 1) Told := by
  refine Facing.take ?_ fun j hj => Left.expect (by decide) fun i hi => Left.token fun value => ?_
  · rintro _ rfl
    exact not_final (by decide) htoken
  have hskip (b : Bool) : Triple (Facing X i (· = value)) (parser_skip_token >>= fun _ => pure b)
      (fun _ => Spent X k 1) Told :=
    .bind Facing.skip fun _ => .pure fun p hp => hp.spent (by omega)
  refine .ite (fun _ => .ite (fun _ => hskip true) fun _ => .ite (fun _ => hskip false) fun _ =>
    Facing.tell _) fun _ => .ite (fun _ => hskip _) fun _ => Facing.tell _

theorem parse_sliding_max_spent {token : Token} (htoken : token.type = .IDENTIFIER) :
    Triple (Facing X k (· = token)) parse_sliding_max (fun _ => Spent X k 1) Told := by
  refine Facing.take ?_ fun j hj => Left.expect (by decide) fun i hi => Left.require ?_
  · rintro _ rfl
    exact not_final (by decide) htoken
  refine Facing.token fun value _ => .bind Facing.skip fun _ => .pure fun p hp => ?_
  exact hp.spent (by omega)

theorem parse_filter_item_paid {rule : TempFilterRule} (hgrows : Grows rule.conditions)
    (hsmall : rule_weight rule + k < 2 ^ 31) :
    Triple (Left X k) (parse_filter_item rule) (RulePaid X k 1 rule) Told := by
  have hsemicolon {j : ℕ} {rule' : TempFilterRule} (hj : 1 + j ≤ k)
      (hsame : rule'.conditions = rule.conditions) :
      Triple (Left X j) (optional_semicolon >>= fun _ => pure rule') (RulePaid X k 1 rule) Told :=
    .bind optional_semicolon_spent fun _ => .pure fun p hp =>
      .of_spent hgrows hsame (hp.spent (by omega))
  refine Left.token fun token => .ite (fun hword => ?_) fun _ => .ite (fun hword => ?_) fun _ => ?_
  · exact .bind (parse_sliding_spent hword.1) fun sliding => .of_exists fun j hj => hsemicolon hj rfl
  · exact .bind (parse_sliding_max_spent hword.1) fun value => .of_exists fun j hj => hsemicolon hj rfl
  · have hcount := count_le_rule_weight rule
    refine .before (fun p hp => hp.1) ?_
    refine .bind (Left.heapFree.reserve hgrows (by omega)) fun conditions => .of_fact ?_
    rintro ⟨helems, hroom⟩
    refine .bind (parse_condition_spent (by omega)) fun cond => .of_exists fun j hj => ?_
    refine .bind optional_semicolon_spent fun _ => .pure fun p hp => ?_
    have hweight : rule_weight { rule with conditions := conditions.push cond }
        = rule_weight rule + cond_weight cond := by
      simp only [rule_weight, Table.push_elems, helems, List.map_append, List.map_cons, List.map_nil,
        List.sum_append, List.sum_cons, List.sum_nil, add_zero]
    have hone : 1 ≤ cond_weight cond := Nat.le_add_right 1 _
    exact ⟨.push hroom cond, j, by omega, by omega, hp⟩

theorem parse_filter_items_paid (n : ℕ) : ∀ {k : ℕ} {rule : TempFilterRule}, k < n →
    Grows rule.conditions → rule_weight rule + k < 2 ^ 31 →
    Triple (Left X k) (parse_filter_items n rule) (RulePaid X k 0 rule) Told := by
  induction n with
  | zero => intro k rule hk; exact absurd hk (Nat.not_lt_zero k)
  | succ n ih =>
    intro k rule hk hgrows hsmall
    refine Left.token fun token => .ite (fun _ => ?_) fun _ => .pure fun p hp =>
      .of_spent hgrows rfl (hp.1.spent (by omega))
    refine .before (fun p hp => hp.1) (.bind (parse_filter_item_paid hgrows hsmall) fun rule1 => ?_)
    rintro p ⟨hgrows1, j, hj, hweight, hp⟩
    have hrest : Triple (Left X j) (parse_filter_items n rule1) (RulePaid X k 0 rule) Told := by
      refine (ih (by omega) hgrows1 (by omega)).after ?_
      rintro rule' q ⟨hgrows', i, hi, hweight', hq⟩
      exact ⟨hgrows', i, by omega, by omega, hq⟩
    exact hrest p hp

/-- The tables after one more filter. -/
def Tables.add_rule (X : Tables) (rule : TempFilterRule) : Tables :=
  { X with rules := X.rules.push rule }

theorem parse_filter_block_paid (hsmall : k < 2 ^ 31) :
    Triple (Left X k) parse_filter_block
      (fun _ q => ∃ rule, (rule_weight rule ≤ k ∧ X.rules.count < X.rules.cap) ∧
        Spent (X.add_rule rule) k 1 q) Told := by
  refine Left.expect (by decide) fun j hj => Left.require (.get_bind fun p hp => ?_)
  refine .bind (Q := fun _ => Facing X j (·.type = .IDENTIFIER)) ?_ fun _ => ?_
  · rintro _ rfl
    exact Facing.heapFree _ _ hp
  refine .get_bind fun p1 hp1 => .get_bind fun p2 hp2 => ?_
  rw [hp2]
  have hrules : p1.temp_filter_rules = X.rules := congrArg Tables.rules hp1.1.tables
  refine .ite (fun _ => tell_then ?_ _) fun hroom => ?_
  · rintro _ rfl
    exact hp1.1.fits
  rw [hrules, not_le] at hroom
  refine .before (T := Facing X j (·.type = .IDENTIFIER)) (fun q hq => hq ▸ hp1) ?_
  refine Facing.token fun token htype => Facing.take ?_ fun i hi => ?_
  · rintro _ rfl
    exact not_final (by decide) htype
  refine Left.expect (by decide) fun m hm => .bind (Left.heapFree.calloc 8) fun conditions => .of_fact ?_
  rintro ⟨hnil, hcap⟩
  have hgrows : Grows conditions := ⟨by omega, by rw [Table.count, hnil]; exact Nat.zero_le _⟩
  refine Left.turns fun n l hl hn => ?_
  have hzero (name : CStr) : rule_weight { name := name, conditions := conditions } = 0 := by
    rw [rule_weight, hnil]
    rfl
  refine .bind (parse_filter_items_paid n hn hgrows (by rw [hzero]; omega)) fun rule => ?_
  rintro q ⟨-, o, ho, hweight, hq⟩
  rw [hzero] at hweight
  have hend : Triple (Left X o) (modify (fun p => { p with
      temp_filter_rules := p.temp_filter_rules.push rule }) >>= fun _ => parser_expect .RBRACE)
      (fun _ q => ∃ rule, (rule_weight rule ≤ k ∧ X.rules.count < X.rules.cap) ∧
        Spent (X.add_rule rule) k 1 q) Told := by
    refine .bind (Q := fun _ => Left (X.add_rule rule) o) (.modify fun p hp => ?_) fun _ => ?_
    · refine ⟨hp.ends, hp.toks, ?_, hp.fits⟩
      rw [← hp.tables]
      rfl
    · refine (Left.expect_meets (by decide)).after ?_
      rintro - r ⟨b, hb, hleft⟩
      exact ⟨rule, ⟨by omega, hroom⟩, hleft.spent (by omega)⟩
  exact hend q hq

/-! ## Structs -/

theorem parse_bytes_size_left :
    Triple (Left X k) parse_bytes_size (fun _ => Spent X k 0) Told := by
  refine Left.token fun token => .ite (fun htype => ?_) fun _ => Facing.tell _
  refine Facing.take ?_ fun j hj => Left.require (Facing.token fun number hnumber => ?_)
  · rintro _ rfl
    exact not_final (by decide) htype
  refine Facing.take ?_ fun i hi => Left.expect (by decide) fun m hm => .pure fun p hp => ?_
  · rintro _ rfl
    exact not_final (by decide) hnumber
  · exact hp.spent (by omega)

theorem parse_array_size_left (f : Field) :
    Triple (Left X k) (parse_array_size f) (fun _ => Spent X k 0) Told := by
  refine Left.token fun token => .ite (fun htype => ?_) fun _ => .pure fun p hp => hp.1.spent (by omega)
  refine .ite (fun _ => tell_then (fun _ h => h.1.fits) _) fun _ => ?_
  refine Facing.take ?_ fun j hj => Left.require (Facing.token fun number hnumber => ?_)
  · rintro _ rfl
    exact not_final (by decide) htype
  refine .ite (fun _ => tell_then (fun _ h => h.1.fits) _) fun _ => ?_
  refine Facing.take ?_ fun i hi => Left.expect (by decide) fun m hm => .pure fun p hp => ?_
  · rintro _ rfl
    exact not_final (by decide) hnumber
  · exact hp.spent (by omega)

/-- Whatever token stands for its type, the name of a field is a word. -/
theorem parse_struct_field_spent :
    Triple (Left X k) parse_struct_field (fun _ => Spent X k 1) Told := by
  refine Left.token fun token => .bind Facing.skip fun _ => ?_
  have hname (size : ℕ) {j : ℕ} (hj : j ≤ k) : Triple (Left X j) (do
      parser_require .IDENTIFIER "Expected field name"
      let field_name := cstr 64 (← current_token).text
      parser_skip_token
      let f ← parse_array_size
        (name_field (token_to_field_type token.type) size (cstr 64 token.text) field_name)
      return { f with endian := (← get).proto.default_endian
                      is_variable := token_to_field_type token.type = FieldType.VARBYTES })
      (fun _ => Spent X k 1) Told := by
    refine Left.require (Facing.token fun name htype => Facing.take ?_ fun i hi => ?_)
    · rintro _ rfl
      exact not_final (by decide) htype
    refine .bind (parse_array_size_left _) fun f => .get_bind fun p hp => .pure ?_
    rintro _ rfl
    exact hp.mono (by omega)
  refine .ite (fun _ => ?_) fun _ => hname 0 le_rfl
  exact .bind parse_bytes_size_left fun size => .of_exists fun j hj => hname size (by omega)

theorem parse_struct_fields_spent (n : ℕ) : ∀ {k : ℕ} {s : StructDef}, k < n → Grows s.fields →
    s.fields.count + k < 2 ^ 31 → Triple (Left X k) (parse_struct_fields n s)
      (fun s' q => ∃ j, s'.fields.count + j ≤ s.fields.count + k ∧ Left X j q) Told := by
  induction n with
  | zero => intro k s hk; exact absurd hk (Nat.not_lt_zero k)
  | succ n ih =>
    intro k s hk hgrows hsmall
    refine Left.token fun token => .ite (fun _ => ?_) fun _ => .pure fun p hp => ⟨k, le_rfl, hp.1⟩
    refine .before (fun p hp => hp.1) (.ite (fun _ => tell_then (fun _ h => h.fits) _) fun _ => ?_)
    refine .bind (Left.heapFree.reserve hgrows (by omega)) fun fields => .of_fact ?_
    rintro ⟨helems, hroom⟩
    refine .bind parse_struct_field_spent fun f => .of_exists fun j hj => ?_
    have hpush : (fields.push f).count = s.fields.count + 1 := by
      rw [Table.count, Table.push_elems, List.length_append, helems]
      rfl
    refine .bind optional_semicolon_spent fun _ => ?_
    refine (ih (by omega) (.push hroom f) (by show (fields.push f).count + j < _; omega)).after ?_
    rintro s' q ⟨i, hi, hleft⟩
    have hcount : s'.fields.count + i ≤ (fields.push f).count + j := hi
    exact ⟨i, by omega, hleft⟩

/-- The tables after one more struct. -/
def Tables.add_struct (X : Tables) (s : StructDef) : Tables :=
  { X with structs := X.structs.push s }

/-- Reading a struct, where its table has room for it. -/
theorem parse_struct_def_paid (hsmall : k < 2 ^ 31) (hroom : X.structs.count < X.structs.cap) :
    Triple (Left X k) parse_struct_def
      (fun _ q => ∃ s, s.fields.count ≤ k ∧ Spent (X.add_struct s) k 1 q) Told := by
  refine Left.require (.get_bind fun p hp => ?_)
  refine .bind (Q := fun _ => Facing X k (·.type = .IDENTIFIER)) ?_ fun _ => ?_
  · rintro _ rfl
    exact Facing.heapFree _ _ hp
  refine .get_bind fun p1 hp1 => .get_bind fun p2 hp2 => ?_
  rw [hp2]
  have hstructs : p1.temp_structs = X.structs := congrArg Tables.structs hp1.1.tables
  rw [hstructs]
  refine .ite (fun hfull => absurd hroom (not_lt.mpr hfull)) fun _ => ?_
  refine .before (T := Facing X k (·.type = .IDENTIFIER)) (fun q hq => hq ▸ hp1) ?_
  refine Facing.token fun token htype => Facing.take ?_ fun i hi => ?_
  · rintro _ rfl
    exact not_final (by decide) htype
  refine Left.expect (by decide) fun m hm => .bind (Left.heapFree.calloc 16) fun fields => .of_fact ?_
  rintro ⟨hnil, hcap⟩
  have hgrows : Grows fields := ⟨by omega, by rw [Table.count, hnil]; exact Nat.zero_le _⟩
  have hzero : fields.count = 0 := by rw [Table.count, hnil]; rfl
  refine Left.turns fun n l hl hn => ?_
  refine .bind (parse_struct_fields_spent n hn hgrows (by show fields.count + l < _; omega)) fun s =>
    .of_exists fun o ho => ?_
  have hcount : s.fields.count + o ≤ fields.count + l := ho
  refine .bind (Q := fun _ => Left (X.add_struct s) o) (.modify fun q hq => ?_) fun _ => ?_
  · refine ⟨hq.ends, hq.toks, ?_, hq.fits⟩
    rw [← hq.tables]
    rfl
  · refine (Left.expect_meets (by decide)).after ?_
    rintro - r ⟨b, hb, hleft⟩
    exact ⟨s, by omega, hleft.spent (by omega)⟩

/-! ## Blocks -/

/-- No table holds more than `n` tokens paid for, and the two tables that are
counted are not overfull. -/
structure Tables.Within (n : ℕ) (X : Tables) : Prop where
  structs : ∀ s ∈ X.structs.elems, s.fields.count ≤ n
  rules : ∀ rule ∈ X.rules.elems, rule_weight rule ≤ n
  counted : X.rules.count ≤ X.rules.cap

theorem Tables.Within.add_struct {n : ℕ} (h : X.Within n) {s : StructDef} (hs : s.fields.count ≤ n) :
    (X.add_struct s).Within n where
  structs s' hs' := by
    rcases List.mem_append.mp hs' with hs' | hs'
    · exact h.structs s' hs'
    · rw [List.mem_singleton.mp hs']
      exact hs
  rules := h.rules
  counted := h.counted

theorem Tables.Within.add_rule {n : ℕ} (h : X.Within n) {rule : TempFilterRule}
    (hrule : rule_weight rule ≤ n) (hroom : X.rules.count < X.rules.cap) :
    (X.add_rule rule).Within n where
  structs := h.structs
  rules rule' hrule' := by
    rcases List.mem_append.mp hrule' with hrule' | hrule'
    · exact h.rules rule' hrule'
    · rw [List.mem_singleton.mp hrule']
      exact hrule
  counted := by
    show (X.rules.elems ++ [rule]).length ≤ X.rules.cap
    rw [List.length_append]
    exact hroom

/-- The next block is a struct, and its table is full. -/
def Crowded (p : Parser) : Prop :=
  p.current_token.type = .IDENTIFIER ∧ p.temp_structs.cap ≤ p.temp_structs.count

/-- **A block is read within the tables** unless it is a struct too many. -/
theorem parse_block_paid {n : ℕ} (hX : X.Within n) (hkn : k ≤ n) (hn : n < 2 ^ 31) :
    Triple (fun p => ¬ Crowded p ∧ Left X k p) parse_block
      (fun _ q => ∃ X', X'.Within n ∧ Spent X' k 1 q) Told := by
  refine .of_each ?_
  rintro p ⟨hcrowded, hp⟩
  refine .before (T := Facing X k (· = p.current_token)) (fun q hq => ?_) ?_
  · subst hq
    exact ⟨hp, rfl⟩
  refine Facing.token fun token htoken => ?_
  subst htoken
  cases htype : p.current_token.type
  case PROTOCOL =>
    exact (Triple.before (fun q hq => hq.1) parse_protocol_block_spent).after
      fun _ q hq => ⟨X, hX, hq⟩
  case CONST =>
    exact (Triple.before (fun q hq => hq.1) parse_const_block_spent).after
      fun _ q hq => ⟨X, hX, hq⟩
  case FILTER =>
    refine (Triple.before (fun q hq => hq.1) (parse_filter_block_paid (by omega))).after ?_
    rintro - q ⟨rule, ⟨hrule, hroom⟩, hq⟩
    exact ⟨X.add_rule rule, hX.add_rule (by omega) hroom, hq⟩
  case IDENTIFIER =>
    have hroom : X.structs.count < X.structs.cap := by
      have hstructs : p.temp_structs = X.structs := congrArg Tables.structs hp.tables
      rw [← hstructs]
      exact not_le.mp fun hfull => hcrowded ⟨htype, hfull⟩
    refine (Triple.before (fun q hq => hq.1) (parse_struct_def_paid (by omega) hroom)).after ?_
    rintro - q ⟨s, hs, hq⟩
    exact ⟨X.add_struct s, hX.add_struct (by omega), hq⟩
  all_goals exact Facing.tell _

end Reading

end RxNetCap.Pdef
