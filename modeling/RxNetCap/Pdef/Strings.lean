/-
What the parser makes of the text of a string.

A string is the name of the protocol, and that is all it can be used for: where
the grammar has no place for one, the parser fails or drops it. So two texts
whose tokens differ in nothing but the text of their strings are read alike,
block for block, and laid out and compiled alike: the protocols differ in the name at
most (`accepted_of_same`).
-/
import RxNetCap.Pdef.Blind
import RxNetCap.Pdef.Phases

set_option autoImplicit false

namespace RxNetCap.Pdef

open RxNetCap.Ledger RxNetCap.ErrState

variable {α β : Type}

/-! ## Two runs -/

/-- The same token, or two strings. -/
def SameToken (t t' : Token) : Prop :=
  t' = t ∨ (t.type = .STRING ∧ t'.type = .STRING ∧ t'.ok = t.ok)

theorem SameToken.type {t t' : Token} (h : SameToken t t') : t'.type = t.type := by
  rcases h with rfl | ⟨h, h', -⟩
  · rfl
  · rw [h, h']

theorem SameToken.ok {t t' : Token} (h : SameToken t t') : t'.ok = t.ok := by
  rcases h with rfl | ⟨-, -, h⟩
  · rfl
  · exact h

theorem SameToken.eq {t t' : Token} (h : SameToken t t') (hword : t.type ≠ .STRING) : t' = t :=
  h.resolve_right fun hstring => hword hstring.1

/-- The tokens are the same but for the text of strings. -/
abbrev SameTokens (ts ts' : List Token) : Prop := List.Forall₂ SameToken ts ts'

/-- The parser with other tokens ahead, and another name for the protocol. -/
def Parser.renamed (ts : List Token) (name : CStr) (p : Parser) : Parser :=
  { p with toks := ts, proto := { p.proto with name := name } }

/-- Where `x` returns, `y` returns the same over the same tokens, and leaves
the same ahead. -/
def Tracks (x y : ParseM α) : Prop :=
  ∀ (p q : Parser) (a : α) (ts : List Token) (name : CStr), SameTokens p.toks ts →
    x p = .ok a q → ∃ ts' name', SameTokens q.toks ts' ∧
      y (p.renamed ts name) = .ok a (q.renamed ts' name')

section Rules

theorem Tracks.pure (a : α) : Tracks (pure a : ParseM α) (pure a) := by
  intro p q b ts name hts h
  rw [pure_ok] at h
  obtain ⟨rfl, rfl⟩ := h
  exact ⟨ts, name, hts, rfl⟩

theorem Tracks.throw (e : Stop) (y : ParseM α) : Tracks (throw e) y := by
  intro p q b ts name _ h
  exact ((throw_ok _ _ _ _).mp h).elim

theorem Tracks.error (text : String) (y : ParseM α) : Tracks (parser_error text) y :=
  .throw _ y

/-- What follows an error never runs. -/
theorem Tracks.error_then (text : String) {f : α → ParseM β} (y : ParseM β) :
    Tracks (parser_error text >>= f) y := by
  intro p q b ts name _ h
  rw [bind_ok] at h
  obtain ⟨_, _, h, -⟩ := h
  exact ((parser_error_ok _ _ _ _).mp h).elim

theorem Tracks.bind {x y : ParseM α} {f g : α → ParseM β} (hx : Tracks x y)
    (hf : ∀ a, Tracks (f a) (g a)) : Tracks (x >>= f) (y >>= g) := by
  intro p q b ts name hts h
  rw [bind_ok] at h
  obtain ⟨a, r, hrun, hrest⟩ := h
  obtain ⟨ts1, name1, hts1, hrun'⟩ := hx p r a ts name hts hrun
  obtain ⟨ts2, name2, hts2, hrest'⟩ := hf a r q b ts1 name1 hts1 hrest
  exact ⟨ts2, name2, hts2, (bind_ok _ _ _ _ _).mpr ⟨a, _, hrun', hrest'⟩⟩

theorem Tracks.ite {c : Prop} [Decidable c] {x y x' y' : ParseM α} (hx : c → Tracks x x')
    (hy : ¬c → Tracks y y') : Tracks (if c then x else y) (if c then x' else y') := by
  by_cases h : c
  · rw [if_pos h, if_pos h]
    exact hx h
  · rw [if_neg h, if_neg h]
    exact hy h

/-- A change to what is not the tokens. -/
theorem Tracks.modify {m : Parser → Parser} (htoks : ∀ p, (m p).toks = p.toks)
    (hm : ∀ p ts name, ∃ name', m (p.renamed ts name) = (m p).renamed ts name') :
    Tracks (modify m : ParseM PUnit) (modify m) := by
  intro p q b ts name hts h
  rw [modify_ok] at h
  obtain ⟨name', hsame⟩ := hm p ts name
  subst h
  refine ⟨ts, name', by rw [htoks]; exact hts, ?_⟩
  rw [modify_ok, hsame]

/-- What is read of the state is neither its tokens nor the name. -/
theorem Tracks.get_bind {f : Parser → ParseM β} (hsame : ∀ p ts name, f (p.renamed ts name) = f p)
    (hf : ∀ p, Tracks (f p) (f p)) : Tracks (get >>= f) (get >>= f) := by
  intro p q b ts name hts h
  have hrun : f p p = .ok b q := h
  obtain ⟨ts', name', hts', hrun'⟩ := hf p p q b ts name hts hrun
  refine ⟨ts', name', hts', ?_⟩
  show f (p.renamed ts name) (p.renamed ts name) = _
  rw [hsame]
  exact hrun'

end Rules

/-! ## Detached programs -/

/-- What is released on an error only. -/
theorem or_free_tracks (ptr : ℕ) {x : ParseM α} (hx : Tracks x x) :
    Tracks (or_free ptr x) (or_free ptr x) := by
  intro p q a ts name hts h
  rw [or_free_ok] at h
  obtain ⟨ts', name', hts', hrun⟩ := hx p q a ts name hts h
  exact ⟨ts', name', hts', (or_free_ok _ _ _ _ _).mpr hrun⟩

theorem malloc_tracks : Tracks malloc malloc := by
  intro p q t ts name hts h
  rw [malloc_ok] at h
  obtain ⟨rfl, rfl⟩ := h
  exact ⟨ts, name, hts, rfl⟩

theorem Parser.renamed_eq_dressed (p : Parser) (ts : List Token) (name : CStr) :
    p.renamed ts name = p.dressed ts p.last name := rfl

/-- A change that keeps its way of the tokens and the name. -/
theorem dressed_tracks {m : Parser → Parser}
    (h : ∀ p ts last name, m (p.dressed ts last name) = (m p).dressed ts last name) :
    Tracks (modify m : ParseM PUnit) (modify m) := by
  have hkept (p : Parser) : m p = (m p).dressed p.toks p.last p.proto.name := h p p.toks p.last _
  refine .modify (fun p => by rw [hkept]; rfl) fun p ts name => ⟨name, ?_⟩
  have hlast : (m p).last = p.last := by rw [hkept]; rfl
  rw [Parser.renamed_eq_dressed, h, ← hlast]
  rfl

theorem Detached.tracks {x : ParseM α} (h : Detached x) : Tracks x x := by
  induction h with
  | pure a => exact .pure a
  | error text => exact .error text _
  | overrun => exact .throw _ _
  | malloc => exact malloc_tracks
  | modify hm => exact dressed_tracks hm
  | get_bind hsame _ ih => exact .get_bind (fun p ts name => hsame p ts p.last name) ih
  | bind _ _ ihx ihf => exact .bind ihx ihf
  | ite _ _ ihx ihy => exact .ite (fun _ => ihx) fun _ => ihy
  | or_free ptr _ ih => exact or_free_tracks ptr ih

/-! ## Taking tokens -/

theorem renamed_current {p : Parser} {ts : List Token} (name : CStr) (h : SameTokens p.toks ts) :
    SameToken p.current_token (p.renamed ts name).current_token := by
  show SameToken (p.toks.headD p.last) (ts.headD p.last)
  generalize p.toks = toks at h
  cases h with
  | nil => exact .inl rfl
  | cons ht _ => exact ht

theorem SameTokens.tail {ts ts' : List Token} (h : SameTokens ts ts') : SameTokens ts.tail ts'.tail := by
  cases h with
  | nil => exact .nil
  | cons _ hrest => exact hrest

theorem token_tracks {f g : Token → ParseM β} (h : ∀ t t', SameToken t t' → Tracks (f t) (g t')) :
    Tracks (current_token >>= f) (current_token >>= g) := by
  intro p q b ts name hts hrun
  have hrest : f p.current_token p = .ok b q := hrun
  exact h _ _ (renamed_current name hts) p q b ts name hts hrest

/-- What follows goes by the type of the token alone. -/
theorem type_tracks {f : TokenType → ParseM β} (h : ∀ type, Tracks (f type) (f type)) :
    Tracks (current_token >>= fun t => f t.type) (current_token >>= fun t => f t.type) :=
  token_tracks fun t t' ht => by
    rw [ht.type]
    exact h _

/-- What follows goes by the whole token, but never by that of a string. -/
theorem word_tracks {f : Token → ParseM β} (hword : ∀ t, t.type ≠ .STRING → Tracks (f t) (f t))
    (hstring : ∀ t t', t.type = .STRING → t'.type = .STRING → Tracks (f t) (f t')) :
    Tracks (current_token >>= f) (current_token >>= f) := by
  refine token_tracks fun t t' ht => ?_
  by_cases htype : t.type = .STRING
  · exact hstring t t' htype (ht.type.trans htype)
  · rw [ht.eq htype]
    exact hword t htype

theorem parser_skip_token_tracks : Tracks parser_skip_token parser_skip_token := by
  intro p q u ts name hts h
  rw [parser_skip_token_ok] at h
  subst h
  exact ⟨ts.tail, name, hts.tail, (parser_skip_token_ok _ _ _).mpr rfl⟩

theorem renamed_peek {p : Parser} {ts : List Token} {name : CStr} (h : SameTokens p.toks ts) :
    (p.renamed ts name).peek_token.ok = p.peek_token.ok :=
  (@renamed_current { p with toks := p.toks.tail } ts.tail name h.tail).ok

theorem parser_expect_tracks (type : TokenType) : Tracks (parser_expect type) (parser_expect type) := by
  intro p q u ts name hts h
  rw [parser_expect_ok] at h
  obtain ⟨htype, rfl, hok⟩ := h
  refine ⟨ts.tail, name, hts.tail, (parser_expect_ok _ _ _ _).mpr ⟨?_, rfl, ?_⟩⟩
  · rw [(renamed_current name hts).type]
    exact htype
  · rw [renamed_peek hts.tail]
    exact hok

theorem parser_require_tracks (type : TokenType) (text : String) :
    Tracks (parser_require type text) (parser_require type text) :=
  type_tracks (f := fun t => if t ≠ type then parser_error text else pure ())
    fun _ => .ite (fun _ => .error _ _) fun _ => .pure _

/-- The same, from where the current token is in `T`. -/
def TracksAt (T : Token → Prop) (x y : ParseM α) : Prop :=
  ∀ (p q : Parser) (a : α) (ts : List Token) (name : CStr), T p.current_token →
    SameTokens p.toks ts → x p = .ok a q → ∃ ts' name', SameTokens q.toks ts' ∧
      y (p.renamed ts name) = .ok a (q.renamed ts' name')

theorem TracksAt.token {T : Token → Prop} {f : Token → ParseM β} (hT : ∀ t, T t → t.type ≠ .STRING)
    (h : ∀ t, T t → Tracks (f t) (f t)) :
    TracksAt T (current_token >>= f) (current_token >>= f) := by
  intro p q b ts name hcurrent hts hrun
  have hsame := (renamed_current name hts).eq (hT _ hcurrent)
  have hrest : f p.current_token p = .ok b q := hrun
  obtain ⟨ts', name', hts', hagain⟩ := h _ hcurrent p q b ts name hts hrest
  refine ⟨ts', name', hts', ?_⟩
  show f (p.renamed ts name).current_token (p.renamed ts name) = _
  rw [hsame]
  exact hagain

theorem TracksAt.turns {T : Token → Prop} {f : ℕ → ParseM β} (h : ∀ n, TracksAt T (f n) (f n)) :
    TracksAt T (turns >>= f) (turns >>= f) := by
  intro p q b ts name hcurrent hts hrun
  have hrest : f (p.toks.length + 1) p = .ok b q := hrun
  obtain ⟨ts', name', hts', hagain⟩ := h _ p q b ts name hcurrent hts hrest
  refine ⟨ts', name', hts', ?_⟩
  show f (ts.length + 1) (p.renamed ts name) = _
  rw [← hts.length_eq]
  exact hagain

theorem TracksAt.get_bind {T : Token → Prop} {f : Parser → ParseM β}
    (hsame : ∀ p ts name, f (p.renamed ts name) = f p) (hf : ∀ p, TracksAt T (f p) (f p)) :
    TracksAt T (get >>= f) (get >>= f) := by
  intro p q b ts name hcurrent hts h
  have hrun : f p p = .ok b q := h
  obtain ⟨ts', name', hts', hagain⟩ := hf p p q b ts name hcurrent hts hrun
  refine ⟨ts', name', hts', ?_⟩
  show f (p.renamed ts name) (p.renamed ts name) = _
  rw [hsame]
  exact hagain

theorem TracksAt.consult {T : Token → Prop} {t : ℕ} {f : Unit → ParseM β}
    (hf : TracksAt T (f ()) (f ())) : TracksAt T (consult t >>= f) (consult t >>= f) := by
  intro p q b ts name hcurrent hts h
  have hrun : f () { p with heap := p.heap.consult t } = .ok b q := h
  exact hf { p with heap := p.heap.consult t } q b ts name hcurrent hts hrun

theorem TracksAt.unless {T : Token → Prop} {c : Prop} [Decidable c] {e : Stop}
    {f : Unit → ParseM β} (hf : ¬c → TracksAt T (f ()) (f ())) :
    TracksAt T (if c then (throw e : ParseM Unit) >>= f else f ())
      (if c then (throw e : ParseM Unit) >>= f else f ()) := by
  intro p q b ts name hcurrent hts h
  by_cases hc : c
  · rw [if_pos hc, bind_ok] at h
    obtain ⟨_, _, h, -⟩ := h
    exact ((throw_ok _ _ _ _).mp h).elim
  · rw [if_neg hc] at h ⊢
    exact hf hc p q b ts name hcurrent hts h

/-- Behind a check of its type, the token is of that type. -/
theorem require_at {type : TokenType} {text : String}
    {f : Unit → ParseM β} (h : TracksAt (·.type = type) (f ()) (f ())) :
    Tracks (parser_require type text >>= f) (parser_require type text >>= f) := by
  intro p q b ts name hts hrun
  rw [bind_ok] at hrun
  obtain ⟨_, _, hrequire, hrest⟩ := hrun
  rw [parser_require_ok] at hrequire
  obtain ⟨hcurrent, rfl⟩ := hrequire
  obtain ⟨ts', name', hts', hagain⟩ := h p q b ts name hcurrent hts hrest
  refine ⟨ts', name', hts', (bind_ok _ _ _ _ _).mpr ⟨(), p.renamed ts name, ?_, hagain⟩⟩
  rw [parser_require_ok, (renamed_current name hts).type]
  exact ⟨hcurrent, rfl⟩

theorem require_tracks {type : TokenType} (htype : type ≠ .STRING) {text : String}
    {f : Token → ParseM β} (h : ∀ t, t.type = type → Tracks (f t) (f t)) :
    Tracks (parser_require type text >>= fun _ => current_token >>= f)
      (parser_require type text >>= fun _ => current_token >>= f) :=
  require_at (.token (fun t ht => by rw [ht]; exact htype) h)

theorem optional_semicolon_tracks : Tracks optional_semicolon optional_semicolon :=
  type_tracks (f := fun t => if t = .SEMICOLON then parser_skip_token else pure ())
    fun _ => .ite (fun _ => parser_skip_token_tracks) fun _ => .pure _

theorem turns_tracks : Tracks turns turns := by
  intro p q n ts name hts h
  rw [turns_ok] at h
  obtain ⟨rfl, rfl⟩ := h
  refine ⟨ts, name, hts, (turns_ok _ _ _).mpr ⟨?_, rfl⟩⟩
  show ts.length + 1 = p.toks.length + 1
  rw [hts.length_eq]

/-! ## The functions of the parser -/

theorem parse_operand_tracks (text : String) : Tracks (parse_operand text) (parse_operand text) := by
  refine word_tracks (fun t _ => ?_) fun t t' ht ht' => ?_
  · refine .ite (fun _ => ?_) fun _ => .ite (fun _ => ?_) fun _ => .error _ _
    · exact .bind parser_skip_token_tracks fun _ => .pure _
    · refine .bind (lookup_constant_detached _).tracks fun found => ?_
      cases found with
      | none => exact .error _ _
      | some value => exact .bind parser_skip_token_tracks fun _ => .pure _
  · -- a string is no operand
    rw [if_neg (by rw [ht]; decide), if_neg (by rw [ht]; decide)]
    exact .error _ _

/-- The one place where the text of a string goes. -/
theorem parse_protocol_name_tracks : Tracks parse_protocol_name parse_protocol_name := by
  refine token_tracks fun t t' ht => ?_
  rw [ht.type]
  refine .ite (fun _ => .bind ?_ fun _ => parser_skip_token_tracks) fun _ => .error _ _
  intro p q u ts name hts h
  rw [modify_ok] at h
  subst h
  exact ⟨ts, cstr 64 t'.text, hts, (modify_ok _ _ _ _).mpr rfl⟩

theorem parse_protocol_endian_tracks : Tracks parse_protocol_endian parse_protocol_endian := by
  refine word_tracks (fun t _ => ?_) fun t t' ht ht' => ?_
  · refine .ite (fun _ => .error_then _ _) fun _ => ?_
    have hset (default_endian : Endian) (mode : EndianMode) : Tracks
        (set_endian default_endian mode >>= fun _ => parser_skip_token)
        (set_endian default_endian mode >>= fun _ => parser_skip_token) :=
      .bind (set_endian_detached _ _).tracks fun _ => parser_skip_token_tracks
    exact .ite (fun _ => hset _ _) fun _ => .ite (fun _ => hset _ _) fun _ =>
      .ite (fun _ => hset _ _) fun _ => .error_then _ _
  · rw [if_pos (by rw [ht]; decide)]
    exact .error_then _ _

theorem parse_protocol_ports_tracks (n : ℕ) :
    Tracks (parse_protocol_ports n) (parse_protocol_ports n) := by
  induction n with
  | zero => exact .throw _ _
  | succ n ih =>
    have hport : Tracks (do
        parser_require .NUMBER "Expected port number"
        parser_skip_token
        if (← current_token).type = .COMMA then parse_protocol_ports n)
        (do
        parser_require .NUMBER "Expected port number"
        parser_skip_token
        if (← current_token).type = .COMMA then parse_protocol_ports n) :=
      .bind (parser_require_tracks _ _) fun _ => .bind parser_skip_token_tracks fun _ =>
        type_tracks (f := fun t => if t = .COMMA then parse_protocol_ports n else pure ())
          fun _ => .ite (fun _ => ih) fun _ => .pure _
    refine token_tracks fun t t' ht => ?_
    rw [ht.type]
    exact .ite (fun _ => .bind parser_skip_token_tracks fun _ => hport) fun _ => hport

theorem parse_protocol_entry_tracks : Tracks parse_protocol_entry parse_protocol_entry := by
  refine require_tracks (by decide) fun t _ => ?_
  refine .bind parser_skip_token_tracks fun _ => .bind (parser_expect_tracks _) fun _ => ?_
  refine .ite (fun _ => ?_) fun _ => .ite (fun _ => ?_) fun _ => .ite (fun _ => ?_) fun _ =>
    .error_then _ _
  · exact .bind parse_protocol_name_tracks fun _ => optional_semicolon_tracks
  · exact .bind parse_protocol_endian_tracks fun _ => optional_semicolon_tracks
  · exact .bind turns_tracks fun _ => .bind (parse_protocol_ports_tracks _) fun _ =>
      optional_semicolon_tracks

/-- A loop over the entries of a block that ends at its closing brace. -/
theorem entries_tracks {loop : ℕ → ParseM Unit} {entry : ParseM Unit}
    (hzero : loop 0 = throw .out_of_turns)
    (hsucc : ∀ n, loop (n + 1) = do
      if (← current_token).type ≠ .RBRACE then
        entry
        loop n)
    (hentry : Tracks entry entry) (n : ℕ) : Tracks (loop n) (loop n) := by
  induction n with
  | zero =>
    rw [hzero]
    exact .throw _ _
  | succ n ih =>
    rw [hsucc]
    refine token_tracks fun t t' ht => ?_
    rw [ht.type]
    exact .ite (fun _ => .bind hentry fun _ => ih) fun _ => .pure _

theorem parse_protocol_block_tracks : Tracks parse_protocol_block parse_protocol_block :=
  .bind (parser_expect_tracks _) fun _ => .bind (parser_expect_tracks _) fun _ =>
    .get_bind (fun _ _ _ => rfl) fun _ => .bind (consult_detached _).tracks fun _ =>
      .bind turns_tracks fun _ =>
        .bind (entries_tracks rfl (fun _ => rfl) parse_protocol_entry_tracks _) fun _ =>
          parser_expect_tracks _

theorem parse_const_entry_tracks : Tracks parse_const_entry parse_const_entry := by
  refine require_tracks (by decide) fun t _ => ?_
  refine .bind parser_skip_token_tracks fun _ => .bind (parser_expect_tracks _) fun _ => ?_
  refine require_tracks (by decide) fun t _ => .bind parser_skip_token_tracks fun _ => ?_
  exact .bind (add_constant_detached _ _).tracks fun _ => optional_semicolon_tracks

theorem parse_const_block_tracks : Tracks parse_const_block parse_const_block :=
  .bind (parser_expect_tracks _) fun _ => .bind (parser_expect_tracks _) fun _ =>
    .bind turns_tracks fun _ =>
      .bind (entries_tracks rfl (fun _ => rfl) parse_const_entry_tracks _) fun _ =>
        parser_expect_tracks _

/-! ## Field paths and conditions -/

theorem parse_field_indices_tracks (out_size n : ℕ) : ∀ out : CStr,
    Tracks (parse_field_indices out_size n out) (parse_field_indices out_size n out) := by
  induction n with
  | zero => intro out; exact .throw _ _
  | succ n ih =>
    intro out
    refine token_tracks fun t t' ht => ?_
    rw [ht.type]
    refine .ite (fun _ => .bind (append_token_detached _ _ _).tracks fun _ => ?_) fun _ => .pure _
    refine .bind parser_skip_token_tracks fun _ => require_tracks (by decide) fun _ _ => ?_
    refine .bind (append_token_detached _ _ _).tracks fun _ => .bind parser_skip_token_tracks fun _ => ?_
    exact .bind (parser_expect_tracks _) fun _ => .bind (append_token_detached _ _ _).tracks fun _ => ih _

theorem parse_field_steps_tracks (out_size n : ℕ) : ∀ out : CStr,
    TracksAt (·.type = .IDENTIFIER) (parse_field_steps out_size n out)
      (parse_field_steps out_size n out) := by
  induction n with
  | zero =>
    intro out p q b ts name _ _ h
    exact ((throw_ok _ _ _ _).mp h).elim
  | succ n ih =>
    intro out
    refine .token (fun t ht => by rw [ht]; decide) fun t _ => ?_
    refine .bind (append_token_detached _ _ _).tracks fun _ => .bind parser_skip_token_tracks fun _ => ?_
    refine .bind turns_tracks fun _ => .bind (parse_field_indices_tracks _ _ _) fun _ => ?_
    refine token_tracks fun t t' ht => ?_
    rw [ht.type]
    refine .ite (fun _ => .bind (append_token_detached _ _ _).tracks fun out => ?_) fun _ => .pure _
    exact .bind parser_skip_token_tracks fun _ => require_at (ih out)

theorem parse_field_path_tracks (out_size : ℕ) :
    Tracks (parse_field_path out_size) (parse_field_path out_size) :=
  require_at (.turns fun _ => parse_field_steps_tracks _ _ _)

theorem parse_value_list_tracks (n : ℕ) : ∀ values : Table ℕ,
    Tracks (parse_value_list n values) (parse_value_list n values) := by
  induction n with
  | zero => intro values; exact .throw _ _
  | succ n ih =>
    intro values
    refine .bind (reserve_detached _).tracks fun _ => .bind (parse_operand_tracks _) fun _ => ?_
    refine token_tracks fun t t' ht => ?_
    rw [ht.type]
    refine .ite (fun _ => ?_) fun _ => .ite (fun _ => ?_) fun _ => .error _ _
    · exact .bind parser_skip_token_tracks fun _ => ih _
    · exact .bind parser_skip_token_tracks fun _ => .pure _

theorem parse_in_list_tracks (op : ConditionOp) (cond : FilterCondition) :
    Tracks (parse_in_list op cond) (parse_in_list op cond) := by
  refine .bind parser_skip_token_tracks fun _ => .bind (parser_expect_tracks _) fun _ => ?_
  refine .bind turns_tracks fun _ => .bind (calloc_detached _).tracks fun _ => ?_
  exact .bind (parse_value_list_tracks _ _) fun _ => .ite (fun _ => .error_then _ _) fun _ => .pure _

theorem parse_comparison_tracks (cond : FilterCondition) :
    Tracks (parse_comparison cond) (parse_comparison cond) := by
  refine token_tracks fun t t' ht => ?_
  rw [ht.type]
  cases comparison_op t.type with
  | none => exact .error _ _
  | some op => exact .bind parser_skip_token_tracks fun _ => .pure _

theorem parse_not_tracks : Tracks parse_not parse_not := by
  refine token_tracks fun t t' ht => ?_
  rw [ht.type]
  exact .ite (fun _ => .bind parser_skip_token_tracks fun _ => .pure _) fun _ => .pure _

theorem parse_operator_tracks (cond : FilterCondition) :
    Tracks (parse_operator cond) (parse_operator cond) := by
  refine token_tracks fun t t' ht => ?_
  rw [ht.type]
  refine .ite (fun _ => ?_) fun _ => .bind parse_not_tracks fun negate => ?_
  · exact .bind parser_skip_token_tracks fun _ => .bind (parse_operand_tracks _) fun _ =>
      .bind (parser_expect_tracks _) fun _ => .pure _
  · refine word_tracks (fun t _ => ?_) fun t t' ht ht' => ?_
    · exact .ite (fun _ => parse_in_list_tracks _ _) fun _ => parse_comparison_tracks _
    · have hno (u : Token) (hu : u.type = .STRING) :
          ¬ (u.type = .IN ∨ (u.type = .IDENTIFIER ∧ u.text = "in".toList)) := by
        rw [hu]
        rintro (h | ⟨h, -⟩) <;> cases h
      rw [if_neg (hno t ht), if_neg (hno t' ht')]
      exact parse_comparison_tracks _

theorem parse_condition_tracks : Tracks parse_condition parse_condition := by
  refine .bind (parser_require_tracks _ _) fun _ => .bind (parse_field_path_tracks _) fun _ => ?_
  refine .bind (parse_operator_tracks _) fun _ => .ite (fun _ => ?_) fun _ => .pure _
  exact .bind (parse_operand_tracks _) fun _ => .pure _

/-! ## Filters -/

theorem parse_sliding_tracks : Tracks parse_sliding parse_sliding := by
  refine .bind parser_skip_token_tracks fun _ => .bind (parser_expect_tracks _) fun _ => ?_
  have hskip (b : Bool) : Tracks (parser_skip_token >>= fun _ => pure b)
      (parser_skip_token >>= fun _ => pure b) := .bind parser_skip_token_tracks fun _ => .pure b
  refine word_tracks (fun t _ => ?_) fun t t' ht ht' => ?_
  · refine .ite (fun _ => .ite (fun _ => hskip _) fun _ => .ite (fun _ => hskip _) fun _ => .error _ _)
      fun _ => .ite (fun _ => hskip _) fun _ => .error _ _
  · rw [if_neg (by rw [ht]; decide), if_neg (by rw [ht]; decide)]
    exact .error _ _

theorem parse_sliding_max_tracks : Tracks parse_sliding_max parse_sliding_max := by
  refine .bind parser_skip_token_tracks fun _ => .bind (parser_expect_tracks _) fun _ => ?_
  exact require_tracks (by decide) fun _ _ => .bind parser_skip_token_tracks fun _ => .pure _

theorem parse_filter_item_tracks (rule : TempFilterRule) :
    Tracks (parse_filter_item rule) (parse_filter_item rule) := by
  have hcondition : Tracks (reserve rule.conditions >>= fun conditions => parse_condition >>= fun cond =>
      optional_semicolon >>= fun _ => pure { rule with conditions := conditions.push cond })
      (reserve rule.conditions >>= fun conditions => parse_condition >>= fun cond =>
      optional_semicolon >>= fun _ => pure { rule with conditions := conditions.push cond }) :=
    .bind (reserve_detached _).tracks fun _ => .bind parse_condition_tracks fun _ =>
      .bind optional_semicolon_tracks fun _ => .pure _
  refine word_tracks (fun t _ => ?_) fun t t' ht ht' => ?_
  · refine .ite (fun _ => ?_) fun _ => .ite (fun _ => ?_) fun _ => hcondition
    · exact .bind parse_sliding_tracks fun _ => .bind optional_semicolon_tracks fun _ => .pure _
    · exact .bind parse_sliding_max_tracks fun _ => .bind optional_semicolon_tracks fun _ => .pure _
  · have hno (u : Token) (hu : u.type = .STRING) (word : CStr) :
        ¬ (u.type = .IDENTIFIER ∧ u.text = word) := by
      rw [hu]
      rintro ⟨h, -⟩
      cases h
    rw [if_neg (hno t ht _), if_neg (hno t ht _), if_neg (hno t' ht' _), if_neg (hno t' ht' _)]
    exact hcondition

theorem parse_filter_items_tracks (n : ℕ) : ∀ rule : TempFilterRule,
    Tracks (parse_filter_items n rule) (parse_filter_items n rule) := by
  induction n with
  | zero => intro rule; exact .throw _ _
  | succ n ih =>
    intro rule
    refine token_tracks fun t t' ht => ?_
    rw [ht.type]
    exact .ite (fun _ => .bind (parse_filter_item_tracks _) fun _ => ih _) fun _ => .pure _

theorem parse_filter_block_tracks : Tracks parse_filter_block parse_filter_block := by
  refine .bind (parser_expect_tracks _) fun _ => require_at (.get_bind (fun _ _ _ => rfl) fun _ => ?_)
  refine .consult (.get_bind (fun _ _ _ => rfl) fun _ => .get_bind (fun _ _ _ => rfl) fun _ => ?_)
  refine .unless fun _ => .token (fun t ht => by rw [ht]; decide) fun t _ => ?_
  refine .bind parser_skip_token_tracks fun _ => .bind (parser_expect_tracks _) fun _ => ?_
  refine .bind (calloc_detached _).tracks fun _ => .bind turns_tracks fun _ => ?_
  refine .bind (parse_filter_items_tracks _ _) fun _ => .bind ?_ fun _ => parser_expect_tracks _
  exact .modify (fun _ => rfl) fun _ _ name => ⟨name, rfl⟩

/-! ## Structs -/

theorem parse_bytes_size_tracks : Tracks parse_bytes_size parse_bytes_size := by
  refine token_tracks fun t t' ht => ?_
  rw [ht.type]
  refine .ite (fun _ => .bind parser_skip_token_tracks fun _ => ?_) fun _ => .error _ _
  refine require_tracks (by decide) fun _ _ => .bind parser_skip_token_tracks fun _ => ?_
  exact .bind (parser_expect_tracks _) fun _ => .pure _

theorem parse_array_size_tracks (f : Field) : Tracks (parse_array_size f) (parse_array_size f) := by
  refine token_tracks fun t t' ht => ?_
  rw [ht.type]
  refine .ite (fun _ => .ite (fun _ => .error_then _ _) fun _ => ?_) fun _ => .pure _
  refine .bind parser_skip_token_tracks fun _ => require_tracks (by decide) fun _ _ => ?_
  refine .ite (fun _ => .error_then _ _) fun _ => .bind parser_skip_token_tracks fun _ => ?_
  exact .bind (parser_expect_tracks _) fun _ => .pure _

/-- A string where the type of a field should be counts as `uint8`, and its
text is dropped. -/
theorem parse_struct_field_tracks : Tracks parse_struct_field parse_struct_field := by
  have hname (type : FieldType) (size : ℕ) (type_name : CStr) : Tracks (do
      parser_require .IDENTIFIER "Expected field name"
      let field_name := cstr 64 (← current_token).text
      parser_skip_token
      let f ← parse_array_size (name_field type size type_name field_name)
      return { f with
        endian := (← get).proto.default_endian, is_variable := type = FieldType.VARBYTES }) (do
      parser_require .IDENTIFIER "Expected field name"
      let field_name := cstr 64 (← current_token).text
      parser_skip_token
      let f ← parse_array_size (name_field type size type_name field_name)
      return { f with
        endian := (← get).proto.default_endian, is_variable := type = FieldType.VARBYTES }) :=
    require_tracks (by decide) fun _ _ => .bind parser_skip_token_tracks fun _ =>
      .bind (parse_array_size_tracks _) fun _ => .get_bind (fun _ _ _ => rfl) fun _ => .pure _
  refine word_tracks (fun t _ => .bind parser_skip_token_tracks fun _ => ?_) fun t t' ht ht' => ?_
  · exact .ite (fun _ => .bind parse_bytes_size_tracks fun _ => hname _ _ _) fun _ => hname _ _ _
  · refine .bind parser_skip_token_tracks fun _ => ?_
    rw [ht, ht']
    exact hname .UINT8 0 (cstr 64 t.text)

theorem parse_struct_fields_tracks (n : ℕ) : ∀ s : StructDef,
    Tracks (parse_struct_fields n s) (parse_struct_fields n s) := by
  induction n with
  | zero => intro s; exact .throw _ _
  | succ n ih =>
    intro s
    refine token_tracks fun t t' ht => ?_
    rw [ht.type]
    refine .ite (fun _ => .ite (fun _ => .error_then _ _) fun _ => ?_) fun _ => .pure _
    refine .bind (reserve_detached _).tracks fun _ => .bind parse_struct_field_tracks fun _ => ?_
    exact .bind optional_semicolon_tracks fun _ => ih _

theorem parse_struct_def_tracks : Tracks parse_struct_def parse_struct_def := by
  refine require_at (.get_bind (fun _ _ _ => rfl) fun _ => .consult (.get_bind (fun _ _ _ => rfl) fun _ =>
    .get_bind (fun _ _ _ => rfl) fun _ => ?_))
  refine .unless fun _ => .token (fun t ht => by rw [ht]; decide) fun t _ => ?_
  refine .bind parser_skip_token_tracks fun _ => .bind (parser_expect_tracks _) fun _ => ?_
  refine .bind (calloc_detached _).tracks fun _ => .bind turns_tracks fun _ => ?_
  refine .bind (parse_struct_fields_tracks _ _) fun _ => .bind ?_ fun _ => parser_expect_tracks _
  exact .modify (fun _ => rfl) fun _ _ name => ⟨name, rfl⟩

/-! ## Whole texts -/

theorem parse_block_tracks : Tracks parse_block parse_block := by
  refine token_tracks fun t t' ht => ?_
  rw [ht.type]
  split
  · exact parse_protocol_block_tracks
  · exact parse_const_block_tracks
  · exact parse_filter_block_tracks
  · exact parse_struct_def_tracks
  · exact .error _ _

theorem parse_blocks_tracks (n : ℕ) : Tracks (parse_blocks n) (parse_blocks n) := by
  induction n with
  | zero => exact .throw _ _
  | succ n ih =>
    refine token_tracks fun t t' ht => ?_
    rw [ht.type]
    exact .ite (fun _ => .bind parse_block_tracks fun _ => ih) fun _ => .pure _

/-! ## The whole text -/

theorem parse_source_tracks : Tracks parse_source parse_source :=
  .bind turns_tracks fun _ => .bind (parse_blocks_tracks _) fun _ =>
    .bind flatten_structs_detached.tracks fun _ => compile_filter_rules_detached.tracks

theorem accepted_iff {source : List Char} {proto : ProtocolDef} :
    (pdef_parse_string source).1 = .accepted proto ↔
      ∃ p, parse_source (parser_init source) = .ok () p ∧
        { p.proto with structs := some p.temp_structs, filters := some p.temp_filters } = proto := by
  rw [pdef_parse_string]
  cases parse_source (parser_init source) with
  | ok u p => simp
  | error e p => cases e <;> simp

/-- **Texts that differ in their strings are the same but for the name.** -/
theorem accepted_of_same {source source' : List Char} {proto : ProtocolDef}
    (htoks : SameTokens (lex source).1 (lex source').1) (hlast : (lex source').2 = (lex source).2)
    (h : (pdef_parse_string source).1 = .accepted proto) :
    ∃ name, (pdef_parse_string source').1 = .accepted { proto with name := name } := by
  obtain ⟨p, hrun, rfl⟩ := accepted_iff.mp h
  have hinit : (parser_init source).renamed (lex source').1 [] = parser_init source' := by
    rw [Parser.renamed, parser_init, parser_init, hlast]
  obtain ⟨ts', name', -, hagain⟩ := parse_source_tracks _ _ _ (lex source').1 []
    (show SameTokens (parser_init source).toks _ from htoks) hrun
  rw [hinit] at hagain
  exact ⟨name', accepted_iff.mpr ⟨_, hagain, rfl⟩⟩

end RxNetCap.Pdef
