/-
Which reports of the lexer the parser notices.

The parser holds a token and the one after it. `parser_expect` takes a token
and fails when the lexer then failed to read its next; every other way to take
a token ignores the lexer. So a report is noticed exactly when it concerns the
token that comes second after one that `parser_expect` takes. Which tokens
those are is a matter of the tokens alone (`taken_by_expect`): the kind of the
block they stand in, and the few tokens before them in the block.

The reports that are missed are harmless in a text that is wrong anyway: what
remains is a text that would be accepted if the lexer had reported nothing.
-/
import RxNetCap.Pdef.Heedless
import RxNetCap.Pdef.Stream

set_option autoImplicit false

namespace RxNetCap.Pdef

open RxNetCap.Ledger RxNetCap.ErrState

variable {α β : Type}

/-! ## The tokens that `parser_expect` takes -/

/-- Where in a text a token stands: between the blocks, or in one of a kind. -/
inductive Block where
  | top | protocol | const | filter | struct
  deriving DecidableEq, Repr

/-- The word of a setting of a filter. -/
def is_setting (t : Token) : Bool :=
  t.type = .IDENTIFIER && (t.text = "sliding".toList || t.text = "sliding_max".toList)

theorem is_setting_iff {t : Token} : is_setting t = true ↔
    t.type = .IDENTIFIER ∧ (t.text = "sliding".toList ∨ t.text = "sliding_max".toList) := by
  simp only [is_setting, Bool.and_eq_true, Bool.or_eq_true, decide_eq_true_eq]

/-- After `in`. -/
def opens_list : List Token → Bool
  | t :: _ => t.type = .IN
  | [] => false

/-- After `[5`, unless that is the start of a list of values. -/
def closes_index : List Token → Bool
  | n :: l :: t :: _ => n.type = .NUMBER && l.type = .LBRACKET && t.type ≠ .IN
  | _ => false

/-- After the operand of a mask, or after the word of a setting that is not a
part of a field path. -/
def assigns : List Token → Bool
  | t :: u :: _ => u.type = .AND || (is_setting t && u.type ≠ .DOT)
  | _ => false

/-- Whether it is `parser_expect` that takes the token, given the tokens before
it in its block, the last of them first. -/
def taken_by_expect (b : Block) (before : List Token) (t : Token) : Bool :=
  match b with
  | .top => t.type = .PROTOCOL || t.type = .CONST || t.type = .FILTER
  | .protocol => t.type = .LBRACE || t.type = .RBRACE || t.type = .ASSIGN
  | .const => t.type = .LBRACE || t.type = .RBRACE || t.type = .ASSIGN
  | .filter =>
    t.type = .LBRACE || t.type = .RBRACE || (t.type = .LBRACKET && opens_list before)
      || (t.type = .RBRACKET && closes_index before) || (t.type = .ASSIGN && assigns before)
  | .struct =>
    t.type = .RBRACE || (t.type = .LBRACE && before.length = 1)
      || (t.type = .RBRACKET && before.head?.any (·.type = .NUMBER))

/-- Where the token after `t` stands. A block ends with its first `}`. -/
def next (b : Block) (before : List Token) (t : Token) : Block × List Token :=
  if b = .top then
    if t.type = .PROTOCOL then (.protocol, [t])
    else if t.type = .CONST then (.const, [t])
    else if t.type = .FILTER then (.filter, [t])
    else (.struct, [t])
  else if t.type = .RBRACE then (.top, [])
  else (b, t :: before)

theorem next_inside {b : Block} {before : List Token} {t : Token} (hb : b ≠ .top)
    (ht : t.type ≠ .RBRACE) : next b before t = (b, t :: before) := by
  rw [next, if_neg hb, if_neg ht]

/-- Whether the lexer reports an error on a token that comes second after one
that `parser_expect` takes. -/
def notices : Block → List Token → List Token → Bool
  | _, _, [] => false
  | b, before, t :: ts =>
    (taken_by_expect b before t && ts[1]?.any (!·.ok))
      || notices (next b before t).1 (next b before t).2 ts

/-! ## A parser among the tokens of its text -/

section Positions

-- Whether the whole text has a report that is noticed, and the token that
-- repeats at its end.
variable {N : Bool} {L : Token}

/-- The parser stands in a block of the kind, behind the tokens `before`. -/
structure At (N : Bool) (L : Token) (b : Block) (before : List Token) (p : Parser) : Prop where
  ahead : notices b before p.toks = N
  lexed : ∀ t ∈ p.toks, t.Lexed ∧ t.type ≠ .EOF
  last : p.last = L
  final : L.Lexed

/-- The same, with the current token in `T`. -/
def Here (N : Bool) (L : Token) (b : Block) (before : List Token) (T : Token → Prop)
    (p : Parser) : Prop := At N L b before p ∧ T p.current_token

/-- The same, behind tokens in `Spot`. -/
def In (N : Bool) (L : Token) (b : Block) (Spot : List Token → Prop) (p : Parser) : Prop :=
  ∃ before, Spot before ∧ At N L b before p

/-- A silent failure comes of a report that is noticed. -/
def Noticed (N : Bool) (L : Token) (e : Stop) : Prop :=
  e = .error .silent → N = true ∨ L.ok = false

theorem noticed_of_ne {e : Stop} (h : e ≠ .error .silent) : Noticed N L e :=
  fun he => absurd he h

theorem At.congr {b : Block} {before : List Token} {p q : Parser} (h : At N L b before p)
    (htoks : q.toks = p.toks) (hlast : q.last = p.last) : At N L b before q where
  ahead := by rw [htoks]; exact h.ahead
  lexed := by rw [htoks]; exact h.lexed
  last := by rw [hlast]; exact h.last
  final := h.final

theorem In.congr {b : Block} {Spot : List Token → Prop} {p q : Parser} (h : In N L b Spot p)
    (htoks : q.toks = p.toks) (hlast : q.last = p.last) : In N L b Spot q := by
  obtain ⟨before, hspot, hat⟩ := h
  exact ⟨before, hspot, hat.congr htoks hlast⟩

theorem At.current_lexed {b : Block} {before : List Token} {p : Parser} (h : At N L b before p) :
    p.current_token.Lexed := by
  rw [Parser.current_token]
  cases htoks : p.toks with
  | nil =>
    show p.last.Lexed
    rw [h.last]
    exact h.final
  | cons t ts => exact (h.lexed t (by rw [htoks]; exact List.mem_cons_self)).1

/-- Past the end, a parser stands anywhere. -/
theorem At.of_nil {b b' : Block} {before before' : List Token} {p : Parser}
    (h : At N L b before p) (htoks : p.toks = []) :
    At N L b' before' { p with toks := p.toks.tail } where
  ahead := by
    have hN := h.ahead
    rw [htoks] at hN
    rw [htoks]
    exact hN
  lexed := by
    rw [htoks]
    exact nofun
  last := h.last
  final := h.final

/-- Taking a token, with nothing noticed. -/
theorem At.take {b : Block} {before : List Token} {p : Parser} (h : At N L b before p)
    (hquiet : taken_by_expect b before p.current_token = true →
      ({ p with toks := p.toks.tail } : Parser).peek_token.ok = true) :
    At N L (next b before p.current_token).1 (next b before p.current_token).2
      { p with toks := p.toks.tail } := by
  cases htoks : p.toks with
  | nil =>
    have hend : At N L (next b before p.current_token).1 (next b before p.current_token).2
        { p with toks := p.toks.tail } := h.of_nil htoks
    rwa [htoks] at hend
  | cons t ts =>
    have hcurrent : p.current_token = t := by rw [Parser.current_token, htoks]; rfl
    rw [hcurrent] at hquiet ⊢
    have hahead := h.ahead
    rw [htoks, notices] at hahead
    have hnone : (taken_by_expect b before t && ts[1]?.any (!·.ok)) = false := by
      cases htaken : taken_by_expect b before t with
      | false => rfl
      | true =>
        have hok := hquiet htaken
        rw [Parser.peek_token, htoks] at hok
        match ts, hok with
        | [], _ => rfl
        | [_], _ => rfl
        | _ :: u :: _, hok =>
          show (!u.ok) = false
          have huok : u.ok = true := hok
          rw [huok]
          rfl
    rw [hnone, Bool.false_or] at hahead
    refine ⟨hahead, fun u hu => h.lexed u ?_, h.last, h.final⟩
    rw [htoks]
    exact List.mem_cons_of_mem _ hu

/-! ## Walking through a `do` block -/

/-- What a detached program leaves alone. -/
theorem Detached.meets {x : ParseM α} (hx : Detached x) {P : Parser → Prop}
    (hP : ∀ p q : Parser, q.toks = p.toks → q.last = p.last → P p → P q) :
    Meets P x (fun _ => P) (Noticed N L) := by
  intro p hp
  have hspoken := hx.blind.spoken p trivial
  cases hcase : x p with
  | ok a q => exact hP p q (hx.blind.still hcase).1 (hx.blind.still hcase).2 hp
  | error e q =>
    rw [hcase] at hspoken
    exact noticed_of_ne hspoken

theorem parser_error_meets (text : String) {P : Parser → Prop} {Q : α → Parser → Prop} :
    Meets P (parser_error text : ParseM α) Q (Noticed N L) :=
  .throw (noticed_of_ne (by simp))

theorem parser_error_then (text : String) {f : α → ParseM β} {P : Parser → Prop}
    {Q : β → Parser → Prop} : Meets P (parser_error text >>= f) Q (Noticed N L) :=
  .bind (Q := fun _ _ => False) (parser_error_meets _) fun _ _ => False.elim

section Walking

variable {b : Block} {before : List Token} {T : Token → Prop} {Q : β → Parser → Prop}

theorem token_then {f : Token → ParseM β} {P : Parser → Prop}
    (h : ∀ token, Meets (fun p => P p ∧ p.current_token = token) (f token) Q (Noticed N L)) :
    Meets P (current_token >>= f) Q (Noticed N L) := by
  intro p hp
  exact h p.current_token p ⟨hp, rfl⟩

theorem token_at {f : Token → ParseM β}
    (h : ∀ token, Meets (Here N L b before (· = token)) (f token) Q (Noticed N L)) :
    Meets (At N L b before) (current_token >>= f) Q (Noticed N L) := token_then h

theorem token_here {f : Token → ParseM β}
    (h : ∀ token, T token → Meets (Here N L b before (· = token)) (f token) Q (Noticed N L)) :
    Meets (Here N L b before T) (current_token >>= f) Q (Noticed N L) := by
  intro p hp
  exact h p.current_token hp.2 p ⟨hp.1, rfl⟩

theorem Here.congr {p q : Parser} (h : Here N L b before T p) (htoks : q.toks = p.toks)
    (hlast : q.last = p.last) : Here N L b before T q := by
  refine ⟨h.1.congr htoks hlast, ?_⟩
  rw [Parser.current_token, htoks, hlast]
  exact h.2

theorem require_then {type : TokenType} {text : String} {f : Unit → ParseM β}
    (h : Meets (Here N L b before (·.type = type)) (f ()) Q (Noticed N L)) :
    Meets (At N L b before) (parser_require type text >>= f) Q (Noticed N L) := by
  refine .bind (Q := fun _ => Here N L b before (·.type = type)) (token_then fun token => ?_)
    fun _ => h
  refine .ite (fun _ => parser_error_meets _) fun htype => .pure ?_
  rintro p ⟨hat, rfl⟩
  exact ⟨hat, not_not.mp htype⟩

theorem skip_meets (hb : b ≠ .top)
    (hT : ∀ t, T t → t.type ≠ .RBRACE ∧ taken_by_expect b before t = false) :
    Meets (Here N L b before T) parser_skip_token
      (fun _ q => ∃ t, T t ∧ At N L b (t :: before) q) (Noticed N L) := by
  rintro p ⟨hat, ht⟩
  obtain ⟨hbrace, htaken⟩ := hT _ ht
  have htake := hat.take fun h => by rw [htaken] at h; cases h
  rw [next_inside hb hbrace] at htake
  exact ⟨_, ht, htake⟩

theorem skip_then (hb : b ≠ .top)
    (hT : ∀ t, T t → t.type ≠ .RBRACE ∧ taken_by_expect b before t = false) {f : Unit → ParseM β}
    (h : ∀ t, T t → Meets (At N L b (t :: before)) (f ()) Q (Noticed N L)) :
    Meets (Here N L b before T) (parser_skip_token >>= f) Q (Noticed N L) :=
  (skip_meets hb hT).bind fun _ => .of_exists h

theorem take_then {token : Token} (hb : b ≠ .top)
    (htaken : token.type ≠ .RBRACE ∧ taken_by_expect b before token = false) {f : Unit → ParseM β}
    (h : Meets (At N L b (token :: before)) (f ()) Q (Noticed N L)) :
    Meets (Here N L b before (· = token)) (parser_skip_token >>= f) Q (Noticed N L) := by
  refine skip_then hb ?_ ?_
  · rintro _ rfl
    exact htaken
  · rintro _ rfl
    exact h

/-- A report on the token that is read when `parser_expect` takes one. -/
theorem At.noticed {p : Parser} (hat : At N L b before p)
    (htaken : taken_by_expect b before p.current_token = true)
    (hreport : ({ p with toks := p.toks.tail } : Parser).peek_token.ok = false) :
    N = true ∨ L.ok = false := by
  rw [Parser.peek_token] at hreport
  rcases htoks : p.toks with - | ⟨t, - | ⟨u, - | ⟨v, ts⟩⟩⟩
  all_goals rw [htoks] at hreport
  · exact .inr (hat.last ▸ hreport)
  · exact .inr (hat.last ▸ hreport)
  · exact .inr (hat.last ▸ hreport)
  · have hv : v.ok = false := hreport
    have hcurrent : p.current_token = t := by rw [Parser.current_token, htoks]; rfl
    rw [hcurrent] at htaken
    have hahead := hat.ahead
    rw [htoks, notices, htaken] at hahead
    rw [← hahead]
    left
    simp [hv]

theorem expect_meets {type : TokenType}
    (htaken : ∀ t : Token, t.type = type → taken_by_expect b before t = true) :
    Meets (At N L b before) (parser_expect type)
      (fun _ q => ∃ t : Token, t.type = type ∧
        At N L (next b before t).1 (next b before t).2 q) (Noticed N L) := by
  intro p hat
  rw [parser_expect_run]
  by_cases htype : p.current_token.type ≠ type
  · rw [if_pos htype]
    exact noticed_of_ne (by simp)
  · have htype' := not_not.mp htype
    rw [if_neg htype]
    cases hok : ({ p with toks := p.toks.tail } : Parser).peek_token.ok with
    | true => exact ⟨_, htype', hat.take fun _ => hok⟩
    | false => exact fun _ => hat.noticed (htaken _ htype') hok

theorem expect_then {type : TokenType} (hb : b ≠ .top) (hbrace : type ≠ .RBRACE)
    (htaken : ∀ t : Token, t.type = type → taken_by_expect b before t = true) {f : Unit → ParseM β}
    (h : ∀ t : Token, t.type = type → Meets (At N L b (t :: before)) (f ()) Q (Noticed N L)) :
    Meets (At N L b before) (parser_expect type >>= f) Q (Noticed N L) := by
  refine (expect_meets htaken).bind fun _ => .of_exists fun t ht => ?_
  rw [next_inside hb (by rw [ht]; exact hbrace)]
  exact h t ht

/-- The brace that ends a block. -/
theorem expect_brace (hb : b ≠ .top) :
    Meets (At N L b before) (parser_expect .RBRACE) (fun _ => At N L .top []) (Noticed N L) := by
  refine (expect_meets fun t ht => ?_).after ?_
  · cases b <;> simp [taken_by_expect, ht] at hb ⊢
  · rintro - p ⟨t, ht, hat⟩
    cases b <;> simp only [next, ht] at hat <;> first | exact hat | exact absurd rfl hb

theorem optional_semicolon_meets {Spot : List Token → Prop} (hb : b ≠ .top)
    (hspot : ∀ t before, t.type = .SEMICOLON → Spot before → Spot (t :: before)) :
    Meets (In N L b Spot) optional_semicolon (fun _ => In N L b Spot) (Noticed N L) := by
  refine .of_exists fun before hbefore => token_then fun token => .ite (fun htype => ?_) fun _ => ?_
  · refine (skip_meets (T := (· = token)) hb ?_).after ?_
    · rintro _ rfl
      refine ⟨by rw [htype]; decide, ?_⟩
      cases b <;> simp [taken_by_expect, htype]
    · rintro _ p ⟨t, rfl, hat⟩
      exact ⟨t :: before, hspot t before htype hbefore, hat⟩
  · exact .pure fun p hp => ⟨before, hbefore, hp.1⟩

end Walking

/-! ## `@protocol` and `@const` -/

section Settings

variable {b : Block}

/-- A block whose braces and `=` are taken by `parser_expect`, and nothing
else. -/
def Plain (b : Block) : Prop :=
  b ≠ .top ∧ ∀ (before : List Token) (t : Token),
    taken_by_expect b before t = true ↔
      t.type = .LBRACE ∨ t.type = .RBRACE ∨ t.type = .ASSIGN

theorem plain_protocol : Plain .protocol := by
  refine ⟨by decide, fun before t => ?_⟩
  obtain ⟨type, text, value, ok⟩ := t
  cases type <;> simp [taken_by_expect]

theorem plain_const : Plain .const := by
  refine ⟨by decide, fun before t => ?_⟩
  obtain ⟨type, text, value, ok⟩ := t
  cases type <;> simp [taken_by_expect]

theorem Plain.skips (hb : Plain b) {t : Token} {before : List Token} (hl : t.type ≠ .LBRACE)
    (hr : t.type ≠ .RBRACE) (ha : t.type ≠ .ASSIGN) :
    t.type ≠ .RBRACE ∧ taken_by_expect b before t = false := by
  refine ⟨hr, Bool.eq_false_iff.mpr fun htaken => ?_⟩
  rcases (hb.2 before t).mp htaken with h | h | h
  · exact hl h
  · exact hr h
  · exact ha h

/-- Anywhere in a block. -/
abbrev Anywhere (N : Bool) (L : Token) (b : Block) : Parser → Prop := In N L b fun _ => True

theorem Plain.skip (hb : Plain b) {before : List Token} {token : Token} (hl : token.type ≠ .LBRACE)
    (hr : token.type ≠ .RBRACE) (ha : token.type ≠ .ASSIGN) :
    Meets (Here N L b before (· = token)) parser_skip_token (fun _ => Anywhere N L b)
      (Noticed N L) := by
  refine (skip_meets hb.1 ?_).after ?_
  · rintro _ rfl
    exact hb.skips hl hr ha
  · rintro _ p ⟨t, -, hat⟩
    exact ⟨t :: before, trivial, hat⟩

theorem parse_protocol_name_meets {before : List Token} :
    Meets (At N L .protocol before) parse_protocol_name (fun _ => Anywhere N L .protocol)
      (Noticed N L) := by
  refine token_then fun token => .ite (fun htype => ?_) fun _ => parser_error_meets _
  refine .bind (Q := fun _ => Here N L .protocol before (· = token)) (.modify fun p hp => ?_)
    fun _ => plain_protocol.skip ?_ ?_ ?_
  · exact ⟨hp.1.congr rfl rfl, hp.2⟩
  all_goals rcases htype with h | h <;> simp [h]

theorem parse_protocol_endian_meets {before : List Token} :
    Meets (At N L .protocol before) parse_protocol_endian (fun _ => Anywhere N L .protocol)
      (Noticed N L) := by
  refine token_then fun token => .ite (fun _ => parser_error_then _) fun htype => ?_
  have htype' := not_not.mp htype
  have hset (default_endian : Endian) (mode : EndianMode) :
      Meets (Here N L .protocol before (· = token))
        (do set_endian default_endian mode; parser_skip_token)
        (fun _ => Anywhere N L .protocol) (Noticed N L) := by
    refine .bind ((set_endian_detached _ _).meets fun p q htoks hlast hp => ?_)
      fun _ => plain_protocol.skip ?_ ?_ ?_
    · refine ⟨hp.1.congr htoks hlast, ?_⟩
      rw [Parser.current_token, htoks, hlast]
      exact hp.2
    all_goals rw [htype']; decide
  refine .ite (fun _ => hset _ _) fun _ => .ite (fun _ => hset _ _) fun _ =>
    .ite (fun _ => hset _ _) fun _ => parser_error_then _

theorem turns_meets {P : Parser → Prop} : Meets P turns (fun _ => P) (Noticed N L) :=
  .get_bind fun p hp => .pure fun q hq => by rw [hq]; exact hp

/-- A token that is none of those that `parser_expect` takes here, and then the
rest. -/
theorem Plain.skip_then {b : Block} (hb : Plain b) {before : List Token} {type : TokenType}
    (htype : type ≠ .LBRACE ∧ type ≠ .RBRACE ∧ type ≠ .ASSIGN) {f : Unit → ParseM β}
    {T : Token → Prop} (hT : ∀ t, T t → t.type = type) {Q : β → Parser → Prop}
    (h : Meets (Anywhere N L b) (f ()) Q (Noticed N L)) :
    Meets (Here N L b before T) (parser_skip_token >>= f) Q (Noticed N L) := by
  refine RxNetCap.Pdef.skip_then hb.1 (fun t ht => ?_) fun t _ => .before (fun p hat => ?_) h
  · have ht' := hT t ht
    exact hb.skips (by rw [ht']; exact htype.1) (by rw [ht']; exact htype.2.1)
      (by rw [ht']; exact htype.2.2)
  · exact ⟨t :: before, trivial, hat⟩

theorem Plain.expect_then {b : Block} (hb : Plain b) {before : List Token} {type : TokenType}
    (htype : type = .LBRACE ∨ type = .ASSIGN) {f : Unit → ParseM β} {Q : β → Parser → Prop}
    (h : ∀ before, Meets (At N L b before) (f ()) Q (Noticed N L)) :
    Meets (At N L b before) (parser_expect type >>= f) Q (Noticed N L) := by
  refine RxNetCap.Pdef.expect_then hb.1 ?_ (fun t ht => (hb.2 before t).mpr ?_) fun t _ => h _
  · rcases htype with h | h <;> simp [h]
  · rcases htype with h | h <;> simp [ht, h]

theorem Plain.optional_semicolon {b : Block} (hb : Plain b) :
    Meets (Anywhere N L b) optional_semicolon (fun _ => Anywhere N L b) (Noticed N L) :=
  optional_semicolon_meets hb.1 fun _ _ _ _ => trivial

theorem parse_protocol_ports_meets (n : ℕ) :
    Meets (Anywhere N L .protocol) (parse_protocol_ports n) (fun _ => Anywhere N L .protocol)
      (Noticed N L) := by
  induction n with
  | zero => exact .throw (noticed_of_ne (by simp))
  | succ n ih =>
    have hport : Meets (Anywhere N L .protocol) (do
        parser_require .NUMBER "Expected port number"
        parser_skip_token
        if (← current_token).type = .COMMA then parse_protocol_ports n)
        (fun _ => Anywhere N L .protocol) (Noticed N L) := by
      refine .of_exists fun before _ => require_then ?_
      refine plain_protocol.skip_then (by decide) (fun _ ht => ht) (token_then fun token => ?_)
      exact .ite (fun _ => .before (fun p hp => hp.1) ih) fun _ => .pure fun p hp => hp.1
    refine .of_exists fun before _ => token_then fun token => .ite (fun hcomma => ?_) fun _ => ?_
    · have htype (t : Token) (ht : t = token) : t.type = .COMMA := by rw [ht]; exact hcomma
      exact plain_protocol.skip_then (by decide) htype hport
    · exact .before (fun p hp => ⟨before, trivial, hp.1⟩) hport

theorem parse_protocol_entry_meets :
    Meets (Anywhere N L .protocol) parse_protocol_entry (fun _ => Anywhere N L .protocol)
      (Noticed N L) := by
  refine .of_exists fun before _ => require_then (token_then fun token => ?_)
  have hvalue (before : List Token) : Meets (At N L .protocol before) (do
      if cstr 64 token.text = "name".toList then parse_protocol_name
      else if cstr 64 token.text = "endian".toList then parse_protocol_endian
      else if cstr 64 token.text = "ports".toList then parse_protocol_ports (← turns)
      else parser_error ("Unknown protocol metadata key: " ++ String.ofList (cstr 64 token.text))
      optional_semicolon) (fun _ => Anywhere N L .protocol) (Noticed N L) := by
    refine .ite (fun _ => ?_) fun _ => .ite (fun _ => ?_) fun _ => .ite (fun _ => ?_) fun _ => ?_
    · exact .bind parse_protocol_name_meets fun _ => plain_protocol.optional_semicolon
    · exact .bind parse_protocol_endian_meets fun _ => plain_protocol.optional_semicolon
    · refine .bind turns_meets fun _ => ?_
      refine .bind (.before (fun p hat => ⟨before, trivial, hat⟩) (parse_protocol_ports_meets _))
        fun _ => plain_protocol.optional_semicolon
    · exact parser_error_then _
  refine .before (T := Here N L .protocol before (·.type = .IDENTIFIER)) (fun p hp => hp.1) ?_
  refine plain_protocol.skip_then (by decide) (fun _ ht => ht) (.of_exists fun before _ => ?_)
  exact plain_protocol.expect_then (.inr rfl) hvalue

theorem parse_const_entry_meets :
    Meets (Anywhere N L .const) parse_const_entry (fun _ => Anywhere N L .const)
      (Noticed N L) := by
  refine .of_exists fun before _ => require_then (token_then fun token => ?_)
  refine .before (T := Here N L .const before (·.type = .IDENTIFIER)) (fun p hp => hp.1) ?_
  refine plain_const.skip_then (by decide) (fun _ ht => ht) (.of_exists fun before _ => ?_)
  refine plain_const.expect_then (.inr rfl) fun before => require_then (token_then fun token => ?_)
  refine .before (T := Here N L .const before (·.type = .NUMBER)) (fun p hp => hp.1) ?_
  refine plain_const.skip_then (by decide) (fun _ ht => ht) ?_
  exact .bind ((add_constant_detached _ _).meets fun p q htoks hlast hp => hp.congr htoks hlast)
    fun _ => plain_const.optional_semicolon

/-- The loop over the entries of a block. -/
theorem entries_meets {b : Block} {loop : ℕ → ParseM Unit} {entry : ParseM Unit}
    (hzero : loop 0 = throw .out_of_turns)
    (hsucc : ∀ n, loop (n + 1) = (do
      if (← current_token).type ≠ .RBRACE then
        entry
        loop n))
    (hentry : Meets (Anywhere N L b) entry (fun _ => Anywhere N L b) (Noticed N L)) (n : ℕ) :
    Meets (Anywhere N L b) (loop n) (fun _ => Anywhere N L b) (Noticed N L) := by
  induction n with
  | zero =>
    rw [hzero]
    exact .throw (noticed_of_ne (by simp))
  | succ n ih =>
    rw [hsucc]
    refine token_then fun token => .ite (fun _ => ?_) fun _ => .pure fun p hp => hp.1
    exact .bind (.before (fun p hp => hp.1) hentry) fun _ => ih

theorem parse_protocol_block_meets :
    Meets (At N L .top []) parse_protocol_block (fun _ => At N L .top []) (Noticed N L) := by
  refine (expect_meets fun t ht => by simp [taken_by_expect, ht]).bind fun _ =>
    .of_exists fun t ht => ?_
  simp only [next, ht]
  refine plain_protocol.expect_then (.inl rfl) fun before => ?_
  refine .get_any fun _ => .bind ((consult_detached _).meets fun _ _ htoks hlast hp =>
    hp.congr htoks hlast) fun _ => .bind turns_meets fun n => ?_
  refine .bind (.before (fun p hat => ⟨before, trivial, hat⟩)
    (entries_meets rfl (fun _ => rfl) parse_protocol_entry_meets n)) fun _ => ?_
  exact .of_exists fun before _ => expect_brace plain_protocol.1

theorem parse_const_block_meets :
    Meets (At N L .top []) parse_const_block (fun _ => At N L .top []) (Noticed N L) := by
  refine (expect_meets fun t ht => by simp [taken_by_expect, ht]).bind fun _ =>
    .of_exists fun t ht => ?_
  simp only [next, ht]
  refine plain_const.expect_then (.inl rfl) fun before => .bind turns_meets fun n => ?_
  refine .bind (.before (fun p hat => ⟨before, trivial, hat⟩)
    (entries_meets rfl (fun _ => rfl) parse_const_entry_meets n)) fun _ => ?_
  exact .of_exists fun before _ => expect_brace plain_const.1

end Settings

/-! ## Operands and field paths -/

section Filter

variable {before : List Token}

theorem filter_ne_top : Block.filter ≠ .top := by decide

/-- A token that is taken otherwise wherever it stands in a filter. -/
theorem filter_skips {t : Token} (h : t.type ≠ .LBRACE ∧ t.type ≠ .RBRACE ∧ t.type ≠ .LBRACKET ∧
    t.type ≠ .RBRACKET ∧ t.type ≠ .ASSIGN) :
    t.type ≠ .RBRACE ∧ taken_by_expect .filter before t = false := by
  obtain ⟨type, text, value, ok⟩ := t
  cases type <;> simp_all [taken_by_expect]

/-- A number or a name. -/
def Operand (t : Token) : Prop := t.type = .NUMBER ∨ t.type = .IDENTIFIER

theorem Operand.skips {t : Token} (h : Operand t) :
    t.type ≠ .RBRACE ∧ taken_by_expect .filter before t = false :=
  filter_skips (by rcases h with h | h <;> simp [h])

theorem parse_operand_meets (text : String) :
    Meets (At N L .filter before) (parse_operand text)
      (fun _ q => ∃ t, Operand t ∧ At N L .filter (t :: before) q) (Noticed N L) := by
  refine token_at fun token => .ite (fun htype => ?_) fun _ => .ite (fun htype => ?_) fun _ =>
    parser_error_meets _
  · refine take_then filter_ne_top (Operand.skips (.inl htype)) ?_
    exact .pure fun p hp => ⟨token, .inl htype, hp⟩
  · refine .bind ((lookup_constant_detached _).meets fun p q htoks hlast hp => hp.congr htoks hlast)
      fun found => ?_
    cases found with
    | none => exact parser_error_meets _
    | some value =>
      refine take_then filter_ne_top (Operand.skips (.inr htype)) ?_
      exact .pure fun p hp => ⟨token, .inr htype, hp⟩

/-- At the start of an item: neither a mask nor a path goes on. -/
def ItemSpot : List Token → Prop
  | u :: _ => u.type ≠ .AND ∧ u.type ≠ .DOT
  | [] => False

/-- Behind a token of a path, or behind `!`: no setting and no mask. -/
def OperatorSpot : List Token → Prop
  | t :: u :: _ => u.type ≠ .AND ∧ (is_setting t = true → u.type = .DOT)
  | _ => False

/-- Behind a field path. -/
def PathSpot (before : List Token) : Prop :=
  OperatorSpot before ∧ ∀ t ∈ before.head?, t.type = .IDENTIFIER ∨ t.type = .RBRACKET

theorem is_setting_of_type {t : Token} (h : t.type ≠ .IDENTIFIER) : is_setting t = false :=
  Bool.eq_false_iff.mpr fun hsetting => h (is_setting_iff.mp hsetting).1

theorem PathSpot.not_list {before : List Token} (h : PathSpot before) : opens_list before = false := by
  match before, h with
  | t :: _, ⟨_, hhead⟩ =>
    rcases hhead t rfl with h | h <;> simp [opens_list, h]

theorem PathSpot.closes {before : List Token} {num lb : Token} (h : PathSpot before)
    (hnum : num.type = .NUMBER) (hlb : lb.type = .LBRACKET) :
    closes_index (num :: lb :: before) = true := by
  match before, h with
  | t :: _, ⟨_, hhead⟩ =>
    rcases hhead t rfl with h | h <;> simp [closes_index, h, hnum, hlb]

theorem PathSpot.index {before : List Token} {num rb : Token} (hnum : num.type = .NUMBER)
    (hrb : rb.type = .RBRACKET) : PathSpot (rb :: num :: before) := by
  refine ⟨⟨by rw [hnum]; decide, fun h => ?_⟩, fun t ht => ?_⟩
  · rw [is_setting_of_type (by rw [hrb]; decide)] at h
    cases h
  · cases ht
    exact .inr hrb

theorem parse_field_indices_meets (out_size n : ℕ) : ∀ out : CStr,
    Meets (In N L .filter PathSpot) (parse_field_indices out_size n out)
      (fun _ => In N L .filter PathSpot) (Noticed N L) := by
  induction n with
  | zero => intro out; exact .throw (noticed_of_ne (by simp))
  | succ n ih =>
    intro out
    refine .of_exists fun before hspot => token_at fun lb => .ite (fun hlb => ?_) fun _ =>
      .pure fun p hp => ⟨before, hspot, hp.1⟩
    refine .bind ((append_token_detached _ _ _).meets fun _ _ ht hl hp => hp.congr ht hl) fun _ => ?_
    refine take_then filter_ne_top ⟨by rw [hlb]; decide, ?_⟩ ?_
    · simp [taken_by_expect, hlb, hspot.not_list]
    refine require_then (token_here fun num hnum => ?_)
    refine .bind ((append_token_detached _ _ _).meets fun _ _ ht hl hp => hp.congr ht hl) fun _ => ?_
    refine take_then filter_ne_top (filter_skips (by simp [hnum])) ?_
    refine expect_then filter_ne_top (by decide) (fun rb hrb => ?_) fun rb hrb => ?_
    · simp [taken_by_expect, hrb, hspot.closes hnum hlb]
    refine .bind ((append_token_detached _ _ _).meets fun _ _ ht hl hp => hp.congr ht hl) fun _ => ?_
    exact .before (fun p hp => ⟨_, .index hnum hrb, hp⟩) (ih _)

/-- At a name that starts a path or goes on with one. -/
def NameSpot (before : List Token) (t : Token) : Prop :=
  t.type = .IDENTIFIER ∧ OperatorSpot (t :: before)

theorem parse_field_steps_meets (out_size n : ℕ) : ∀ out : CStr,
    Meets (fun p => ∃ before, Here N L .filter before (NameSpot before) p)
      (parse_field_steps out_size n out) (fun _ => In N L .filter PathSpot) (Noticed N L) := by
  induction n with
  | zero => intro out; exact .throw (noticed_of_ne (by simp))
  | succ n ih =>
    intro out
    rintro p ⟨before, hp⟩
    revert p
    refine token_here fun name hname => ?_
    refine .bind ((append_token_detached _ _ _).meets fun _ _ ht hl hp => hp.congr ht hl) fun _ => ?_
    refine take_then filter_ne_top (Operand.skips (.inr hname.1)) (.bind turns_meets fun n' => ?_)
    have hspot : PathSpot (name :: before) := ⟨hname.2, fun t ht => by cases ht; exact .inl hname.1⟩
    refine .bind (.before (fun p hp => ⟨_, hspot, hp⟩) (parse_field_indices_meets _ _ _)) fun _ => ?_
    refine .of_exists fun before hspot => token_at fun dot => .ite (fun hdot => ?_) fun _ =>
      .pure fun p hp => ⟨before, hspot, hp.1⟩
    refine .bind ((append_token_detached _ _ _).meets fun _ _ ht hl hp => hp.congr ht hl) fun _ => ?_
    refine take_then filter_ne_top (filter_skips (by simp [hdot])) (require_then ?_)
    refine .before (fun p hp => ⟨_, hp.1, hp.2, ?_⟩) (ih _)
    exact ⟨by rw [hdot]; decide, fun _ => hdot⟩

theorem parse_field_path_meets (out_size : ℕ) {before : List Token} {name : Token}
    (hname : name.type = .IDENTIFIER → OperatorSpot (name :: before)) :
    Meets (Here N L .filter before (· = name)) (parse_field_path out_size)
      (fun _ => In N L .filter PathSpot) (Noticed N L) := by
  refine .bind (token_here fun token htoken => .ite (fun _ => parser_error_meets _) fun htype =>
    .pure fun p hp => ?_) fun _ => .bind turns_meets fun n => parse_field_steps_meets _ _ _
  obtain ⟨hat, rfl⟩ := hp
  have htype' := not_not.mp htype
  exact ⟨before, hat, htype', by rw [htoken] at htype' ⊢; exact hname htype'⟩

/-! ## Conditions -/

/-- Inside the brackets of a list of values. -/
def ListSpot : List Token → Prop
  | [] => False
  | l :: r => l.type = .COMMA ∨ (l.type = .LBRACKET ∧ ∃ t s, r = t :: s ∧ t.type = .IN)

theorem ListSpot.comma {t : Token} {before : List Token} (h : t.type = .COMMA) :
    ListSpot (t :: before) := Or.inl h

theorem ListSpot.start {t u : Token} {before : List Token} (ht : t.type = .LBRACKET)
    (hu : u.type = .IN) : ListSpot (t :: u :: before) := Or.inr ⟨ht, u, before, rfl, hu⟩

theorem ListSpot.not_index {before : List Token} {t : Token} (h : ListSpot before) :
    closes_index (t :: before) = false := by
  match before, h with
  | l :: r, .inl hcomma => cases r <;> simp [closes_index, hcomma]
  | l :: _, .inr ⟨hl, u, s, rfl, hu⟩ => simp [closes_index, hu]

theorem ItemSpot.of_type {t : Token} {before : List Token} (h : t.type ≠ .AND ∧ t.type ≠ .DOT) :
    ItemSpot (t :: before) := h

theorem parse_value_list_meets (n : ℕ) : ∀ values : Table ℕ,
    Meets (In N L .filter ListSpot) (parse_value_list n values)
      (fun _ => In N L .filter ItemSpot) (Noticed N L) := by
  induction n with
  | zero => intro values; exact .throw (noticed_of_ne (by simp))
  | succ n ih =>
    intro values
    refine .of_exists fun before hspot => ?_
    refine .bind ((reserve_detached _).meets fun _ _ ht hl hp => hp.congr ht hl) fun _ => ?_
    refine .bind (parse_operand_meets _) fun _ => .of_exists fun v hv => token_at fun token => ?_
    refine .ite (fun hcomma => ?_) fun _ => .ite (fun hclose => ?_) fun _ => parser_error_meets _
    · refine take_then filter_ne_top (filter_skips (by simp [hcomma])) ?_
      exact .before (fun p hp => ⟨_, .comma hcomma, hp⟩) (ih _)
    · refine take_then filter_ne_top ⟨by rw [hclose]; decide, ?_⟩ (.pure fun p hp => ?_)
      · simp [taken_by_expect, hclose, hspot.not_index]
      · exact ⟨_, .of_type (by simp [hclose]), hp⟩

theorem parse_in_list_meets (op : ConditionOp) (cond : FilterCondition) {before : List Token}
    {token : Token} (htoken : token.type = .IN) :
    Meets (Here N L .filter before (· = token)) (parse_in_list op cond)
      (fun _ => In N L .filter ItemSpot) (Noticed N L) := by
  refine take_then filter_ne_top (filter_skips (by simp [htoken])) ?_
  refine expect_then filter_ne_top (by decide) (fun t ht => ?_) fun t ht => ?_
  · simp [taken_by_expect, ht, opens_list, htoken]
  refine .bind turns_meets fun n => ?_
  refine .bind ((calloc_detached _).meets fun _ _ ht hl hp => hp.congr ht hl) fun _ => ?_
  refine .bind (.before (fun p hp => ⟨_, .start ht htoken, hp⟩)
    (parse_value_list_meets _ _)) fun values => ?_
  exact .ite (fun _ => parser_error_then _) fun _ => .pure fun p hp => hp

theorem OperatorSpot.not_assigns {before : List Token} (h : OperatorSpot before) :
    assigns before = false := by
  match before, h with
  | t :: u :: _, ⟨hand, hset⟩ =>
    cases hsetting : is_setting t with
    | false => simp [assigns, hand, hsetting]
    | true => simp [assigns, hset hsetting]

theorem comparison_op_some {type : TokenType} {op : ConditionOp}
    (h : comparison_op type = some op) :
    op ≠ .IN ∧ op ≠ .NOT_IN ∧ type ≠ .LBRACE ∧ type ≠ .RBRACE ∧ type ≠ .LBRACKET ∧
      type ≠ .RBRACKET := by
  unfold comparison_op at h
  split at h
  all_goals cases h
  all_goals decide

theorem parse_comparison_meets (cond : FilterCondition) {before : List Token}
    (hspot : OperatorSpot before) :
    Meets (At N L .filter before) (parse_comparison cond)
      (fun a q => a.op ≠ .IN ∧ a.op ≠ .NOT_IN ∧ In N L .filter (fun _ => True) q)
      (Noticed N L) := by
  refine token_at fun token => ?_
  cases hop : comparison_op token.type with
  | none => exact parser_error_meets _
  | some op =>
    obtain ⟨hin, hnot, hlb, hrb, hlk, hrk⟩ := comparison_op_some hop
    have htaken : taken_by_expect .filter before token = false := by
      by_cases hassign : token.type = .ASSIGN
      · simp [taken_by_expect, hassign, hspot.not_assigns]
      · exact (filter_skips ⟨hlb, hrb, hlk, hrk, hassign⟩).2
    exact take_then filter_ne_top ⟨hrb, htaken⟩ (.pure fun p hp => ⟨hin, hnot, _, trivial, hp⟩)

theorem parse_not_meets :
    Meets (In N L .filter PathSpot) parse_not (fun _ => In N L .filter OperatorSpot)
      (Noticed N L) := by
  refine .of_exists fun before hspot => token_at fun token => .ite (fun hnot => ?_) fun _ =>
    .pure fun p hp => ⟨before, hspot.1, hp.1⟩
  refine take_then filter_ne_top (filter_skips (by simp [hnot])) (.pure fun p hp => ?_)
  refine ⟨_, ?_, hp⟩
  match before, hspot with
  | u :: _, ⟨_, hhead⟩ =>
    refine ⟨?_, fun h => ?_⟩
    · rcases hhead u rfl with h | h <;> simp [h]
    · rw [is_setting_of_type (by rw [hnot]; decide)] at h
      cases h

theorem parse_operator_meets (cond : FilterCondition) :
    Meets (In N L .filter PathSpot) (parse_operator cond)
      (fun a q => (a.op ≠ .IN ∧ a.op ≠ .NOT_IN ∧ In N L .filter (fun _ => True) q) ∨
        In N L .filter ItemSpot q) (Noticed N L) := by
  refine .of_exists fun before hspot => token_at fun token => .ite (fun hand => ?_) fun _ => ?_
  · refine take_then filter_ne_top (filter_skips (by simp [hand])) ?_
    refine .bind (parse_operand_meets _) fun _ => .of_exists fun v hv => ?_
    refine expect_then filter_ne_top (by decide) (fun t ht => ?_) fun t ht => ?_
    · simp [taken_by_expect, ht, assigns, hand]
    · refine .pure fun p hp => Or.inl ⟨?_, ?_, ⟨_, trivial, hp⟩⟩
      · show ConditionOp.MASK ≠ .IN
        decide
      · show ConditionOp.MASK ≠ .NOT_IN
        decide
  · refine .bind (.before (fun p hp => ⟨before, hspot, hp.1⟩) parse_not_meets) fun negate => ?_
    refine .of_exists fun before hspot => token_at fun token => .ite (fun hin => ?_) fun _ => ?_
    · refine .before (T := fun p => Here N L .filter before (· = token) p ∧ token.Lexed)
        (fun p hp => ⟨hp, by rw [← hp.2]; exact hp.1.current_lexed⟩) ?_
      rintro p ⟨hp, hlexed⟩
      have htype : token.type = .IN := hin.elim id fun h => absurd h.2 (hlexed.word h.1)
      exact (parse_in_list_meets _ _ htype).after (fun a q h => .inr h) p hp
    · exact .before (fun p hp => hp.1) ((parse_comparison_meets cond hspot).after fun a q h => .inl h)

theorem parse_condition_meets {before : List Token} {name : Token}
    (hname : name.type = .IDENTIFIER → OperatorSpot (name :: before)) :
    Meets (Here N L .filter before (· = name)) parse_condition
      (fun _ => In N L .filter ItemSpot) (Noticed N L) := by
  refine .bind (Q := fun _ => Here N L .filter before (· = name)) ?_ fun _ => ?_
  · exact token_here fun token _ => .ite (fun _ => parser_error_meets _) fun _ =>
      .pure fun p hp => ⟨hp.1, by rw [hp.2]; assumption⟩
  refine .bind (parse_field_path_meets _ hname) fun path => .bind (parse_operator_meets _) fun cond => ?_
  refine .ite (fun _ => ?_) fun hop => .pure fun p hp => ?_
  · refine .before (T := In N L .filter fun _ => True) ?_ ?_
    · rintro p (⟨-, -, h⟩ | ⟨before, -, h⟩)
      · exact h
      · exact ⟨before, trivial, h⟩
    · refine .of_exists fun before _ => .bind (parse_operand_meets _) fun _ => .pure ?_
      rintro p ⟨t, ht, hp⟩
      exact ⟨_, .of_type (by rcases ht with h | h <;> simp [h]), hp⟩
  · rcases hp with ⟨hin, hnot, -⟩ | hitem
    · exact absurd ⟨hin, hnot⟩ hop
    · exact hitem

/-! ## Settings of a filter, and the block -/

/-- The word of a setting and its `=`. -/
theorem setting_then {before : List Token} {token : Token} (hspot : ItemSpot before)
    (hsetting : is_setting token = true) {f : Unit → ParseM β} {Q : β → Parser → Prop}
    (h : ∀ before, Meets (At N L .filter before) (f ()) Q (Noticed N L)) :
    Meets (Here N L .filter before (· = token))
      (parser_skip_token >>= fun _ => parser_expect .ASSIGN >>= f) Q (Noticed N L) := by
  have htype : token.type = .IDENTIFIER := by
    by_contra htype
    rw [is_setting_of_type htype] at hsetting
    cases hsetting
  refine take_then filter_ne_top (Operand.skips (.inr htype)) ?_
  refine expect_then filter_ne_top (by decide) (fun t ht => ?_) fun t _ => h _
  match before, hspot with
  | u :: _, ⟨_, hdot⟩ => simp [taken_by_expect, ht, assigns, hsetting, hdot]

theorem parse_sliding_meets {before : List Token} {token : Token} (hspot : ItemSpot before)
    (hsetting : is_setting token = true) :
    Meets (Here N L .filter before (· = token)) parse_sliding
      (fun _ => In N L .filter ItemSpot) (Noticed N L) := by
  refine setting_then hspot hsetting fun before => token_at fun value => ?_
  have htake (b : Bool) (hvalue : Operand value) :
      Meets (Here N L .filter before (· = value)) (do parser_skip_token; return b)
        (fun _ => In N L .filter ItemSpot) (Noticed N L) := by
    refine take_then filter_ne_top hvalue.skips (.pure fun p hp => ⟨_, .of_type ?_, hp⟩)
    rcases hvalue with h | h <;> simp [h]
  refine .ite (fun hname => ?_) fun _ => .ite (fun hnum => htake _ (.inl hnum)) fun _ =>
    parser_error_meets _
  exact .ite (fun _ => htake _ (.inr hname)) fun _ => .ite (fun _ => htake _ (.inr hname)) fun _ =>
    parser_error_meets _

theorem parse_sliding_max_meets {before : List Token} {token : Token} (hspot : ItemSpot before)
    (hsetting : is_setting token = true) :
    Meets (Here N L .filter before (· = token)) parse_sliding_max
      (fun _ => In N L .filter ItemSpot) (Noticed N L) := by
  refine setting_then hspot hsetting fun before => require_then (token_here fun value hvalue => ?_)
  refine take_then filter_ne_top (filter_skips (by simp [hvalue])) (.pure fun p hp => ?_)
  exact ⟨_, .of_type (by simp [hvalue]), hp⟩

theorem filter_semicolon :
    Meets (In N L .filter ItemSpot) optional_semicolon (fun _ => In N L .filter ItemSpot)
      (Noticed N L) :=
  optional_semicolon_meets filter_ne_top fun t _ ht _ => .of_type (by simp [ht])

theorem parse_filter_item_meets (rule : TempFilterRule) :
    Meets (In N L .filter ItemSpot) (parse_filter_item rule)
      (fun _ => In N L .filter ItemSpot) (Noticed N L) := by
  refine .of_exists fun before hspot => token_at fun token => ?_
  refine .ite (fun h => ?_) fun hsliding => .ite (fun h => ?_) fun hmax => ?_
  · exact .bind (parse_sliding_meets hspot (is_setting_iff.mpr ⟨h.1, .inl h.2⟩)) fun _ =>
      .bind filter_semicolon fun _ => .pure fun p hp => hp
  · exact .bind (parse_sliding_max_meets hspot (is_setting_iff.mpr ⟨h.1, .inr h.2⟩)) fun _ =>
      .bind filter_semicolon fun _ => .pure fun p hp => hp
  · have hname : token.type = .IDENTIFIER → OperatorSpot (token :: before) := by
      intro htype
      match before, hspot with
      | u :: _, ⟨hand, _⟩ =>
        refine ⟨hand, fun h => ?_⟩
        rcases (is_setting_iff.mp h).2 with htext | htext
        · exact absurd ⟨htype, htext⟩ hsliding
        · exact absurd ⟨htype, htext⟩ hmax
    refine .bind ((reserve_detached _).meets fun _ _ ht hl hp => hp.congr ht hl) fun _ => ?_
    exact .bind (parse_condition_meets hname) fun _ =>
      .bind filter_semicolon fun _ => .pure fun p hp => hp

theorem parse_filter_items_meets (n : ℕ) : ∀ rule : TempFilterRule,
    Meets (In N L .filter ItemSpot) (parse_filter_items n rule)
      (fun _ => In N L .filter ItemSpot) (Noticed N L) := by
  induction n with
  | zero => intro rule; exact .throw (noticed_of_ne (by simp))
  | succ n ih =>
    intro rule
    refine token_then fun token => .ite (fun _ => ?_) fun _ => .pure fun p hp => hp.1
    exact .bind (.before (fun p hp => hp.1) (parse_filter_item_meets _)) fun _ => ih _

theorem parse_filter_block_meets :
    Meets (At N L .top []) parse_filter_block (fun _ => At N L .top []) (Noticed N L) := by
  refine (expect_meets fun t ht => by simp [taken_by_expect, ht]).bind fun _ =>
    .of_exists fun t ht => ?_
  simp only [next, ht]
  refine require_then (.get_any fun _ => .bind ((consult_detached _).meets fun _ _ ht hl hp =>
    hp.congr ht hl) fun _ => .get_any fun _ => .get_any fun _ => ?_)
  refine .ite (fun _ => parser_error_then _) fun _ => token_here fun name hname => ?_
  refine take_then filter_ne_top (Operand.skips (.inr hname)) ?_
  refine expect_then filter_ne_top (by decide) (fun t ht => by simp [taken_by_expect, ht])
    fun lb hlb => ?_
  refine .bind ((calloc_detached _).meets fun _ _ ht hl hp => hp.congr ht hl) fun _ => ?_
  refine .bind turns_meets fun n => .bind (.before (fun p hp => ⟨_, .of_type (by simp [hlb]), hp⟩)
    (parse_filter_items_meets _ _)) fun rule => ?_
  exact .bind (Q := fun _ => In N L .filter ItemSpot) (.modify fun p hp => hp.congr rfl rfl)
    fun _ => .of_exists fun before _ => expect_brace filter_ne_top

end Filter

/-! ## Structs -/

section Struct

theorem struct_ne_top : Block.struct ≠ .top := by decide

/-- Behind the brace that opens the fields. -/
def Inside (before : List Token) : Prop := 2 ≤ before.length

/-- At the start of a field. -/
def FieldSpot (before : List Token) : Prop :=
  Inside before ∧ ∀ t ∈ before.head?, t.type ≠ .NUMBER

theorem Inside.skips {before : List Token} {t : Token} (h : Inside before) (hbrace : t.type ≠ .RBRACE)
    (hclose : t.type = .RBRACKET → ∀ u ∈ before.head?, u.type ≠ .NUMBER) :
    t.type ≠ .RBRACE ∧ taken_by_expect .struct before t = false := by
  refine ⟨hbrace, Bool.eq_false_iff.mpr fun htaken => ?_⟩
  simp only [taken_by_expect, Bool.or_eq_true, Bool.and_eq_true, decide_eq_true_eq] at htaken
  rcases htaken with (hr | ⟨-, hl⟩) | ⟨hr, hnum⟩
  · exact hbrace hr
  · rw [Inside, hl] at h
    omega
  · match before, hnum with
    | u :: _, hnum => exact hclose hr u rfl (by simpa using hnum)

theorem Inside.cons {before : List Token} (h : Inside before) (t : Token) : Inside (t :: before) :=
  Nat.le_succ_of_le h

theorem Inside.field {before : List Token} (h : Inside before) {t : Token} (ht : t.type ≠ .NUMBER) :
    FieldSpot (t :: before) :=
  ⟨h.cons t, fun u hu => by cases hu; exact ht⟩

/-- The number in brackets and the bracket that closes it. -/
theorem size_then {before : List Token} {num : Token} (hspot : Inside before)
    (hnum : num.type = .NUMBER) {f : Unit → ParseM β} {Q : β → Parser → Prop}
    (h : ∀ t : Token, t.type = .RBRACKET →
      Meets (At N L .struct (t :: num :: before)) (f ()) Q (Noticed N L)) :
    Meets (Here N L .struct before (· = num))
      (parser_skip_token >>= fun _ => parser_expect .RBRACKET >>= f) Q (Noticed N L) := by
  refine take_then struct_ne_top (hspot.skips (by simp [hnum]) (by simp [hnum])) ?_
  exact expect_then struct_ne_top (by decide) (fun t ht => by simp [taken_by_expect, ht, hnum]) h

theorem parse_bytes_size_meets {before : List Token} (hspot : Inside before) :
    Meets (At N L .struct before) parse_bytes_size (fun _ => In N L .struct Inside)
      (Noticed N L) := by
  refine token_at fun lb => .ite (fun hlb => ?_) fun _ => parser_error_meets _
  refine take_then struct_ne_top (hspot.skips (by simp [hlb]) (by simp [hlb])) ?_
  refine require_then (token_here fun num hnum => ?_)
  refine size_then (hspot.cons _) hnum fun t _ => .pure fun p hp => ⟨_, ?_, hp⟩
  exact ((hspot.cons _).cons _).cons _

theorem parse_array_size_meets (f : Field) :
    Meets (In N L .struct FieldSpot) (parse_array_size f) (fun _ => In N L .struct FieldSpot)
      (Noticed N L) := by
  refine .of_exists fun before hspot => token_at fun lb => .ite (fun hlb => ?_) fun _ =>
    .pure fun p hp => ⟨before, hspot, hp.1⟩
  refine .ite (fun _ => parser_error_then _) fun _ => ?_
  refine take_then struct_ne_top (hspot.1.skips (by simp [hlb]) (by simp [hlb])) ?_
  refine require_then (token_here fun num hnum => .ite (fun _ => parser_error_then _) fun _ => ?_)
  refine size_then (hspot.1.cons _) hnum fun t ht => .pure fun p hp => ⟨_, ?_, hp⟩
  exact ((hspot.1.cons _).cons _).field (by simp [ht])

theorem parse_struct_field_meets {before : List Token} (hspot : FieldSpot before) {token : Token}
    (htoken : token.type ≠ .RBRACE) :
    Meets (Here N L .struct before (· = token)) parse_struct_field
      (fun _ => In N L .struct FieldSpot) (Noticed N L) := by
  have hname (type : FieldType) (size : ℕ) (type_name : CStr) :
      Meets (In N L .struct Inside) (do
        parser_require .IDENTIFIER "Expected field name"
        let field_name := cstr 64 (← current_token).text
        parser_skip_token
        let f ← parse_array_size (name_field type size type_name field_name)
        return { f with
          endian := (← get).proto.default_endian, is_variable := type = FieldType.VARBYTES })
        (fun _ => In N L .struct FieldSpot) (Noticed N L) := by
    refine .of_exists fun before hspot => require_then (token_here fun name hname => ?_)
    refine take_then struct_ne_top (hspot.skips (by simp [hname]) (by simp [hname])) ?_
    refine .bind (.before (fun p hp => ⟨_, hspot.field (by simp [hname]), hp⟩)
      (parse_array_size_meets _)) fun f => .get_any fun _ => .pure fun p hp => hp
  refine token_here fun token' htoken' => ?_
  subst htoken'
  refine take_then struct_ne_top (hspot.1.skips htoken fun _ => hspot.2) ?_
  refine .ite (fun _ => .bind (parse_bytes_size_meets (hspot.1.cons _)) fun _ => hname _ _ _)
    fun _ => .before (fun p hp => ⟨_, hspot.1.cons _, hp⟩) (hname _ _ _)

theorem struct_semicolon :
    Meets (In N L .struct FieldSpot) optional_semicolon (fun _ => In N L .struct FieldSpot)
      (Noticed N L) :=
  optional_semicolon_meets struct_ne_top fun t _ ht h => h.1.field (by simp [ht])

theorem parse_struct_fields_meets (n : ℕ) : ∀ s : StructDef,
    Meets (In N L .struct FieldSpot) (parse_struct_fields n s)
      (fun _ => In N L .struct FieldSpot) (Noticed N L) := by
  induction n with
  | zero => intro s; exact .throw (noticed_of_ne (by simp))
  | succ n ih =>
    intro s
    refine .of_exists fun before hspot => token_at fun token => .ite (fun htoken => ?_) fun _ =>
      .pure fun p hp => ⟨before, hspot, hp.1⟩
    refine .ite (fun _ => parser_error_then _) fun _ => ?_
    refine .bind ((reserve_detached _).meets fun _ _ ht hl hp => hp.congr ht hl) fun _ => ?_
    exact .bind (parse_struct_field_meets hspot htoken) fun _ => .bind struct_semicolon fun _ => ih _

/-- The name that starts a block of its own. -/
theorem name_then {name : Token} (hname : name.type = .IDENTIFIER) {f : Unit → ParseM β}
    {Q : β → Parser → Prop} (h : Meets (At N L .struct [name]) (f ()) Q (Noticed N L)) :
    Meets (Here N L .top [] (· = name)) (parser_skip_token >>= f) Q (Noticed N L) := by
  rintro p ⟨hat, rfl⟩
  have htake := hat.take fun htaken => by simp [taken_by_expect, hname] at htaken
  have hnext : next .top [] p.current_token = (.struct, [p.current_token]) := by
    simp [next, hname]
  rw [hnext] at htake
  exact h _ htake

theorem parse_struct_def_meets :
    Meets (At N L .top []) parse_struct_def (fun _ => At N L .top []) (Noticed N L) := by
  refine require_then (.get_any fun _ => .bind ((consult_detached _).meets fun _ _ ht hl hp =>
    hp.congr ht hl) fun _ => .get_any fun _ => .get_any fun _ => ?_)
  refine .ite (fun _ => .bind (Q := fun _ _ => False) (.throw (noticed_of_ne (by simp)))
    fun _ _ => False.elim) fun _ => token_here fun name hname => name_then hname ?_
  refine expect_then struct_ne_top (by decide) (fun t ht => by simp [taken_by_expect, ht])
    fun lb hlb => ?_
  refine .bind ((calloc_detached _).meets fun _ _ ht hl hp => hp.congr ht hl) fun _ => ?_
  have hspot : FieldSpot [lb, name] := ⟨le_refl 2, fun t ht => by cases ht; simp [hlb]⟩
  refine .bind turns_meets fun n => .bind (.before (fun p hp => ⟨_, hspot, hp⟩)
    (parse_struct_fields_meets _ _)) fun s => ?_
  exact .bind (Q := fun _ => In N L .struct FieldSpot) (.modify fun p hp => hp.congr rfl rfl)
    fun _ => .of_exists fun before _ => expect_brace struct_ne_top

end Struct

/-! ## The text -/

theorem parse_block_meets :
    Meets (At N L .top []) parse_block (fun _ => At N L .top []) (Noticed N L) := by
  refine token_then fun token => .before (fun p hp => hp.1) ?_
  split
  · exact parse_protocol_block_meets
  · exact parse_const_block_meets
  · exact parse_filter_block_meets
  · exact parse_struct_def_meets
  · exact parser_error_meets _

/-- The blocks of a text end at its end. -/
theorem parse_blocks_meets (n : ℕ) :
    Meets (At N L .top []) (parse_blocks n)
      (fun _ p => At N L .top [] p ∧ p.current_token.type = .EOF) (Noticed N L) := by
  induction n with
  | zero => exact .throw (noticed_of_ne (by simp))
  | succ n ih =>
    refine token_at fun token => .ite (fun _ => ?_) fun heof => .pure fun p hp => ⟨hp.1, ?_⟩
    · exact .before (fun p hp => hp.1) (.bind parse_block_meets fun _ => ih)
    · rw [hp.2]
      exact not_not.mp heof

theorem parse_source_meets :
    Meets (At N L .top []) parse_source
      (fun _ p => At N L .top [] p ∧ p.current_token.type = .EOF) (Noticed N L) := by
  have hstill {x : ParseM Unit} (hx : Detached x) :
      Meets (fun p => At N L .top [] p ∧ p.current_token.type = .EOF) x
        (fun _ p => At N L .top [] p ∧ p.current_token.type = .EOF) (Noticed N L) := by
    refine hx.meets fun p q htoks hlast hp => ⟨hp.1.congr htoks hlast, ?_⟩
    rw [Parser.current_token, htoks, hlast]
    exact hp.2
  exact .bind turns_meets fun n => .bind (parse_blocks_meets n) fun _ =>
    .bind (hstill flatten_structs_detached) fun _ => hstill compile_filter_rules_detached

end Positions

/-! ## Whole texts -/

theorem At.init (source : List Char) :
    At (notices .top [] (lex source).1) (lex source).2 .top [] (parser_init source) where
  ahead := rfl
  lexed := (lex_loop_lexed _ _).1
  last := rfl
  final := (lex_loop_lexed _ _).2

/-- Where `pdef_parse_string` returns a protocol, the parse has returned. -/
theorem accepted_iff_ok (source : List Char) :
    (pdef_parse_string source).1.protocol?.isSome ↔
      ∃ p, parse_source (parser_init source) = .ok () p := by
  rw [pdef_parse_string]
  cases h : parse_source (parser_init source) with
  | ok u p => simp [ParseResult.protocol?]
  | error e p => cases e <;> simp [ParseResult.protocol?]

/-- The tokens that a parse takes before the end of the text, and the one it
stops at. -/
def consumed (source : List Char) : List Token :=
  let left : ℕ := match parse_source (parser_init source) with
    | .ok _ p => p.toks.length
    | .error _ p => p.toks.length
  ((lex source).1 ++ [(lex source).2]).take ((lex source).1.length - left + 1)

/-- Whether a text would be accepted if the lexer reported nothing. -/
def otherwise_accepted (source : List Char) : Bool :=
  match parse_source (heed (parser_init source)) with
  | .ok _ _ => true
  | .error _ _ => false

theorem Token.Lexed.unreported {t : Token} (h : t.Lexed) : t.unreported.Lexed where
  word := h.word
  final _ := rfl

theorem At.init_heed (source : List Char) :
    At (notices .top [] ((lex source).1.map Token.unreported)) (lex source).2.unreported .top []
      (heed (parser_init source)) where
  ahead := rfl
  lexed := by
    intro t ht
    obtain ⟨u, hu, rfl⟩ := List.mem_map.mp ht
    have hlexed := (At.init source).lexed u hu
    exact ⟨hlexed.1.unreported, hlexed.2⟩
  last := rfl
  final := (At.init source).final.unreported

/-- A parser at the end of its text has no token left. -/
theorem At.ended {N : Bool} {L : Token} {p : Parser} (h : At N L .top [] p)
    (heof : p.current_token.type = .EOF) : p.toks = [] ∧ N = false ∧ L.type = .EOF := by
  have htoks : p.toks = [] := by
    rcases hcase : p.toks with - | ⟨t, ts⟩
    · rfl
    · rw [Parser.current_token, hcase] at heof
      exact absurd heof (h.lexed t (by rw [hcase]; exact List.mem_cons_self)).2
  refine ⟨htoks, ?_, ?_⟩
  · rw [← h.ahead, htoks]
    rfl
  · rw [Parser.current_token, htoks] at heof
    rw [← h.last]
    exact heof

/-- A text that the lexer cannot read to its end is wrong in any case. -/
theorem last_reported {source : List Char} (h : (lex source).2.ok = false) :
    otherwise_accepted source = false := by
  have hmeets := parse_source_meets _ (At.init_heed source)
  rw [otherwise_accepted]
  cases hrun : parse_source (heed (parser_init source)) with
  | error e p => rfl
  | ok u p =>
    rw [hrun] at hmeets
    have heof : (lex source).2.type = .EOF := (hmeets.1.ended hmeets.2).2.2
    rw [(At.init source).final.final heof] at h
    cases h

/-- **When the errors of the lexer are fatal**: a text that has a reported token
among those the parser consumes is rejected exactly if no token is reported, or
a report concerns the token that comes second after one `parser_expect` takes,
or the text would be rejected with nothing reported. -/
theorem report_fatal_iff (source : List Char) :
    ((∃ t ∈ consumed source, t.ok = false) → (pdef_parse_string source).1.protocol? = none) ↔
      (∀ t ∈ (lex source).1, t.ok = true) ∨ notices .top [] (lex source).1 = true ∨
        otherwise_accepted source = false := by
  have hmeets := parse_source_meets _ (At.init source)
  have hheed := parse_source_heedless (parser_init source)
  cases hrun : parse_source (parser_init source) with
  | ok u p =>
    rw [hrun] at hmeets hheed
    obtain ⟨htoks, hnone, heof⟩ := hmeets.1.ended hmeets.2
    have hlast : (lex source).2.ok = true := (At.init source).final.final heof
    have haccepted : (pdef_parse_string source).1.protocol? ≠ none :=
      Option.isSome_iff_ne_none.mp ((accepted_iff_ok source).mpr ⟨p, hrun⟩)
    have hall : consumed source = (lex source).1 ++ [(lex source).2] := by
      rw [consumed, hrun]
      show List.take ((lex source).1.length - p.toks.length + 1) _ = _
      rw [htoks]
      exact List.take_of_length_le (by simp)
    have hother : otherwise_accepted source = true := by
      rw [otherwise_accepted, hheed]
    rw [hall, hnone, hother]
    simp only [haccepted, imp_false, Bool.false_eq_true, Bool.true_eq_false, or_false, not_exists,
      not_and, Bool.not_eq_false]
    constructor
    · intro h t ht
      exact h t (List.mem_append_left _ ht)
    · intro h t ht
      rcases List.mem_append.mp ht with ht | ht
      · exact h t ht
      · rw [List.mem_singleton.mp ht, hlast]
  | error e p =>
    rw [hrun] at hmeets hheed
    have hrejected : (pdef_parse_string source).1.protocol? = none := by
      rw [← Option.not_isSome_iff_eq_none, accepted_iff_ok, hrun]
      rintro ⟨q, hq⟩
      cases hq
    refine iff_of_true (fun _ => hrejected) (.inr ?_)
    rcases hheed with hsilent | ⟨e', q, herror⟩
    · rcases hmeets hsilent with hnoticed | hreported
      · exact .inl hnoticed
      · exact .inr (last_reported hreported)
    · refine .inr ?_
      rw [otherwise_accepted, herror]

/-- `@const { A = 0x; }` is accepted, with the number that could not be read. -/
theorem empty_hex_number :
    (∃ t ∈ consumed "@const \x7b A = 0x; \x7d".toList, t.ok = false) ∧
      (pdef_parse_string "@const \x7b A = 0x; \x7d".toList).1.protocol? ≠ none := by
  decide +kernel

end RxNetCap.Pdef
