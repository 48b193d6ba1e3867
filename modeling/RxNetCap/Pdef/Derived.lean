/-
What the parser accepts is derived by the grammar, where nothing stands out of
place.

`Sound source l p` says that the lexemes `l` are the tokens still to come, that
the lexer could read each of them, and that nothing stands behind `=` and `!`
that may not stand there. `Takes source L l q` says that a word of `L` was taken
off them. Each lemma follows one function of the parser. What a field starts
with the parser does not look at, so the fields of the script have to be given
as they should be, and the reader of `RxNetCap.Pdef.Script` is followed along.
-/
import Mathlib.Order.CompletePartialOrder
import RxNetCap.Pdef.Sentences
import RxNetCap.Pdef.Names

set_option autoImplicit false

namespace RxNetCap.Pdef.Grammar

open RxNetCap.ErrState RxNetCap.Succession
open scoped Computability

variable {source : List Char} {l : List Lexeme} {p q : Parser} {u : Unit}
  {L M : Language Lexeme} {kind : Token → Prop} {type : TokenType}

/-! ## Words taken -/

/-- The lexemes that are still to come, with nothing out of place. -/
structure Sound (source : List Char) (l : List Lexeme) (p : Parser) : Prop extends Shows source l p where
  readable : ∀ x ∈ l, x.token.ok = true
  chain : l.IsChain Beside

theorem Sound.congr {p' : Parser} (h : Sound source l p) (htoks : p'.toks = p.toks)
    (hlast : p'.last = p.last) : Sound source l p' :=
  ⟨h.toShows.congr htoks hlast, h.readable, h.chain⟩

/-- What is left of sound lexemes is sound. -/
theorem Sound.rest {w rest : List Lexeme} (h : Sound source (w ++ rest) p) (hrest : Shows source rest q) :
    Sound source rest q :=
  ⟨hrest, fun x hx => h.readable x (List.mem_append_right _ hx), h.chain.right_of_append⟩

/-- A word was taken off the lexemes. -/
def Takes (source : List Char) (L : Language Lexeme) (l : List Lexeme) (q : Parser) : Prop :=
  ∃ w ∈ L, ∃ rest, l = w ++ rest ∧ Sound source rest q

theorem Takes.none (hl : Sound source l p) : Takes source 1 l p :=
  ⟨[], Language.nil_mem_one, l, rfl, hl⟩

theorem Takes.le (h : Takes source L l q) (hLM : L ≤ M) : Takes source M l q := by
  obtain ⟨w, hw, rest, hl, hrest⟩ := h
  exact ⟨w, hLM hw, rest, hl, hrest⟩

theorem Takes.left (h : Takes source L l q) : Takes source (L + M) l q :=
  h.le fun _ hw => (Language.mem_add _ _ _).mpr (.inl hw)

theorem Takes.right (h : Takes source M l q) : Takes source (L + M) l q :=
  h.le fun _ hw => (Language.mem_add _ _ _).mpr (.inr hw)

/-- A word, and another behind it. -/
theorem Takes.and (h : Takes source L l p) (hnext : ∀ rest, Sound source rest p → Takes source M rest q) :
    Takes source (L * M) l q := by
  obtain ⟨w, hw, rest, rfl, hrest⟩ := h
  obtain ⟨w', hw', rest', rfl, hrest'⟩ := hnext rest hrest
  exact ⟨w ++ w', Language.append_mem_mul hw hw', rest', (List.append_assoc _ _ _).symm, hrest'⟩

/-- One more word of many. -/
theorem Takes.more (h : Takes source L l p) (hnext : ∀ rest, Sound source rest p → Takes source L∗ rest q) :
    Takes source L∗ l q := (h.and hnext).le mul_kstar_le_kstar

theorem Takes.stop (hl : Sound source l p) : Takes source L∗ l p := (Takes.none hl).le one_le_kstar

/-- One token of a kind. -/
theorem Sound.one (hl : Sound source l p) (hreal : ¬ Final p.current_token) (hkind : kind p.current_token)
    (htoks : q.toks = p.toks.tail) (hlast : q.last = p.last) : Takes source (one kind) l q := by
  obtain ⟨x, rest, rfl, hx, -⟩ := hl.head hreal
  exact ⟨[x], ⟨x, rfl, hl.readable x List.mem_cons_self, hx ▸ hkind⟩, rest, rfl,
    hl.rest (w := [x]) (hl.tail htoks hlast)⟩

/-- One token of a type. -/
theorem Sound.tok (hl : Sound source l p) (htype : p.current_token.type = type)
    (hp : { p with toks := p.toks.tail } = q) (hreal : type ≠ .EOF ∧ type ≠ .ERROR) :
    Takes source (tok type) l q :=
  hl.one (not_final hreal htype) htype (congrArg Parser.toks hp).symm (congrArg Parser.last hp).symm

/-- One of some words. -/
theorem Sound.word {texts : List String} (hl : Sound source l p) (htype : p.current_token.type = .IDENTIFIER)
    (htext : p.current_token.text ∈ texts.map String.toList) (htoks : q.toks = p.toks.tail)
    (hlast : q.last = p.last) : Takes source (word texts) l q :=
  hl.one (not_final (by decide) htype) ⟨htype, htext⟩ htoks hlast

/-- What stands behind a token may stand there. -/
theorem Sound.beside {x : Lexeme} {rest : List Lexeme} {p1 : Parser} (hl : Sound source (x :: rest) p)
    (hrest : Sound source rest p1) (hreal : ¬ Final p1.current_token) :
    ∃ y : Lexeme, y.token = p1.current_token ∧ Beside x y := by
  obtain ⟨y, rest', rfl, hy, -⟩ := hrest.head hreal
  exact ⟨y, hy, (List.isChain_cons_cons.mp hl.chain).1⟩

/-- What is taken behind `=`, where no comma stands. -/
theorem Sound.assigned {p1 : Parser} (hl : Sound source l p) (hassign : p.current_token.type = .ASSIGN)
    (hp : { p with toks := p.toks.tail } = p1)
    (hnext : ∀ rest, Sound source rest p1 → p1.current_token.type ≠ .COMMA → Takes source L rest q) :
    Takes source (assigned L) l q := by
  obtain ⟨_, ⟨x, rfl, hok, hx⟩, rest, rfl, hrest⟩ := hl.tok hassign hp (by decide)
  have heq : [x] ∈ Grammar.tok .ASSIGN := ⟨x, rfl, hok, hx⟩
  have hcomma : p1.current_token.type ≠ .COMMA := by
    intro hcomma
    obtain ⟨y, hy, hbeside⟩ := hl.beside hrest (not_final (by decide) hcomma)
    exact hbeside.1 hx (by rw [Lexeme.type, hy, hcomma])
  obtain ⟨w', hw', rest', rfl, hrest'⟩ := hnext rest hrest hcomma
  exact ⟨[x] ++ w', Language.append_mem_mul heq hw', rest', rfl, hrest'⟩

/-- A semicolon may be left out. -/
theorem optional_semicolon_takes (hl : Sound source l p) (h : optional_semicolon p = .ok u q) :
    Takes source semicolon l q := by
  rw [optional_semicolon_ok] at h
  by_cases hsemi : p.current_token.type = .SEMICOLON
  · rw [if_pos hsemi] at h
    exact (hl.tok hsemi h (by decide)).right
  · rw [if_neg hsemi] at h
    exact h ▸ (Takes.none hl).left

/-! ## `@protocol` -/

theorem parse_protocol_name_takes (hl : Sound source l p) (h : parse_protocol_name p = .ok u q) :
    Takes source (tok .STRING + tok .IDENTIFIER) l q := by
  simp only [parse_protocol_name, bind_ok, current_token_ok, ite_ok, modify_ok,
    parser_skip_token_ok, parser_error_ok] at h
  obtain ⟨_, _, ⟨rfl, rfl⟩, ⟨htype, _, p1, hp1, hq⟩ | ⟨-, hfalse⟩⟩ := h
  · have htoks : q.toks = p.toks.tail := by rw [← hq, ← hp1]
    have hlast : q.last = p.last := by rw [← hq, ← hp1]
    rcases htype with htype | htype
    · exact (hl.one (not_final (by decide) htype) htype htoks hlast).left
    · exact (hl.one (not_final (by decide) htype) htype htoks hlast).right
  · exact hfalse.elim

theorem parse_protocol_endian_takes (hl : Sound source l p) (h : parse_protocol_endian p = .ok u q) :
    Takes source (word ["big", "little", "auto"]) l q := by
  simp only [parse_protocol_endian, set_endian, bind_ok, current_token_ok, ite_ok, modify_ok,
    parser_skip_token_ok, parser_error_ok] at h
  obtain ⟨_, _, ⟨rfl, rfl⟩, ⟨-, _, _, hfalse, -⟩ | ⟨hword, h⟩⟩ := h
  · exact hfalse.elim
  have hset : p.current_token.text ∈ ["big", "little", "auto"].map String.toList ∧
      q.toks = p.toks.tail ∧ q.last = p.last := by
    rcases h with ⟨htext, _, p1, hp1, hq⟩ | ⟨-, ⟨htext, _, p1, hp1, hq⟩ | ⟨-, ⟨htext, _, p1, hp1, hq⟩ |
      ⟨-, _, _, hfalse, -⟩⟩⟩
    · exact ⟨by simp [htext], by rw [← hq, ← hp1], by rw [← hq, ← hp1]⟩
    · exact ⟨by simp [htext], by rw [← hq, ← hp1], by rw [← hq, ← hp1]⟩
    · exact ⟨by simp [htext], by rw [← hq, ← hp1], by rw [← hq, ← hp1]⟩
    · exact hfalse.elim
  exact hl.word (not_not.mp hword) hset.1 hset.2.1 hset.2.2

/-- A port, and the others behind it. -/
theorem parse_port_takes (n : ℕ) : ∀ {l : List Lexeme} {p q : Parser} {u : Unit}, Sound source l p → (do
      parser_require .NUMBER "Expected port number"
      parser_skip_token
      if (← current_token).type = .COMMA then parse_protocol_ports n : ParseM Unit) p = .ok u q →
    Takes source ports l q := by
  induction n with
  | zero =>
    intro l p q u hl h
    simp only [bind_ok, current_token_ok, ite_ok, pure_ok, parser_require_ok, parser_skip_token_ok] at h
    obtain ⟨_, _, ⟨hnumber, rfl⟩, _, p1, hp1, _, _, ⟨rfl, rfl⟩, ⟨-, hzero⟩ | ⟨-, -, rfl⟩⟩ := h
    · exact ((throw_ok _ _ _ _).mp hzero).elim
    · exact (hl.tok hnumber hp1 (by decide)).and fun rest hrest => .stop hrest
  | succ n ih =>
    intro l p q u hl h
    simp only [bind_ok _ _ p, parser_require_ok] at h
    obtain ⟨_, _, ⟨hnumber, rfl⟩, h⟩ := h
    rw [bind_ok] at h
    obtain ⟨_, p1, hp1, h⟩ := h
    rw [parser_skip_token_ok] at hp1
    refine (hl.tok hnumber hp1 (by decide)).and fun rest hrest => ?_
    rw [bind_ok] at h
    obtain ⟨_, _, hsame, h⟩ := h
    rw [current_token_ok] at hsame
    obtain ⟨rfl, rfl⟩ := hsame
    rw [ite_ok] at h
    rcases h with ⟨hcomma, h⟩ | ⟨-, h⟩
    · -- a comma is taken at the start of the next turn
      rw [parse_protocol_ports, bind_ok] at h
      obtain ⟨_, _, hsame, h⟩ := h
      rw [current_token_ok] at hsame
      obtain ⟨rfl, rfl⟩ := hsame
      rw [ite_ok] at h
      rcases h with ⟨-, h⟩ | ⟨hnot, -⟩
      · rw [bind_ok] at h
        obtain ⟨_, p2, hp2, h⟩ := h
        rw [parser_skip_token_ok] at hp2
        have hports : Takes source (tok .COMMA * ports) rest q :=
          (hrest.tok hcomma hp2 (by decide)).and fun rest' hrest' => ih hrest' h
        rw [ports, ← mul_assoc] at hports
        exact hports.le mul_kstar_le_kstar
      · exact absurd hcomma hnot
    · rw [pure_ok] at h
      obtain ⟨-, rfl⟩ := h
      exact .stop hrest

/-- Where no comma stands in front, the list of ports is as it should be. -/
theorem parse_protocol_ports_takes (n : ℕ) (hl : Sound source l p) (hcomma : p.current_token.type ≠ .COMMA)
    (h : parse_protocol_ports n p = .ok u q) : Takes source ports l q := by
  cases n with
  | zero => exact ((throw_ok _ _ _ _).mp h).elim
  | succ n =>
    rw [parse_protocol_ports, bind_ok] at h
    obtain ⟨_, _, hsame, h⟩ := h
    rw [current_token_ok] at hsame
    obtain ⟨rfl, rfl⟩ := hsame
    rw [ite_ok] at h
    rcases h with ⟨hfalse, -⟩ | ⟨-, h⟩
    · exact absurd hfalse hcomma
    · exact parse_port_takes n hl h

/-- A key of the block is short, so its buffer holds all of it. -/
theorem key_text {text : CStr} {key : String} (hkey : cstr 64 text = key.toList) (hshort : key.toList.length < 63) :
    text = key.toList := by
  rw [← hkey, cstr] at hshort
  rw [← hkey, cstr]
  exact (List.take_of_length_le (by rw [List.length_take] at hshort; omega)).symm

theorem parse_protocol_entry_takes (hl : Sound source l p) (h : parse_protocol_entry p = .ok u q) :
    Takes source (setting * semicolon) l q := by
  simp only [parse_protocol_entry, bind_ok, current_token_ok, turns_ok, ite_ok, parser_require_ok,
    parser_skip_token_ok, parser_expect_ok, parser_error_ok] at h
  obtain ⟨_, _, ⟨hword, rfl⟩, _, _, ⟨rfl, rfl⟩, _, p1, hp1, _, p2, ⟨hassign, hp2, -⟩, h⟩ := h
  -- the key is taken first, whatever it is
  have hkeyed : ∀ {key : String} {L : Language Lexeme} {p3 : Parser},
      cstr 64 p.current_token.text = key.toList → key.toList.length < 63 →
      (∀ rest, Sound source rest p2 → p2.current_token.type ≠ .COMMA → Takes source L rest p3) →
      Takes source (word [key] * assigned L) l p3 := by
    intro key L p3 hkey hshort hvalue
    refine (hl.word hword ?_ (congrArg Parser.toks hp1).symm (congrArg Parser.last hp1).symm).and fun l1 hl1 =>
      hl1.assigned hassign hp2 hvalue
    rw [key_text hkey hshort]
    exact List.mem_singleton.mpr rfl
  rcases h with ⟨hkey, _, p3, h, hsemi⟩ | ⟨-, ⟨hkey, _, p3, h, hsemi⟩ |
    ⟨-, ⟨hkey, _, _, ⟨-, rfl⟩, _, p3, h, hsemi⟩ | ⟨-, _, _, hfalse, -⟩⟩⟩
  · exact (hkeyed hkey (by decide) fun rest hrest _ => parse_protocol_name_takes hrest h).left.left.and
      fun rest hrest => optional_semicolon_takes hrest hsemi
  · exact (hkeyed hkey (by decide) fun rest hrest _ => parse_protocol_endian_takes hrest h).right.left.and
      fun rest hrest => optional_semicolon_takes hrest hsemi
  · exact (hkeyed hkey (by decide) fun rest hrest hcomma =>
      parse_protocol_ports_takes _ hrest hcomma h).right.and
      fun rest hrest => optional_semicolon_takes hrest hsemi
  · exact hfalse.elim

theorem parse_protocol_entries_takes (n : ℕ) : ∀ {l : List Lexeme} {p q : Parser} {u : Unit},
    Sound source l p → parse_protocol_entries n p = .ok u q → Takes source (setting * semicolon)∗ l q := by
  induction n with
  | zero => intro _ _ _ _ _ h; exact ((throw_ok _ _ _ _).mp h).elim
  | succ n ih =>
    intro l p q u hl h
    simp only [parse_protocol_entries, bind_ok, current_token_ok, ite_ok, pure_ok] at h
    obtain ⟨_, _, ⟨rfl, rfl⟩, ⟨-, _, p1, hentry, hrest⟩ | ⟨-, -, rfl⟩⟩ := h
    · exact (parse_protocol_entry_takes hl hentry).more fun rest hl1 => ih hl1 hrest
    · exact .stop hl

theorem parse_protocol_block_takes (hl : Sound source l p) (h : parse_protocol_block p = .ok u q) :
    Takes source protocol_block l q := by
  simp only [parse_protocol_block, bind_ok, get_ok, consult_ok, turns_ok, parser_expect_ok] at h
  obtain ⟨_, p1, ⟨hprotocol, hp1, -⟩, _, p2, ⟨hbrace, hp2, -⟩, _, _, ⟨rfl, rfl⟩, _, p3, hp3, _, _,
    ⟨-, rfl⟩, _, p4, hentries, hclose, hq, -⟩ := h
  refine (((hl.tok hprotocol hp1 (by decide)).and fun l1 hl1 => hl1.tok hbrace hp2 (by decide)).and
    fun l2 hl2 => ?_).and fun l4 hl4 => hl4.tok hclose hq (by decide)
  exact parse_protocol_entries_takes _
    (hl2.congr (congrArg Parser.toks hp3).symm (congrArg Parser.last hp3).symm) hentries

/-! ## `@const` -/

theorem parse_const_entry_takes (hl : Sound source l p) (h : parse_const_entry p = .ok u q) :
    Takes source (constant * semicolon) l q := by
  simp only [parse_const_entry, bind_ok, current_token_ok, parser_require_ok,
    parser_skip_token_ok, parser_expect_ok, add_constant_ok] at h
  obtain ⟨_, _, ⟨hname, rfl⟩, _, _, ⟨rfl, rfl⟩, _, p1, hp1, _, p2, ⟨hassign, hp2, -⟩, _, _,
    ⟨hvalue, rfl⟩, _, _, ⟨rfl, rfl⟩, _, p3, hp3, _, p4, hp4, hsemi⟩ := h
  refine ((hl.tok hname hp1 (by decide)).and fun l1 hl1 => hl1.assigned hassign hp2 fun l2 hl2 _ =>
    hl2.tok hvalue hp3 (by decide)).and fun l3 hl3 => ?_
  exact optional_semicolon_takes
    (hl3.congr (congrArg Parser.toks hp4).symm (congrArg Parser.last hp4).symm) hsemi

theorem parse_const_entries_takes (n : ℕ) : ∀ {l : List Lexeme} {p q : Parser} {u : Unit},
    Sound source l p → parse_const_entries n p = .ok u q → Takes source (constant * semicolon)∗ l q := by
  induction n with
  | zero => intro _ _ _ _ _ h; exact ((throw_ok _ _ _ _).mp h).elim
  | succ n ih =>
    intro l p q u hl h
    simp only [parse_const_entries, bind_ok, current_token_ok, ite_ok, pure_ok] at h
    obtain ⟨_, _, ⟨rfl, rfl⟩, ⟨-, _, p1, hentry, hrest⟩ | ⟨-, -, rfl⟩⟩ := h
    · exact (parse_const_entry_takes hl hentry).more fun rest hl1 => ih hl1 hrest
    · exact .stop hl

theorem parse_const_block_takes (hl : Sound source l p) (h : parse_const_block p = .ok u q) :
    Takes source const_block l q := by
  simp only [parse_const_block, bind_ok, turns_ok, parser_expect_ok] at h
  obtain ⟨_, p1, ⟨hconst, hp1, -⟩, _, p2, ⟨hbrace, hp2, -⟩, _, _, ⟨rfl, rfl⟩, _, p3, hentries,
    hclose, hp3, -⟩ := h
  exact (((hl.tok hconst hp1 (by decide)).and fun l1 hl1 => hl1.tok hbrace hp2 (by decide)).and
    fun l2 hl2 => parse_const_entries_takes _ hl2 hentries).and fun l3 hl3 => hl3.tok hclose hp3 (by decide)

/-! ## Operands and lists -/

theorem parse_operand_takes {text : String} {v : ℕ} (hl : Sound source l p) (h : parse_operand text p = .ok v q) :
    Takes source operand l q := by
  have hlast : q.last = p.last := by rw [(parse_operand_quiet _ _ _ _ h).frame]
  simp only [parse_operand, bind_ok, current_token_ok, ite_ok, parser_skip_token_ok, pure_ok,
    parser_error_ok] at h
  obtain ⟨_, _, ⟨rfl, rfl⟩, ⟨hnumber, _, p1, hp1, rfl, rfl⟩ | ⟨-, ⟨hname, found, p1, hlookup, h⟩ |
    ⟨-, hfalse⟩⟩⟩ := h
  · exact (hl.tok hnumber hp1 (by decide)).left
  · cases found with
    | none => exact ((parser_error_ok _ _ _ _).mp h).elim
    | some value =>
      simp only [bind_ok, parser_skip_token_ok, pure_ok] at h
      obtain ⟨_, p2, hp2, -, rfl⟩ := h
      have htoks := (lookup_constant_finds hlookup).2
      exact (hl.one (not_final (by decide) hname) hname (by rw [← hp2, htoks]) hlast).right
  · exact hfalse.elim

/-- The values of a list, up to its bracket. -/
theorem parse_value_list_takes (n : ℕ) : ∀ {l : List Lexeme} {values values' : Table ℕ} {p q : Parser},
    Sound source l p → parse_value_list n values p = .ok values' q →
    Takes source (operand * (tok .COMMA * operand)∗ * tok .RBRACKET) l q := by
  induction n with
  | zero => intro _ _ _ _ _ _ h; exact ((throw_ok _ _ _ _).mp h).elim
  | succ n ih =>
    intro l values values' p q hl h
    simp only [parse_value_list, bind_ok, current_token_ok, ite_ok, pure_ok, parser_error_ok,
      parser_skip_token_ok] at h
    obtain ⟨room, p1, hreserve, v, p2, hoperand, _, _, ⟨rfl, rfl⟩, h⟩ := h
    obtain ⟨-, hp1⟩ := reserve_elems hreserve
    have hl1 : Sound source l p1 := hl.congr (by rw [hp1]) (by rw [hp1])
    have hfirst := parse_operand_takes hl1 hoperand
    rcases h with ⟨hcomma, _, p3, hp3, hrest⟩ | ⟨-, ⟨hclose, _, p3, hp3, -, rfl⟩ | ⟨-, hfalse⟩⟩
    · have hmore := hfirst.and fun l2 hl2 => (hl2.tok hcomma hp3 (by decide)).and fun l3 hl3 => ih hl3 hrest
      refine hmore.le ?_
      calc operand * (tok .COMMA * (operand * (tok .COMMA * operand)∗ * tok .RBRACKET))
          = operand * (tok .COMMA * operand * (tok .COMMA * operand)∗) * tok .RBRACKET := by
            simp only [mul_assoc]
        _ ≤ operand * (tok .COMMA * operand)∗ * tok .RBRACKET :=
            mul_le_mul_left (mul_le_mul_right mul_kstar_le_kstar _) _
    · exact (hfirst.and fun l2 hl2 => .stop hl2).and fun l2 hl2 => hl2.tok hclose hp3 (by decide)
    · exact hfalse.elim

theorem parse_in_list_takes {op : ConditionOp} {cond cond' : FilterCondition} (hl : Sound source l p)
    (hin : p.current_token.type = .IN) (h : parse_in_list op cond p = .ok cond' q) :
    Takes source (tok .IN * value_list) l q ∧ cond'.op = op := by
  simp only [parse_in_list, bind_ok, turns_ok, ite_ok, parser_error_ok, pure_ok,
    parser_skip_token_ok, parser_expect_ok, calloc_ok] at h
  obtain ⟨_, p1, hp1, _, p2, ⟨hopen, hp2, -⟩, _, _, ⟨-, rfl⟩, t, p3, ⟨-, hp3⟩, values, p4, hlist, h⟩ := h
  rcases h with ⟨-, _, _, hfalse, -⟩ | ⟨-, rfl, rfl⟩
  · exact hfalse.elim
  refine ⟨?_, rfl⟩
  have hlisted := (hl.tok hin hp1 (by decide)).and fun l1 hl1 => (hl1.tok hopen hp2 (by decide)).and
    fun l2 hl2 => parse_value_list_takes _
      (hl2.congr (congrArg Parser.toks hp3).symm (congrArg Parser.last hp3).symm) hlist
  refine hlisted.le (le_of_eq ?_)
  rw [value_list]
  simp only [mul_assoc]

/-! ## Conditions -/

/-- What an operator takes: a whole list, or everything but the value. -/
inductive OperatorTakes (source : List Char) (l : List Lexeme) (cond : FilterCondition) (q : Parser) : Prop
  | list (op : cond.op = .IN ∨ cond.op = .NOT_IN) (takes : Takes source operation l q)
  | pending (L : Language Lexeme) (op : cond.op ≠ .IN ∧ cond.op ≠ .NOT_IN)
      (operation : L * operand ≤ operation) (takes : Takes source L l q)

/-- A list, behind an `in` or a `!` and an `in`. -/
theorem membership_le : (tok .NOT * tok .IN + tok .IN) * value_list ≤ operation :=
  fun _ hw => (Language.mem_add _ _ _).mpr (.inr hw)

theorem comparison_takes {cond cond' : FilterCondition} (hl : Sound source l p)
    (h : parse_comparison cond p = .ok cond' q) : OperatorTakes source l cond' q := by
  simp only [parse_comparison, bind_ok, current_token_ok] at h
  obtain ⟨_, _, ⟨rfl, rfl⟩, h⟩ := h
  cases hcmp : comparison_op p.current_token.type with
  | none => simp only [hcmp, parser_error_ok] at h
  | some cmp =>
    simp only [hcmp, bind_ok, pure_ok, parser_skip_token_ok] at h
    obtain ⟨_, p1, hp1, rfl, rfl⟩ := h
    obtain ⟨hplain, heof, herror, -⟩ := comparison_op_plain hcmp
    have hreal : ¬ Final p.current_token := not_final ⟨heof, herror⟩ rfl
    have hkind : ∀ {type : TokenType} {op : ConditionOp}, comparison_op type = some op →
        type = .ASSIGN ∨ type ∈ [TokenType.EQ, .NE, .GT, .GE, .LT, .LE] := by
      intro type op htype
      cases type <;> simp [comparison_op] at htype ⊢
    rcases hkind hcmp with hassign | hother
    · refine .pending (tok .ASSIGN) ⟨hplain.1, hplain.2.1⟩ ?_ (hl.tok hassign hp1 (by decide))
      exact fun _ hw => (Language.mem_add _ _ _).mpr (.inl ((Language.mem_add _ _ _).mpr
        (.inl ((Language.mem_add _ _ _).mpr (.inr hw)))))
    · refine .pending comparison ⟨hplain.1, hplain.2.1⟩ ?_
        (hl.one hreal hother (congrArg Parser.toks hp1).symm (congrArg Parser.last hp1).symm)
      exact fun _ hw => (Language.mem_add _ _ _).mpr (.inl ((Language.mem_add _ _ _).mpr (.inr hw)))

theorem parse_operator_takes {cond cond' : FilterCondition} (hl : Sound source l p)
    (h : parse_operator cond p = .ok cond' q) : OperatorTakes source l cond' q := by
  simp only [parse_operator, bind_ok, current_token_ok, ite_ok, pure_ok, parser_skip_token_ok,
    parser_expect_ok] at h
  obtain ⟨_, _, ⟨rfl, rfl⟩, ⟨hand, _, p1, hp1, mask, p2, hmask, _, p3, ⟨hassign, hp3, -⟩, rfl, rfl⟩ |
    ⟨-, negate, p1, hnot, _, _, ⟨rfl, rfl⟩, h⟩⟩ := h
  · -- a mask, and the value is still to come
    refine .pending (tok .AND * operand * tok .ASSIGN) (by simp) ?_
      (((hl.tok hand hp1 (by decide)).and fun l1 hl1 => parse_operand_takes hl1 hmask).and
        fun l2 hl2 => hl2.tok hassign hp3 (by decide))
    rw [mul_assoc]
    exact fun _ hw => (Language.mem_add _ _ _).mpr (.inl ((Language.mem_add _ _ _).mpr
      (.inl ((Language.mem_add _ _ _).mpr (.inl hw)))))
  simp only [parse_not, bind_ok, current_token_ok, ite_ok, parser_skip_token_ok, pure_ok] at hnot
  obtain ⟨_, _, ⟨rfl, rfl⟩, ⟨hmark, _, p2, hp2, rfl, rfl⟩ | ⟨-, rfl, rfl⟩⟩ := hnot
  · -- behind `!` nothing but `in` may stand
    obtain ⟨_, ⟨x, rfl, hok, hx⟩, rest, rfl, hrest⟩ := hl.tok hmark hp2 (by decide)
    have hx : x.type = .NOT := hx
    have hin : p2.current_token.type = .IN := by
      have hreal : ¬ Final p2.current_token := by
        rcases h with ⟨hin | hin, -⟩ | ⟨-, hcompare⟩
        · exact not_final (by decide) hin
        · exact not_final (by decide) hin.1
        · simp only [parse_comparison, bind_ok, current_token_ok] at hcompare
          obtain ⟨_, _, ⟨rfl, rfl⟩, hcompare⟩ := hcompare
          cases hcmp : comparison_op p2.current_token.type with
          | none => simp only [hcmp, parser_error_ok] at hcompare
          | some cmp => exact not_final ⟨(comparison_op_plain hcmp).2.1, (comparison_op_plain hcmp).2.2.1⟩ rfl
      obtain ⟨y, hy, hbeside⟩ := hl.beside hrest hreal
      rw [← hy]
      exact hbeside.2 hx
    rcases h with ⟨-, hlist⟩ | ⟨hother, -⟩
    · obtain ⟨⟨w, hw, rest', rfl, hrest'⟩, hop⟩ := parse_in_list_takes hrest hin hlist
      refine .list (.inr hop) ⟨[x] ++ w, membership_le ?_, rest', rfl, hrest'⟩
      have hmark : [x] ∈ tok .NOT := ⟨x, rfl, hok, hx⟩
      rw [add_mul, mul_assoc]
      exact (Language.mem_add _ _ _).mpr (.inl (Language.append_mem_mul hmark hw))
    · exact absurd (.inl hin) hother
  · rcases h with ⟨hin, hlist⟩ | ⟨-, hcompare⟩
    · have hin : p.current_token.type = .IN := by
        refine hin.resolve_right fun hword => ?_
        obtain ⟨x, rest, rfl, hx, -⟩ := hl.head (not_final (by decide) hword.1)
        exact (hl.is rfl).not_in (hx ▸ hword)
      obtain ⟨htakes, hop⟩ := parse_in_list_takes hl hin hlist
      refine .list (.inl hop) (htakes.le fun w hw => membership_le ?_)
      rw [add_mul]
      exact (Language.mem_add _ _ _).mpr (.inr hw)
    · exact comparison_takes hl hcompare

/-! ## Field paths -/

theorem parse_field_indices_takes {out_size : ℕ} (n : ℕ) : ∀ {l : List Lexeme} {out out' : CStr}
    {p q : Parser}, Sound source l p → parse_field_indices out_size n out p = .ok out' q →
    Takes source bracketed∗ l q := by
  induction n with
  | zero => intro _ _ _ _ _ _ h; exact ((throw_ok _ _ _ _).mp h).elim
  | succ n ih =>
    intro l out out' p q hl h
    simp only [parse_field_indices, bind_ok, current_token_ok, ite_ok, pure_ok, append_token_ok,
      parser_require_ok, parser_skip_token_ok, parser_expect_ok] at h
    obtain ⟨_, _, ⟨rfl, rfl⟩, ⟨hopen, _, _, ⟨-, rfl, rfl⟩, _, p1, hp1, _, _, ⟨hnumber, rfl⟩, _, _,
      ⟨rfl, rfl⟩, _, _, ⟨-, rfl, rfl⟩, _, p2, hp2, _, p3, ⟨hclose, hp3, -⟩, _, _, ⟨-, rfl, rfl⟩,
      hrest⟩ | ⟨-, rfl, rfl⟩⟩ := h
    · exact (((hl.tok hopen hp1 (by decide)).and fun l1 hl1 => hl1.tok hnumber hp2 (by decide)).and
        fun l2 hl2 => hl2.tok hclose hp3 (by decide)).more fun l3 hl3 => ih hl3 hrest
    · exact .stop hl

/-- The steps of a path, the first of which is of a kind. -/
theorem parse_field_steps_takes {out_size : ℕ} (n : ℕ) : ∀ {kind : Token → Prop} {l : List Lexeme}
    {out out' : CStr} {p q : Parser}, Sound source l p → p.current_token.type = .IDENTIFIER →
    kind p.current_token → parse_field_steps out_size n out p = .ok out' q →
    Takes source (one kind * bracketed∗ * (tok .DOT * tok .IDENTIFIER * bracketed∗)∗) l q := by
  induction n with
  | zero => intro _ _ _ _ _ _ _ _ _ h; exact ((throw_ok _ _ _ _).mp h).elim
  | succ n ih =>
    intro kind l out out' p q hl hword hkind h
    simp only [parse_field_steps, bind_ok, current_token_ok, ite_ok, pure_ok, append_token_ok,
      parser_require_ok, parser_skip_token_ok, turns_ok] at h
    obtain ⟨_, _, ⟨rfl, rfl⟩, _, _, ⟨-, rfl, rfl⟩, _, p1, hp1, _, _, ⟨rfl, rfl⟩, out2, p2, hindices, _, _,
      ⟨rfl, rfl⟩, h⟩ := h
    refine ((hl.one (not_final (by decide) hword) hkind (congrArg Parser.toks hp1).symm
      (congrArg Parser.last hp1).symm).and fun l1 hl1 => parse_field_indices_takes _ hl1 hindices).and
      fun l2 hl2 => ?_
    rcases h with ⟨hdot, _, _, ⟨-, rfl, rfl⟩, _, p3, hp3, _, _, ⟨hnext, rfl⟩, hrest⟩ | ⟨-, rfl, rfl⟩
    · have hsteps : ∀ l3, Sound source l3 p3 →
          Takes source (tok .IDENTIFIER * bracketed∗ * (tok .DOT * tok .IDENTIFIER * bracketed∗)∗) l3 q :=
        fun l3 hl3 => ih hl3 hnext hnext hrest
      refine ((hl2.tok hdot hp3 (by decide)).and hsteps).le ?_
      rw [← mul_assoc, ← mul_assoc]
      exact mul_kstar_le_kstar
    · exact .stop hl2

theorem parse_condition_takes {cond : FilterCondition} (hl : Sound source l p)
    (hplain : p.current_token.text ∉ ["sliding".toList, "sliding_max".toList])
    (h : parse_condition p = .ok cond q) : Takes source (path * operation) l q := by
  simp only [parse_condition, bind_ok, parser_require_ok, ite_ok, pure_ok] at h
  obtain ⟨_, _, ⟨hword, rfl⟩, out, p1, hpath, cond1, p2, hop, h⟩ := h
  simp only [parse_field_path, bind_ok, parser_require_ok, turns_ok] at hpath
  obtain ⟨_, _, ⟨-, rfl⟩, _, _, ⟨-, rfl⟩, hpath⟩ := hpath
  refine Takes.and (L := path) (parse_field_steps_takes _ hl hword ⟨hword, hplain⟩ hpath) fun l1 hl1 => ?_
  rcases h with ⟨hvalued, v, p3, hvalue, rfl, rfl⟩ | ⟨hlist, rfl, rfl⟩
  · cases parse_operator_takes hl1 hop with
    | list hop => exact absurd hop (by tauto)
    | pending L hop hle htakes =>
      exact (htakes.and fun l2 hl2 => parse_operand_takes hl2 hvalue).le hle
  · cases parse_operator_takes hl1 hop with
    | list hop htakes => exact htakes
    | pending L hop => exact absurd hop hlist

/-! ## `@filter` -/

theorem parse_sliding_takes {b : Bool} (hl : Sound source l p) (hword : p.current_token.type = .IDENTIFIER)
    (htext : p.current_token.text = "sliding".toList) (h : parse_sliding p = .ok b q) :
    Takes source (word ["sliding"] * assigned (word ["true", "false"] + tok .NUMBER)) l q := by
  simp only [parse_sliding, bind_ok, parser_skip_token_ok, parser_expect_ok, current_token_ok,
    ite_ok, pure_ok, parser_error_ok] at h
  obtain ⟨_, p1, hp1, _, p2, ⟨hassign, hp2, -⟩, _, _, ⟨rfl, rfl⟩, h⟩ := h
  refine (hl.word hword (by simp [htext]) (congrArg Parser.toks hp1).symm
    (congrArg Parser.last hp1).symm).and fun l1 hl1 => hl1.assigned hassign hp2 fun l2 hl2 _ => ?_
  rcases h with ⟨hname, ⟨htrue, _, p3, hp3, -, rfl⟩ | ⟨-, ⟨hfalse, _, p3, hp3, -, rfl⟩ | ⟨-, hnone⟩⟩⟩ |
    ⟨-, ⟨hnumber, _, p3, hp3, -, rfl⟩ | ⟨-, hnone⟩⟩
  · exact (hl2.word hname (by simp [htrue]) (congrArg Parser.toks hp3).symm
      (congrArg Parser.last hp3).symm).left
  · exact (hl2.word hname (by simp [hfalse]) (congrArg Parser.toks hp3).symm
      (congrArg Parser.last hp3).symm).left
  · exact hnone.elim
  · exact (hl2.tok hnumber hp3 (by decide)).right
  · exact hnone.elim

theorem parse_sliding_max_takes {n : ℕ} (hl : Sound source l p) (hword : p.current_token.type = .IDENTIFIER)
    (htext : p.current_token.text = "sliding_max".toList) (h : parse_sliding_max p = .ok n q) :
    Takes source (word ["sliding_max"] * assigned (tok .NUMBER)) l q := by
  simp only [parse_sliding_max, bind_ok, parser_skip_token_ok, parser_expect_ok, current_token_ok,
    parser_require_ok, pure_ok] at h
  obtain ⟨_, p1, hp1, _, p2, ⟨hassign, hp2, -⟩, _, _, ⟨hnumber, rfl⟩, _, _, ⟨rfl, rfl⟩, _, p3, hp3,
    -, rfl⟩ := h
  exact (hl.word hword (by simp [htext]) (congrArg Parser.toks hp1).symm
    (congrArg Parser.last hp1).symm).and fun l1 hl1 => hl1.assigned hassign hp2 fun l2 hl2 _ =>
      hl2.tok hnumber hp3 (by decide)

theorem parse_filter_item_takes {rule rule' : TempFilterRule} (hl : Sound source l p)
    (h : parse_filter_item rule p = .ok rule' q) : Takes source (item * semicolon) l q := by
  simp only [parse_filter_item, bind_ok, current_token_ok, ite_ok, pure_ok] at h
  obtain ⟨_, _, ⟨rfl, rfl⟩, ⟨⟨hword, htext⟩, b, p1, hsliding, _, p2, hsemi, rfl, rfl⟩ | ⟨hnot, h⟩⟩ := h
  · exact (parse_sliding_takes hl hword htext hsliding).left.left.and
      fun rest hrest => optional_semicolon_takes hrest hsemi
  rcases h with ⟨⟨hword, htext⟩, n, p1, hmax, _, p2, hsemi, rfl, rfl⟩ |
    ⟨hnot', conditions, p1, hreserve, cond, p2, hcond, _, p3, hsemi, rfl, rfl⟩
  · exact (parse_sliding_max_takes hl hword htext hmax).right.left.and
      fun rest hrest => optional_semicolon_takes hrest hsemi
  · obtain ⟨-, hp1⟩ := reserve_elems hreserve
    have hhead : p1.current_token = p.current_token := by rw [hp1]; rfl
    have hword : p.current_token.type = .IDENTIFIER := by
      simp only [parse_condition, bind_ok, parser_require_ok] at hcond
      obtain ⟨_, _, ⟨hword, -⟩, -⟩ := hcond
      rwa [hhead] at hword
    refine (parse_condition_takes (hl.congr (by rw [hp1]) (by rw [hp1])) ?_ hcond).right.and
      fun rest hrest => optional_semicolon_takes hrest hsemi
    rw [hhead, List.mem_cons, List.mem_singleton, not_or]
    exact ⟨fun htext => hnot ⟨hword, htext⟩, fun htext => hnot' ⟨hword, htext⟩⟩

theorem parse_filter_items_takes (n : ℕ) : ∀ {l : List Lexeme} {rule rule' : TempFilterRule} {p q : Parser},
    Sound source l p → parse_filter_items n rule p = .ok rule' q → Takes source (item * semicolon)∗ l q := by
  induction n with
  | zero => intro _ _ _ _ _ _ h; exact ((throw_ok _ _ _ _).mp h).elim
  | succ n ih =>
    intro l rule rule' p q hl h
    simp only [parse_filter_items, bind_ok, current_token_ok, ite_ok, pure_ok] at h
    obtain ⟨_, _, ⟨rfl, rfl⟩, ⟨-, rule1, p1, hitem, hrest⟩ | ⟨-, -, rfl⟩⟩ := h
    · exact (parse_filter_item_takes hl hitem).more fun rest hl1 => ih hl1 hrest
    · exact .stop hl

theorem parse_filter_block_takes (hl : Sound source l p) (h : parse_filter_block p = .ok u q) :
    Takes source filter_block l q := by
  simp only [parse_filter_block, bind_ok, get_ok, consult_ok, current_token_ok, turns_ok,
    modify_ok, ite_ok, parser_error_ok, parser_require_ok, parser_skip_token_ok,
    parser_expect_ok] at h
  obtain ⟨_, p1, ⟨hfilter, hp1, -⟩, _, _, ⟨hname, rfl⟩, _, _, ⟨rfl, rfl⟩, _, _, rfl, _, _, ⟨rfl, rfl⟩,
    _, _, ⟨rfl, rfl⟩, h⟩ := h
  rcases h with ⟨-, _, _, hfalse, -⟩ | ⟨-, _, _, ⟨rfl, rfl⟩, h⟩
  · exact hfalse.elim
  obtain ⟨_, p2, hp2, _, p3, ⟨hbrace, hp3, -⟩, conditions, p4, hcalloc, _, _, ⟨rfl, rfl⟩, rule, p5,
    hitems, _, p6, hp6, hclose, hq, -⟩ := h
  obtain ⟨-, hp4⟩ := (calloc_ok _ _ _ _).mp hcalloc
  have hname_takes : ∀ l1, Sound source l1 p1 → Takes source (tok .IDENTIFIER) l1 p2 := fun l1 hl1 =>
    hl1.one (not_final (by decide) hname) hname (congrArg Parser.toks hp2).symm (congrArg Parser.last hp2).symm
  have hitems_takes : ∀ l3, Sound source l3 p3 → Takes source (item * semicolon)∗ l3 p5 := fun l3 hl3 =>
    parse_filter_items_takes _
      (hl3.congr (congrArg Parser.toks hp4).symm (congrArg Parser.last hp4).symm) hitems
  refine ((((hl.tok hfilter hp1 (by decide)).and hname_takes).and fun l2 hl2 =>
    hl2.tok hbrace hp3 (by decide)).and hitems_takes).and fun l5 hl5 => ?_
  exact (hl5.congr (congrArg Parser.toks hp6).symm (congrArg Parser.last hp6).symm).tok hclose hq (by decide)

/-! ## Structs -/

theorem pass_semicolon_suffix (l : List Lexeme) : pass_semicolon l <:+ l := by
  cases l with
  | nil => exact List.suffix_rfl
  | cons x rest =>
    rw [pass_semicolon]
    split
    · exact List.suffix_cons x rest
    · exact List.suffix_rfl

theorem read_brackets_suffix (l : List Lexeme) : (read_brackets l).2 <:+ l := by
  unfold read_brackets
  split
  · split
    · exact (List.suffix_cons _ _).trans ((List.suffix_cons _ _).trans (List.suffix_cons _ _))
    · exact List.suffix_rfl
  · exact List.suffix_rfl

/-- A field starts at the first lexeme, and what follows it is left. -/
theorem read_field_suffix {d : FieldDecl} {rest : List Lexeme} (h : read_field l = some (d, rest)) :
    (∃ l', l = d.type :: l') ∧ rest <:+ l := by
  cases l with
  | nil => cases h
  | cons x l =>
    rw [read_field] at h
    have hsize : (if x.type = .BYTES ∨ x.type = .STRING_TYPE then read_brackets l else (none, l)).2 <:+ l := by
      split
      · exact read_brackets_suffix l
      · exact List.suffix_rfl
    generalize (if x.type = .BYTES ∨ x.type = .STRING_TYPE then read_brackets l else (none, l)) = sized at h hsize
    obtain ⟨size, after⟩ := sized
    cases after with
    | nil => cases h
    | cons name after =>
      simp only [Option.some.injEq, Prod.mk.injEq] at h
      obtain ⟨rfl, rfl⟩ := h
      refine ⟨⟨l, rfl⟩, (pass_semicolon_suffix _).trans ((read_brackets_suffix _).trans ?_)⟩
      exact (List.suffix_cons name after).trans (hsize.trans (List.suffix_cons _ _))

/-- Two rests of the same lexemes that show the same tokens are the same. -/
theorem Shows.rest_unique {rest rest' : List Lexeme} (h : Shows source rest p) (h' : Shows source rest' p)
    (hrest : rest <:+ l) (hrest' : rest' <:+ l) : rest = rest' := by
  have hlength : rest.length = rest'.length := by
    have htoks := congrArg List.length (h.toks.symm.trans h'.toks)
    rwa [List.length_map, List.length_map] at htoks
  exact (List.suffix_of_suffix_length_le hrest hrest' hlength.le).eq_of_length hlength

/-- The `[N]` of a field. -/
theorem Sound.bracketed {p1 p2 p3 : Parser} (hl : Sound source l p)
    (hopen : p.current_token.type = .LBRACKET) (hp1 : { p with toks := p.toks.tail } = p1)
    (hnumber : p1.current_token.type = .NUMBER) (hp2 : { p1 with toks := p1.toks.tail } = p2)
    (hclose : p2.current_token.type = .RBRACKET) (hp3 : { p2 with toks := p2.toks.tail } = p3) :
    Takes source bracketed l p3 :=
  ((hl.tok hopen hp1 (by decide)).and fun _ hl1 => hl1.tok hnumber hp2 (by decide)).and
    fun _ hl2 => hl2.tok hclose hp3 (by decide)

theorem parse_bytes_size_takes {n : ℕ} (hl : Sound source l p) (h : parse_bytes_size p = .ok n q) :
    Takes source bracketed l q := by
  simp only [parse_bytes_size, bind_ok, current_token_ok, ite_ok, parser_error_ok, pure_ok,
    parser_require_ok, parser_skip_token_ok, parser_expect_ok] at h
  obtain ⟨_, _, ⟨rfl, rfl⟩, ⟨hopen, _, p1, hp1, _, _, ⟨hnumber, rfl⟩, _, _, ⟨rfl, rfl⟩, _, p2, hp2,
    _, p3, ⟨hclose, hp3, -⟩, -, rfl⟩ | ⟨-, hfalse⟩⟩ := h
  · exact hl.bracketed hopen hp1 hnumber hp2 hclose hp3
  · exact hfalse.elim

/-- Brackets stand behind the name of a nested field only. -/
theorem parse_array_size_takes {f f' : Field} (hl : Sound source l p) (h : parse_array_size f p = .ok f' q) :
    Takes source 1 l q ∨ f.type = .NESTED ∧ Takes source bracketed l q := by
  simp only [parse_array_size, bind_ok, current_token_ok, ite_ok, parser_error_ok, pure_ok,
    parser_require_ok, parser_skip_token_ok, parser_expect_ok] at h
  obtain ⟨_, _, ⟨rfl, rfl⟩, ⟨hopen, h⟩ | ⟨-, -, rfl⟩⟩ := h
  · rcases h with ⟨-, _, _, hfalse, -⟩ | ⟨hnested, h⟩
    · exact hfalse.elim
    obtain ⟨_, p1, hp1, _, _, ⟨hnumber, rfl⟩, _, _, ⟨rfl, rfl⟩, h⟩ := h
    rcases h with ⟨-, _, _, hfalse, -⟩ | ⟨-, _, p2, hp2, _, p3, ⟨hclose, hp3, -⟩, -, rfl⟩
    · exact hfalse.elim
    exact .inr ⟨not_not.mp hnested, hl.bracketed hopen hp1 hnumber hp2 hclose hp3⟩
  · exact .inl (.none hl)

theorem name_field_type (type : FieldType) (size : ℕ) (type_name field_name : CStr) :
    (name_field type size type_name field_name).type = type := by
  unfold name_field
  split
  · rfl
  · rfl

/-- A field whose type is as it should be is a field of the grammar, or the last one. -/
theorem parse_struct_field_takes {names : List CStr} {f : Field} (hl : Sound source l p)
    (hstart : ∀ x ∈ l.head?, FieldStart names x) (h : parse_struct_field p = .ok f q) :
    (f.is_variable = false ∧ Takes source (field names) l q) ∨
      f.is_variable = true ∧ Takes source last_field l q := by
  simp only [parse_struct_field, bind_ok, current_token_ok, parser_skip_token_ok, ite_ok, pure_ok, get_ok,
    parser_require_ok] at h
  obtain ⟨_, _, ⟨rfl, rfl⟩, _, p1, hp1, h⟩ := h
  obtain ⟨n, p2, p3, hsize, hname, hp3, f', harray, rfl⟩ : ∃ n p2 p3,
      ((token_to_field_type p.current_token.type = .BYTES ∨ token_to_field_type p.current_token.type = .STRING) ∧
          parse_bytes_size p1 = .ok n p2 ∨
        ¬(token_to_field_type p.current_token.type = .BYTES ∨
          token_to_field_type p.current_token.type = .STRING) ∧ p1 = p2) ∧
      p2.current_token.type = .IDENTIFIER ∧ { p2 with toks := p2.toks.tail } = p3 ∧
      ∃ f', parse_array_size (name_field (token_to_field_type p.current_token.type) n
          (cstr 64 p.current_token.text) (cstr 64 p2.current_token.text)) p3 = .ok f' q ∧
        f = { f' with endian := q.proto.default_endian
                      is_variable := token_to_field_type p.current_token.type = .VARBYTES } := by
    rcases h with ⟨hsized, n, p2, hsize, _, _, ⟨hname, rfl⟩, _, _, ⟨rfl, rfl⟩, _, p3, hp3, f', _, harray,
      _, _, ⟨rfl, rfl⟩, rfl, rfl⟩ | ⟨hsized, n, p2, ⟨rfl, rfl⟩, _, _, ⟨hname, rfl⟩, _, _, ⟨rfl, rfl⟩, _, p3,
      hp3, f', _, harray, _, _, ⟨rfl, rfl⟩, rfl, rfl⟩
    · exact ⟨n, p2, p3, .inl ⟨hsized, hsize⟩, hname, hp3, f', harray, rfl⟩
    · exact ⟨0, p1, p3, .inr ⟨hsized, rfl⟩, hname, hp3, f', harray, rfl⟩
  obtain ⟨x, rest, rfl, hx, hrest⟩ := hl.before hp1 (by
    rcases hsize with ⟨-, hsize⟩ | ⟨-, rfl⟩
    · simp only [parse_bytes_size, bind_ok, current_token_ok, ite_ok, parser_error_ok] at hsize
      obtain ⟨_, _, ⟨rfl, rfl⟩, ⟨hopen, -⟩ | ⟨-, hfalse⟩⟩ := hsize
      · exact not_final (by decide) hopen
      · exact hfalse.elim
    · exact not_final (by decide) hname)
  have hl1 : Sound source rest p1 := hl.rest (w := [x]) hrest
  have hfirst : ∀ {kind : Token → Prop}, kind x.token → Takes source (one kind) (x :: rest) p1 :=
    fun hkind => ⟨[x], ⟨x, rfl, hl.readable x List.mem_cons_self, hkind⟩, rest, rfl, hl1⟩
  have hnamed : ∀ l2, Sound source l2 p2 → Takes source (tok .IDENTIFIER) l2 p3 :=
    fun l2 hl2 => hl2.tok hname hp3 (by decide)
  rw [← hx] at hsize harray ⊢
  -- only a nested field has anything behind its name
  have hplain : ∀ {L : Language Lexeme}, token_to_field_type x.token.type ≠ .NESTED →
      Takes source L (x :: rest) p3 → Takes source L (x :: rest) q := by
    intro L hnested htakes
    refine (htakes.and fun l3 hl3 => ?_).le (mul_one L).le
    rcases parse_array_size_takes hl3 harray with hnone | ⟨htype, -⟩
    · exact hnone
    · rw [name_field_type] at htype
      exact absurd htype hnested
  rcases hstart x rfl with hword | ⟨htype, hdeclared⟩
  · rcases List.mem_append.mp hword with hscalar | hother
    · have hkinds : ∀ type ∈ scalar_types, ¬(token_to_field_type type = .BYTES ∨
          token_to_field_type type = .STRING) ∧ token_to_field_type type ≠ .NESTED ∧
          token_to_field_type type ≠ .VARBYTES := by decide
      obtain ⟨hunsized, hnested, hfixed⟩ := hkinds _ hscalar
      obtain rfl : p1 = p2 := (hsize.resolve_left fun h => hunsized h.1).2
      exact .inl ⟨decide_eq_false hfixed, hplain hnested ((hfirst hscalar).and hnamed).left.left⟩
    · have hothers : ∀ type ∈ [TokenType.BYTES, .STRING_TYPE, .VARBYTES],
          type = .BYTES ∨ type = .STRING_TYPE ∨ type = .VARBYTES := by decide
      have hsized : ∀ {type : TokenType}, x.token.type = type →
          (token_to_field_type type = .BYTES ∨ token_to_field_type type = .STRING) →
          Takes source (tok type * bracketed * tok .IDENTIFIER) (x :: rest) p3 := by
        rintro type rfl hsized
        have hhere : Takes source (tok x.token.type) (x :: rest) p1 := hfirst rfl
        have hsize := (hsize.resolve_right fun h => h.1 hsized).2
        exact (hhere.and fun l1 hl1 => parse_bytes_size_takes hl1 hsize).and hnamed
      have htype : x.token.type = .BYTES ∨ x.token.type = .STRING_TYPE ∨ x.token.type = .VARBYTES :=
        hothers _ hother
      rcases htype with htype | htype | htype
      · rw [htype] at hplain ⊢
        refine .inl ⟨rfl, hplain (by decide) (Takes.left (Takes.right ?_))⟩
        refine (hsized htype (.inl rfl)).le ?_
        rw [add_mul, add_mul]
        exact fun _ hw => (Language.mem_add _ _ _).mpr (.inl hw)
      · rw [htype] at hplain ⊢
        refine .inl ⟨rfl, hplain (by decide) (Takes.left (Takes.right ?_))⟩
        refine (hsized htype (.inr rfl)).le ?_
        rw [add_mul, add_mul]
        exact fun _ hw => (Language.mem_add _ _ _).mpr (.inr hw)
      · have hhere : Takes source (tok .VARBYTES) (x :: rest) p1 := hfirst htype
        rw [htype] at hplain hsize ⊢
        obtain rfl : p1 = p2 := (hsize.resolve_left fun h => absurd h.1 (by decide)).2
        exact .inr ⟨rfl, hplain (by decide) (hhere.and hnamed)⟩
  · have hhere : Takes source (one fun t => t.type = .IDENTIFIER ∧ t.text ∈ names) (x :: rest) p1 :=
      hfirst ⟨htype, hdeclared⟩
    rw [show x.token.type = .IDENTIFIER from htype] at hsize ⊢
    obtain rfl : p1 = p2 := (hsize.resolve_left fun h => absurd h.1 (by decide)).2
    refine .inl ⟨rfl, ((hhere.and hnamed).and fun l3 hl3 => ?_).right⟩
    rcases parse_array_size_takes hl3 harray with hnone | ⟨-, hcount⟩
    · exact hnone.left
    · exact hcount.right

/-- A word, and another behind it, where it is known what is left in between. -/
theorem Takes.and_rest {rest : List Lexeme} (h : Takes source L l p) (hshows : Shows source rest p)
    (hsuffix : rest <:+ l) (hnext : Takes source M rest q) : Takes source (L * M) l q := by
  obtain ⟨w, hw, rest', rfl, hrest'⟩ := h
  obtain rfl : rest' = rest := Shows.rest_unique hrest'.toShows hshows (List.suffix_append w rest') hsuffix
  obtain ⟨w', hw', after, rfl, hafter⟩ := hnext
  exact ⟨w ++ w', Language.append_mem_mul hw hw', after, (List.append_assoc _ _ _).symm, hafter⟩

/-- Behind a variable field the struct has to end. -/
def body_left (names : List CStr) (has_variable : Bool) : Language Lexeme :=
  if has_variable then 1 else struct_body names

theorem parse_struct_fields_takes (names : List CStr) (n : ℕ) : ∀ {l : List Lexeme} {s s' : StructDef}
    {p q : Parser}, Sound source l p → parse_struct_fields n s p = .ok s' q → ∃ ds rest,
      read_entries read_field n l = some (ds, rest) ∧
      ((∀ d ∈ ds, FieldStart names d.type) → Takes source (body_left names s.has_variable) l q) := by
  induction n with
  | zero => intro _ _ _ _ _ _ h; exact ((throw_ok _ _ _ _).mp h).elim
  | succ n ih =>
    intro l s s' p q hl h
    simp only [parse_struct_fields, bind_ok, current_token_ok, ite_ok, pure_ok, parser_error_ok] at h
    obtain ⟨_, _, ⟨rfl, rfl⟩, ⟨hbrace, h⟩ | ⟨hbrace, -, rfl⟩⟩ := h
    · rcases h with ⟨-, _, _, hfalse, -⟩ | ⟨hvariable, fields, p1, hreserve, f, p2, hfield, _, p3, hsemi, hrest⟩
      · exact hfalse.elim
      rw [Bool.not_eq_true] at hvariable
      obtain ⟨-, hp1⟩ := reserve_elems hreserve
      have hl1 : Sound source l p1 := hl.congr (by rw [hp1]) (by rw [hp1])
      obtain ⟨d, l2, hread, hl2, -⟩ := parse_struct_field_reads hl1.toShows hfield
      have hl3 := optional_semicolon_reads hl2 hsemi
      obtain ⟨⟨l', hhead⟩, hsuffix⟩ := read_field_suffix hread
      have hsound : Sound source (pass_semicolon l2) p3 := by
        obtain ⟨w, hw⟩ := hsuffix
        rw [← hw] at hl
        exact hl.rest hl3
      obtain ⟨ds, rest, hmore, htakes⟩ := ih hsound hrest
      refine ⟨d :: ds, rest, hl.entries_more hbrace hread ?_ hmore, fun htyped => ?_⟩
      · rw [hhead]
        exact List.cons_ne_nil _ _
      obtain ⟨hd, hds⟩ := List.forall_mem_cons.mp htyped
      have hnext := htakes hds
      rw [body_left, hvariable, if_neg Bool.false_ne_true]
      have hstart : ∀ x ∈ l.head?, FieldStart names x := by
        rw [hhead]
        rintro x ⟨⟩
        exact hd
      rcases parse_struct_field_takes hl1 hstart hfield with ⟨hfixed, hentry⟩ | ⟨hlast, hentry⟩
      · -- one more field
        have htaken := (hentry.and fun rest hrest => optional_semicolon_takes hrest hsemi).and_rest
          hl3 hsuffix hnext
        rw [hvariable, hfixed, Bool.or_false, body_left, if_neg Bool.false_ne_true, struct_body, ← mul_assoc] at htaken
        exact htaken.le (mul_le_mul_left mul_kstar_le_kstar _)
      · -- the last one
        have htaken := (hentry.and fun rest hrest => optional_semicolon_takes hrest hsemi).and_rest
          hl3 hsuffix hnext
        rw [hlast, Bool.or_true, body_left, if_pos rfl, mul_one] at htaken
        exact (Takes.stop hl).and_rest hl.toShows List.suffix_rfl htaken.right
    · obtain ⟨close, rest, rfl, hread⟩ := hl.entries_end (not_not.mp hbrace)
      refine ⟨[], rest, hread, fun _ => ?_⟩
      unfold body_left
      split
      · exact .none hl
      · exact (Takes.stop hl).and fun _ hrest => (Takes.none hrest).left

/-- The fields of a struct are read behind its brace. -/
theorem parse_struct_def_takes {names : List CStr} (hl : Sound source l p)
    (htyped : ∀ ds rest, read_body read_field l.tail.tail = some (ds, rest) → ∀ d ∈ ds, FieldStart names d.type)
    (h : parse_struct_def p = .ok u q) : Takes source (struct_block names) l q := by
  simp only [parse_struct_def, bind_ok, get_ok, consult_ok, current_token_ok, turns_ok,
    modify_ok, ite_ok, throw_ok, parser_require_ok, parser_skip_token_ok, parser_expect_ok] at h
  obtain ⟨_, _, ⟨hname, rfl⟩, _, _, ⟨rfl, rfl⟩, _, _, rfl, _, _, ⟨rfl, rfl⟩, _, _, ⟨rfl, rfl⟩, h⟩ := h
  rcases h with ⟨-, _, _, hfalse, -⟩ | ⟨-, _, _, ⟨rfl, rfl⟩, h⟩
  · exact hfalse.elim
  obtain ⟨_, p1, hp1, _, p2, ⟨hbrace, hp2, -⟩, fields, p3, hcalloc, _, _, ⟨rfl, rfl⟩, s, p4, hfields,
    _, p5, hp5, hclose, hq, -⟩ := h
  have hword : Takes source (tok .IDENTIFIER) l p1 :=
    hl.one (not_final (by decide) hname) hname (congrArg Parser.toks hp1).symm (congrArg Parser.last hp1).symm
  obtain ⟨_, ⟨first, rfl, hok, hfirst⟩, l1, rfl, hl1⟩ := hword
  obtain ⟨_, ⟨brace, rfl, hok', hopen⟩, l2, rfl, hl2⟩ := hl1.tok hbrace hp2 (by decide)
  obtain ⟨-, hp3⟩ := (calloc_ok _ _ _ _).mp hcalloc
  have hl3 : Sound source l2 p3 := hl2.congr (congrArg Parser.toks hp3).symm (congrArg Parser.last hp3).symm
  obtain ⟨ds, rest, hread, htakes⟩ := parse_struct_fields_takes names _ hl3 hfields
  rw [hl3.toks, List.length_map] at hread
  have hbody : Takes source (struct_body names * tok .RBRACE) l2 q :=
    (htakes (htyped ds rest hread)).and fun l4 hl4 =>
      (hl4.congr (congrArg Parser.toks hp5).symm (congrArg Parser.last hp5).symm).tok hclose hq (by decide)
  obtain ⟨w, hw, after, rfl, hafter⟩ := hbody
  have hfront : [first] ++ [brace] ∈ tok .IDENTIFIER * tok .LBRACE :=
    Language.append_mem_mul ⟨first, rfl, hok, hfirst⟩ ⟨brace, rfl, hok', hopen⟩
  refine ⟨[first] ++ [brace] ++ w, ?_, after, rfl, hafter⟩
  rw [struct_block, mul_assoc]
  exact Language.append_mem_mul hfront hw

/-! ## Texts -/

theorem parse_block_takes {names : List CStr} (w : Script) (hl : Sound source l p)
    (htyped : ∀ w' rest, read_block w l = some (w', rest) → Typed names w'.structs)
    (h : parse_block p = .ok u q) : Takes source (block names) l q := by
  simp only [parse_block, bind_ok, current_token_ok] at h
  obtain ⟨token, _, ⟨rfl, rfl⟩, h⟩ := h
  generalize htype : p.current_token.type = type at h
  cases type
  case PROTOCOL => exact (parse_protocol_block_takes hl h).left.left.left
  case CONST => exact (parse_const_block_takes hl h).right.left.left
  case FILTER => exact (parse_filter_block_takes hl h).right.left
  case IDENTIFIER =>
    refine (parse_struct_def_takes hl (fun ds rest hread => ?_) h).right
    obtain ⟨first, l1, rfl, hfirst, -⟩ := hl.head (not_final (by decide) htype)
    have hfirst : first.type = .IDENTIFIER := by rw [Lexeme.type, hfirst, htype]
    have hblock : read_block w (first :: l1)
        = some ({ w with structs := w.structs ++ [{ name := first, fields := ds }] }, rest) := by
      simp only [List.tail_cons] at hread
      simp only [read_block, hfirst, hread, Option.map_some]
    exact htyped _ _ hblock { name := first, fields := ds } (List.mem_append_right _ List.mem_cons_self)
  all_goals exact ((parser_error_ok _ _ _ _).mp h).elim

/-- A block leaves the structs before it. -/
theorem read_block_structs {w w' : Script} {rest : List Lexeme} (h : read_block w l = some (w', rest)) :
    w.structs <+: w'.structs := by
  unfold read_block at h
  split at h
  · cases h
  · split at h
    · cases h
      exact List.prefix_rfl
    · obtain ⟨⟨consts, after⟩, -, heq⟩ := Option.map_eq_some_iff.mp h
      cases heq
      exact List.prefix_rfl
    · split at h
      · obtain ⟨⟨items, after⟩, -, heq⟩ := Option.map_eq_some_iff.mp h
        cases heq
        exact List.prefix_rfl
      · cases h
    · obtain ⟨⟨fields, after⟩, -, heq⟩ := Option.map_eq_some_iff.mp h
      cases heq
      exact List.prefix_append _ _

theorem read_blocks_structs (n : ℕ) : ∀ {l : List Lexeme} {w w' : Script},
    read_blocks n w l = some w' → w.structs <+: w'.structs := by
  induction n with
  | zero => intro _ _ _ h; cases h
  | succ n ih =>
    intro l w w' h
    cases l with
    | nil =>
      cases h
      exact List.prefix_rfl
    | cons x l =>
      rw [read_blocks] at h
      rcases hread : read_block w (x :: l) with _ | ⟨w1, rest⟩
      · rw [hread] at h
        cases h
      · rw [hread] at h
        exact (read_block_structs hread).trans (ih h)

theorem parse_blocks_takes {names : List CStr} (n : ℕ) : ∀ {l : List Lexeme} {w w' : Script} {p q : Parser}
    {u : Unit}, Sound source l p → KeepsScript source w p → parse_blocks n p = .ok u q →
    read_blocks n w l = some w' → Typed names w'.structs →
    ∃ blocks : List (List Lexeme), l = blocks.flatten ∧ ∀ b ∈ blocks, b ∈ block names := by
  induction n with
  | zero => intro _ _ _ _ _ _ _ _ h; exact ((throw_ok _ _ _ _).mp h).elim
  | succ n ih =>
    intro l w w' p q u hl hw h hread htyped
    simp only [parse_blocks, bind_ok, current_token_ok, ite_ok, pure_ok] at h
    obtain ⟨_, _, ⟨rfl, rfl⟩, ⟨hmore, _, p1, hblock, hrest⟩ | ⟨heof, -, rfl⟩⟩ := h
    · obtain ⟨w1, l1, hread1, -, hw1⟩ := parse_block_reads hl.toShows hw hblock
      have hnext : read_blocks n w1 l1 = some w' := by
        cases l with
        | nil => cases hread1
        | cons x l =>
          rw [read_blocks, hread1] at hread
          exact hread
      have htyped1 : Typed names w1.structs := fun s hs => htyped s ((read_blocks_structs n hnext).subset hs)
      have htakes : Takes source (block names) l p1 := by
        refine parse_block_takes w hl (fun w2 rest hread2 => ?_) hblock
        rw [hread1] at hread2
        cases hread2
        exact htyped1
      obtain ⟨b, hb, rest, rfl, hl1⟩ := htakes
      -- the block ends where its reader says that it ends
      obtain ⟨w2, -, hread2, -⟩ := read_block_word hb w rest
      rw [hread1] at hread2
      cases hread2
      obtain ⟨blocks, rfl, hblocks⟩ := ih hl1 hw1 hrest hnext htyped
      exact ⟨b :: blocks, rfl, List.forall_mem_cons.mpr ⟨hb, hblocks⟩⟩
    · cases l with
      | nil => exact ⟨[], rfl, List.forall_mem_nil _⟩
      | cons x l =>
        rw [← hl.head_type] at heof
        exact absurd (not_not.mp heof) (hl.real x List.mem_cons_self).2

/-! ## The types of the fields -/

/-- A field that is laid out names a struct, where it is nested. -/
theorem layout_fields_found {w : ℕ → ℕ} {names : List CStr} {shapes : List Shape}
    (hnames : ∀ s ∈ shapes, s.name ∈ names) (fields : List Field) : ∀ {x x' : Placed},
    layout_fields w shapes fields x = some x' → ∀ f ∈ fields, f.type = .NESTED → nested_type f ∈ names := by
  induction fields with
  | nil => exact fun _ => nofun
  | cons f fields ih =>
    intro x x' h
    obtain ⟨x1, hfield, hrest⟩ := layout_fields_cons_some.mp h
    refine List.forall_mem_cons.mpr ⟨fun htype => ?_, ih hrest⟩
    obtain ⟨-, -, ⟨-, hnested⟩ | ⟨hleaf, -⟩⟩ := layout_field_some.mp hfield
    · obtain ⟨t, part, nested, -, hsplit, hfound, -⟩ := layout_nested_some.mp hnested
      obtain ⟨-, rfl, -⟩ := split_name_some hsplit
      have hname : nested.name = f.name.takeWhile (· ≠ '.') := by
        rw [find_shape] at hfound
        simpa using List.find?_some hfound
      rw [nested_type, ← hname]
      exact hnames nested (List.mem_of_find?_eq_some hfound)
    · exact absurd htype hleaf

theorem layout_rest_found {w : ℕ → ℕ} {names : List CStr} (todo : List Shape) : ∀ {done out : List Shape},
    (∀ s ∈ done ++ todo, s.name ∈ names) → layout_rest w done todo = some out →
    ∀ s ∈ todo, ∀ f ∈ s.fields, f.type = .NESTED → nested_type f ∈ names := by
  induction todo with
  | nil => exact fun _ _ => nofun
  | cons s todo ih =>
    intro done out hnames h
    obtain ⟨s', hstruct, hrest⟩ := layout_rest_cons_some.mp h
    obtain ⟨x, hx, rfl⟩ := layout_struct_some.mp hstruct
    -- the struct keeps its name while it is laid out
    have hsame : ∀ t : Shape, t.name = s.name → ∀ r ∈ done ++ t :: todo, r.name ∈ names := by
      intro t ht r hr
      rcases List.mem_append.mp hr with hr | hr
      · exact hnames r (List.mem_append_left _ hr)
      · rcases List.mem_cons.mp hr with rfl | hr
        · rw [ht]
          exact hnames s (List.mem_append_right _ List.mem_cons_self)
        · exact hnames r (List.mem_append_right _ (List.mem_cons_of_mem _ hr))
    refine List.forall_mem_cons.mpr
      ⟨layout_fields_found (hsame { s with has_variable := false } rfl) s.fields hx, ih ?_ hrest⟩
    rw [List.append_assoc]
    exact hsame _ rfl

/-- What the fields of an accepted text name is declared, in its first 63 characters. -/
theorem named_declared {proto : ProtocolDef} (h : (pdef_parse_string source).1 = .accepted proto) :
    ∀ s ∈ (script source).structs, ∀ d ∈ s.fields, d.type.type = .IDENTIFIER →
      ∃ t ∈ (script source).structs, cstr 64 t.name.token.text = cstr 64 d.type.token.text := by
  obtain ⟨p0, p1, p2, hphases⟩ := accepted_phases.mp h
  have hblocks : after_blocks source = some p0 := returned_eq_some.mpr hphases.blocks
  have hkept := (script_kept hblocks).structs
  obtain ⟨hlayout, -⟩ := flatten_structs_ok hphases.flatten
  have hnames : ∀ s ∈ [] ++ shapes p0,
      s.name ∈ (script source).structs.map fun t => cstr 64 t.name.token.text := by
    rintro s hs
    obtain ⟨s0, hs0, rfl⟩ := List.mem_map.mp hs
    obtain ⟨t, hmem, ht⟩ := forall₂_left hkept hs0
    exact List.mem_map.mpr ⟨t, (List.of_mem_zip hmem).2, ht.name.symm⟩
  have hfound := layout_rest_found (shapes p0) hnames hlayout
  intro s hs d hd htype
  obtain ⟨s0, hmem, hs0⟩ := forall₂_right hkept hs
  obtain ⟨e, hfields⟩ := hs0.fields
  have hnested : d.nested = true := by
    rw [FieldDecl.nested, htype]
    rfl
  have hlexemes : FieldLexemes source d := hs0.sound d hd
  have hname := hfound s0.shape (List.mem_map_of_mem (List.of_mem_zip hmem).1) (declared_field e d)
    (by rw [StructDef.shape, hfields]; exact List.mem_map_of_mem hd)
    (by rw [declared_type, htype]; rfl)
  rw [(hlexemes.nested_parts_eq hnested).2.1, ← hlexemes.kept_type hnested] at hname
  exact List.mem_map.mp hname

/-! ## The texts that are as they should be -/

/-- The lexer could read every token; no field starts with a token that
`token_to_field_type` has no case for; no field's type agrees with the name of a
struct in the first 63 characters only; no comma stands behind `=`, and nothing
but `in` behind `!`. -/
structure Orderly (source : List Char) : Prop where
  readable : ∀ x ∈ lexemes source, x.token.ok = true
  types : ∀ s ∈ (script source).structs, ∀ d ∈ s.fields, d.type.type ∈ type_words ∨ d.type.type = .IDENTIFIER
  names : ∀ s ∈ (script source).structs, ∀ d ∈ s.fields, d.type.type = .IDENTIFIER →
    ∀ t ∈ (script source).structs, cstr 64 t.name.token.text = cstr 64 d.type.token.text →
      d.type.token.text ∈ struct_names (script source).structs
  signs : (lexemes source).IsChain Beside

theorem Documented.orderly (h : Documented source) : Orderly source where
  readable := h.readable
  types s hs d hd := (h.typed s hs d hd).imp_right And.left
  names s hs d hd htype _ _ _ := by
    rcases h.typed s hs d hd with hword | ⟨-, hdeclared⟩
    · rw [htype] at hword
      exact absurd hword (by decide)
    · exact hdeclared
  signs := h.signs

theorem Orderly.documented {proto : ProtocolDef} (h : Orderly source)
    (haccepted : (pdef_parse_string source).1 = .accepted proto) : Documented source where
  readable := h.readable
  typed s hs d hd := by
    rcases h.types s hs d hd with hword | htype
    · exact .inl hword
    · obtain ⟨t, ht, hname⟩ := named_declared haccepted s hs d hd htype
      exact .inr ⟨htype, h.names s hs d hd htype t ht hname⟩
  signs := h.signs

/-- What the grammar asks of a text that the parser accepts, it has. -/
theorem Documented.derives {proto : ProtocolDef} (h : Documented source)
    (haccepted : (pdef_parse_string source).1 = .accepted proto) : Derives (lexemes source) := by
  obtain ⟨p0, p1, p2, hphases⟩ := accepted_phases.mp haccepted
  have hblocks := hphases.blocks
  have hlength : (parser_init source).toks.length = (lexemes source).length := by
    rw [(shows_init source).toks, List.length_map]
  rw [hlength] at hblocks
  have hsound : Sound source (lexemes source) (parser_init source) :=
    ⟨shows_init source, h.readable, h.signs⟩
  have hnone : KeepsScript source {} (parser_init source) := ⟨⟨rfl, by simp⟩, .nil, .nil⟩
  obtain ⟨w, hread, -⟩ := parse_blocks_reads _ (shows_init source) hnone hblocks
  have hscript : script source = w := by rw [script, hread, Option.getD_some]
  have htyped := h.typed
  rw [hscript] at htyped
  obtain ⟨blocks, hl, hderived⟩ := parse_blocks_takes _ hsound hnone hblocks hread htyped
  obtain ⟨hnames, -⟩ := script_words hl hderived
  rw [hscript] at hnames
  exact ⟨blocks, hl, hnames ▸ hderived⟩

/-- **What the parser accepts is derived by the grammar exactly when it is
orderly**: what it lets through beyond the grammar is a token that the lexer
could not read, a field that starts with any token at all, a struct named in 63
characters, a comma behind `=`, and a `!` in front of a comparison. -/
theorem accepted_derives_iff {proto : ProtocolDef} (h : (pdef_parse_string source).1 = .accepted proto) :
    Derives (lexemes source) ↔ Orderly source :=
  ⟨fun hderives => hderives.documented.orderly, fun horderly => (horderly.documented h).derives h⟩

/-- A text with a block of each kind, and a `! in`. -/
def sample_text : List Char :=
  ("@protocol{name=P;ports=80,443}@const{M=1}T{uint8 a}S{T t[2];bytes[2] b;varbytes c}"
    ++ "@filter F{t[1].a! in[M,2];}").toList

theorem sample_derived : Derives (lexemes sample_text) := by
  obtain ⟨proto, hproto⟩ : ∃ proto, (pdef_parse_string sample_text).1.protocol? = some proto :=
    Option.isSome_iff_exists.mp (by decide +kernel)
  exact (accepted_derives_iff (ParseResult.protocol?_eq_some.mp hproto)).mpr
    ⟨by decide +kernel, by decide +kernel, by decide +kernel, by decide +kernel⟩

/-- A second semicolon is taken for the type of a field. -/
theorem second_semicolon_accepted : ¬ ∀ (source : List Char) (proto : ProtocolDef),
    (pdef_parse_string source).1 = .accepted proto → Derives (lexemes source) := by
  intro hall
  obtain ⟨proto, hproto⟩ : ∃ proto, (pdef_parse_string "S{uint8 a;;x}".toList).1.protocol? = some proto :=
    Option.isSome_iff_exists.mp (by decide +kernel)
  have htyped := (hall _ proto (ParseResult.protocol?_eq_some.mp hproto)).documented.typed
  revert htyped
  decide +kernel

end RxNetCap.Pdef.Grammar
