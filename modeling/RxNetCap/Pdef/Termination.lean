/-
Why a parse comes to an end.

The lexer moves forward or has stopped for good: a call that leaves it where the
skipping left it has come to the end of the text or to an error, and every later
call gives the same token again. So a text has finitely many tokens, and after
them one token that repeats. That token is *final*, and no part of the grammar
takes a final token and goes on: whatever the parser pulls without looking at,
each turn of each of its loops takes a token that stands before the final one,
or it leaves.

The walk over the parser is done from any state at all, with any tables and any
number of tokens (`Takes`), so it says the same of a parser that has run past
the end of a table. What reads no token has counted loops only and is
`Detached`.
-/
import RxNetCap.Pdef.Blind
import RxNetCap.Pdef.Budget
import RxNetCap.Pdef.Separators

set_option autoImplicit false

namespace RxNetCap.Pdef

open RxNetCap.Ledger RxNetCap.ErrState

variable {α β : Type}

/-! ## The lexer and the end of the text -/

section Nul

variable {post : Lexer}

/-- Behind the end of a text the lexer reads a NUL, whether there is one or
not. -/
theorem current_char_nul (w : CStr) : current_char (w ++ '\x00' :: post) = current_char w := by
  cases w <;> rfl

theorem nul_ends : Ends ('\x00' :: post) where
  not_alnum := rfl
  not_equals := (by decide : '\x00' ≠ '=')
  not_quote := (by decide : '\x00' ≠ '"')

theorem skip_whitespace_nul (w : CStr) :
    skip_whitespace (w ++ '\x00' :: post) = skip_whitespace w ++ '\x00' :: post := by
  have hstill : ('\x00' :: post).dropWhile isspace = '\x00' :: post :=
    List.dropWhile_cons_of_neg (by decide)
  rw [skip_whitespace, List.dropWhile_append, hstill, skip_whitespace]
  split
  · rename_i hempty
    rw [List.isEmpty_iff.mp hempty, List.nil_append]
  · rfl

theorem starts_comment_nul (w : CStr) :
    starts_comment (w ++ '\x00' :: post) = starts_comment w := by
  cases w with
  | nil => rfl
  | cons c w =>
    rw [Bool.eq_iff_iff, List.cons_append, starts_comment_cons, starts_comment_cons, current_char_nul]

theorem skip_comment_nul {w : CStr} (h : starts_comment w = true) :
    skip_comment (w ++ '\x00' :: post) = skip_comment w ++ '\x00' :: post := by
  have hstill : comment_rest ('\x00' :: post) = '\x00' :: post :=
    List.dropWhile_cons_of_neg (by decide)
  have hne : w ≠ [] := by
    rintro rfl
    cases h
  rw [skip_of_comment ((starts_comment_nul w).trans h), skip_of_comment h,
    List.tail_append_of_ne_nil hne, comment_rest, List.dropWhile_append]
  split
  · rename_i hempty
    change comment_rest ('\x00' :: post) = _
    rw [hstill, show comment_rest w.tail = [] from List.isEmpty_iff.mp hempty, List.nil_append]
  · rfl

/-- The skipping stops at the NUL. -/
theorem skip_nul (n : ℕ) : ∀ w : CStr, w.length ≤ n →
    skip_whitespace_and_comments (w ++ '\x00' :: post)
      = skip_whitespace_and_comments w ++ '\x00' :: post := by
  induction n with
  | zero =>
    intro w hw
    rw [List.length_eq_zero_iff.mp (Nat.le_zero.mp hw)]
    rfl
  | succ n ih =>
    intro w hw
    have hspace := skip_whitespace_length w
    rw [skip_eq, skip_eq w, skip_whitespace_nul, starts_comment_nul]
    by_cases hcomment : starts_comment (skip_whitespace w) = true
    · have hshorter := skip_comment_lt hcomment
      rw [if_pos hcomment, if_pos hcomment, skip_comment_nul hcomment]
      exact ih _ (by omega)
    · rw [if_neg hcomment, if_neg hcomment]

theorem read_string_loop_nul (k : ℕ) : ∀ w : CStr, read_string_loop k (w ++ '\x00' :: post)
    = ((read_string_loop k w).1, (read_string_loop k w).2 ++ '\x00' :: post) := by
  induction k with
  | zero => intro w; rfl
  | succ k ih =>
    intro w
    cases w with
    | nil =>
      rw [List.nil_append, read_string_loop_cons, if_neg (fun h => h.2 rfl)]
      rfl
    | cons c w =>
      rw [List.cons_append, read_string_loop_cons, read_string_loop_cons, current_char_nul, ih]
      by_cases hmore : c ≠ '"' ∧ c ≠ '\x00'
      · rw [if_pos hmore, if_pos hmore]
        by_cases hquote : c = '\\' ∧ current_char w = '"'
        · have hne : w ≠ [] := by
            rintro rfl
            exact absurd hquote.2 (by decide)
          rw [if_pos hquote, if_pos hquote, List.tail_append_of_ne_nil hne, ih]
        · rw [if_neg hquote, if_neg hquote]
      · rw [if_neg hmore, if_neg hmore]
        rfl

theorem read_string_nul (w : CStr) :
    Cut [] ('\x00' :: post) fun z => read_string ('"' :: (w ++ z)) := by
  intro t b h
  dsimp only at h ⊢
  rw [read_string_eq, List.append_nil, List.append_nil, Prod.mk.injEq] at h
  rw [read_string_eq, read_string_loop_nul, ← h.1, ← h.2]
  dsimp only
  generalize (read_string_loop 255 w).2 = rest
  rw [string_rest, string_rest, current_char_nul]
  split
  · rename_i hquote
    have hne : rest ≠ [] := by
      rintro rfl
      exact absurd hquote (by decide)
    rw [advance, advance, List.tail_append_of_ne_nil hne]
  · rfl

/-- **The lexer goes as far as the NUL**, and what is behind it makes no
difference. -/
theorem next_nul (w : Lexer) : lexer_next_token (w ++ '\x00' :: post)
    = ((lexer_next_token w).1, (lexer_next_token w).2 ++ '\x00' :: post) := by
  have hskip : skip_whitespace_and_comments (w ++ '\x00' :: post)
      = skip_whitespace_and_comments w ++ '\x00' :: post := skip_nul w.length w le_rfl
  cases hleft : skip_whitespace_and_comments w with
  | nil =>
    rw [hleft] at hskip
    rw [lexer_next_token, hskip, lexer_next_token, hleft]
    rfl
  | cons c v =>
    rw [hleft] at hskip
    have hcut := next_cut (x := []) (l := fun z => w ++ z) read_string_nul nul_ends
      (by rw [List.append_nil, List.append_nil, hleft]) hskip
    refine hcut _ _ ?_
    dsimp only
    rw [List.append_nil, List.append_nil]

end Nul

/-- Behind the skipping there is neither white space nor a comment. -/
theorem skip_done (n : ℕ) : ∀ l : Lexer, l.length ≤ n →
    isspace (current_char (skip_whitespace_and_comments l)) = false ∧
      starts_comment (skip_whitespace_and_comments l) = false := by
  have hspace (l : Lexer) : isspace (current_char (skip_whitespace l)) = false := by
    have hhead := List.head?_dropWhile_not isspace l
    rw [skip_whitespace]
    cases hleft : l.dropWhile isspace with
    | nil => rfl
    | cons c rest =>
      rw [hleft] at hhead
      exact hhead
  induction n with
  | zero =>
    intro l hl
    rw [List.length_eq_zero_iff.mp (Nat.le_zero.mp hl)]
    exact ⟨rfl, rfl⟩
  | succ n ih =>
    intro l hl
    have hlength := skip_whitespace_length l
    rw [skip_eq]
    by_cases hcomment : starts_comment (skip_whitespace l) = true
    · have hshorter := skip_comment_lt hcomment
      rw [if_pos hcomment]
      exact ih _ (by omega)
    · rw [if_neg hcomment]
      exact ⟨hspace l, Bool.eq_false_iff.mpr hcomment⟩

/-- **A call that does not advance is made over and over**, and gives the same
token each time. -/
theorem next_stays {l : Lexer} (h : (lexer_next_token l).2 = skip_whitespace_and_comments l) :
    lexer_next_token (lexer_next_token l).2 = lexer_next_token l := by
  obtain ⟨hspace, hcomment⟩ := skip_done l.length l le_rfl
  have hagain : skip_whitespace_and_comments (skip_whitespace_and_comments l)
      = skip_whitespace_and_comments l := by
    generalize skip_whitespace_and_comments l = v at hspace hcomment
    have hstill : skip_whitespace v = v := by
      cases v with
      | nil => rfl
      | cons c v => exact List.dropWhile_cons_of_neg (by rw [show isspace c = false from hspace]; decide)
    rw [skip_eq, hstill, if_neg (by rw [hcomment]; decide)]
  rw [h, lexer_next_token, hagain]
  rfl

/-! ## What a run takes -/

/-- The token that repeats is final, and at most `k` tokens stand before it. -/
structure Ahead (k : ℕ) (p : Parser) : Prop where
  ends : Final p.last
  toks : p.toks.length ≤ k

/-- A loop that ends. -/
def InTurns (e : Stop) (_ : Parser) : Prop := e ≠ .out_of_turns

/-- `x`, begun at one of the tokens in `T` with at most `k` tokens ahead, takes
`n` of them at least or leaves with an error, and no loop in it runs out of
turns. -/
def TakesAt (T : Token → Prop) (k n : ℕ) (x : ParseM α) : Prop :=
  Triple (fun p => Ahead k p ∧ T p.current_token) x (fun _ q => ∃ j, n + j ≤ k ∧ Ahead j q) InTurns

/-- The same, at any token. -/
def Takes (k n : ℕ) (x : ParseM α) : Prop :=
  Triple (Ahead k) x (fun _ q => ∃ j, n + j ≤ k ∧ Ahead j q) InTurns

section Rules

variable {T : Token → Prop} {k m n : ℕ}

theorem Takes.at {x : ParseM α} (h : Takes k n x) : TakesAt T k n x :=
  .before (fun _ hp => hp.1) h

theorem Takes.less {x : ParseM α} (h : Takes k n x) (hmn : m ≤ n) : Takes k m x :=
  .after h fun _ _ ⟨j, hj, hq⟩ => ⟨j, by omega, hq⟩

theorem TakesAt.less {x : ParseM α} (h : TakesAt T k n x) (hmn : m ≤ n) : TakesAt T k m x :=
  .after h fun _ _ ⟨j, hj, hq⟩ => ⟨j, by omega, hq⟩

theorem Takes.pure (a : α) : Takes k 0 (pure a : ParseM α) :=
  Triple.pure fun _ hp => ⟨k, by omega, hp⟩

theorem Takes.error (text : String) : Takes k n (parser_error text : ParseM α) :=
  .throw fun _ _ => by simp [InTurns]

theorem Takes.overrun : Takes k n (throw .overrun : ParseM α) :=
  .throw fun _ _ => by simp [InTurns]

/-- What follows an error never runs. -/
theorem Takes.error_then (text : String) {f : α → ParseM β} :
    Takes k n (parser_error text >>= f) :=
  .bind (Q := fun _ _ => False) (.throw fun _ _ => by simp [InTurns]) fun _ _ => False.elim

theorem Takes.overrun_then {f : α → ParseM β} : Takes k n (throw .overrun >>= f) :=
  .bind (Q := fun _ _ => False) (.throw fun _ _ => by simp [InTurns]) fun _ _ => False.elim

theorem Takes.bind {x : ParseM α} {f : α → ParseM β} (hx : Takes k m x)
    (hf : ∀ a j, m + j ≤ k → Takes j n (f a)) : Takes k (m + n) (x >>= f) := by
  refine Triple.bind hx fun a => .of_exists fun j hj => .after (hf a j hj) ?_
  rintro _ q ⟨i, hi, hq⟩
  exact ⟨i, by omega, hq⟩

/-- What is taken later counts, whatever was taken before. -/
theorem Takes.then {x : ParseM α} {f : α → ParseM β} (hx : Takes k 0 x)
    (hf : ∀ a j, j ≤ k → Takes j n (f a)) : Takes k n (x >>= f) :=
  (Takes.bind hx fun a j hj => hf a j (by omega)).less (by omega)

/-- What was taken before counts, whatever is taken later. -/
theorem Takes.before {x : ParseM α} {f : α → ParseM β} (hx : Takes k n x)
    (hf : ∀ a j, n + j ≤ k → Takes j 0 (f a)) : Takes k n (x >>= f) := Takes.bind hx hf

theorem TakesAt.before {x : ParseM α} {f : α → ParseM β} (hx : TakesAt T k n x)
    (hf : ∀ a j, n + j ≤ k → Takes j 0 (f a)) : TakesAt T k n (x >>= f) := by
  refine Triple.bind hx fun a => .of_exists fun j hj => .after (hf a j hj) ?_
  rintro _ q ⟨i, hi, hq⟩
  exact ⟨i, by omega, hq⟩

/-- Whatever it takes. -/
theorem Takes.any {x : ParseM α} (h : Takes k n x) : Takes k 0 x := h.less (Nat.zero_le n)

theorem TakesAt.any {x : ParseM α} (h : TakesAt T k n x) : TakesAt T k 0 x := h.less (Nat.zero_le n)

theorem Takes.ite {c : Prop} [Decidable c] {x y : ParseM α} (hx : c → Takes k n x)
    (hy : ¬c → Takes k n y) : Takes k n (if c then x else y) := Triple.ite hx hy

theorem TakesAt.ite {c : Prop} [Decidable c] {x y : ParseM α} (hx : c → TakesAt T k n x)
    (hy : ¬c → TakesAt T k n y) : TakesAt T k n (if c then x else y) := Triple.ite hx hy

/-! ### Tokens -/

theorem TakesAt.token {f : Token → ParseM β} (h : ∀ t, T t → TakesAt (· = t) k n (f t)) :
    TakesAt T k n (current_token >>= f) := by
  intro p hp
  exact h p.current_token hp.2 p ⟨hp.1, rfl⟩

theorem Takes.token {f : Token → ParseM β} (h : ∀ t, TakesAt (· = t) k n (f t)) :
    Takes k n (current_token >>= f) := by
  intro p hp
  exact h p.current_token p ⟨hp, rfl⟩

theorem Takes.require {type : TokenType} {text : String} {f : Unit → ParseM β}
    (h : TakesAt (·.type = type) k n (f ())) : Takes k n (parser_require type text >>= f) := by
  refine Triple.bind (Q := fun _ p => Ahead k p ∧ p.current_token.type = type) ?_ fun _ => h
  intro p hp
  refine Triple.ite (P := (· = p)) (fun _ => ?_) (fun htype => ?_) p rfl
  · exact .throw fun _ _ => by simp [InTurns]
  · refine Triple.pure ?_
    rintro _ rfl
    exact ⟨hp, not_not.mp htype⟩

/-- The step of every loop: a token that is not final stands before the final
one. -/
theorem Ahead.step {p : Parser} (h : Ahead k p) (hcurrent : ¬ Final p.current_token) :
    ∃ j, j + 1 = k ∧ Ahead j { p with toks := p.toks.tail } := by
  have hne : p.toks ≠ [] := by
    intro hnil
    have hlast : p.current_token = p.last := by rw [Parser.current_token, hnil]; rfl
    exact hcurrent (hlast ▸ h.ends)
  have hpos : 0 < p.toks.length := List.length_pos_iff.mpr hne
  have hle := h.toks
  refine ⟨k - 1, by omega, h.ends, ?_⟩
  rw [List.length_tail]
  omega

/-- Take a token that is not final. -/
theorem TakesAt.take (hT : ∀ t, T t → ¬ Final t) {f : Unit → ParseM β}
    (h : ∀ j, j + 1 = k → Takes j n (f ())) : TakesAt T k (n + 1) (parser_skip_token >>= f) := by
  refine Triple.bind (Q := fun _ q => ∃ j, j + 1 = k ∧ Ahead j q) ?_ fun _ =>
    .of_exists fun j hj => .after (h j hj) ?_
  · intro p hp
    exact hp.1.step (hT _ hp.2)
  · rintro _ q ⟨i, hi, hq⟩
    exact ⟨i, by omega, hq⟩

/-- Take a token of a type that is not final. -/
theorem TakesAt.word {t : Token} {type : TokenType} (ht : t.type = type)
    (htype : type ≠ .EOF ∧ type ≠ .ERROR) {f : Unit → ParseM β}
    (h : ∀ j, j + 1 = k → Takes j n (f ())) :
    TakesAt (· = t) k (n + 1) (parser_skip_token >>= f) := by
  refine .take ?_ h
  rintro _ rfl
  exact not_final htype ht

theorem TakesAt.word_any {t : Token} {type : TokenType} (ht : t.type = type)
    (htype : type ≠ .EOF ∧ type ≠ .ERROR) {f : Unit → ParseM β}
    (h : ∀ j, j + 1 = k → Takes j 0 (f ())) : TakesAt (· = t) k 0 (parser_skip_token >>= f) :=
  (TakesAt.word ht htype h).any

/-- Take whatever token there is, be it the final one. -/
theorem Takes.skip : Takes k 0 parser_skip_token := by
  intro p hp
  exact ⟨k, by omega, hp.ends, (List.tail_sublist _).length_le.trans hp.toks⟩

theorem TakesAt.last {t : Token} {type : TokenType} (ht : t.type = type)
    (htype : type ≠ .EOF ∧ type ≠ .ERROR) : TakesAt (· = t) k 1 parser_skip_token := by
  rintro p ⟨hp, rfl⟩
  obtain ⟨j, hj, hq⟩ := hp.step (not_final htype ht)
  exact ⟨j, by omega, hq⟩

theorem Takes.expect {type : TokenType} (htype : type ≠ .EOF ∧ type ≠ .ERROR) :
    Takes k 1 (parser_expect type) := by
  intro p hp
  rw [parser_expect_run]
  by_cases hcase : p.current_token.type ≠ type
  · rw [if_pos hcase]
    exact fun h => by cases h
  · rw [if_neg hcase]
    cases hok : ({ p with toks := p.toks.tail } : Parser).peek_token.ok with
    | true =>
      obtain ⟨j, hj, hq⟩ := hp.step (not_final htype (not_not.mp hcase))
      exact ⟨j, by omega, hq⟩
    | false => exact fun h => by cases h

theorem Takes.expect_then {type : TokenType} (htype : type ≠ .EOF ∧ type ≠ .ERROR)
    {f : Unit → ParseM β} (h : ∀ j, j + 1 ≤ k → Takes j n (f ())) :
    Takes k (n + 1) (parser_expect type >>= f) := by
  refine (Takes.bind (.expect htype) fun _ j hj => h j (by omega)).less (by omega)

theorem optional_semicolon_takes : Takes k 0 optional_semicolon :=
  .token fun _ => .ite (fun _ => Takes.skip.at) fun _ => (Takes.pure _).at

/-- As many turns as there are tokens, and one more. -/
theorem Takes.turns {f : ℕ → ParseM β} (h : ∀ m j, j ≤ k → j < m → Takes j n (f m)) :
    Takes k n (turns >>= f) := by
  intro p hp
  refine Triple.after (h _ p.toks.length hp.toks (Nat.lt_succ_self _)) ?_ p ⟨hp.ends, le_rfl⟩
  rintro _ q ⟨j, hj, hq⟩
  exact ⟨j, hj.trans hp.toks, hq⟩

/-! ### What reads no token -/

theorem Detached.in_turns {x : ParseM α} (h : Detached x) :
    Triple (fun _ => True) x (fun _ _ => True) InTurns := by
  induction h with
  | pure a => exact .pure fun _ _ => trivial
  | error text => exact .throw fun _ _ => by simp [InTurns]
  | overrun => exact .throw fun _ _ => by simp [InTurns]
  | malloc => exact fun _ _ => trivial
  | modify _ => exact .modify fun _ _ => trivial
  | get_bind _ _ ih => exact .get_bind fun p _ => .before (fun _ _ => trivial) (ih p)
  | bind _ _ ihx ihf => exact .bind ihx ihf
  | ite _ _ ihx ihy => exact .ite (fun _ => ihx) fun _ => ihy
  | or_free ptr _ ih => exact .tryCatch ih fun e p he => he

theorem Detached.still {x : ParseM α} (hx : Detached x) {P : Parser → Prop}
    (hP : ∀ p q : Parser, q.toks = p.toks → q.last = p.last → P p → P q) :
    Triple P x (fun _ => P) InTurns := by
  intro p hp
  have hturns := hx.in_turns p trivial
  cases hcase : x p with
  | ok a q => exact hP p q (hx.blind.still hcase).1 (hx.blind.still hcase).2 hp
  | error e q =>
    rw [hcase] at hturns
    exact hturns

theorem TakesAt.detached {x : ParseM α} {f : α → ParseM β} (hx : Detached x)
    (hf : ∀ a, TakesAt T k n (f a)) : TakesAt T k n (x >>= f) := by
  refine Triple.bind (hx.still fun p q htoks hlast hp => ?_) hf
  rw [Parser.current_token, htoks, hlast]
  exact ⟨⟨hlast ▸ hp.1.ends, htoks ▸ hp.1.toks⟩, hp.2⟩

theorem Takes.detached {x : ParseM α} {f : α → ParseM β} (hx : Detached x)
    (hf : ∀ a, Takes k n (f a)) : Takes k n (x >>= f) :=
  Triple.bind (hx.still fun _ _ htoks hlast hp => ⟨hlast ▸ hp.ends, htoks ▸ hp.toks⟩) hf

theorem Detached.takes {x : ParseM α} (hx : Detached x) : Takes k 0 x :=
  (hx.still (P := Ahead k) fun _ _ htoks hlast hp => ⟨hlast ▸ hp.ends, htoks ▸ hp.toks⟩).after
    fun _ _ hq => ⟨k, by omega, hq⟩

/-- A change to what is not the tokens. -/
theorem TakesAt.modify {m : Parser → Parser} {f : PUnit → ParseM β} (hf : TakesAt T k n (f ⟨⟩))
    (hm : ∀ p, (m p).toks = p.toks ∧ (m p).last = p.last) : TakesAt T k n (modify m >>= f) := by
  refine Triple.bind (Q := fun _ p => Ahead k p ∧ T p.current_token) (.modify fun p hp => ?_) fun _ => hf
  rw [Parser.current_token, (hm p).1, (hm p).2]
  exact ⟨⟨(hm p).2.symm ▸ hp.1.ends, (hm p).1.symm ▸ hp.1.toks⟩, hp.2⟩

theorem Takes.modify {m : Parser → Parser} (hm : ∀ p, (m p).toks = p.toks ∧ (m p).last = p.last) :
    Takes k 0 (modify m : ParseM PUnit) :=
  Triple.modify fun p hp => ⟨k, by omega, (hm p).2.symm ▸ hp.ends, (hm p).1.symm ▸ hp.toks⟩

theorem TakesAt.get {f : Parser → ParseM β} (h : ∀ p, TakesAt T k n (f p)) :
    TakesAt T k n (get >>= f) := by
  intro p hp
  exact h p p hp

theorem Takes.get {f : Parser → ParseM β} (h : ∀ p, Takes k n (f p)) : Takes k n (get >>= f) := by
  intro p hp
  exact h p p hp

end Rules

section Walk

variable {k : ℕ}

theorem parse_operand_takes (text : String) : Takes k 1 (parse_operand text) := by
  refine .token fun t => .ite (fun ht => .word ht (by decide) fun _ _ => .pure _) fun _ =>
    .ite (fun ht => .detached (lookup_constant_detached _) fun found => ?_) fun _ => (Takes.error _).at
  cases found with
  | none => exact (Takes.error _).at
  | some value => exact .word ht (by decide) fun _ _ => .pure _

/-! ## `@protocol` and `@const` -/

theorem parse_protocol_name_takes : Takes k 1 parse_protocol_name := by
  refine .token fun t => .ite (fun ht => TakesAt.modify ?_ fun p => ⟨rfl, rfl⟩) fun _ =>
    (Takes.error _).at
  rcases ht with ht | ht
  · exact .last ht (by decide)
  · exact .last ht (by decide)

theorem parse_protocol_endian_takes : Takes k 1 parse_protocol_endian := by
  refine .token fun t => .ite (fun _ => (Takes.error_then _).at) fun ht => ?_
  have hset (default_endian : Endian) (mode : EndianMode) : TakesAt (· = t) k 1
      (set_endian default_endian mode >>= fun _ => parser_skip_token) :=
    .detached (set_endian_detached _ _) fun _ => .last (not_not.mp ht) (by decide)
  exact .ite (fun _ => hset _ _) fun _ => .ite (fun _ => hset _ _) fun _ =>
    .ite (fun _ => hset _ _) fun _ => (Takes.error_then _).at

/-- One turn: a comma, if there is one, and a number. -/
theorem parse_protocol_ports_takes (n : ℕ) : ∀ {k : ℕ}, k < n → Takes k 1 (parse_protocol_ports n) := by
  induction n with
  | zero => intro k hk; exact absurd hk (Nat.not_lt_zero k)
  | succ n ih =>
    intro k hk
    have hport {k : ℕ} (hk : k < n + 1) : Takes k 1 (do
        parser_require .NUMBER "Expected port number"
        parser_skip_token
        if (← current_token).type = .COMMA then parse_protocol_ports n) := by
      refine .require (.take (fun _ => not_final (by decide)) fun j hj => .token fun t => ?_)
      exact .ite (fun _ => (ih (by omega)).any.at) fun _ => (Takes.pure _).at
    refine .token fun t => .ite (fun _ => ?_) fun _ => (hport hk).at
    exact (Takes.then .skip fun _ j hj => hport (by omega)).at

theorem parse_protocol_entry_takes : Takes k 1 parse_protocol_entry := by
  have hend {j : ℕ} {x : ParseM Unit} (hx : Takes j 0 x) :
      Takes j 0 (x >>= fun _ => optional_semicolon) := .then hx fun _ _ _ => optional_semicolon_takes
  refine .require (.token fun t ht => .word ht (by decide) fun j _ => ?_)
  refine .then (Takes.expect (by decide)).any fun _ i _ => .ite (fun _ => ?_) fun _ => ?_
  · exact hend (parse_protocol_name_takes.any)
  refine .ite (fun _ => ?_) fun _ => .ite (fun _ => ?_) fun _ => .error_then _
  · exact hend (parse_protocol_endian_takes.any)
  · exact .turns fun n l _ hn => hend (parse_protocol_ports_takes n hn).any

/-- A loop over the entries of a block, up to its closing brace. -/
theorem entries_take {loop : ℕ → ParseM Unit} {entry : ParseM Unit}
    (hsucc : ∀ n, loop (n + 1) = do
      if (← current_token).type ≠ .RBRACE then
        entry
        loop n)
    (hentry : ∀ k, Takes k 1 entry) (n : ℕ) : ∀ {k : ℕ}, k < n → Takes k 0 (loop n) := by
  induction n with
  | zero => intro k hk; exact absurd hk (Nat.not_lt_zero k)
  | succ n ih =>
    intro k hk
    rw [hsucc]
    refine .token fun t => .ite (fun _ => ?_) fun _ => (Takes.pure _).at
    exact ((Takes.bind (hentry k) fun _ j hj => ih (by omega)).any).at

theorem parse_protocol_entries_takes (n : ℕ) : ∀ {k : ℕ}, k < n → Takes k 0 (parse_protocol_entries n) :=
  entries_take (fun _ => rfl) (fun _ => parse_protocol_entry_takes) n

theorem parse_protocol_block_takes : Takes k 1 parse_protocol_block := by
  refine .expect_then (by decide) fun j _ => ?_
  refine .then (Takes.expect (by decide)).any fun _ i _ => .get fun p => ?_
  refine .detached (consult_detached _) fun _ => .turns fun n m _ hn => ?_
  exact .then (parse_protocol_entries_takes n hn) fun _ _ _ =>
    (Takes.expect (by decide)).any

theorem parse_const_entry_takes : Takes k 1 parse_const_entry := by
  refine .require (.token fun t ht => .word ht (by decide) fun j _ => ?_)
  refine .then (Takes.expect (by decide)).any fun _ i _ => .require (.token fun t ht => ?_)
  refine .word_any ht (by decide) fun m _ => ?_
  exact .detached (add_constant_detached _ _) fun _ => optional_semicolon_takes

theorem parse_const_entries_takes (n : ℕ) : ∀ {k : ℕ}, k < n → Takes k 0 (parse_const_entries n) :=
  entries_take (fun _ => rfl) (fun _ => parse_const_entry_takes) n

theorem parse_const_block_takes : Takes k 1 parse_const_block := by
  refine .expect_then (by decide) fun j _ => ?_
  refine .then (Takes.expect (by decide)).any fun _ i _ => .turns fun n m _ hn => ?_
  exact .then (parse_const_entries_takes n hn) fun _ _ _ =>
    (Takes.expect (by decide)).any

/-! ## Field paths -/

theorem parse_field_indices_takes (out_size n : ℕ) : ∀ {k : ℕ} (out : CStr), k < n →
    Takes k 0 (parse_field_indices out_size n out) := by
  induction n with
  | zero => intro k out hk; exact absurd hk (Nat.not_lt_zero k)
  | succ n ih =>
    intro k out hk
    refine .token fun t => .ite (fun ht => ?_) fun _ => (Takes.pure _).at
    refine .detached (append_token_detached _ _ _) fun _ => ?_
    refine .word_any ht (by decide) fun j hj => .require (.token fun u hu => ?_)
    refine .detached (append_token_detached _ _ _) fun _ => ?_
    refine .word_any hu (by decide) fun i hi => ?_
    refine .then (Takes.expect (by decide)).any fun _ m hm => ?_
    exact .detached (append_token_detached _ _ _) fun out => ih out (by omega)

theorem parse_field_steps_takes (out_size n : ℕ) : ∀ {k : ℕ} (out : CStr), k < n →
    TakesAt (·.type = .IDENTIFIER) k 1 (parse_field_steps out_size n out) := by
  induction n with
  | zero => intro k out hk; exact absurd hk (Nat.not_lt_zero k)
  | succ n ih =>
    intro k out hk
    refine .token fun t ht => .detached (append_token_detached _ _ _) fun _ => ?_
    refine .word ht (by decide) fun j hj => .turns fun m i hi hm => ?_
    refine .then (parse_field_indices_takes _ _ _ hm) fun out l hl => .token fun u => ?_
    refine .ite (fun hu => .detached (append_token_detached _ _ _) fun out => ?_) fun _ =>
      (Takes.pure _).at
    refine .word_any hu (by decide) fun o ho => .require ?_
    exact (ih out (by omega)).any

theorem parse_field_path_takes (out_size : ℕ) : Takes k 1 (parse_field_path out_size) := by
  refine .require ?_
  intro p hp
  refine Triple.after (parse_field_steps_takes out_size (p.toks.length + 1) [] (Nat.lt_succ_self _))
    ?_ p ⟨⟨hp.1.ends, le_rfl⟩, hp.2⟩
  rintro _ q ⟨j, hj, hq⟩
  exact ⟨j, hj.trans hp.1.toks, hq⟩

/-! ## `@filter` -/

theorem parse_value_list_takes (n : ℕ) : ∀ {k : ℕ} (values : Table ℕ), k < n →
    Takes k 1 (parse_value_list n values) := by
  induction n with
  | zero => intro k values hk; exact absurd hk (Nat.not_lt_zero k)
  | succ n ih =>
    intro k values hk
    refine .detached (reserve_detached _) fun values => ?_
    refine .before (parse_operand_takes _) fun value j hj => .token fun t => ?_
    refine .ite (fun ht => ?_) fun _ => .ite (fun ht => ?_) fun _ => (Takes.error _).at
    · refine .word_any ht (by decide) fun i hi => ?_
      exact (ih _ (by omega)).any
    · exact .word_any ht (by decide) fun i hi => .pure _

theorem parse_in_list_takes (op : ConditionOp) (cond : FilterCondition) :
    Takes k 0 (parse_in_list op cond) := by
  refine .then .skip fun _ j _ => .then (Takes.expect (by decide)).any fun _ i _ => ?_
  refine .turns fun n m _ hn => .detached (calloc_detached 4) fun values => ?_
  refine .then (parse_value_list_takes n values hn).any fun _ _ _ => ?_
  exact .ite (fun _ => .error_then _) fun _ => .pure _

theorem parse_comparison_takes (cond : FilterCondition) : Takes k 0 (parse_comparison cond) := by
  refine .token fun t => ?_
  cases comparison_op t.type with
  | none => exact (Takes.error _).at
  | some op => exact (Takes.then .skip fun _ _ _ => .pure _).at

theorem parse_not_takes : Takes k 0 parse_not :=
  .token fun _ => .ite (fun _ => (Takes.then .skip fun _ _ _ => .pure _).at) fun _ => (Takes.pure _).at

theorem parse_operator_takes (cond : FilterCondition) : Takes k 0 (parse_operator cond) := by
  refine .token fun t => .ite (fun _ => Takes.at ?_) fun _ => Takes.at ?_
  · refine .then .skip fun _ j _ => .then (parse_operand_takes _).any fun _ i _ => ?_
    exact .then (Takes.expect (by decide)).any fun _ _ _ => .pure _
  · refine .then parse_not_takes fun negate j _ => .token fun u => ?_
    exact .ite (fun _ => (parse_in_list_takes _ _).at) fun _ => (parse_comparison_takes _).at

theorem parse_condition_takes : Takes k 1 parse_condition := by
  refine .require (Takes.at ?_)
  refine .before (parse_field_path_takes 128) fun _ j _ => .then (parse_operator_takes _) fun _ i _ => ?_
  exact .ite (fun _ => .then (parse_operand_takes _).any fun _ _ _ => .pure _)
    fun _ => .pure _

theorem parse_sliding_takes {t : Token} (ht : t.type = .IDENTIFIER) :
    TakesAt (· = t) k 1 parse_sliding := by
  refine .word ht (by decide) fun j _ => .then (Takes.expect (by decide)).any fun _ i _ => ?_
  have hskip (b : Bool) : Takes i 0 (parser_skip_token >>= fun _ => pure b) :=
    .then .skip fun _ _ _ => .pure b
  exact .token fun u => .ite (fun _ => .ite (fun _ => (hskip _).at) fun _ =>
    .ite (fun _ => (hskip _).at) fun _ => (Takes.error _).at) fun _ =>
      .ite (fun _ => (hskip _).at) fun _ => (Takes.error _).at

theorem parse_sliding_max_takes {t : Token} (ht : t.type = .IDENTIFIER) :
    TakesAt (· = t) k 1 parse_sliding_max := by
  refine .word ht (by decide) fun j _ => .then (Takes.expect (by decide)).any fun _ i _ => ?_
  exact .require (Takes.at (.token fun u => (Takes.then .skip fun _ _ _ => .pure _).at))

theorem parse_filter_item_takes (rule : TempFilterRule) : Takes k 1 (parse_filter_item rule) := by
  refine .token fun t => .ite (fun ht => ?_) fun _ => .ite (fun ht => ?_) fun _ => Takes.at ?_
  · exact .before (parse_sliding_takes ht.1) fun _ _ _ => .then optional_semicolon_takes fun _ _ _ => .pure _
  · exact .before (parse_sliding_max_takes ht.1) fun _ _ _ => .then optional_semicolon_takes fun _ _ _ => .pure _
  · refine .detached (reserve_detached _) fun conditions => ?_
    refine .before parse_condition_takes fun _ j _ => .then optional_semicolon_takes fun _ _ _ => .pure _

theorem parse_filter_items_takes (n : ℕ) : ∀ {k : ℕ} (rule : TempFilterRule), k < n →
    Takes k 0 (parse_filter_items n rule) := by
  induction n with
  | zero => intro k rule hk; exact absurd hk (Nat.not_lt_zero k)
  | succ n ih =>
    intro k rule hk
    refine .token fun t => .ite (fun _ => Takes.at ?_) fun _ => (Takes.pure _).at
    exact (Takes.bind (parse_filter_item_takes rule) fun rule j hj => ih rule (by omega)).any

theorem parse_filter_block_takes : Takes k 1 parse_filter_block := by
  refine .expect_then (by decide) fun j _ => .require (Takes.at (.get fun p => ?_))
  refine .detached (consult_detached _) fun _ => .get fun p1 => .get fun p2 => ?_
  refine .ite (fun _ => .error_then _) fun _ => .token fun t => Takes.at (.then .skip fun _ i _ => ?_)
  refine .then (Takes.expect (by decide)).any fun _ l _ => ?_
  refine .detached (calloc_detached 8) fun conditions => .turns fun n m _ hn => ?_
  refine .then (parse_filter_items_takes n _ hn) fun rule o _ => .then (.modify fun _ => ⟨rfl, rfl⟩) ?_
  exact fun _ _ _ => (Takes.expect (by decide)).any

/-! ## Structs -/

theorem parse_bytes_size_takes : Takes k 0 parse_bytes_size := by
  refine .token fun t => .ite (fun _ => Takes.at (.then .skip fun _ j _ => ?_)) fun _ => (Takes.error _).at
  refine .require (Takes.at (.token fun u => Takes.at (.then .skip fun _ i _ => ?_)))
  exact .then (Takes.expect (by decide)).any fun _ _ _ => .pure _

theorem parse_array_size_takes (f : Field) : Takes k 0 (parse_array_size f) := by
  refine .token fun t => .ite (fun _ => Takes.at ?_) fun _ => (Takes.pure _).at
  refine .ite (fun _ => .error_then _) fun _ => .then .skip fun _ j _ => ?_
  refine .require (Takes.at (.token fun u => Takes.at (.ite (fun _ => .error_then _) fun _ => ?_)))
  refine .then .skip fun _ i _ => ?_
  exact .then (Takes.expect (by decide)).any fun _ _ _ => .pure _

/-- Whatever token stands for its type, the name of a field is a word. -/
theorem parse_struct_field_takes : Takes k 1 parse_struct_field := by
  have hname (type : FieldType) (size : ℕ) (type_name : CStr) {j : ℕ} : Takes j 1 (do
      parser_require .IDENTIFIER "Expected field name"
      let field_name := cstr 64 (← current_token).text
      parser_skip_token
      let f ← parse_array_size (name_field type size type_name field_name)
      return { f with
        endian := (← get).proto.default_endian, is_variable := type = FieldType.VARBYTES }) := by
    refine .require (.token fun u hu => .word hu (by decide) fun i _ => ?_)
    exact .then (parse_array_size_takes _) fun _ _ _ => .get fun _ => .pure _
  refine .token fun t => Takes.at (.then .skip fun _ j _ => .ite (fun _ => ?_) fun _ => hname _ _ _)
  exact .then parse_bytes_size_takes fun _ _ _ => hname _ _ _

theorem parse_struct_fields_takes (n : ℕ) : ∀ {k : ℕ} (s : StructDef), k < n →
    Takes k 0 (parse_struct_fields n s) := by
  induction n with
  | zero => intro k s hk; exact absurd hk (Nat.not_lt_zero k)
  | succ n ih =>
    intro k s hk
    refine .token fun t => .ite (fun _ => Takes.at ?_) fun _ => (Takes.pure _).at
    refine .ite (fun _ => .error_then _) fun _ => .detached (reserve_detached _) fun fields => ?_
    refine (Takes.before parse_struct_field_takes fun f j hj => ?_).any
    exact .then optional_semicolon_takes fun _ i _ => ih _ (by omega)

theorem parse_struct_def_takes : Takes k 1 parse_struct_def := by
  refine .require (TakesAt.get fun p => .detached (consult_detached _) fun _ => .get fun p1 => .get fun p2 => ?_)
  refine .ite (fun _ => Takes.overrun_then.at) fun _ => .token fun t ht => .word ht (by decide) fun j _ => ?_
  refine .then (Takes.expect (by decide)).any fun _ i _ => ?_
  refine .detached (calloc_detached 16) fun fields => .turns fun n m _ hn => ?_
  refine .then (parse_struct_fields_takes n _ hn) fun s o _ => .then (.modify fun _ => ⟨rfl, rfl⟩) ?_
  exact fun _ _ _ => (Takes.expect (by decide)).any

/-! ## Blocks -/

theorem parse_block_takes : Takes k 1 parse_block := by
  refine .token fun t => Takes.at ?_
  cases t.type
  case PROTOCOL => exact parse_protocol_block_takes
  case CONST => exact parse_const_block_takes
  case FILTER => exact parse_filter_block_takes
  case IDENTIFIER => exact parse_struct_def_takes
  all_goals exact .error _

theorem parse_blocks_takes (n : ℕ) : ∀ {k : ℕ}, k < n → Takes k 0 (parse_blocks n) := by
  induction n with
  | zero => intro k hk; exact absurd hk (Nat.not_lt_zero k)
  | succ n ih =>
    intro k hk
    refine .token fun t => .ite (fun _ => Takes.at ?_) fun _ => (Takes.pure _).at
    exact (Takes.bind parse_block_takes fun _ j hj => ih (by omega)).any

theorem parse_source_takes : Takes k 0 parse_source :=
  .turns fun n _ _ hn => .then (parse_blocks_takes n hn) fun _ _ _ =>
    .then flatten_structs_detached.takes fun _ _ _ => compile_filter_rules_detached.takes

end Walk

/-! ## The whole parse -/

/-- `x` does not run out of turns. -/
def Stops (x : ParseM α) (p : Parser) : Prop := ∀ q, x p ≠ .error .out_of_turns q

/-- From any state, `x` takes a token that stands before the final one, or it
leaves with an error. -/
def TakesToken (x : ParseM α) : Prop :=
  ∀ p : Parser, Final p.last → ∀ a q, x p = .ok a q → q.toks.length < p.toks.length

/-- The loops of the parser end within `n` turns. -/
structure LoopsEnd (n : ℕ) (p : Parser) : Prop where
  ports : Stops (parse_protocol_ports n) p
  protocol_entries : Stops (parse_protocol_entries n) p
  const_entries : Stops (parse_const_entries n) p
  field_indices (out_size : ℕ) (out : CStr) : Stops (parse_field_indices out_size n out) p
  field_steps (out_size : ℕ) (out : CStr) (h : p.current_token.type = .IDENTIFIER) :
    Stops (parse_field_steps out_size n out) p
  value_list (values : Table ℕ) : Stops (parse_value_list n values) p
  filter_items (rule : TempFilterRule) : Stops (parse_filter_items n rule) p
  struct_fields (s : StructDef) : Stops (parse_struct_fields n s) p
  blocks : Stops (parse_blocks n) p

/-- What one turn of each loop reads. -/
structure TurnsTake : Prop where
  number (text : String) : TakesToken (parser_require .NUMBER text >>= fun _ => parser_skip_token)
  field_name (text : String) :
    TakesToken (parser_require .IDENTIFIER text >>= fun _ => parser_skip_token)
  protocol_entry : TakesToken parse_protocol_entry
  const_entry : TakesToken parse_const_entry
  value (text : String) : TakesToken (parse_operand text)
  filter_item (rule : TempFilterRule) : TakesToken (parse_filter_item rule)
  struct_field : TakesToken parse_struct_field
  block : TakesToken parse_block

theorem TakesAt.stops {T : Token → Prop} {k n : ℕ} {x : ParseM α} (h : TakesAt T k n x) {p : Parser}
    (hp : Ahead k p) (hT : T p.current_token) : Stops x p := by
  intro q hrun
  have hturns := h p ⟨hp, hT⟩
  rw [hrun] at hturns
  exact hturns rfl

theorem Takes.stops {k n : ℕ} {x : ParseM α} (h : Takes k n x) {p : Parser} (hp : Ahead k p) :
    Stops x p := h.at.stops (T := fun _ => True) hp trivial

theorem Takes.token_taken {x : ParseM α} (h : ∀ k, Takes k 1 x) : TakesToken x := by
  intro p hfinal a q hrun
  have htaken := h p.toks.length p ⟨hfinal, le_rfl⟩
  rw [hrun] at htaken
  obtain ⟨j, hj, hq⟩ := htaken
  have hle := hq.toks
  omega

theorem loops_end {n : ℕ} {p : Parser} (hfinal : Final p.last) (hn : p.toks.length < n) :
    LoopsEnd n p := by
  have hp : Ahead p.toks.length p := ⟨hfinal, le_rfl⟩
  exact {
    ports := (parse_protocol_ports_takes n hn).stops hp
    protocol_entries := (parse_protocol_entries_takes n hn).stops hp
    const_entries := (parse_const_entries_takes n hn).stops hp
    field_indices := fun out_size out => (parse_field_indices_takes out_size n out hn).stops hp
    field_steps := fun out_size out h => (parse_field_steps_takes out_size n out hn).stops hp h
    value_list := fun values => (parse_value_list_takes n values hn).stops hp
    filter_items := fun rule => (parse_filter_items_takes n rule hn).stops hp
    struct_fields := fun s => (parse_struct_fields_takes n s hn).stops hp
    blocks := (parse_blocks_takes n hn).stops hp }

theorem turns_take : TurnsTake := by
  have hword {type : TokenType} (htype : type ≠ .EOF ∧ type ≠ .ERROR) (text : String) (k : ℕ) :
      Takes k 1 (parser_require type text >>= fun _ => parser_skip_token) := by
    refine .require ?_
    rintro p ⟨hp, ht⟩
    exact (TakesAt.last ht htype) p ⟨hp, rfl⟩
  exact {
    number := fun text => Takes.token_taken (hword (by decide) text)
    field_name := fun text => Takes.token_taken (hword (by decide) text)
    protocol_entry := Takes.token_taken fun _ => parse_protocol_entry_takes
    const_entry := Takes.token_taken fun _ => parse_const_entry_takes
    value := fun text => Takes.token_taken fun _ => parse_operand_takes text
    filter_item := fun rule => Takes.token_taken fun _ => parse_filter_item_takes rule
    struct_field := Takes.token_taken fun _ => parse_struct_field_takes
    block := Takes.token_taken fun _ => parse_block_takes }

theorem next_settles (l : Lexer) : (lexer_next_token l).2.length < l.length ∨
    (Final (lexer_next_token l).1 ∧
      lexer_next_token (lexer_next_token l).2 = lexer_next_token l) := by
  rcases lexer_next_token_advances l with hshorter | ⟨hfinal, hstill⟩
  · exact .inl (hshorter.trans_le (skip_length l))
  · exact .inr ⟨hfinal, next_stays hstill⟩

end RxNetCap.Pdef
