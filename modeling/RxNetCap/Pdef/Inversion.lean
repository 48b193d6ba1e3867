/-
What the primitive operations of the parser did, read off a run that returned.

Every lemma here is an equivalence about `x p = .ok a q`, and together they are
the rewriting rules with which the later modules open a parser function: the
hypothesis that the function returned becomes the list of tokens it saw and the
state it left.
-/
import RxNetCap.Pdef.ParseString
import RxNetCap.Lib.ErrState

set_option autoImplicit false

namespace RxNetCap.Pdef

open RxNetCap.Ledger RxNetCap.ErrState
open EStateM (Result)

variable {α : Type}

/-! ## Errors and the state -/

theorem parser_error_ok (text : String) (p q : Parser) (a : α) :
    (parser_error text : ParseM α) p = .ok a q ↔ False := throw_ok _ a p q

theorem or_free_ok (ptr : ℕ) (x : ParseM α) (p q : Parser) (a : α) :
    or_free ptr x p = .ok a q ↔ x p = .ok a q := by
  refine tryCatch_ok x _ (fun e s b t h => ?_) p q a
  rw [bind_ok] at h
  obtain ⟨u, v, -, h⟩ := h
  rwa [throw_ok] at h

theorem current_token_ok (p q : Parser) (t : Token) :
    current_token p = .ok t q ↔ p.current_token = t ∧ p = q := by
  simp [current_token, map_ok, get_ok, and_comm]

theorem turns_ok (p q : Parser) (n : ℕ) :
    turns p = .ok n q ↔ p.toks.length + 1 = n ∧ p = q := by
  simp [turns, map_ok, get_ok, and_comm]

/-! ## The heap -/

theorem malloc_ok (p q : Parser) (t : ℕ) :
    malloc p = .ok t q ↔ p.heap.malloc.1 = t ∧ { p with heap := p.heap.malloc.2 } = q := by
  rw [malloc, modifyGet_ok, Prod.mk.injEq]

theorem free_ok (t : ℕ) (p q : Parser) (u : Unit) :
    free t p = .ok u q ↔ { p with heap := p.heap.free t } = q := modify_ok _ p q u

theorem consult_ok (t : ℕ) (p q : Parser) (u : Unit) :
    consult t p = .ok u q ↔ { p with heap := p.heap.consult t } = q := modify_ok _ p q u

theorem calloc_ok (cap : ℕ) (p q : Parser) (t : Table α) :
    calloc cap p = .ok t q ↔ { ptr := p.heap.malloc.1, cap := cap, elems := [] } = t ∧
      { p with heap := p.heap.malloc.2 } = q := by
  simp [calloc, map_ok, malloc_ok, and_comm]

theorem calloc_code_ok (n : ℕ) (p q : Parser) (t : Table Instruction) :
    calloc_code n p = .ok t q ↔
      { ptr := p.heap.malloc.1, cap := n, elems := List.replicate n {} } = t ∧
      { p with heap := p.heap.malloc.2 } = q := by
  simp [calloc_code, map_ok, malloc_ok, and_comm]

/-- `reserve` leaves a table with room alone, and moves a full one to a new
block of twice the size. -/
theorem reserve_ok (t t' : Table α) (p q : Parser) :
    reserve t p = .ok t' q ↔
      (t.count < t.cap ∧ t = t' ∧ p = q) ∨
      (t.cap ≤ t.count ∧ t.count < u32 (t.cap * 2) ∧
        { ptr := (p.heap.free t.ptr).malloc.1, cap := u32 (t.cap * 2), elems := t.elems } = t' ∧
        { p with heap := (p.heap.free t.ptr).malloc.2 } = q) := by
  unfold reserve
  simp only [ite_ok, bind_ok, free_ok, malloc_ok, throw_ok, pure_ok, ge_iff_le, not_le]
  constructor
  · rintro (⟨hfull, a, u, rfl, b, v, ⟨rfl, rfl⟩, ⟨-, hf⟩ | ⟨hroom, rfl, rfl⟩⟩ | ⟨hlt, rfl, rfl⟩)
    · exact hf.elim
    · exact .inr ⟨hfull, hroom, rfl, rfl⟩
    · exact .inl ⟨hlt, rfl, rfl⟩
  · rintro (⟨hlt, rfl, rfl⟩ | ⟨hfull, hroom, rfl, rfl⟩)
    · exact .inr ⟨hlt, rfl, rfl⟩
    · exact .inl ⟨hfull, (), _, rfl, _, _, ⟨rfl, rfl⟩, .inr ⟨hroom, rfl, rfl⟩⟩

/-- What is in a table does not change when it is moved. -/
theorem reserve_elems {t t' : Table α} {p q : Parser} (h : reserve t p = .ok t' q) :
    t'.elems = t.elems ∧ q = { p with heap := q.heap } := by
  rw [reserve_ok] at h
  rcases h with ⟨-, rfl, rfl⟩ | ⟨-, -, rfl, rfl⟩
  · exact ⟨rfl, rfl⟩
  · exact ⟨rfl, rfl⟩

/-! ## Tokens -/

theorem parser_next_token_ok (p q : Parser) (b : Bool) :
    parser_next_token p = .ok b q ↔
      { p with toks := p.toks.tail } = q ∧ q.peek_token.ok = b := by
  simp only [parser_next_token, bind_ok, modify_ok, get_ok, pure_ok]
  constructor
  · rintro ⟨-, -, rfl, -, -, ⟨rfl, rfl⟩, rfl, rfl⟩
    exact ⟨rfl, rfl⟩
  · rintro ⟨rfl, rfl⟩
    exact ⟨(), _, rfl, _, _, ⟨rfl, rfl⟩, rfl, rfl⟩

theorem parser_skip_token_ok (p q : Parser) (u : Unit) :
    parser_skip_token p = .ok u q ↔ { p with toks := p.toks.tail } = q := by
  simp [parser_skip_token, map_ok, parser_next_token_ok]

theorem parser_expect_ok (type : TokenType) (p q : Parser) (u : Unit) :
    parser_expect type p = .ok u q ↔
      p.current_token.type = type ∧ { p with toks := p.toks.tail } = q ∧
        q.peek_token.ok = true := by
  simp [parser_expect, current_token_ok, bind_ok, get_ok, throw_ok, pure_ok, ite_ok,
    parser_next_token_ok]

/-- What `parser_expect` does, its failures included. -/
theorem parser_expect_run (type : TokenType) (p : Parser) :
    parser_expect type p =
      if p.current_token.type ≠ type then
        .error (.error (.expected type p.current_token.type p.toks.length)) p
      else if !({ p with toks := p.toks.tail } : Parser).peek_token.ok then
        .error (.error .silent) { p with toks := p.toks.tail }
      else .ok () { p with toks := p.toks.tail } := by
  show (if p.current_token.type ≠ type then _ else _ : ParseM Unit) p = _
  split
  · rfl
  · show (if !({ p with toks := p.toks.tail } : Parser).peek_token.ok then _ else _ : ParseM Unit)
      _ = _
    split
    · rfl
    · rfl

theorem parser_require_ok (type : TokenType) (text : String) (p q : Parser) (u : Unit) :
    parser_require type text p = .ok u q ↔ p.current_token.type = type ∧ p = q := by
  simp [parser_require, current_token_ok, bind_ok, parser_error_ok, pure_ok, ite_ok, and_comm]

theorem optional_semicolon_ok (p q : Parser) (u : Unit) :
    optional_semicolon p = .ok u q ↔
      (if p.current_token.type = .SEMICOLON then { p with toks := p.toks.tail } else p) = q := by
  simp only [optional_semicolon, bind_ok, current_token_ok, pure_ok, parser_skip_token_ok,
    ite_ok, exists_eq_left', and_assoc, exists_and_left]
  by_cases h : p.current_token.type = .SEMICOLON <;> simp [h]

end RxNetCap.Pdef
