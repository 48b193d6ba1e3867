/-
What of the parser reads no token.

A *blind* program neither takes nor reads a token, so it does the same whatever
tokens stand ahead, and it does not fail in silence. Every detached program is
blind.
-/
import RxNetCap.Pdef.Inversion
import RxNetCap.Pdef.Detached

set_option autoImplicit false

namespace RxNetCap.Pdef

open RxNetCap.Ledger RxNetCap.ErrState

variable {α β : Type}

/-! ## Blind programs -/

/-- The parser with other tokens ahead. -/
def Parser.reading (ts : List Token) (last : Token) (p : Parser) : Parser :=
  { p with toks := ts, last := last }

/-- `x` neither reads nor takes a token, and what it throws is not the failure
that `parser_expect` throws when the lexer fails. -/
structure Blind (x : ParseM α) : Prop where
  follows (ts : List Token) (last : Token) :
    Follows (Parser.reading ts last) (fun _ => False) x
  spoken : Meets (fun _ => True) x (fun _ _ => True) (· ≠ .error .silent)

namespace Blind

theorem pure (a : α) : Blind (pure a : ParseM α) where
  follows _ _ := .pure a
  spoken := .pure fun _ _ => trivial

theorem throw {e : Stop} (h : e ≠ .error .silent) : Blind (throw e : ParseM α) where
  follows _ _ := .throw e
  spoken := .throw h

theorem modify {m : Parser → Parser}
    (h : ∀ p ts last, m (p.reading ts last) = (m p).reading ts last) :
    Blind (modify m : ParseM PUnit) where
  follows ts last := .modify fun p => h p ts last
  spoken := .modify fun _ _ => trivial

theorem bind {x : ParseM α} {f : α → ParseM β} (hx : Blind x) (hf : ∀ a, Blind (f a)) :
    Blind (x >>= f) where
  follows ts last := (hx.follows ts last).bind fun a => (hf a).follows ts last
  spoken := hx.spoken.bind fun a => (hf a).spoken

/-- What is read of the state is not its tokens. -/
theorem get_bind {f : Parser → ParseM β} (hsame : ∀ p ts last, f (p.reading ts last) = f p)
    (hf : ∀ p, Blind (f p)) : Blind (get >>= f) where
  follows ts last := .get_bind (fun p => hsame p ts last) fun p => (hf p).follows ts last
  spoken := .get_bind fun p _ => .before (fun _ _ => trivial) (hf p).spoken

theorem ite {c : Prop} [Decidable c] {x y : ParseM α} (hx : Blind x) (hy : Blind y) :
    Blind (if c then x else y) where
  follows ts last := (hx.follows ts last).ite (hy.follows ts last)
  spoken := .ite (fun _ => hx.spoken) fun _ => hy.spoken

/-- A blind program leaves the tokens where they are. -/
theorem still {x : ParseM α} (hx : Blind x) {p q : Parser} {a : α} (h : x p = .ok a q) :
    q.toks = p.toks ∧ q.last = p.last := by
  have hrun := hx.follows p.toks p.last p
  rw [h] at hrun
  have hsame : x p = .ok a (q.reading p.toks p.last) := hrun
  rw [h] at hsame
  injection hsame with _ hq
  rw [hq]
  exact ⟨rfl, rfl⟩

end Blind

theorem malloc_blind : Blind malloc where
  follows _ _ _ := rfl
  spoken _ _ := trivial

theorem or_free_blind (ptr : ℕ) {x : ParseM α} (hx : Blind x) : Blind (or_free ptr x) where
  follows ts last := (hx.follows ts last).tryCatch fun _ p =>
    ⟨{ p with heap := p.heap.free ptr }, rfl⟩
  spoken := hx.spoken.tryCatch fun _ p => ⟨{ p with heap := p.heap.free ptr }, rfl⟩

/-- A change that keeps its way of the tokens and the name keeps the name. -/
theorem reading_of_dressed {m : Parser → Parser}
    (h : ∀ p ts last name, m (p.dressed ts last name) = (m p).dressed ts last name)
    (p : Parser) (ts : List Token) (last : Token) :
    m (p.reading ts last) = (m p).reading ts last := by
  have hname : (m p).proto.name = p.proto.name :=
    congrArg (fun q => q.proto.name) (h p p.toks p.last p.proto.name)
  have hdressed : m (p.reading ts last) = (m p).dressed ts last p.proto.name := h p ts last _
  rw [hdressed, ← hname]
  rfl

theorem Detached.blind {x : ParseM α} (h : Detached x) : Blind x := by
  induction h with
  | pure a => exact .pure a
  | error text => exact .throw (by simp)
  | overrun => exact .throw (by simp)
  | malloc => exact malloc_blind
  | modify hm => exact .modify (reading_of_dressed hm)
  | get_bind hsame _ ih => exact .get_bind (fun p ts last => hsame p ts last p.proto.name) ih
  | bind _ _ ihx ihf => exact .bind ihx ihf
  | ite _ _ ihx ihy => exact .ite ihx ihy
  | or_free ptr _ ih => exact or_free_blind ptr ih

end RxNetCap.Pdef
