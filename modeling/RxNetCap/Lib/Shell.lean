/-
How a POSIX shell splits a command line into words: token recognition and quote
removal, for lines that are one simple command without expansions.

Single quotes keep every character but themselves, double quotes and the
backslash quote as the standard says, and a comment goes on to the end of the
line. Everything that calls for more than that (operators, newlines, parameter,
command and tilde expansion, patterns) makes the line have no words here.

Quoting is never free: a character that is not a single quote is read for every
one in a word and for every end of a word, and for one more when a single quote
is in a word (`words_weight`). So a line that puts its arguments in single
quotes splits into them exactly when none of them has one (`quoted_words_iff`).
-/
import Mathlib.Algebra.Order.Ring.Int
import Mathlib.Algebra.BigOperators.Group.List.Basic
import Mathlib.Data.List.Basic

set_option autoImplicit false

namespace RxNetCap.Shell

/-! ## Splitting -/

inductive Quoting where
  | none
  | escape
  | single
  | double
  | double_escape
  | comment
  deriving DecidableEq, Repr

/-- What has been read: the words that have ended, and the one that has
begun. -/
structure Scan where
  quoting : Quoting := .none
  cur : Option (List Char) := Option.none
  words : List (List Char) := []
  deriving DecidableEq, Repr

def is_blank (c : Char) : Bool := c = ' ' ∨ c = '\t'

/-- Not quoted, these are operators or call for an expansion. -/
def is_special (c : Char) : Bool := c ∈ "\n|&;<>()$`*?[".toList

/-- What a backslash quotes between double quotes. -/
def is_escaped (c : Char) : Bool := c ∈ "$`\"\\".toList

namespace Scan

def put (u : List Char) (s : Scan) : Scan := { s with cur := some (s.cur.getD [] ++ u) }

def end_word (s : Scan) : Scan := { s with cur := Option.none, words := s.words ++ s.cur.toList }

def unquoted (s : Scan) (c : Char) : Option Scan :=
  if is_blank c then some s.end_word
  else if is_special c then Option.none
  else if c = '\'' then some { s.put [] with quoting := .single }
  else if c = '"' then some { s.put [] with quoting := .double }
  else if c = '\\' then some { s with quoting := .escape }
  else if c = '#' ∧ s.cur = Option.none then some { s with quoting := .comment }
  else if c = '~' ∧ s.cur = Option.none then Option.none
  else some (s.put [c])

def next (s : Scan) (c : Char) : Option Scan :=
  match s.quoting with
  | .none => s.unquoted c
  | .escape =>
    -- with a newline it is a continued line
    if c = '\n' then some { s with quoting := .none } else some { s.put [c] with quoting := .none }
  | .single => if c = '\'' then some { s with quoting := .none } else some (s.put [c])
  | .double =>
    if c = '"' then some { s with quoting := .none }
    else if c = '\\' then some { s with quoting := .double_escape }
    else if c = '$' ∨ c = '`' then Option.none
    else some (s.put [c])
  | .double_escape =>
    if c = '\n' then some { s with quoting := .double }
    else if is_escaped c then some { s.put [c] with quoting := .double }
    else some { s.put ['\\', c] with quoting := .double }
  | .comment => if c = '\n' then Option.none else some s

/-- The words at the end of the line. A quote that is open then is an error. -/
def finish (s : Scan) : Option (List (List Char)) :=
  match s.quoting with
  | .none | .comment => some s.end_word.words
  | .escape => some (s.put ['\\']).end_word.words
  | .single | .double | .double_escape => Option.none

end Scan

/-- The words of a line, when it is nothing but words. -/
def words_of (text : List Char) : Option (List (List Char)) :=
  (text.foldlM Scan.next {}).bind Scan.finish

/-! ## What words cost -/

/-- How many characters are no single quotes. -/
def plain (u : List Char) : ℕ := u.countP (· ≠ '\'')

theorem plain_append (u v : List Char) : plain (u ++ v) = plain u + plain v := List.countP_append

theorem plain_cons (c : Char) (u : List Char) : plain (c :: u) = plain [c] + plain u :=
  plain_append [c] u

theorem plain_of_ne {c : Char} (h : c ≠ '\'') : plain [c] = 1 := by simp [plain, h]

theorem plain_prefix {u v : List Char} (h : u <+: v) : plain u ≤ plain v := h.sublist.countP_le

/-- The same for words. -/
def plain_all (words : List (List Char)) : ℕ := (words.map plain).sum

theorem plain_all_append (words more : List (List Char)) :
    plain_all (words ++ more) = plain_all words + plain_all more := by
  rw [plain_all, List.map_append, List.sum_append]
  rfl

@[simp] theorem plain_all_singleton (u : List Char) : plain_all [u] = plain u := by
  simp [plain_all]

/-- 1 when a word has a single quote in it. -/
def quoted (words : List (List Char)) : ℕ := if words.any (·.contains '\'') then 1 else 0

theorem quoted_le_one (words : List (List Char)) : quoted words ≤ 1 := by
  unfold quoted
  split
  · exact Nat.le_refl 1
  · exact Nat.zero_le 1

namespace Scan

variable {s s' : Scan} {c : Char}

/-- All words, also the one that has begun. -/
def all (s : Scan) : List (List Char) := s.words ++ s.cur.toList

/-- What is read ahead of the words: a quote that is open or has left a single
quote in a word. -/
def ahead (s : Scan) : ℕ :=
  match s.quoting with
  | .escape => 1 + quoted s.all
  | .double => 1
  | .double_escape => 2
  | .none | .single | .comment => quoted s.all

def weight (s : Scan) : ℕ := plain_all s.all + s.words.length + s.ahead

@[simp] theorem end_word_words (s : Scan) : s.end_word.words = s.all := rfl

@[simp] theorem end_word_all (s : Scan) : s.end_word.all = s.all := List.append_nil _

theorem put_all_none (h : s.cur = Option.none) (u : List Char) : (s.put u).all = s.all ++ [u] := by
  simp [put, all, h]

theorem plain_put (s : Scan) (u : List Char) :
    plain_all (s.put u).all = plain_all s.all + plain u := by
  simp only [put, all, plain_all_append, Option.toList_some, plain_all_singleton, plain_append]
  cases s.cur with
  | none => simp [plain_all, plain]
  | some v => simp [Nat.add_assoc]

/-- Only a single quote puts one into a word. -/
theorem quoted_put (s : Scan) {u : List Char} (h : '\'' ∉ u) :
    quoted (s.put u).all = quoted s.all := by
  have hany : (s.put u).all.any (·.contains '\'') = s.all.any (·.contains '\'') := by
    simp only [put, all, List.any_append, Option.toList_some, List.any_cons, List.any_nil,
      Bool.or_false]
    cases s.cur with
    | none => simp [h]
    | some v => simp [h]
  rw [quoted, hany, quoted]

theorem not_mem_singleton (h : c ≠ '\'') : '\'' ∉ [c] := fun hmem =>
  h (List.mem_singleton.mp hmem).symm

theorem unquoted_weight (hquoting : s.quoting = .none) (h : s.unquoted c = some s') :
    s'.weight ≤ s.weight + plain [c] := by
  have hbefore : s.weight = plain_all s.all + s.words.length + quoted s.all := by
    simp only [weight, ahead, hquoting]
  unfold unquoted at h
  split at h
  · next hblank =>
    -- the end of a word is paid for by the blank
    obtain rfl := Option.some.inj h
    have hc : c ≠ '\'' := by rintro rfl; exact absurd hblank (by decide)
    have hwords : s.all.length ≤ s.words.length + 1 := by
      rw [all, List.length_append]
      cases s.cur <;> simp
    have hafter : s.end_word.weight = plain_all s.all + s.all.length + quoted s.all := by
      simp only [weight, ahead, end_word_all, end_word_words]
      rw [show s.end_word.quoting = Quoting.none from hquoting]
    rw [hbefore, hafter, plain_of_ne hc]
    omega
  · split at h
    · cases h
    · split at h
      · obtain rfl := Option.some.inj h
        have hafter : ({ s.put [] with quoting := .single } : Scan).weight
            = plain_all (s.put []).all + s.words.length + quoted (s.put []).all := rfl
        rw [hbefore, hafter, plain_put, quoted_put s List.not_mem_nil]
        exact Nat.le_add_right _ _
      · next hc =>
        rw [plain_of_ne hc]
        split at h
        · obtain rfl := Option.some.inj h
          have hafter : ({ s.put [] with quoting := .double } : Scan).weight
              = plain_all (s.put []).all + s.words.length + 1 := rfl
          rw [hbefore, hafter, plain_put, plain, List.countP_nil]
          omega
        · split at h
          · obtain rfl := Option.some.inj h
            have hafter : ({ s with quoting := .escape } : Scan).weight
                = plain_all s.all + s.words.length + (1 + quoted s.all) := rfl
            rw [hbefore, hafter]
            omega
          · split at h
            · obtain rfl := Option.some.inj h
              have hafter : ({ s with quoting := .comment } : Scan).weight
                  = plain_all s.all + s.words.length + quoted s.all := rfl
              rw [hbefore, hafter]
              exact Nat.le_add_right _ _
            · split at h
              · cases h
              · obtain rfl := Option.some.inj h
                have hafter : (s.put [c]).weight
                    = plain_all (s.put [c]).all + s.words.length + quoted (s.put [c]).all := by
                  simp only [weight, ahead]
                  rw [show (s.put [c]).quoting = Quoting.none from hquoting]
                  rfl
                rw [hbefore, hafter, plain_put, quoted_put s (not_mem_singleton hc), plain_of_ne hc]
                omega

/-- A character costs no more than it is. -/
theorem next_weight (h : s.next c = some s') : s'.weight ≤ s.weight + plain [c] := by
  have hone := quoted_le_one s.all
  cases hquoting : s.quoting with
  | none =>
    rw [next, hquoting] at h
    exact unquoted_weight hquoting h
  | escape =>
    have hbefore : s.weight = plain_all s.all + s.words.length + (1 + quoted s.all) := by
      simp only [weight, ahead, hquoting]
    simp only [next, hquoting] at h
    split at h
    · obtain rfl := Option.some.inj h
      have hafter : ({ s with quoting := .none } : Scan).weight
          = plain_all s.all + s.words.length + quoted s.all := rfl
      rw [hbefore, hafter]
      omega
    · obtain rfl := Option.some.inj h
      have hafter : ({ s.put [c] with quoting := .none } : Scan).weight
          = plain_all (s.put [c]).all + s.words.length + quoted (s.put [c]).all := rfl
      rw [hbefore, hafter, plain_put]
      by_cases hc : c = '\''
      · have hquote := quoted_le_one (s.put [c]).all
        omega
      · rw [quoted_put s (not_mem_singleton hc)]
        omega
  | single =>
    have hbefore : s.weight = plain_all s.all + s.words.length + quoted s.all := by
      simp only [weight, ahead, hquoting]
    simp only [next, hquoting] at h
    split at h
    · obtain rfl := Option.some.inj h
      rw [hbefore]
      exact Nat.le_add_right _ _
    · next hc =>
      obtain rfl := Option.some.inj h
      have hafter : (s.put [c]).weight
          = plain_all (s.put [c]).all + s.words.length + quoted (s.put [c]).all := by
        simp only [weight, ahead]
        rw [show (s.put [c]).quoting = Quoting.single from hquoting]
        rfl
      rw [hbefore, hafter, plain_put, quoted_put s (not_mem_singleton hc)]
      omega
  | double =>
    have hbefore : s.weight = plain_all s.all + s.words.length + 1 := by
      simp only [weight, ahead, hquoting]
    simp only [next, hquoting] at h
    split at h
    · obtain rfl := Option.some.inj h
      have hafter : ({ s with quoting := .none } : Scan).weight
          = plain_all s.all + s.words.length + quoted s.all := rfl
      rw [hbefore, hafter]
      omega
    · split at h
      · next hc =>
        obtain rfl := Option.some.inj h
        have hafter : ({ s with quoting := .double_escape } : Scan).weight
            = plain_all s.all + s.words.length + 2 := rfl
        rw [hbefore, hafter, hc]
        exact Nat.le_refl _
      · split at h
        · cases h
        · obtain rfl := Option.some.inj h
          have hafter : (s.put [c]).weight = plain_all (s.put [c]).all + s.words.length + 1 := by
            simp only [weight, ahead]
            rw [show (s.put [c]).quoting = Quoting.double from hquoting]
            rfl
          rw [hbefore, hafter, plain_put]
          omega
  | double_escape =>
    have hbefore : s.weight = plain_all s.all + s.words.length + 2 := by
      simp only [weight, ahead, hquoting]
    simp only [next, hquoting] at h
    have hput : ∀ u, ({ s.put u with quoting := .double } : Scan).weight
        = plain_all (s.put u).all + s.words.length + 1 := fun _ => rfl
    split at h
    · obtain rfl := Option.some.inj h
      have hafter : ({ s with quoting := .double } : Scan).weight
          = plain_all s.all + s.words.length + 1 := rfl
      rw [hbefore, hafter]
      omega
    · split at h
      · obtain rfl := Option.some.inj h
        rw [hbefore, hput, plain_put]
        omega
      · obtain rfl := Option.some.inj h
        have hbackslash : plain ['\\'] = 1 := rfl
        rw [hbefore, hput, plain_put, plain_cons, hbackslash]
        omega
  | comment =>
    simp only [next, hquoting] at h
    split at h
    · cases h
    · obtain rfl := Option.some.inj h
      exact Nat.le_add_right _ _

theorem scan_weight {text : List Char} (h : text.foldlM next s = some s') :
    s'.weight ≤ s.weight + plain text := by
  induction text generalizing s with
  | nil =>
    rw [← Option.some.inj h]
    exact Nat.le_add_right _ _
  | cons c text ih =>
    obtain ⟨t, ht, htext⟩ := Option.bind_eq_some_iff.mp h
    have hhead := next_weight ht
    have hrest := ih htext
    rw [plain_cons]
    omega

theorem finish_weight {words : List (List Char)} (h : s.finish = some words) :
    plain_all words + words.length + quoted words ≤ s.weight + 1 := by
  have hlength : ∀ t : Scan, t.all.length ≤ t.words.length + 1 := by
    intro t
    rw [all, List.length_append]
    cases t.cur <;> simp
  unfold finish at h
  split at h
  · next hquoting =>
    obtain rfl := Option.some.inj h
    have hbefore : s.weight = plain_all s.all + s.words.length + quoted s.all := by
      simp only [weight, ahead, hquoting]
    rw [hbefore, end_word_words]
    have := hlength s
    omega
  · next hquoting =>
    obtain rfl := Option.some.inj h
    have hbefore : s.weight = plain_all s.all + s.words.length + quoted s.all := by
      simp only [weight, ahead, hquoting]
    rw [hbefore, end_word_words]
    have := hlength s
    omega
  · next hquoting =>
    obtain rfl := Option.some.inj h
    have hbefore : s.weight = plain_all s.all + s.words.length + (1 + quoted s.all) := by
      simp only [weight, ahead, hquoting]
    have hbackslash : plain ['\\'] = 1 := rfl
    have hwords : (s.put ['\\']).words = s.words := rfl
    have hall := hlength (s.put ['\\'])
    rw [hbefore, end_word_words, plain_put, quoted_put s (by decide), hbackslash]
    rw [hwords] at hall
    omega
  · cases h
  · cases h
  · cases h

end Scan

/-- **What words cost.** -/
theorem words_weight {text : List Char} {words : List (List Char)} (h : words_of text = some words) :
    plain_all words + words.length + quoted words ≤ plain text + 1 := by
  obtain ⟨s, hscan, hfinish⟩ := Option.bind_eq_some_iff.mp h
  have hread := Scan.scan_weight hscan
  have hend := Scan.finish_weight hfinish
  have hstart : Scan.weight {} = 0 := rfl
  omega

/-! ## Single quotes -/

/-- Arguments, each in single quotes behind a blank. -/
def quote_all (args : List (List Char)) : List Char :=
  args.flatMap fun arg => ' ' :: '\'' :: arg ++ ['\'']

theorem plain_quote_all (args : List (List Char)) :
    plain (quote_all args) = plain_all args + args.length := by
  induction args with
  | nil => rfl
  | cons arg args ih =>
    have hopen : plain (' ' :: '\'' :: arg ++ ['\'']) = 1 + plain arg := by
      rw [List.cons_append, plain_cons, List.cons_append, plain_cons '\'', plain_append]
      simp [plain]
    have hcons : plain_all (arg :: args) = plain arg + plain_all args := List.sum_cons
    rw [quote_all, List.flatMap_cons, plain_append, hopen, ← quote_all, ih, hcons, List.length_cons]
    omega

/-- Inside single quotes. -/
theorem scan_single {s : Scan} (hquoting : s.quoting = .single) {u v : List Char} (hu : '\'' ∉ u)
    (hcur : s.cur = some v) : (u ++ ['\'']).foldlM Scan.next s
      = some { s with quoting := .none, cur := some (v ++ u) } := by
  induction u generalizing s v with
  | nil => simp [Scan.next, hquoting, hcur]
  | cons c u ih =>
    obtain ⟨hc, hrest⟩ := List.ne_and_not_mem_of_not_mem_cons hu
    have hnext : s.next c = some (s.put [c]) := by
      simp only [Scan.next, hquoting, if_neg (Ne.symm hc)]
    have hput : (s.put [c]).cur = some (v ++ [c]) := by simp [Scan.put, hcur]
    rw [List.cons_append, List.foldlM_cons, hnext, Option.bind_eq_bind, Option.bind_some,
      ih (s := s.put [c]) hquoting hrest hput]
    simp [Scan.put]

/-- A quoted argument is the next word. -/
theorem scan_quoted {s : Scan} (hquoting : s.quoting = .none) {arg : List Char} (h : '\'' ∉ arg) :
    (' ' :: '\'' :: arg ++ ['\'']).foldlM Scan.next s
      = some { quoting := .none, cur := some arg, words := s.all } := by
  have hblank : s.next ' ' = some s.end_word := by
    simp only [Scan.next, hquoting]
    rfl
  have hquote : s.end_word.next '\'' = some { s.end_word.put [] with quoting := .single } := by
    have hmode : s.end_word.quoting = .none := hquoting
    simp only [Scan.next, hmode]
    rfl
  rw [List.cons_append, List.foldlM_cons, hblank, Option.bind_eq_bind, Option.bind_some,
    List.cons_append, List.foldlM_cons, hquote, Option.bind_eq_bind, Option.bind_some,
    scan_single (v := []) rfl h rfl]
  rfl

theorem scan_quote_all {s : Scan} (hquoting : s.quoting = .none) {args : List (List Char)}
    (h : ∀ arg ∈ args, '\'' ∉ arg) :
    ∃ s', (quote_all args).foldlM Scan.next s = some s' ∧ s'.quoting = .none ∧
      s'.all = s.all ++ args := by
  induction args generalizing s with
  | nil => exact ⟨s, rfl, hquoting, (List.append_nil _).symm⟩
  | cons arg args ih =>
    have hfirst := scan_quoted hquoting (h arg List.mem_cons_self)
    obtain ⟨s', hs', hmode, hall⟩ := ih (s := { quoting := .none, cur := some arg, words := s.all })
      rfl fun a ha => h a (List.mem_cons_of_mem _ ha)
    refine ⟨s', ?_, hmode, ?_⟩
    · rw [quote_all, List.flatMap_cons, List.foldlM_append, hfirst]
      exact hs'
    · rw [hall]
      simp [Scan.all]

section Lines

variable {head : List Char} {bare args : List (List Char)}

/-- Words that are not quoted, with one blank between two. -/
structure Bare (head : List Char) (bare : List (List Char)) : Prop where
  scanned : ∃ s : Scan, head.foldlM Scan.next {} = some s ∧ s.quoting = .none ∧ s.all = bare
  exact_weight : plain_all bare + bare.length = plain head + 1

/-- A line with fewer characters than the words cost is another line. -/
theorem words_ne_of_short (hbare : Bare head bare) {text : List Char}
    (hshort : plain text < plain (head ++ quote_all args)) : words_of text ≠ some (bare ++ args) := by
  intro h
  have hcost := words_weight h
  have hexact := hbare.exact_weight
  rw [plain_append, plain_quote_all] at hshort
  rw [plain_all_append, List.length_append] at hcost
  omega

/-- **Single quotes** quote what has none. -/
theorem quoted_words_iff (hbare : Bare head bare) :
    words_of (head ++ quote_all args) = some (bare ++ args) ↔ ∀ arg ∈ args, '\'' ∉ arg := by
  constructor
  · intro h arg harg hquote
    have hcost := words_weight h
    have hexact := hbare.exact_weight
    have hone : quoted (bare ++ args) = 1 := by
      refine if_pos (List.any_eq_true.mpr ⟨arg, List.mem_append_right _ harg, ?_⟩)
      exact List.contains_iff_mem.mpr hquote
    rw [plain_all_append, List.length_append, plain_append, plain_quote_all] at hcost
    omega
  · intro h
    obtain ⟨s, hscan, hquoting, hall⟩ := hbare.scanned
    obtain ⟨s', hargs, hmode, hwords⟩ := scan_quote_all hquoting h
    rw [words_of, List.foldlM_append, hscan]
    simp only [Option.bind_eq_bind, Option.bind_some, hargs, Scan.finish, hmode,
      Scan.end_word_words, hwords, hall]

end Lines

end RxNetCap.Shell
