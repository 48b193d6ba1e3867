/-
The heads of requests and responses as texts of lines.

Every line ends with `CRLF` and an empty one follows. A line without a carriage
return ends where `find` first sees `CRLF` (`find_line_end`), and the head where
it first sees it twice (`find_head_end`). A label without one is found in the
first line that has it (`find_label`).
-/
import RxNetCap.Http.Cuts
import Mathlib.Data.List.Infix

set_option autoImplicit false

namespace RxNetCap.Http

open RxNetCap.Pdef RxNetCap.Capture

/-- The lines with their ends. -/
def lines_text (lines : List CStr) : CStr := lines.flatMap fun line => line ++ CRLF

/-- A line of a head. -/
structure IsLine (line : CStr) : Prop where
  ne_nil : line ≠ []
  no_return : '\r' ∉ line

section Find

variable {pat line : CStr}

/-- A pattern is looked for behind a line without its first character. -/
theorem find_behind_line {x : Char} (hpat : pat.head? = some x) (hline : x ∉ line) (rest : CStr) :
    find pat (line ++ rest) = (find pat rest).map (· + line.length) := by
  induction line with
  | nil =>
    rw [List.nil_append, List.length_nil]
    exact Option.map_id'.symm
  | cons c line ih =>
    have hfirst : ¬ pat <+: c :: (line ++ rest) := by
      rintro ⟨behind, hsplit⟩
      cases pat with
      | nil => cases hpat
      | cons y pat =>
        rw [List.cons_append, List.cons.injEq] at hsplit
        have hx : y = x := Option.some.inj hpat
        exact hline (hx ▸ hsplit.1 ▸ List.mem_cons_self)
    rw [List.cons_append, find, if_neg hfirst, ih fun h => hline (List.mem_cons_of_mem c h), Option.map_map]
    rfl

/-- A line ends at the first `CRLF`. -/
theorem find_line_end (hline : '\r' ∉ line) (rest : CStr) :
    find CRLF (line ++ CRLF ++ rest) = some line.length := by
  have hhere : find CRLF (CRLF ++ rest) = some 0 := if_pos (List.prefix_append CRLF rest)
  rw [List.append_assoc, find_behind_line rfl hline, hhere, Option.map_some, Nat.zero_add]

/-- A label that is not in a line is looked for behind its end. -/
theorem find_behind_label (hpat : '\r' ∉ pat) (hnot : ¬ pat <:+: line) (hnone : pat ≠ []) (rest : CStr) :
    find pat (line ++ '\r' :: rest) = (find pat rest).map (· + (line.length + 1)) := by
  induction line with
  | nil =>
    have hfirst : ¬ pat <+: '\r' :: rest := by
      rintro ⟨behind, hsplit⟩
      cases pat with
      | nil => exact hnone rfl
      | cons x pat =>
        rw [List.cons_append, List.cons.injEq] at hsplit
        exact hpat (hsplit.1 ▸ List.mem_cons_self)
    rw [List.nil_append, find, if_neg hfirst, List.length_nil]
  | cons c line ih =>
    have hfirst : ¬ pat <+: (c :: line) ++ '\r' :: rest := by
      intro hprefix
      rcases List.prefix_or_prefix_of_prefix hprefix (List.prefix_append (c :: line) ('\r' :: rest))
        with hshort | ⟨behind, hlong⟩
      · exact hnot hshort.isInfix
      · rw [← hlong, List.prefix_append_right_inj] at hprefix
        cases behind with
        | nil =>
          rw [List.append_nil] at hlong
          exact hnot (hlong ▸ List.infix_refl _)
        | cons x behind =>
          obtain ⟨more, hsplit⟩ := hprefix
          rw [List.cons_append, List.cons.injEq] at hsplit
          rw [← hlong, hsplit.1] at hpat
          exact hpat (List.mem_append_right _ List.mem_cons_self)
    have hrest : ¬ pat <:+: line := fun h => hnot (h.trans (List.suffix_cons c line).isInfix)
    rw [List.cons_append] at hfirst ⊢
    rw [find, if_neg hfirst, ih hrest, Option.map_map]
    rfl

end Find

section Lines

variable {lines : List CStr}

theorem lines_text_cons (line : CStr) (lines : List CStr) :
    lines_text (line :: lines) = line ++ CRLF ++ lines_text lines := List.flatMap_cons

theorem lines_text_append (before after : List CStr) :
    lines_text (before ++ after) = lines_text before ++ lines_text after := List.flatMap_append

/-- A head ends where its last line does. -/
theorem find_head_end (line : CStr) (lines : List CStr) (hlines : ∀ l ∈ line :: lines, IsLine l) (rest : CStr) :
    find CRLF2 (lines_text (line :: lines) ++ CRLF ++ rest)
      = some ((lines_text (line :: lines)).length - 2) := by
  induction lines generalizing line with
  | nil =>
    have hline := hlines line List.mem_cons_self
    have hhere : find CRLF2 (CRLF2 ++ rest) = some 0 := if_pos (List.prefix_append CRLF2 rest)
    rw [lines_text_cons]
    show find CRLF2 (line ++ CRLF ++ [] ++ CRLF ++ rest) = some ((line ++ CRLF ++ []).length - 2)
    rw [List.append_nil, List.append_assoc, List.append_assoc, ← List.append_assoc CRLF,
      show CRLF ++ CRLF = CRLF2 from rfl, find_behind_line rfl hline.no_return, hhere, List.length_append,
      show CRLF.length = 2 from rfl, Option.map_some, Nat.zero_add, Nat.add_sub_cancel]
  | cons next lines ih =>
    have hline := hlines line List.mem_cons_self
    have hnext := hlines next (List.mem_cons_of_mem line List.mem_cons_self)
    have hlater := ih next fun l hl => hlines l (List.mem_cons_of_mem line hl)
    -- the line that follows is not empty, so the head does not end here
    have hskip : find CRLF2 (CRLF ++ (lines_text (next :: lines) ++ CRLF ++ rest))
        = (find CRLF2 (lines_text (next :: lines) ++ CRLF ++ rest)).map (· + 2) := by
      obtain ⟨x, tail, rfl⟩ := List.exists_cons_of_ne_nil hnext.ne_nil
      have hx : '\r' ≠ x := fun h => hnext.no_return (h ▸ List.mem_cons_self)
      have hfirst : ∀ w : CStr, ¬ CRLF2 <+: '\r' :: '\n' :: x :: w := by
        rintro w ⟨behind, hsplit⟩
        simp only [CRLF2, List.cons_append, List.nil_append, List.cons.injEq, String.reduceToList] at hsplit
        exact hx hsplit.2.2.1
      have hsecond : ∀ w : CStr, ¬ CRLF2 <+: '\n' :: x :: w := by
        rintro w ⟨behind, hsplit⟩
        have hchar := (List.cons.inj hsplit).1
        exact absurd hchar (by decide)
      rw [lines_text_cons]
      show find CRLF2 ('\r' :: '\n' :: x :: _) = (find CRLF2 (x :: _)).map (· + 2)
      rw [find, if_neg (hfirst _), find, if_neg (hsecond _), Option.map_map]
      rfl
    have hsplit : lines_text (line :: next :: lines) ++ CRLF ++ rest
        = line ++ (CRLF ++ (lines_text (next :: lines) ++ CRLF ++ rest)) := by
      rw [lines_text_cons]
      simp only [List.append_assoc]
    have hlong : 2 ≤ (lines_text (next :: lines)).length := by
      rw [lines_text_cons, List.length_append, List.length_append]
      exact (Nat.le_add_left 2 next.length).trans (Nat.le_add_right _ _)
    rw [hsplit, find_behind_line rfl hline.no_return, hskip, hlater, lines_text_cons line, List.length_append,
      List.length_append, show CRLF.length = 2 from rfl]
    simp only [Option.map_some, Option.some.injEq]
    omega

/-- A label is found in the first line that has it. -/
theorem find_label {pat line : CStr} {n : ℕ} (hpat : '\r' ∉ pat) (hnewline : pat.head? ≠ some '\n')
    (hnone : pat ≠ []) (hnot : ∀ l ∈ lines, ¬ pat <:+: l) (hfound : find pat line = some n) (rest : CStr) :
    find pat (lines_text lines ++ (line ++ rest)) = some ((lines_text lines).length + n) := by
  induction lines with
  | nil =>
    show find pat (line ++ rest) = some (0 + n)
    rw [Nat.zero_add]
    exact find_append hfound rest
  | cons l lines ih =>
    have hlater := ih fun l' hl' => hnot l' (List.mem_cons_of_mem l hl')
    have hfirst : ∀ w : CStr, ¬ pat <+: '\n' :: w := by
      rintro w ⟨behind, hsplit⟩
      cases pat with
      | nil => exact hnone rfl
      | cons x pat =>
        rw [List.cons_append, List.cons.injEq] at hsplit
        exact hnewline (congrArg some hsplit.1)
    have hsplit : lines_text (l :: lines) ++ (line ++ rest)
        = l ++ '\r' :: '\n' :: (lines_text lines ++ (line ++ rest)) := by
      rw [lines_text_cons]
      show (l ++ ['\r', '\n'] ++ lines_text lines) ++ _ = _
      simp only [List.append_assoc, List.cons_append, List.nil_append]
    rw [hsplit, find_behind_label hpat (hnot l List.mem_cons_self) hnone, find, if_neg (hfirst _), hlater,
      lines_text_cons, List.length_append, List.length_append, show CRLF.length = 2 from rfl]
    simp only [Option.map_some, Option.some.injEq]
    omega

end Lines

end RxNetCap.Http
