/-
Paths as POSIX systems read them, without looking at the files.

A path is cut at its slashes (`segments`). Walking along it, an empty segment and
a single dot stay where one is, two dots go up, and any other segment goes one
down (`walk`); where the walk ends, and whether it began at the root, is what the
path means (`absolute`, `parts`). One path is `Inside` another when it goes on
from there, down only and at least one step. What a system says of its files can
depend on the last segment (`final`): one that is no name asks for a directory.

A path that has two dots nowhere behind a directory is inside of it exactly when
some segment there is a name (`inside_iff`).
-/
import Mathlib.Data.List.Infix
import Mathlib.Tactic.Common

set_option autoImplicit false

namespace RxNetCap.Paths

/-! ## Cutting -/

section Segments

variable {α : Type} [DecidableEq α] {sep : α}

/-- The pieces between the separators. -/
def segments (sep : α) : List α → List (List α)
  | [] => [[]]
  | c :: rest =>
    if c = sep then [] :: segments sep rest
    else (c :: (segments sep rest).headD []) :: (segments sep rest).tail

theorem segments_ne_nil (sep : α) (s : List α) : segments sep s ≠ [] := by
  cases s with
  | nil => exact List.cons_ne_nil _ _
  | cons c rest =>
    rw [segments]
    split
    · exact List.cons_ne_nil _ _
    · exact List.cons_ne_nil _ _

/-- A separator cuts a text in two. -/
theorem segments_append (u v : List α) :
    segments sep (u ++ sep :: v) = segments sep u ++ segments sep v := by
  induction u with
  | nil => simp [segments]
  | cons c u ih =>
    rw [List.cons_append, segments, segments]
    split
    · rw [ih, List.cons_append]
    · obtain ⟨first, more, hsplit⟩ := List.exists_cons_of_ne_nil (segments_ne_nil sep u)
      rw [ih, hsplit]
      rfl

/-- The first piece is the front of the text, the others are parts of it. -/
theorem segments_parts (sep : α) (s : List α) : (segments sep s).headD [] <+: s ∧
    ∀ segment ∈ (segments sep s).tail, segment <:+: s := by
  induction s with
  | nil => exact ⟨List.prefix_rfl, fun _ h => (List.not_mem_nil h).elim⟩
  | cons c rest ih =>
    obtain ⟨hhead, htail⟩ := ih
    rw [segments]
    split
    · refine ⟨List.nil_prefix, fun segment h => ?_⟩
      obtain ⟨first, more, hsplit⟩ := List.exists_cons_of_ne_nil (segments_ne_nil sep rest)
      rw [List.tail_cons, hsplit] at h
      rw [hsplit] at hhead htail
      rcases List.mem_cons.mp h with rfl | h
      · exact (List.IsPrefix.isInfix hhead).trans (List.suffix_cons c rest).isInfix
      · exact (htail segment h).trans (List.suffix_cons c rest).isInfix
    · refine ⟨?_, fun segment h => (htail segment h).trans (List.suffix_cons c rest).isInfix⟩
      rw [List.headD_cons]
      exact (List.prefix_cons_inj c).mpr hhead

theorem infix_of_mem_segments {s segment : List α} (h : segment ∈ segments sep s) : segment <:+: s := by
  obtain ⟨hhead, htail⟩ := segments_parts sep s
  obtain ⟨first, more, hsplit⟩ := List.exists_cons_of_ne_nil (segments_ne_nil sep s)
  rw [hsplit] at h hhead htail
  rcases List.mem_cons.mp h with rfl | h
  · exact hhead.isInfix
  · exact htail segment h

/-- A text without the separator is one piece. -/
theorem segments_solid {s : List α} (h : sep ∉ s) : segments sep s = [s] := by
  induction s with
  | nil => rfl
  | cons c rest ih =>
    obtain ⟨hc, hrest⟩ := List.ne_and_not_mem_of_not_mem_cons h
    rw [segments, if_neg (Ne.symm hc), ih hrest]
    rfl

omit [DecidableEq α] in
/-- A part without the separator lies on one side of it. -/
theorem infix_across {part u v : List α} (hpart : sep ∉ part) (h : part <:+: u ++ sep :: v) :
    part <:+: u ∨ part <:+: v := by
  rcases List.infix_append_iff.mp h with h | h | ⟨front, back, rfl, hfront, hback⟩
  · exact .inl h
  · rcases List.infix_cons_iff.mp h with h | h
    · rcases List.prefix_cons_iff.mp h with rfl | ⟨rest, rfl, -⟩
      · exact .inl List.nil_infix
      · exact absurd List.mem_cons_self hpart
    · exact .inr h
  · -- what is behind the separator of a part that stretches over it would start with it
    rcases List.prefix_cons_iff.mp hback with rfl | ⟨rest, rfl, -⟩
    · exact .inl (by rw [List.append_nil]; exact hfront.isInfix)
    · exact absurd (List.mem_append_right _ List.mem_cons_self) hpart

end Segments

/-! ## Walking along a path -/

abbrev Path := List Char

/-- A segment that goes one down. -/
def IsName (segment : Path) : Prop := segment ≠ [] ∧ segment ≠ ['.']

instance (segment : Path) : Decidable (IsName segment) := inferInstanceAs (Decidable (_ ∧ _))

/-- One step from a directory, which is given from the top. Above the root is the
root, above a relative path's beginning one cannot see. -/
def enter (absolute : Bool) (parts : List Path) (segment : Path) : List Path :=
  if ¬ IsName segment then parts
  else if segment = ['.', '.'] then
    if parts = [] ∧ absolute then []
    else if parts = [] ∨ parts.getLast? = some ['.', '.'] then parts ++ [segment]
    else parts.dropLast
  else parts ++ [segment]

def absolute (path : Path) : Bool := path.head? = some '/'

def walk (absolute : Bool) (parts segments : List Path) : List Path := segments.foldl (enter absolute) parts

/-- The path normalised, without its root. -/
def parts (path : Path) : List Path := walk (absolute path) [] (segments '/' path)

/-- The path leads from the directory to something strictly below. -/
def Inside (dir path : Path) : Prop :=
  absolute dir = absolute path ∧
    ∃ below, below ≠ [] ∧ ['.', '.'] ∉ below ∧ parts path = parts dir ++ below

/-- Without two dots a walk only goes down, by the names. -/
theorem walk_down {absolute : Bool} {segments : List Path} (h : ['.', '.'] ∉ segments) :
    ∀ parts, walk absolute parts segments = parts ++ segments.filter fun segment => IsName segment := by
  induction segments with
  | nil => intro parts; exact (List.append_nil parts).symm
  | cons segment segments ih =>
    intro parts
    obtain ⟨hdots, hrest⟩ := List.ne_and_not_mem_of_not_mem_cons h
    rw [walk, List.foldl_cons, ← walk, ih hrest, enter]
    by_cases hname : IsName segment
    · rw [if_neg (not_not.mpr hname), if_neg (Ne.symm hdots),
        List.filter_cons, if_pos (decide_eq_true hname), List.append_assoc, List.singleton_append]
    · rw [if_pos hname, List.filter_cons, if_neg (by simpa using hname)]

/-- What stands behind the last slash. -/
def final (path : Path) : Path := (segments '/' path).getLastD []

/-- It is a segment of what is behind any slash. -/
theorem final_mem (front rest : Path) : final (front ++ '/' :: rest) ∈ segments '/' rest := by
  have hne := segments_ne_nil '/' rest
  rw [final, segments_append, List.getLastD_eq_getLast?, List.getLast?_append_of_ne_nil _ hne,
    List.getLast?_eq_some_getLast hne]
  exact List.getLast_mem hne

/-- A name behind a slash is the last segment. -/
theorem final_join {dir name : Path} (hslash : '/' ∉ name) : final (dir ++ '/' :: name) = name := by
  rw [final, segments_append, segments_solid hslash, List.getLastD_eq_getLast?, List.getLast?_concat]
  rfl

theorem walk_append (absolute : Bool) (parts segments segments' : List Path) :
    walk absolute parts (segments ++ segments') = walk absolute (walk absolute parts segments) segments' :=
  List.foldl_append

/-- **Behind a directory**, with no two dots: inside if there is a name. -/
theorem inside_iff {dir front rest : Path} (hdir : dir ≠ [])
    (hfront : dir = front ∨ dir = front ++ ['/']) (hdots : ['.', '.'] ∉ segments '/' rest) :
    Inside dir (front ++ '/' :: rest) ↔ ∃ segment ∈ segments '/' rest, IsName segment := by
  have habsolute : absolute dir = absolute (front ++ '/' :: rest) := by
    unfold absolute
    rcases hfront with rfl | rfl
    · rw [List.head?_append_of_ne_nil _ hdir]
    · cases front <;> rfl
  have hdirparts : parts dir = walk (absolute dir) [] (segments '/' front) := by
    rcases hfront with rfl | rfl
    · rfl
    · rw [parts, segments_append, walk_append]
      rfl
  have hparts : parts (front ++ '/' :: rest)
      = parts dir ++ (segments '/' rest).filter fun segment => IsName segment := by
    rw [parts, ← habsolute, segments_append, walk_append, walk_down hdots, hdirparts]
  constructor
  · rintro ⟨-, below, hne, -, hbelow⟩
    rw [hparts] at hbelow
    rw [← List.append_cancel_left hbelow] at hne
    obtain ⟨segment, hmem⟩ := List.exists_mem_of_ne_nil _ hne
    obtain ⟨hsegment, hname⟩ := List.mem_filter.mp hmem
    exact ⟨segment, hsegment, of_decide_eq_true hname⟩
  · rintro ⟨segment, hsegment, hname⟩
    refine ⟨habsolute, _, ?_, ?_, hparts⟩
    · exact List.ne_nil_of_mem (List.mem_filter.mpr ⟨hsegment, decide_eq_true hname⟩)
    · exact fun hmem => hdots (List.mem_filter.mp hmem).1

end RxNetCap.Paths
