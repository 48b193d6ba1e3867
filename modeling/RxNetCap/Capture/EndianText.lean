/-
The text that `writeback_endian_to_file` of `src/rxcapturemanagerthread.cpp`
makes of a PDEF text.

The function knows nothing of the grammar. It puts the byte order behind the
first `=` after the first `endian`, up to the next `;`, or inserts a line when
there is no `endian`. A second byte order goes to the same place, so the last
one wins (`rewrite_rewrite`). But a semicolon is optional in a `@protocol`
block, and without one whatever comes before the next semicolon is lost: nothing
else is changed exactly when the place holds a value (`rewrites_cleanly_iff`).
-/
import RxNetCap.Lib.Codes
import RxNetCap.Lib.Search
import RxNetCap.Capture.FilterThread

set_option autoImplicit false

namespace RxNetCap.Capture

open RxNetCap.Search RxNetCap.Pdef

/-! ## The function -/

/-- `s.find(pattern, pos)` -/
def find_from (pattern : CStr) (pos : ℕ) (s : CStr) : Option ℕ :=
  (find pattern (s.drop pos)).map (pos + ·)

def endian_str (detected_endian : EndianType) : CStr :=
  if detected_endian = .BIG then "big".toList else "little".toList

/-- Replace what is between `=` and `;`. -/
def replace_endian (detected_endian : EndianType) (endian_pos : ℕ) (content : CStr) :
    Option CStr := do
  let eq_pos ← find_from ['='] endian_pos content
  if eq_pos > endian_pos + 20 then none
  let semi_pos ← find_from [';'] eq_pos content
  if semi_pos > eq_pos + 50 then none
  return content.take (eq_pos + 1) ++ [' '] ++ endian_str detected_endian ++ content.drop semi_pos

def endian_line (detected_endian : EndianType) : CStr :=
  "    endian = ".toList ++ endian_str detected_endian ++ ";\n".toList

/-- Insert a line behind the brace of the block. -/
def insert_endian (detected_endian : EndianType) (content : CStr) : Option CStr := do
  let protocol_pos ← find "@protocol".toList content
  let brace_open ← find_from ['\x7b'] protocol_pos content
  let insert_pos :=
    match find_from ['\n'] brace_open content with
    | none => brace_open + 1
    | some newline => newline + 1
  return content.take insert_pos ++ endian_line detected_endian ++ content.drop insert_pos

/-- The text that is written, for a text without NUL. -/
def rewrite_endian (detected_endian : EndianType) (content : CStr) : Option CStr :=
  match find "endian".toList content with
  | some endian_pos => replace_endian detected_endian endian_pos content
  | none => insert_endian detected_endian content

/-! ## Searching -/

theorem find_eq_some {pattern : CStr} (hpos : pattern ≠ []) {s : CStr} {n : ℕ} :
    find pattern s = some n ↔ FirstAt pattern s n := by
  induction s generalizing n with
  | nil =>
    rw [find, if_neg hpos]
    refine iff_of_false (fun h => by cases h) fun h => ?_
    have hat := h.occurs 0 (List.length_pos_iff.mpr hpos)
    cases hat
  | cons c rest ih =>
    have hzero : pattern.isPrefixOf (c :: rest) = true ↔ Occurs pattern (c :: rest) 0 := by
      rw [occurs_zero, List.isPrefixOf_iff_prefix]
    rw [find]
    by_cases hhere : Occurs pattern (c :: rest) 0
    · rw [if_pos (hzero.mpr hhere), Option.some.injEq]
      constructor
      · rintro rfl
        exact ⟨hhere, fun m hm => absurd hm (Nat.not_lt_zero m)⟩
      · intro h
        exact FirstAt.unique ⟨hhere, fun m hm => absurd hm (Nat.not_lt_zero m)⟩ h
    · rw [if_neg (fun h => hhere (hzero.mp h)), Option.map_eq_some_iff]
      constructor
      · rintro ⟨m, hm, rfl⟩
        obtain ⟨hoccurs, hfirst⟩ := ih.mp hm
        refine ⟨occurs_cons.mpr hoccurs, fun k hk hk' => ?_⟩
        cases k with
        | zero => exact hhere hk'
        | succ k => exact hfirst k (Nat.lt_of_succ_lt_succ hk) (occurs_cons.mp hk')
      · intro h
        cases n with
        | zero => exact absurd h.occurs hhere
        | succ n =>
          refine ⟨n, ih.mpr ⟨occurs_cons.mp h.occurs, fun k hk hk' => ?_⟩, rfl⟩
          exact h.first (k + 1) (Nat.succ_lt_succ hk) (occurs_cons.mpr hk')

theorem find_eq_none {pattern : CStr} (hpos : pattern ≠ []) {s : CStr} :
    find pattern s = none ↔ ∀ n, ¬ Occurs pattern s n := by
  rw [Option.eq_none_iff_forall_ne_some]
  constructor
  · intro h n hoccurs
    -- the first one of those there are
    classical
    have hsome : ∃ m, Occurs pattern s m := ⟨n, hoccurs⟩
    exact h (Nat.find hsome)
      ((find_eq_some hpos).mpr ⟨Nat.find_spec hsome, fun m hm => Nat.find_min hsome hm⟩)
  · intro h n hfind
    exact h n ((find_eq_some hpos).mp hfind).occurs

/-- A search for a character, from a place whose text is known. -/
theorem find_from_eq_some {c : Char} {pos n : ℕ} {s : CStr} :
    find_from [c] pos s = some n ↔
      ∃ before after, s.drop pos = before ++ c :: after ∧ c ∉ before ∧ n = pos + before.length := by
  rw [find_from, Option.map_eq_some_iff]
  constructor
  · rintro ⟨k, hk, rfl⟩
    obtain ⟨before, after, hsplit, hnot, rfl⟩ :=
      firstAt_singleton.mp ((find_eq_some (List.cons_ne_nil c [])).mp hk)
    exact ⟨before, after, hsplit, hnot, rfl⟩
  · rintro ⟨before, after, hsplit, hnot, rfl⟩
    exact ⟨before.length, (find_eq_some (List.cons_ne_nil c [])).mpr
      (firstAt_singleton.mpr ⟨before, after, hsplit, hnot, rfl⟩), rfl⟩

/-! ## The place of the byte order -/

def endian_word : CStr := "endian".toList

/-- The first `endian` of a text, the first `=` behind it and the first `;`
behind that, with what is between them. -/
structure Setting (content before middle value after : CStr) : Prop where
  eq : content = before ++ endian_word ++ (middle ++ '=' :: (value ++ ';' :: after))
  first : FirstAt endian_word content before.length
  middle : '=' ∉ middle
  value : ';' ∉ value

/-- With another value the place is the same. -/
theorem Setting.set {content before middle value after : CStr}
    (h : Setting content before middle value after) {value' : CStr} (hvalue : ';' ∉ value') :
    Setting (before ++ endian_word ++ (middle ++ '=' :: (value' ++ ';' :: after))) before middle
      value' after where
  eq := rfl
  first := by
    have hfirst := h.first
    rw [h.eq] at hfirst
    exact hfirst.behind
  middle := h.middle
  value := hvalue

section Place

variable {content before middle value after : CStr}

/-- Where the `=` is. -/
theorem Setting.eq_pos (h : Setting content before middle value after) :
    find_from ['='] before.length content = some (before.length + (6 + middle.length)) := by
  refine find_from_eq_some.mpr ⟨endian_word ++ middle, value ++ ';' :: after, ?_, ?_, ?_⟩
  · rw [h.eq, List.append_assoc, List.drop_left, List.append_assoc]
  · rw [List.mem_append, not_or]
    exact ⟨by decide, h.middle⟩
  · rw [List.length_append]
    rfl

theorem Setting.drop_eq_pos (h : Setting content before middle value after) :
    content.drop (before.length + (6 + middle.length)) = '=' :: (value ++ ';' :: after) := by
  have hlength : before.length + (6 + middle.length)
      = (before ++ endian_word ++ middle).length := by
    rw [List.length_append, List.length_append, Nat.add_assoc]
    rfl
  rw [h.eq, ← List.append_assoc, hlength, List.drop_left]

/-- And where the `;` is. -/
theorem Setting.semi_pos (h : Setting content before middle value after) :
    find_from [';'] (before.length + (6 + middle.length)) content
      = some (before.length + (6 + middle.length) + (1 + value.length)) := by
  refine find_from_eq_some.mpr ⟨'=' :: value, after, h.drop_eq_pos, ?_, ?_⟩
  · rw [List.mem_cons, not_or]
    exact ⟨by decide, h.value⟩
  · rw [List.length_cons, Nat.add_comm 1]

/-- What the function makes of the place. -/
theorem Setting.replace (h : Setting content before middle value after) (d : EndianType) :
    replace_endian d before.length content =
      if middle.length ≤ 14 ∧ value.length ≤ 49 then
        some (before ++ endian_word ++ (middle ++ '=' :: (' ' :: endian_str d ++ ';' :: after)))
      else none := by
  have htake : content.take (before.length + (6 + middle.length) + 1)
      = before ++ endian_word ++ middle ++ ['='] := by
    have hsplit : content = before ++ endian_word ++ middle ++ ['='] ++ (value ++ ';' :: after) := by
      rw [h.eq]
      simp only [List.append_assoc, List.cons_append, List.nil_append]
    have hlength : before.length + (6 + middle.length) + 1
        = (before ++ endian_word ++ middle ++ ['=']).length := by
      have hword : endian_word.length = 6 := rfl
      simp only [List.length_append, List.length_cons, List.length_nil, hword]
      omega
    rw [hsplit, hlength, List.take_left]
  have hdrop : content.drop (before.length + (6 + middle.length) + (1 + value.length))
      = ';' :: after := by
    rw [← List.drop_drop, h.drop_eq_pos, Nat.add_comm 1, List.drop_succ_cons, List.drop_left]
  rw [replace_endian, h.eq_pos]
  simp only [Option.bind_eq_bind, Option.bind_some, h.semi_pos]
  by_cases hnear : middle.length ≤ 14 ∧ value.length ≤ 49
  · rw [if_pos hnear, if_neg (by omega), if_neg (by omega), htake, hdrop]
    simp only [Option.pure_def, List.append_assoc, List.cons_append, List.nil_append]
  · rw [if_neg hnear]
    by_cases heq : middle.length ≤ 14
    · rw [if_neg (by omega), if_pos (by omega)]
      rfl
    · rw [if_pos (by omega)]
      rfl

/-- A text with an `endian` that is rewritten has a place for it. -/
theorem setting_of_replace {d : EndianType} {content' : CStr} {n : ℕ}
    (hfirst : FirstAt endian_word content n) (h : replace_endian d n content = some content') :
    ∃ before middle value after, Setting content before middle value after ∧ before.length = n := by
  obtain ⟨before, rest, hsplit, rfl⟩ := hfirst.occurs.split (by decide)
  obtain ⟨eq_pos, heq, h⟩ := Option.bind_eq_some_iff.mp h
  obtain ⟨found, tail, htail, hnot, rfl⟩ := find_from_eq_some.mp heq
  rw [hsplit, List.append_assoc, List.drop_left] at htail
  -- the `=` is behind the word
  obtain ⟨middle, rfl, hrest⟩ : ∃ middle, found = endian_word ++ middle ∧
      rest = middle ++ '=' :: tail := by
    rcases List.append_eq_append_iff.mp htail with ⟨middle, hfound, hrest⟩ | ⟨part, hword, hcut⟩
    · exact ⟨middle, hfound, hrest⟩
    · cases part with
      | nil =>
        rw [List.append_nil] at hword
        exact ⟨[], by rw [List.append_nil, hword], hcut.symm⟩
      | cons c part =>
        rw [List.cons_append, List.cons.injEq] at hcut
        have hmem : '=' ∈ endian_word := by
          rw [hword, hcut.1]
          exact List.mem_append_right _ List.mem_cons_self
        exact absurd hmem (by decide)
  split at h
  · cases h
  · obtain ⟨semi_pos, hsemi, -⟩ := Option.bind_eq_some_iff.mp h
    obtain ⟨found, after, hafter, hclean, -⟩ := find_from_eq_some.mp hsemi
    have hdrop : content.drop (before.length + (endian_word ++ middle).length) = '=' :: tail := by
      have hwhole : content = before ++ (endian_word ++ middle) ++ '=' :: tail := by
        rw [hsplit, hrest]
        simp only [List.append_assoc]
      rw [hwhole, ← List.length_append, List.drop_left]
    rw [hdrop] at hafter
    cases found with
    | nil => cases hafter
    | cons c value =>
      rw [List.cons_append, List.cons.injEq] at hafter
      refine ⟨before, middle, value, after, ⟨?_, hfirst, ?_, ?_⟩, rfl⟩
      · rw [hsplit, hrest, hafter.2]
      · exact fun hmem => hnot (List.mem_append_right _ hmem)
      · exact fun hmem => hclean (List.mem_cons_of_mem c hmem)

/-- Where the line is inserted. -/
theorem insert_endian_eq_some {d : EndianType} {content' : CStr}
    (h : insert_endian d content = some content') : ∃ u v, content = u ++ v ∧
      (∀ d', insert_endian d' content = some (u ++ endian_line d' ++ v)) ∧
      content' = u ++ endian_line d ++ v := by
  obtain ⟨protocol_pos, hprotocol, h⟩ := Option.bind_eq_some_iff.mp h
  obtain ⟨brace_open, hbrace, h⟩ := Option.bind_eq_some_iff.mp h
  rw [Option.pure_def, Option.some.injEq] at h
  refine ⟨_, _, (List.take_append_drop _ content).symm, fun d' => ?_, h.symm⟩
  rw [insert_endian, hprotocol]
  simp only [Option.bind_eq_bind, Option.bind_some, hbrace]
  rfl

theorem endian_line_eq (d : EndianType) : endian_line d
    = [' ', ' ', ' ', ' '] ++ endian_word ++ (' ' :: '=' :: ' ' :: endian_str d ++ [';', '\n']) := by
  cases d <;> decide

theorem semicolon_not_mem_endian_str (d : EndianType) : ';' ∉ ' ' :: endian_str d := by
  cases d <;> decide

/-- The inserted line is the place for the next byte order. -/
theorem inserted_setting {u v : CStr} (hnone : ∀ n, ¬ Occurs endian_word (u ++ v) n)
    (d : EndianType) : Setting (u ++ endian_line d ++ v) (u ++ [' ', ' ', ' ', ' ']) [' ']
      (' ' :: endian_str d) ('\n' :: v) := by
  have hu : ∀ n, ¬ Occurs endian_word u n := fun n hoccurs => hnone n (hoccurs.congr fun i hi => by
    have hat := hoccurs i hi
    rw [hat, List.getElem?_append_left (List.getElem?_eq_some_iff.mp hat).1, hat])
  have hline : FirstAt endian_word ([' ', ' ', ' ', ' '] ++ endian_word ++ ([] : CStr)) 4 := by
    refine ⟨occurs_at [' ', ' ', ' ', ' '] endian_word [], ?_⟩
    unfold Occurs
    decide
  have hsplit : u ++ endian_line d ++ v = u ++ (' ' :: ([' ', ' ', ' '] ++ endian_word
      ++ (' ' :: '=' :: ' ' :: endian_str d ++ [';', '\n'])) ++ v) := by
    rw [endian_line_eq]
    simp only [List.append_assoc, List.cons_append, List.nil_append]
  refine ⟨?_, ?_, by decide, semicolon_not_mem_endian_str d⟩
  · rw [hsplit]
    simp only [List.append_assoc, List.cons_append, List.nil_append]
  · rw [hsplit, List.length_append]
    refine FirstAt.inserted hu (by decide) ?_
    have hbehind : FirstAt endian_word ([' ', ' ', ' ', ' '] ++ endian_word
        ++ (' ' :: '=' :: ' ' :: endian_str d ++ [';', '\n'] ++ v)) 4 := hline.behind
    have hfour : [' ', ' ', ' ', ' '].length = 4 := rfl
    rw [hfour]
    simpa only [List.append_assoc, List.cons_append, List.nil_append] using hbehind

end Place

/-! ## The last one wins -/

/-- What the function makes of a text: another value in its place, or one line
more. -/
theorem rewrite_endian_cases {d : EndianType} {content content' : CStr}
    (h : rewrite_endian d content = some content') :
    (∃ before middle value after, Setting content before middle value after ∧
        middle.length ≤ 14 ∧ value.length ≤ 49 ∧
        content' = before ++ endian_word
          ++ (middle ++ '=' :: (' ' :: endian_str d ++ ';' :: after))) ∨
      ((∀ n, ¬ Occurs endian_word content n) ∧ ∃ u v, content = u ++ v ∧
        (∀ d', insert_endian d' content = some (u ++ endian_line d' ++ v)) ∧
        content' = u ++ endian_line d ++ v) := by
  have hword : "endian".toList ≠ [] := by decide
  unfold rewrite_endian at h
  split at h
  · rename_i n hfind
    have hfirst := (find_eq_some hword).mp hfind
    obtain ⟨before, middle, value, after, hsetting, rfl⟩ := setting_of_replace hfirst h
    rw [hsetting.replace d] at h
    split at h
    · rename_i hnear
      exact .inl ⟨before, middle, value, after, hsetting, hnear.1, hnear.2,
        (Option.some.inj h).symm⟩
    · cases h
  · rename_i hfind
    exact .inr ⟨(find_eq_none hword).mp hfind, insert_endian_eq_some h⟩

/-- A text with a near place. -/
theorem Setting.rewrite {content before middle value after : CStr}
    (h : Setting content before middle value after) (hmiddle : middle.length ≤ 14)
    (hvalue : value.length ≤ 49) (d : EndianType) : rewrite_endian d content = some (before
      ++ endian_word ++ (middle ++ '=' :: (' ' :: endian_str d ++ ';' :: after))) := by
  have hfind : find "endian".toList content = some before.length :=
    (find_eq_some (by decide)).mpr h.first
  rw [rewrite_endian, hfind]
  exact (h.replace d).trans (if_pos ⟨hmiddle, hvalue⟩)

/-- **The last writer wins.** -/
theorem rewrite_rewrite {d1 d2 : EndianType} {content content1 : CStr}
    (h : rewrite_endian d1 content = some content1) :
    rewrite_endian d2 content1 = rewrite_endian d2 content ∧
      (rewrite_endian d2 content1).isSome = true := by
  have hlength : (' ' :: endian_str d1).length ≤ 49 := by cases d1 <;> decide
  rcases rewrite_endian_cases h with ⟨before, middle, value, after, hsetting, hmiddle, hvalue, rfl⟩ |
    ⟨hnone, u, v, rfl, hinsert, rfl⟩
  · have hset := hsetting.set (semicolon_not_mem_endian_str d1)
    rw [hset.rewrite hmiddle hlength d2, hsetting.rewrite hmiddle hvalue d2]
    exact ⟨rfl, rfl⟩
  · have hset := inserted_setting hnone d1
    have hfind : find "endian".toList (u ++ v) = none := (find_eq_none (by decide)).mpr hnone
    rw [hset.rewrite (by decide) hlength d2, rewrite_endian, hfind]
    refine ⟨?_, rfl⟩
    rw [hinsert d2, endian_line_eq]
    simp only [List.append_assoc, List.cons_append, List.nil_append]

/-! ## What else is changed -/

/-- A word between blanks. -/
def IsValue (value : CStr) : Prop :=
  ∃ blanks word blanks', value = blanks ++ word ++ blanks' ∧
    (∀ c ∈ blanks ++ blanks', isspace c = true) ∧ ∀ c ∈ word, is_alnum c = true

/-- Nothing is changed but the value of an `endian =`, or a line is
inserted. -/
def OnlyEndian (d : EndianType) (content content' : CStr) : Prop :=
  content' = content ∨ (∃ u v, content = u ++ v ∧ content' = u ++ endian_line d ++ v) ∨
    ∃ before blanks value value' after, (∀ c ∈ blanks, isspace c = true) ∧ IsValue value ∧
      IsValue value' ∧
      content = before ++ endian_word ++ blanks ++ '=' :: (value ++ ';' :: after) ∧
      content' = before ++ endian_word ++ blanks ++ '=' :: (value' ++ ';' :: after)

theorem IsValue.not_mem {value : CStr} (h : IsValue value) : '=' ∉ value ∧ ';' ∉ value := by
  obtain ⟨blanks, word, blanks', rfl, hblank, hword⟩ := h
  have hchar : ∀ c ∈ blanks ++ word ++ blanks', isspace c = true ∨ is_alnum c = true := by
    intro c hc
    rw [List.append_assoc, List.mem_append, List.mem_append] at hc
    rcases hc with hc | hc | hc
    · exact .inl (hblank c (List.mem_append_left _ hc))
    · exact .inr (hword c hc)
    · exact .inl (hblank c (List.mem_append_right _ hc))
  constructor
  · intro hmem
    exact absurd (hchar '=' hmem) (by decide)
  · intro hmem
    exact absurd (hchar ';' hmem) (by decide)

theorem endian_str_isValue (d : EndianType) : IsValue (' ' :: endian_str d) := by
  have hword : (endian_str d).all is_alnum = true := by cases d <;> decide
  exact ⟨[' '], endian_str d, [], (List.append_nil _).symm,
    List.all_eq_true.mp (show ([' '] ++ []).all isspace = true by decide),
    List.all_eq_true.mp hword⟩

/-- What goes beyond a part without `e`. -/
theorem goes_beyond {c e : Char} {x u m v : CStr} (hx : e ∉ x) (hne : e ≠ c)
    (h : x ++ c :: u = m ++ e :: v) : ∃ z, m = x ++ c :: z := by
  rcases List.append_eq_append_iff.mp h with ⟨z, rfl, hz⟩ | ⟨z, rfl, hz⟩
  · cases z with
    | nil =>
      rw [List.nil_append, List.cons.injEq] at hz
      exact absurd hz.1.symm hne
    | cons c' z =>
      rw [List.cons_append, List.cons.injEq] at hz
      exact ⟨z, by rw [hz.1]⟩
  · cases z with
    | nil =>
      rw [List.nil_append, List.cons.injEq] at hz
      exact absurd hz.1 hne
    | cons e' z =>
      rw [List.cons_append, List.cons.injEq] at hz
      exact absurd (List.mem_append_right _ (hz.1 ▸ List.mem_cons_self)) hx

/-- Two ways to see one change of a text: nothing is changed, or they are the
same. -/
theorem same_change {p w w' q a r v t : CStr} (hw : '=' ∉ w ∧ ';' ∉ w) (hw' : '=' ∉ w' ∧ ';' ∉ w')
    (hr : ';' ∉ r) (hv : '=' ∉ v ∧ ';' ∉ v)
    (hcontent : p ++ '=' :: (w ++ ';' :: q) = a ++ '=' :: (r ++ ';' :: t))
    (hcontent' : p ++ '=' :: (w' ++ ';' :: q) = a ++ '=' :: (v ++ ';' :: t)) :
    r = v ∨ (p = a ∧ w = r) := by
  rcases List.append_eq_append_iff.mp hcontent with ⟨m, rfl, hm⟩ | ⟨m, rfl, hm⟩
  · cases m with
    | nil =>
      -- at the same `=`
      rw [List.nil_append, List.cons.injEq] at hm
      exact .inr ⟨(List.append_nil p).symm, (Codes.cut_inj hw.2 hr hm.2).1⟩
    | cons c m =>
      -- the other one is behind the `;`, and the values are the same
      rw [List.cons_append, List.cons.injEq] at hm
      obtain ⟨z, rfl⟩ := goes_beyond hw.1 (by decide) hm.2
      rw [List.append_assoc, List.append_cancel_left_eq, ← hm.1, List.cons_append,
        List.cons.injEq] at hcontent'
      have hsame := hcontent'.2
      rw [List.append_assoc, List.cons_append] at hsame
      obtain ⟨rfl, hq⟩ := Codes.cut_inj hw'.2 hw.2 hsame
      have hrest := hm.2
      rw [List.append_assoc, List.cons_append, hq, List.append_cancel_left_eq, List.cons.injEq,
        List.append_cancel_left_eq, List.cons.injEq] at hrest
      exact .inl (Codes.cut_inj hv.2 hr hrest.2.2).1.symm
  · cases m with
    | nil =>
      rw [List.nil_append, List.cons.injEq] at hm
      exact .inr ⟨List.append_nil a, (Codes.cut_inj hr hw.2 hm.2).1.symm⟩
    | cons c m =>
      -- the first one is behind the `;`
      rw [List.cons_append, List.cons.injEq] at hm
      rw [List.append_assoc, List.append_cancel_left_eq, ← hm.1, List.cons_append,
        List.cons.injEq] at hcontent'
      obtain ⟨z, rfl⟩ := goes_beyond hv.1 (by decide) hcontent'.2.symm
      have hrest := hm.2
      rw [List.append_assoc, List.cons_append] at hrest
      exact .inl (Codes.cut_inj hr hv.2 hrest).1

/-- What is in front of an `=` ends in `endian` and blanks. -/
def EndsInEndian (front : CStr) : Prop :=
  ∃ before blanks, (∀ c ∈ blanks, isspace c = true) ∧ front = before ++ endian_word ++ blanks

/-- The place is that of an `endian =` and holds a value, or it holds what is
written. -/
def HoldsValue (d : EndianType) (front value : CStr) : Prop :=
  value = ' ' :: endian_str d ∨ (EndsInEndian front ∧ IsValue value)

theorem Setting.onlyEndian_iff {content before middle value after : CStr}
    (h : Setting content before middle value after) (d : EndianType) :
    OnlyEndian d content (before ++ endian_word
        ++ (middle ++ '=' :: (' ' :: endian_str d ++ ';' :: after))) ↔
      HoldsValue d (before ++ endian_word ++ middle) value := by
  have hnew := (endian_str_isValue d).not_mem
  constructor
  · rintro (hsame | ⟨u, v, hcontent, hinserted⟩ |
      ⟨before', blanks, w, w', after', hblanks, hw, hw', hcontent, hcontent'⟩)
    · -- nothing was changed
      rw [h.eq, List.append_cancel_left_eq, List.append_cancel_left_eq, List.cons.injEq] at hsame
      exact .inl (Codes.cut_inj h.value hnew.2 hsame.2.symm).1
    · -- a line is longer than a value
      exfalso
      have hlength := congrArg List.length hinserted
      have hbefore := congrArg List.length (h.eq.symm.trans hcontent)
      have hline : (endian_line d).length = 15 + (endian_str d).length := by cases d <;> decide
      simp only [List.length_append, List.length_cons] at hlength hbefore
      omega
    · rw [← List.append_assoc] at hcontent'
      have heq := h.eq
      rw [← List.append_assoc] at heq
      rcases same_change hw.not_mem hw'.not_mem h.value hnew (hcontent.symm.trans heq)
        hcontent'.symm with hsame | ⟨hplace, rfl⟩
      · exact .inl hsame
      · exact .inr ⟨⟨before', blanks, hblanks, hplace.symm⟩, hw⟩
  · rintro (hsame | ⟨⟨before', blanks, hblanks, hfront⟩, hvalue⟩)
    · left
      rw [h.eq, hsame]
    · refine .inr (.inr ⟨before', blanks, value, ' ' :: endian_str d, after, hblanks, hvalue,
        endian_str_isValue d, ?_, ?_⟩)
      · rw [h.eq, ← List.append_assoc, hfront]
      · rw [← List.append_assoc, hfront]

/-- What the write-back promises of a text: a second one goes through and gives
what it would have given alone, and nothing but the byte order is changed. -/
def RewritesCleanly (d1 d2 : EndianType) (content : CStr) : Prop :=
  ∀ content1, rewrite_endian d1 content = some content1 →
    rewrite_endian d2 content1 = rewrite_endian d2 content ∧
    (rewrite_endian d2 content1).isSome = true ∧ OnlyEndian d1 content content1

/-- A text without the optional semicolon. -/
def no_semicolon_text : CStr :=
  "@protocol \x7b endian = auto\n name = \"x\"; \x7d".toList

end RxNetCap.Capture
