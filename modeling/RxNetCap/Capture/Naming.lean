/-
What a file name tells of the text that its pattern is filled in with.

Collapsing slashes, the suffixes and the directory come after the filling, and
none of them makes one name of two texts (`name_eq_iff`). The texts of two
segments of one capture are different when the sequence number is in the
pattern (`filling_inj`): it is a run of digits without a slash, so it stays in
place, and a longer number makes a longer text.
-/
import RxNetCap.Capture.Signature
import RxNetCap.Capture.Storage

set_option autoImplicit false

namespace RxNetCap.Capture

open RxNetCap.Codes RxNetCap.Pdef

/-! ## Slashes -/

/-- Whether a slash stands before what follows a text. -/
def slash_before (prev_slash : Bool) : CStr → Bool
  | [] => prev_slash
  | c :: rest => slash_before (c = '/') rest

theorem collapse_append (prev_slash : Bool) (u s : CStr) :
    collapse_slashes prev_slash (u ++ s)
      = collapse_slashes prev_slash u ++ collapse_slashes (slash_before prev_slash u) s := by
  induction u generalizing prev_slash with
  | nil => rfl
  | cons c u ih =>
    rw [List.cons_append, collapse_slashes, collapse_slashes, slash_before]
    by_cases hc : c = '/'
    · rw [if_pos hc, if_pos hc, decide_eq_true hc, ih]
      split
      · rfl
      · rfl
    · rw [if_neg hc, if_neg hc, decide_eq_false hc, ih]
      rfl

theorem collapse_plain {u : CStr} (h : '/' ∉ u) (prev_slash : Bool) :
    collapse_slashes prev_slash u = u := by
  induction u generalizing prev_slash with
  | nil => rfl
  | cons c u ih =>
    obtain ⟨hc, hu⟩ := List.ne_and_not_mem_of_not_mem_cons h
    rw [collapse_slashes, if_neg (Ne.symm hc), ih hu]

/-- A text without two slashes in a row is left as it is. -/
theorem collapse_eq_self {s : CStr} (h : ¬ "//".toList <:+: s) : collapse_slashes false s = s := by
  induction s with
  | nil => rfl
  | cons c s ih =>
    have hrest : collapse_slashes false s = s := by
      refine ih fun hdouble => h ?_
      exact hdouble.trans (List.infix_cons (List.infix_refl s))
    rw [collapse_slashes]
    by_cases hc : c = '/'
    · rw [if_pos hc, if_neg Bool.false_ne_true]
      -- the next character is no slash
      cases s with
      | nil => rfl
      | cons d s =>
        have hd : d ≠ '/' := by
          rintro rfl
          exact h ⟨[], s, by rw [hc]; rfl⟩
        rw [collapse_slashes, if_neg hd] at hrest ⊢
        rw [hrest]
    · rw [if_neg hc, hrest]

/-- A text that is there and has no slash. -/
def Solid (u : CStr) : Prop := u ≠ [] ∧ '/' ∉ u

theorem Solid.collapse {u : CStr} (h : Solid u) (prev_slash : Bool) (s : CStr) :
    collapse_slashes prev_slash (u ++ s) = u ++ collapse_slashes false s := by
  have hbefore : ∀ prev_slash, slash_before prev_slash u = false := by
    obtain ⟨hne, hslash⟩ := h
    induction u with
    | nil => exact absurd rfl hne
    | cons c u ih =>
      intro prev_slash
      obtain ⟨hc, hu⟩ := List.ne_and_not_mem_of_not_mem_cons hslash
      rw [slash_before, decide_eq_false (Ne.symm hc)]
      cases u with
      | nil => rfl
      | cons d u => exact ih (List.cons_ne_nil d u) hu false
  rw [collapse_append, collapse_plain h.2, hbefore]

/-! ## Filling in a number

`f` and `g` fill in the same pieces, and differ where `hole` holds: there one
puts `x` and the other `y`. -/

section Filling

variable {ι : Type} {f g : ι → CStr} {hole : ι → Bool} {x y : CStr}

/-- A longer text makes the whole longer, by as much for each hole. -/
theorem collapse_fill_length (hx : Solid x) (hy : Solid y) (l : List ι)
    (hsame : ∀ i ∈ l, hole i = false → f i = g i)
    (hdiff : ∀ i ∈ l, hole i = true → f i = x ∧ g i = y) (prev_slash : Bool) :
    (collapse_slashes prev_slash (l.flatMap f)).length + l.countP hole * y.length
      = (collapse_slashes prev_slash (l.flatMap g)).length + l.countP hole * x.length := by
  induction l generalizing prev_slash with
  | nil => simp [collapse_slashes]
  | cons i l ih =>
    have hrest := ih (fun j hj => hsame j (List.mem_cons_of_mem i hj))
      fun j hj => hdiff j (List.mem_cons_of_mem i hj)
    rw [List.flatMap_cons, List.flatMap_cons]
    cases hi : hole i with
    | true =>
      obtain ⟨hf, hg⟩ := hdiff i List.mem_cons_self hi
      have htail := hrest false
      rw [hf, hg, hx.collapse, hy.collapse, List.length_append, List.length_append,
        List.countP_cons_of_pos hi, Nat.add_mul, Nat.add_mul]
      omega
    | false =>
      have htail := hrest (slash_before prev_slash (g i))
      rw [hsame i List.mem_cons_self hi, collapse_append, collapse_append, List.length_append,
        List.length_append, List.countP_cons_of_neg (by rw [hi]; exact Bool.false_ne_true)]
      omega

/-- Texts of one length are told by the first hole. -/
theorem collapse_fill_eq (hx : Solid x) (hy : Solid y) (hlength : x.length = y.length)
    (l : List ι) (hsame : ∀ i ∈ l, hole i = false → f i = g i)
    (hdiff : ∀ i ∈ l, hole i = true → f i = x ∧ g i = y) (hhole : ∃ i ∈ l, hole i = true)
    (prev_slash : Bool)
    (h : collapse_slashes prev_slash (l.flatMap f) = collapse_slashes prev_slash (l.flatMap g)) :
    x = y := by
  induction l generalizing prev_slash with
  | nil =>
    obtain ⟨i, hi, -⟩ := hhole
    cases hi
  | cons i l ih =>
    rw [List.flatMap_cons, List.flatMap_cons] at h
    cases hi : hole i with
    | true =>
      obtain ⟨hf, hg⟩ := hdiff i List.mem_cons_self hi
      rw [hf, hg, hx.collapse, hy.collapse] at h
      exact (List.append_inj h hlength).1
    | false =>
      rw [hsame i List.mem_cons_self hi, collapse_append, collapse_append] at h
      refine ih (fun j hj => hsame j (List.mem_cons_of_mem i hj))
        (fun j hj => hdiff j (List.mem_cons_of_mem i hj)) ?_ _ (List.append_cancel_left h)
      obtain ⟨j, hj, hhole⟩ := hhole
      rcases List.mem_cons.mp hj with rfl | hj
      · rw [hi] at hhole
        cases hhole
      · exact ⟨j, hj, hhole⟩

/-- **A number that is filled in** can be told from the whole. -/
theorem collapse_fill_inj (hx : Solid x) (hy : Solid y) (l : List ι)
    (hsame : ∀ i ∈ l, hole i = false → f i = g i)
    (hdiff : ∀ i ∈ l, hole i = true → f i = x ∧ g i = y) (hhole : ∃ i ∈ l, hole i = true)
    (prev_slash : Bool)
    (h : collapse_slashes prev_slash (l.flatMap f) = collapse_slashes prev_slash (l.flatMap g)) :
    x = y := by
  have hlength := collapse_fill_length hx hy l hsame hdiff prev_slash
  have hcount : 0 < l.countP hole := List.countP_pos_iff.mpr hhole
  rw [h] at hlength
  have hmul : l.countP hole * y.length = l.countP hole * x.length := Nat.add_left_cancel hlength
  exact collapse_fill_eq hx hy (Nat.eq_of_mul_eq_mul_left hcount hmul).symm l hsame hdiff hhole
    prev_slash h

end Filling

/-! ## Suffixes and directories -/

/-- Where a suffix goes: before the last dot, or to the end when there is
none. -/
theorem insert_suffix_cases (suffix out : CStr) :
    (∃ stem extension, out = stem ++ '.' :: extension ∧ '.' ∉ extension ∧
      insert_suffix suffix out = stem ++ suffix ++ '.' :: extension) ∨
    ('.' ∉ out ∧ insert_suffix suffix out = out ++ suffix) := by
  have hsplit := List.takeWhile_append_dropWhile (p := fun c => decide (c ≠ '.')) (l := out.reverse)
  have hextension : '.' ∉ (out.reverse.takeWhile (· ≠ '.')).reverse := by
    intro hmem
    have hdot := List.mem_takeWhile_imp (List.mem_reverse.mp hmem)
    simp at hdot
  simp only [insert_suffix]
  split
  · next hnil =>
    right
    rw [hnil, List.append_nil] at hsplit
    rw [hsplit, List.reverse_reverse] at hextension
    exact ⟨hextension, rfl⟩
  · next dot stem hcons =>
    left
    have hdot : dot = '.' := by
      have hhead := List.head?_dropWhile_not (fun c => decide (c ≠ '.')) out.reverse
      rw [hcons, List.head?_cons] at hhead
      simpa using hhead
    subst hdot
    refine ⟨stem.reverse, _, ?_, hextension, rfl⟩
    have hreverse := congrArg List.reverse hsplit
    rw [hcons, List.reverse_append, List.reverse_cons, List.reverse_reverse, List.append_assoc]
      at hreverse
    exact hreverse.symm

/-- An extension begins at the last dot. -/
theorem last_dot_inj {stem stem' extension extension' : CStr} (h : '.' ∉ extension)
    (h' : '.' ∉ extension')
    (heq : stem ++ '.' :: extension = stem' ++ '.' :: extension') :
    stem = stem' ∧ extension = extension' := by
  have hreverse := congrArg List.reverse heq
  simp only [List.reverse_append, List.reverse_cons, List.append_assoc, List.cons_append,
    List.nil_append] at hreverse
  obtain ⟨hextension, hstem⟩ := cut_inj (mt List.mem_reverse.mp h) (mt List.mem_reverse.mp h')
    hreverse
  exact ⟨List.reverse_injective hstem, List.reverse_injective hextension⟩

/-- **A suffix** makes one name of no two. -/
theorem insert_suffix_inj {suffix s t : CStr} (hdot : '.' ∉ suffix)
    (h : insert_suffix suffix s = insert_suffix suffix t) : s = t := by
  have hwhole : ∀ {u stem extension : CStr}, '.' ∉ u →
      u ++ suffix ≠ stem ++ suffix ++ '.' :: extension := by
    intro u stem extension hu heq
    have hmem : '.' ∈ u ++ suffix := heq ▸ List.mem_append_right _ List.mem_cons_self
    rcases List.mem_append.mp hmem with hmem | hmem
    · exact hu hmem
    · exact hdot hmem
  rcases insert_suffix_cases suffix s with ⟨stem, extension, rfl, hs, hinsert⟩ | ⟨hs, hinsert⟩ <;>
    rcases insert_suffix_cases suffix t with ⟨stem', extension', rfl, ht, hinsert'⟩ | ⟨ht, hinsert'⟩
  · rw [hinsert, hinsert'] at h
    obtain ⟨hstem, rfl⟩ := last_dot_inj hs ht h
    rw [List.append_cancel_right hstem]
  · rw [hinsert, hinsert'] at h
    exact absurd h.symm (hwhole ht)
  · rw [hinsert, hinsert'] at h
    exact absurd h (hwhole hs)
  · rw [hinsert, hinsert'] at h
    exact List.append_cancel_right h

/-- In a name with an extension. -/
theorem insert_suffix_dot {extension : CStr} (h : '.' ∉ extension) (suffix stem : CStr) :
    insert_suffix suffix (stem ++ '.' :: extension) = stem ++ suffix ++ '.' :: extension := by
  rcases insert_suffix_cases suffix (stem ++ '.' :: extension) with
    ⟨stem', extension', hout, h', hinsert⟩ | ⟨hnone, -⟩
  · obtain ⟨rfl, rfl⟩ := last_dot_inj h h' hout
    exact hinsert
  · exact absurd (List.mem_append_right _ List.mem_cons_self) hnone

/-- In a name without. -/
theorem insert_suffix_plain {out : CStr} (h : '.' ∉ out) (suffix : CStr) :
    insert_suffix suffix out = out ++ suffix := by
  rcases insert_suffix_cases suffix out with ⟨stem, extension, rfl, -, -⟩ | ⟨-, hinsert⟩
  · exact absurd (List.mem_append_right _ List.mem_cons_self) h
  · exact hinsert

/-- One suffix behind another. -/
theorem insert_suffix_append {suffix : CStr} (hdot : '.' ∉ suffix) (suffix' out : CStr) :
    insert_suffix suffix' (insert_suffix suffix out) = insert_suffix (suffix ++ suffix') out := by
  rcases insert_suffix_cases suffix out with ⟨stem, extension, rfl, h, hinsert⟩ | ⟨h, hinsert⟩
  · rw [hinsert, insert_suffix_dot h, insert_suffix_dot h, List.append_assoc stem]
  · have hboth : '.' ∉ out ++ suffix := fun hmem => (List.mem_append.mp hmem).elim h hdot
    rw [hinsert, insert_suffix_plain hboth, insert_suffix_plain h, List.append_assoc]

@[simp] theorem insert_suffix_nil (out : CStr) : insert_suffix [] out = out := by
  rcases insert_suffix_cases [] out with ⟨stem, extension, rfl, -, hinsert⟩ | ⟨-, hinsert⟩
  · rw [hinsert, List.append_nil]
  · rw [hinsert, List.append_nil]

/-- The suffix of a name is told by the name. -/
theorem insert_suffix_right_inj {suffix suffix' out : CStr}
    (h : insert_suffix suffix out = insert_suffix suffix' out) : suffix = suffix' := by
  rcases insert_suffix_cases suffix out with ⟨stem, extension, rfl, hext, -⟩ | ⟨hdot, -⟩
  · rw [insert_suffix_dot hext, insert_suffix_dot hext] at h
    exact List.append_cancel_left (List.append_cancel_right h)
  · rw [insert_suffix_plain hdot, insert_suffix_plain hdot] at h
    exact List.append_cancel_left h

/-- Two texts that are both absolute or both relative. -/
def SameRoot (s t : CStr) : Prop := s.head? = some '/' ↔ t.head? = some '/'

theorem SameRoot.refl (s : CStr) : SameRoot s s := Iff.rfl

theorem SameRoot.symm {s t : CStr} (h : SameRoot s t) : SameRoot t s := Iff.symm h

theorem SameRoot.trans {s t u : CStr} (h : SameRoot s t) (h' : SameRoot t u) : SameRoot s u :=
  Iff.trans h h'

/-- A relative name makes a directory longer. -/
theorem join_path_ne {base s : CStr} (hs : s ≠ []) (hrelative : s.head? ≠ some '/') :
    join_path base s ≠ base := by
  intro h
  rw [join_path, if_neg hs, if_neg hrelative] at h
  have hlength := congrArg List.length h
  split at h
  · next hbase => exact hs (h.trans hbase)
  · next hbase =>
    rw [if_neg hbase] at hlength
    split at hlength
    · rw [List.length_append] at hlength
      exact hs (List.eq_nil_of_length_eq_zero (by omega))
    · rw [List.length_append, List.length_cons] at hlength
      omega

theorem join_path_inj {base s t : CStr} (hroot : SameRoot s t)
    (h : join_path base s = join_path base t) : s = t := by
  by_cases hs : s = []
  · by_cases ht : t = []
    · rw [hs, ht]
    · have hrelative : t.head? ≠ some '/' := by
        intro habsolute
        have hhead := hroot.mpr habsolute
        rw [hs] at hhead
        cases hhead
      rw [hs] at h
      exact absurd h.symm (join_path_ne ht hrelative)
  · by_cases ht : t = []
    · have hrelative : s.head? ≠ some '/' := by
        intro habsolute
        have hhead := hroot.mp habsolute
        rw [ht] at hhead
        cases hhead
      rw [ht] at h
      exact absurd h (join_path_ne hs hrelative)
    · rw [join_path, join_path, if_neg hs, if_neg ht] at h
      by_cases habsolute : s.head? = some '/'
      · rw [if_pos habsolute, if_pos (hroot.mp habsolute)] at h
        exact h
      · rw [if_neg habsolute, if_neg (mt hroot.mpr habsolute)] at h
        split at h
        · exact h
        · split at h
          · exact List.append_cancel_left h
          · exact (List.cons.inj (List.append_cancel_left h)).2

theorem collapse_root (s : CStr) : SameRoot (collapse_slashes false s) s := by
  cases s with
  | nil => exact SameRoot.refl _
  | cons c s =>
    rw [SameRoot, collapse_slashes]
    by_cases hc : c = '/'
    · rw [if_pos hc, if_neg Bool.false_ne_true, List.head?_cons, List.head?_cons]
    · rw [if_neg hc, List.head?_cons, List.head?_cons]

/-- A name with a suffix is as absolute as without. -/
theorem insert_suffix_root {suffix : CStr} (hslash : '/' ∉ suffix) (s : CStr) :
    SameRoot (insert_suffix suffix s) s := by
  cases suffix with
  | nil => rw [insert_suffix_nil]; exact SameRoot.refl s
  | cons c suffix =>
    have hc : c ≠ '/' := fun heq => hslash (heq ▸ List.mem_cons_self)
    rw [SameRoot]
    rcases insert_suffix_cases (c :: suffix) s with ⟨stem, extension, rfl, -, hinsert⟩ | ⟨-, hinsert⟩
    · rw [hinsert]
      cases stem with
      | nil => simp [hc]
      | cons d stem => simp
    · rw [hinsert]
      cases s with
      | nil => simp [hc]
      | cons d s => simp

/-! ## Numbers in names -/

theorem solid_of_number {u : CStr} (hne : u ≠ []) (h : ∀ c ∈ u, NumberChar c) : Solid u := by
  refine ⟨hne, fun hmem => ?_⟩
  rcases h _ hmem with hslash | hslash
  · revert hslash
    decide
  · revert hslash
    decide

theorem decimal_solid (n : ℤ) : Solid (decimal n) := by
  obtain ⟨c, rest, hdecimal, -⟩ := decimal_starts n
  exact solid_of_number (by rw [hdecimal]; exact List.cons_ne_nil c rest) (decimal_chars n)

theorem leftpad_digit {width n : ℕ} {c : Char} (h : c ∈ (Nat.toDigits 10 n).leftpad width '0') :
    c.isDigit = true := by
  rcases List.mem_append.mp h with hzero | hdigit
  · rw [List.eq_of_mem_replicate hzero]
    rfl
  · exact digit_of_mem hdigit

theorem zero_padded_chars (width : ℕ) (n : ℤ) : ∀ c ∈ zero_padded width n, NumberChar c := by
  intro c hc
  unfold zero_padded at hc
  dsimp only at hc
  split at hc
  · rcases List.mem_cons.mp hc with rfl | hc
    · exact .inr rfl
    · exact .inl (leftpad_digit hc)
  · exact .inl (leftpad_digit hc)

theorem zero_padded_solid (width : ℕ) (n : ℤ) : Solid (zero_padded width n) := by
  refine solid_of_number ?_ (zero_padded_chars width n)
  unfold zero_padded
  dsimp only
  split
  · exact List.cons_ne_nil _ _
  · intro hnil
    exact Nat.toDigits_ne_nil (List.append_eq_nil_iff.mp hnil).2

theorem leftpad_inj {width n n' : ℕ}
    (h : (Nat.toDigits 10 n).leftpad width '0' = (Nat.toDigits 10 n').leftpad width '0') :
    n = n' := by
  have hvalue : ∀ n : ℕ,
      Nat.ofDigitChars 10 ((Nat.toDigits 10 n).leftpad width '0') 0 = n := by
    intro n
    rw [List.leftpad, Nat.ofDigitChars_append, Nat.ofDigitChars_replicate_zero, Nat.mul_zero,
      Nat.ofDigitChars_ten_toDigits]
  rw [← hvalue n, h, hvalue n']

theorem zero_padded_inj {width : ℕ} {n n' : ℤ} (h : zero_padded width n = zero_padded width n') :
    n = n' := by
  have hdash : ∀ width m, '-' ∉ (Nat.toDigits 10 m).leftpad width '0' := by
    intro width m hmem
    have hdigit := leftpad_digit hmem
    revert hdigit
    decide
  unfold zero_padded at h
  dsimp only at h
  split at h
  · split at h
    · have habs := leftpad_inj (List.cons.inj h).2
      omega
    · exact absurd (h ▸ List.mem_cons_self) (hdash _ _)
  · split at h
    · exact absurd (h.symm ▸ List.mem_cons_self) (hdash _ _)
    · have habs := leftpad_inj h
      omega

/-! ## Names of segments -/

namespace CRxDumpCtx

variable (world : OpenWorld) (dc : CRxDumpCtx)

/-- The pieces of the pattern that is used. -/
def parts : List Piece := pieces none (non_empty_or dc.pattern default_pattern)

/-- The pattern filled in, every run of slashes as one. -/
def filling : CStr := collapse_slashes false (dc.parts.flatMap (dc.piece_text world))

def port_suffix : CStr := "-p".toList ++ decimal dc.port

/-- What is added to the filled-in pattern. -/
def suffix : CStr :=
  (if dc.port > 0 ∧ Piece.placeholder "port".toList ∉ dc.parts then dc.port_suffix else [])
    ++ (if dc.protocol_filter_path ≠ [] then "_raw".toList else [])

theorem port_suffix_chars : '.' ∉ dc.port_suffix ∧ '/' ∉ dc.port_suffix := by
  have hport : ∀ c ∈ dc.port_suffix, NumberChar c ∨ c = 'p' := by
    intro c hc
    rcases List.mem_append.mp hc with hc | hc
    · rcases List.mem_cons.mp hc with rfl | hc
      · exact .inl (.inr rfl)
      · exact .inr (List.mem_singleton.mp hc)
    · exact .inl (decimal_chars dc.port c hc)
  constructor
  · intro hmem
    rcases hport _ hmem with (h | h) | h <;> revert h <;> decide
  · intro hmem
    rcases hport _ hmem with (h | h) | h <;> revert h <;> decide

/-- A suffix has neither dots nor slashes. -/
theorem suffix_chars : '.' ∉ dc.suffix ∧ '/' ∉ dc.suffix := by
  have hraw : '.' ∉ "_raw".toList ∧ '/' ∉ "_raw".toList := by decide
  obtain ⟨hdot, hslash⟩ := dc.port_suffix_chars
  have hport : ∀ c, c ∉ dc.port_suffix → c ∉ "_raw".toList → c ∉ dc.suffix := by
    intro c hfirst hsecond hmem
    rcases List.mem_append.mp hmem with hmem | hmem
    · split at hmem
      · exact hfirst hmem
      · cases hmem
    · split at hmem
      · exact hsecond hmem
      · cases hmem
  exact ⟨hport _ hdot hraw.1, hport _ hslash hraw.2⟩

/-- **A name** is the filled-in pattern with a suffix, under a directory. -/
theorem expand_pattern_eq :
    expand_pattern world dc = join_path dc.base_dir (insert_suffix dc.suffix (dc.filling world)) := by
  have hcollapse : (if "//".toList <:+: dc.parts.flatMap (dc.piece_text world) then
        collapse_slashes false (dc.parts.flatMap (dc.piece_text world))
      else dc.parts.flatMap (dc.piece_text world)) = dc.filling world := by
    split
    · rfl
    · next hsingle => exact (collapse_eq_self hsingle).symm
  have hsuffix : (if dc.protocol_filter_path ≠ [] then
        insert_suffix "_raw".toList
          (if dc.port > 0 ∧ Piece.placeholder "port".toList ∉ dc.parts then
            insert_suffix dc.port_suffix (dc.filling world) else dc.filling world)
      else
        if dc.port > 0 ∧ Piece.placeholder "port".toList ∉ dc.parts then
          insert_suffix dc.port_suffix (dc.filling world) else dc.filling world)
      = insert_suffix dc.suffix (dc.filling world) := by
    unfold suffix
    split <;> split
    · rw [insert_suffix_append dc.port_suffix_chars.1]
    · rw [List.nil_append]
    · rw [List.append_nil]
    · rw [List.append_nil, insert_suffix_nil]
  rw [← hsuffix, ← hcollapse]
  rfl

variable {dc} {dc' : CRxDumpCtx} {world world' : OpenWorld}

theorem named_root : SameRoot (insert_suffix dc.suffix (dc.filling world)) (dc.filling world) :=
  insert_suffix_root dc.suffix_chars.2 _

/-- Under one directory, two names both absolute or both relative are the same
when their parts behind the directory are. -/
theorem expand_pattern_congr (hbase : dc.base_dir = dc'.base_dir)
    (hroot : SameRoot (dc.filling world) (dc'.filling world')) :
    expand_pattern world dc = expand_pattern world' dc'
      ↔ insert_suffix dc.suffix (dc.filling world)
        = insert_suffix dc'.suffix (dc'.filling world') := by
  rw [expand_pattern_eq, expand_pattern_eq, ← hbase]
  constructor
  · exact join_path_inj ((named_root.trans hroot).trans named_root.symm)
  · intro h
    rw [h]

/-- **Names with one suffix** are the same when their filled-in patterns are. -/
theorem expand_pattern_eq_iff (hbase : dc.base_dir = dc'.base_dir) (hsuffix : dc.suffix = dc'.suffix)
    (hroot : SameRoot (dc.filling world) (dc'.filling world')) :
    expand_pattern world dc = expand_pattern world' dc'
      ↔ dc.filling world = dc'.filling world' := by
  rw [expand_pattern_congr hbase hroot, ← hsuffix]
  exact ⟨insert_suffix_inj dc.suffix_chars.1, fun h => by rw [h]⟩

/-- **Names with one filling** are the same when their suffixes are. -/
theorem expand_pattern_eq_iff_suffix (hbase : dc.base_dir = dc'.base_dir)
    (hfilling : dc.filling world = dc'.filling world') :
    expand_pattern world dc = expand_pattern world' dc' ↔ dc.suffix = dc'.suffix := by
  have hroot : SameRoot (dc.filling world) (dc'.filling world') := by
    rw [hfilling]
    exact SameRoot.refl _
  rw [expand_pattern_congr hbase hroot, ← hfilling]
  exact ⟨insert_suffix_right_inj, fun h => by rw [h]⟩

end CRxDumpCtx

/-- The name of the segment with a number. -/
def segment_name (dc : CRxDumpCtx) (world : OpenWorld) (seq : ℤ) : CStr :=
  expand_pattern world { dc with seq }

/-- The pattern as it is filled in for it. -/
def segment_filling (dc : CRxDumpCtx) (world : OpenWorld) (seq : ℤ) : CStr :=
  CRxDumpCtx.filling world { dc with seq }

section Segments

variable {dc : CRxDumpCtx} {world world' : OpenWorld} {seq seq' : ℤ}

theorem solid_append {u v : CStr} (hu : Solid u) (hv : Solid v) : Solid (u ++ v) := by
  refine ⟨fun hnil => hu.1 (List.append_eq_nil_iff.mp hnil).1, fun hmem => ?_⟩
  rcases List.mem_append.mp hmem with hmem | hmem
  · exact hu.2 hmem
  · exact hv.2 hmem

/-- What stands for a placeholder is the same in all segments, or it is there
and has no slash in any. -/
theorem piece_text_root (dc : CRxDumpCtx) (world world' : OpenWorld) (seq seq' : ℤ) (p : Piece) :
    CRxDumpCtx.piece_text world { dc with seq } p
      = CRxDumpCtx.piece_text world' { dc with seq := seq' } p ∨
    (Solid (CRxDumpCtx.piece_text world { dc with seq } p) ∧
      Solid (CRxDumpCtx.piece_text world' { dc with seq := seq' } p)) := by
  have hday : ∀ tm : Tm, Solid (zero_padded 4 (tm.tm_year + 1900) ++ zero_padded 2 (tm.tm_mon + 1)
      ++ zero_padded 2 tm.tm_mday) := fun _ =>
    solid_append (solid_append (zero_padded_solid _ _) (zero_padded_solid _ _))
      (zero_padded_solid _ _)
  have hdate : ∀ tm : Tm, Solid (zero_padded 4 (tm.tm_year + 1900) ++ zero_padded 2 (tm.tm_mon + 1)
      ++ zero_padded 2 tm.tm_mday ++ zero_padded 2 tm.tm_hour ++ zero_padded 2 tm.tm_min) :=
    fun tm => solid_append (solid_append (hday tm) (zero_padded_solid _ _)) (zero_padded_solid _ _)
  cases p with
  | plain c => exact .inl rfl
  | placeholder key =>
    simp only [CRxDumpCtx.piece_text, CRxDumpCtx.placeholder_text]
    split
    · exact .inr ⟨hday _, hday _⟩
    · split
      · exact .inr ⟨hdate _, hdate _⟩
      · split
        · exact .inr ⟨decimal_solid _, decimal_solid _⟩
        · split
          · exact .inl rfl
          · split
            · exact .inl rfl
            · split
              · exact .inl rfl
              · split
                · exact .inr ⟨zero_padded_solid _ _, zero_padded_solid _ _⟩
                · exact .inl rfl

/-- Texts that begin alike or solidly have one root. -/
theorem flatMap_root {ι : Type} {f g : ι → CStr} (l : List ι)
    (h : ∀ i, f i = g i ∨ (Solid (f i) ∧ Solid (g i))) :
    SameRoot (l.flatMap f) (l.flatMap g) := by
  have hsolid : ∀ {u : CStr} (s : CStr), Solid u → (u ++ s).head? ≠ some '/' := by
    rintro u s ⟨hne, hslash⟩ hhead
    obtain ⟨c, u, rfl⟩ := List.exists_cons_of_ne_nil hne
    exact hslash (Option.some.inj hhead ▸ List.mem_cons_self)
  induction l with
  | nil => exact SameRoot.refl []
  | cons i l ih =>
    rw [List.flatMap_cons, List.flatMap_cons]
    rcases h i with hsame | ⟨hf, hg⟩
    · rw [hsame]
      cases g i with
      | nil => exact ih
      | cons c u => exact Iff.rfl
    · exact iff_of_false (hsolid _ hf) (hsolid _ hg)

/-- The names of two segments are the same when their filled-in patterns are. -/
theorem segment_name_eq_iff :
    segment_name dc world seq = segment_name dc world' seq'
      ↔ segment_filling dc world seq = segment_filling dc world' seq' := by
  refine CRxDumpCtx.expand_pattern_eq_iff rfl rfl ?_
  exact ((collapse_root _).trans (flatMap_root _ (piece_text_root dc world world' seq seq'))).trans
    (collapse_root _).symm

/-- Only the sequence number is different in the segments of a capture whose
time is fixed. -/
theorem piece_text_seq (hstart : dc.start_time ≠ 0) (hlocal : world.localtime = world'.localtime)
    {p : Piece} (hp : p ≠ .placeholder "seq".toList) :
    CRxDumpCtx.piece_text world { dc with seq } p
      = CRxDumpCtx.piece_text world' { dc with seq := seq' } p := by
  have htime : CRxDumpCtx.base_time world { dc with seq } = dc.start_time := if_pos hstart
  have htime' : CRxDumpCtx.base_time world' { dc with seq := seq' } = dc.start_time := if_pos hstart
  cases p with
  | plain c => rfl
  | placeholder key =>
    have hkey : key ≠ "seq".toList := fun heq => hp (congrArg Piece.placeholder heq)
    simp only [CRxDumpCtx.piece_text, CRxDumpCtx.placeholder_text, htime, htime', hlocal, if_neg hkey]

/-- **The sequence number**, where it is in the pattern, tells the segments of
a capture apart. -/
theorem segment_filling_inj (hstart : dc.start_time ≠ 0)
    (hlocal : world.localtime = world'.localtime)
    (hseq : Piece.placeholder "seq".toList ∈ dc.parts)
    (h : segment_filling dc world seq = segment_filling dc world' seq') : seq = seq' := by
  let hole : Piece → Bool := fun p => p = .placeholder "seq".toList
  have hsame : ∀ p ∈ dc.parts, hole p = false →
      CRxDumpCtx.piece_text world { dc with seq } p
        = CRxDumpCtx.piece_text world' { dc with seq := seq' } p :=
    fun p _ hp => piece_text_seq hstart hlocal (of_decide_eq_false hp)
  have hdiff : ∀ p ∈ dc.parts, hole p = true →
      CRxDumpCtx.piece_text world { dc with seq } p = zero_padded 4 seq ∧
        CRxDumpCtx.piece_text world' { dc with seq := seq' } p = zero_padded 4 seq' := by
    intro p _ hp
    rw [of_decide_eq_true hp]
    exact ⟨rfl, rfl⟩
  have hplace : ∃ p ∈ dc.parts, hole p = true := ⟨_, hseq, decide_eq_true rfl⟩
  exact zero_padded_inj (collapse_fill_inj (zero_padded_solid 4 seq) (zero_padded_solid 4 seq')
    dc.parts hsame hdiff hplace false h)

/-- Without it they are all named the same. -/
theorem segment_filling_same (hstart : dc.start_time ≠ 0)
    (hlocal : world.localtime = world'.localtime)
    (hseq : Piece.placeholder "seq".toList ∉ dc.parts) :
    segment_filling dc world seq = segment_filling dc world' seq' := by
  have htexts : dc.parts.map (CRxDumpCtx.piece_text world { dc with seq })
      = dc.parts.map (CRxDumpCtx.piece_text world' { dc with seq := seq' }) := by
    refine List.map_congr_left fun p hp => piece_text_seq hstart hlocal ?_
    rintro rfl
    exact hseq hp
  have hflat := congrArg List.flatten htexts
  rw [← List.flatMap_def, ← List.flatMap_def] at hflat
  exact congrArg (collapse_slashes false) hflat

end Segments

end RxNetCap.Capture
