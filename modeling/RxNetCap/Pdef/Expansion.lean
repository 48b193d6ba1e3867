/-
The layout of a struct as a document would explain it.

`reference` replaces every field of a nested type by the leaves of that type,
once for each element, and `place` gives every leaf the sum of the sizes before
it. Both recurse on the declarations alone, in exact arithmetic and with names
of any length. For a text that declares its structs before it uses them, and
that overruns no name buffer and no `uint32_t`, the pass of the source computes
exactly this (`flatten_reference`).
-/
import RxNetCap.Pdef.Phases

set_option autoImplicit false

namespace RxNetCap.Pdef

/-! ## The reference -/

/-- The struct a nested field names, and the field's own name. -/
def nested_type (f : Field) : CStr := f.name.takeWhile (· ≠ '.')

def nested_name (f : Field) : CStr := (f.name.dropWhile (· ≠ '.')).tail

/-- `[idx]` -/
def index_suffix (idx : ℕ) : CStr := '[' :: decimal idx ++ [']']

/-- The leaves of a nested struct under the name of one of its elements. -/
def rename_leaves (element : CStr) (leaves : List Field) : List Field :=
  leaves.map fun leaf => { leaf with name := element ++ '.' :: leaf.name }

/-- What a field stands for, when `leaves` are those of the struct it names. -/
def reference_elements (f : Field) (leaves : List Field) : List Field :=
  if f.is_array then
    (List.range f.array_size).flatMap fun idx => rename_leaves (nested_name f ++ index_suffix idx) leaves
  else rename_leaves (nested_name f) leaves

def reference_field (leaves_of : CStr → Option (List Field)) (f : Field) : Option (List Field) :=
  if f.type = .NESTED then (leaves_of (nested_type f)).map (reference_elements f) else some [f]

def reference_fields (leaves_of : CStr → Option (List Field)) : List Field → Option (List Field)
  | [] => some []
  | f :: rest => do
    let here ← reference_field leaves_of f
    let rest ← reference_fields leaves_of rest
    return here ++ rest

/-- The leaves of a struct that is nested at most `n` deep. -/
def reference (decls : List Shape) : ℕ → CStr → Option (List Field)
  | 0, _ => none
  | n + 1, name => do reference_fields (reference decls n) (← find_shape decls name).fields

/-- The leaves of a declared struct. No nesting is deeper than there are structs. -/
def reference_struct (decls : List Shape) (s : Shape) : Option (List Field) :=
  reference_fields (reference decls decls.length) s.fields

def total_size (leaves : List Field) : ℕ := (leaves.map Field.size).sum

/-- Every leaf behind those before it, the first one at `offset`. -/
def place : ℕ → List Field → List Field
  | _, [] => []
  | offset, leaf :: rest => { leaf with offset := offset } :: place (offset + leaf.size) rest

/-- What a declaration says of the struct it became. -/
structure IsExpansion (decls : List Shape) (d s : Shape) (leaves : List Field) : Prop where
  leaves_eq : reference_struct decls d = some leaves
  name : s.name = d.name
  fields : s.fields = place 0 leaves
  min_size : s.min_size = total_size leaves
  has_variable : s.has_variable = leaves.any Field.is_variable
  no_nested : ∀ leaf ∈ leaves, leaf.type ≠ .NESTED
  variable_last : ∀ leaf ∈ leaves.dropLast, leaf.type ≠ .VARBYTES

/-! ## What is asked of the declarations -/

/-- Every nested field names a struct of `earlier` or before its own. -/
def DeclaredBefore (earlier : List Shape) : List Shape → Prop
  | [] => True
  | s :: rest => (∀ f ∈ s.fields, f.type = .NESTED → ∃ t ∈ earlier, t.name = nested_type f) ∧
      DeclaredBefore (earlier ++ [s]) rest

instance : ∀ (decls earlier : List Shape), Decidable (DeclaredBefore earlier decls)
  | [], _ => .isTrue trivial
  | s :: rest, earlier =>
    have : Decidable (DeclaredBefore (earlier ++ [s]) rest) := instDecidableDeclaredBefore rest _
    inferInstanceAs (Decidable (_ ∧ _))

/-- No name buffer of the pass is too short. -/
structure NamesFit (decls : List Shape) : Prop where
  elements : ∀ d ∈ decls, ∀ f ∈ d.fields, f.is_array → ∀ idx < f.array_size,
    (f.name ++ index_suffix idx).length < 128
  leaves : ∀ d ∈ decls, ∀ leaf ∈ (reference_struct decls d).getD [], leaf.name.length < 128

/-- No offset of the pass overruns a `uint32_t`. -/
def SizesFit (decls : List Shape) : Prop :=
  ∀ d ∈ decls, total_size ((reference_struct decls d).getD []) < 2 ^ 32

/-! ## Names -/

theorem takeWhile_dot {t : CStr} (r : CStr) (ht : '.' ∉ t) :
    (t ++ '.' :: r).takeWhile (· ≠ '.') = t := by
  have hall : ∀ c ∈ t, decide (c ≠ '.') = true := fun c hc =>
    decide_eq_true fun h => ht (h ▸ hc)
  rw [List.takeWhile_append_of_pos hall]
  simp

theorem dropWhile_dot {t : CStr} (r : CStr) (ht : '.' ∉ t) :
    ((t ++ '.' :: r).dropWhile (· ≠ '.')).tail = r := by
  have hall : ∀ c ∈ t, decide (c ≠ '.') = true := fun c hc =>
    decide_eq_true fun h => ht (h ▸ hc)
  rw [List.dropWhile_append_of_pos hall]
  simp

/-- A name with a dot is its type, the dot, and its own name. -/
theorem nested_parts {f : Field} (h : '.' ∈ f.name) :
    '.' ∉ nested_type f ∧ f.name = nested_type f ++ '.' :: nested_name f := by
  obtain ⟨t, r, hname, ht⟩ := List.eq_append_cons_of_mem h
  have htype : nested_type f = t := by
    rw [nested_type, hname]
    exact takeWhile_dot r ht
  have hown : nested_name f = r := by
    rw [nested_name, hname]
    exact dropWhile_dot r ht
  rw [htype, hown]
  exact ⟨ht, hname⟩

theorem split_name_some {name type_name field_name : CStr}
    (h : split_name name = some (type_name, field_name)) :
    '.' ∈ name ∧ name.takeWhile (· ≠ '.') = type_name ∧
      (name.dropWhile (· ≠ '.')).tail = field_name := by
  simp only [split_name, Option.ite_none_right_eq_some, Option.some.injEq, Prod.mk.injEq] at h
  exact ⟨h.1.1, h.2.1, h.2.2⟩

/-- What a nested field is called at one of its elements. -/
def element_label (f : Field) (idx : ℕ) : CStr :=
  if f.is_array then nested_name f ++ index_suffix idx else nested_name f

/-- The name the source makes up for an element splits into its parts again,
when the buffer held it. -/
theorem split_element_name {f : Field} {idx : ℕ} {type_name field_name : CStr}
    (hdot : '.' ∈ f.name) (hfit : f.is_array → (f.name ++ index_suffix idx).length < 128)
    (h : split_name (element_name f (nested_type f) (nested_name f) idx)
      = some (type_name, field_name)) :
    type_name = nested_type f ∧ field_name = element_label f idx := by
  obtain ⟨htype, hname⟩ := nested_parts hdot
  obtain ⟨-, rfl, rfl⟩ := split_name_some h
  by_cases harr : f.is_array
  · have hlen := hfit harr
    have hlong : nested_type f ++ ['.'] ++ nested_name f ++ ['['] ++ decimal idx ++ [']']
        = f.name ++ index_suffix idx := by
      conv_rhs => rw [hname]
      simp [index_suffix]
    have helement : element_name f (nested_type f) (nested_name f) idx
        = nested_type f ++ '.' :: (nested_name f ++ index_suffix idx) := by
      rw [element_name, if_pos harr, hlong, cstr, List.take_of_length_le (by omega)]
      conv_lhs => rw [hname]
      simp
    rw [helement, element_label, if_pos harr]
    exact ⟨takeWhile_dot _ htype, dropWhile_dot _ htype⟩
  · rw [element_name, if_neg harr, element_label, if_neg harr]
    exact ⟨rfl, rfl⟩

/-! ## The reference expansion -/

section Reference

variable {leaves_of : CStr → Option (List Field)} {decls : List Shape}

theorem reference_field_some {f : Field} {leaves : List Field} :
    reference_field leaves_of f = some leaves ↔
      (f.type = .NESTED ∧ ∃ nested, leaves_of (nested_type f) = some nested ∧
        reference_elements f nested = leaves) ∨ (f.type ≠ .NESTED ∧ [f] = leaves) := by
  by_cases hn : f.type = .NESTED <;> simp [reference_field, hn]

theorem reference_fields_cons_some {f : Field} {rest leaves : List Field} :
    reference_fields leaves_of (f :: rest) = some leaves ↔ ∃ here later,
      reference_field leaves_of f = some here ∧ reference_fields leaves_of rest = some later ∧
        here ++ later = leaves := by
  simp only [reference_fields, Option.bind_eq_bind, Option.bind_eq_some_iff, Option.pure_def,
    Option.some.injEq]
  constructor
  · rintro ⟨here, hhere, later, hlater, rfl⟩
    exact ⟨here, later, hhere, hlater, rfl⟩
  · rintro ⟨here, later, hhere, hlater, rfl⟩
    exact ⟨here, hhere, later, hlater, rfl⟩

theorem reference_fields_exists (fields : List Field)
    (h : ∀ f ∈ fields, f.type = .NESTED → ∃ leaves, leaves_of (nested_type f) = some leaves) :
    ∃ leaves, reference_fields leaves_of fields = some leaves := by
  induction fields with
  | nil => exact ⟨[], rfl⟩
  | cons f rest ih =>
    obtain ⟨later, hlater⟩ := ih fun g hg => h g (List.mem_cons_of_mem f hg)
    obtain ⟨here, hhere⟩ : ∃ here, reference_field leaves_of f = some here := by
      by_cases hn : f.type = .NESTED
      · obtain ⟨nested, hnested⟩ := h f List.mem_cons_self hn
        exact ⟨_, reference_field_some.mpr (.inl ⟨hn, nested, hnested, rfl⟩)⟩
      · exact ⟨_, reference_field_some.mpr (.inr ⟨hn, rfl⟩)⟩
    exact ⟨_, reference_fields_cons_some.mpr ⟨here, later, hhere, hlater, rfl⟩⟩

theorem reference_fields_mono {leaves_of' : CStr → Option (List Field)}
    (hle : ∀ name leaves, leaves_of name = some leaves → leaves_of' name = some leaves)
    (fields : List Field) : ∀ {leaves : List Field},
      reference_fields leaves_of fields = some leaves →
      reference_fields leaves_of' fields = some leaves := by
  induction fields with
  | nil => intro leaves h; exact h
  | cons f rest ih =>
    intro leaves h
    obtain ⟨here, later, hhere, hlater, rfl⟩ := reference_fields_cons_some.mp h
    refine reference_fields_cons_some.mpr ⟨here, later, reference_field_some.mpr ?_, ih hlater, rfl⟩
    rcases reference_field_some.mp hhere with ⟨hn, nested, hnested, heq⟩ | hleaf
    · exact .inl ⟨hn, nested, hle _ _ hnested, heq⟩
    · exact .inr hleaf

/-- Nesting that was followed to its end is followed to the same end with more
steps to spare. -/
theorem reference_succ (n : ℕ) : ∀ name leaves,
    reference decls n name = some leaves → reference decls (n + 1) name = some leaves := by
  induction n with
  | zero => intro name leaves h; cases h
  | succ n ih =>
    intro name leaves h
    obtain ⟨s, hs, hfields⟩ := Option.bind_eq_some_iff.mp h
    exact Option.bind_eq_some_iff.mpr ⟨s, hs, reference_fields_mono ih _ hfields⟩

theorem reference_mono {n m : ℕ} (h : n ≤ m) {fields leaves : List Field}
    (hleaves : reference_fields (reference decls n) fields = some leaves) :
    reference_fields (reference decls m) fields = some leaves := by
  induction h with
  | refl => exact hleaves
  | step _ ih => exact reference_fields_mono (reference_succ _) _ ih

theorem reference_of_lt {n m : ℕ} (h : n < m) {name : CStr} {d : Shape} {leaves : List Field}
    (hd : find_shape decls name = some d)
    (hleaves : reference_fields (reference decls n) d.fields = some leaves) :
    reference decls m name = some leaves := by
  obtain ⟨k, rfl⟩ : ∃ k, m = k + 1 := ⟨m - 1, by omega⟩
  exact Option.bind_eq_some_iff.mpr ⟨d, hd, reference_mono (by omega) hleaves⟩

/-- Both cases of `reference_elements`, over the labels of the elements. -/
theorem reference_elements_eq (f : Field) (leaves : List Field) :
    reference_elements f leaves = (List.range' 0 (element_count f)).flatMap fun idx =>
      rename_leaves (element_label f idx) leaves := by
  by_cases harr : f.is_array
  · simp [reference_elements, element_count, element_label, harr, List.range_eq_range']
  · simp [reference_elements, element_count, element_label, harr]

theorem mem_reference_elements {f : Field} {leaves : List Field} {leaf : Field}
    (h : leaf ∈ reference_elements f leaves) :
    ∃ src ∈ leaves, ∃ name, leaf = { src with name := name } := by
  rw [reference_elements_eq] at h
  obtain ⟨idx, -, hmem⟩ := List.mem_flatMap.mp h
  obtain ⟨src, hsrc, rfl⟩ := List.mem_map.mp hmem
  exact ⟨src, hsrc, _, rfl⟩

/-- The reference changes nothing about a leaf but its name, and ends in leaves. -/
theorem reference_fields_keeps {P : Field → Prop} (hP : Stable P)
    (hof : ∀ name leaves, leaves_of name = some leaves → ∀ f ∈ leaves, f.type ≠ .NESTED ∧ P f)
    (fields : List Field) : ∀ {leaves : List Field}, (∀ f ∈ fields, P f) →
      reference_fields leaves_of fields = some leaves →
      ∀ leaf ∈ leaves, leaf.type ≠ .NESTED ∧ P leaf := by
  induction fields with
  | nil =>
    intro leaves _ h
    cases h
    simp
  | cons f rest ih =>
    intro leaves hfields h leaf hleaf
    obtain ⟨here, later, hhere, hlater, rfl⟩ := reference_fields_cons_some.mp h
    rcases List.mem_append.mp hleaf with hleaf | hleaf
    · rcases reference_field_some.mp hhere with ⟨-, nested, hnested, rfl⟩ | ⟨hn, rfl⟩
      · obtain ⟨src, hsrc, name, rfl⟩ := mem_reference_elements hleaf
        obtain ⟨htype, hkept⟩ := hof _ _ hnested src hsrc
        exact ⟨htype, hP src name src.offset hkept⟩
      · rw [List.mem_singleton.mp hleaf]
        exact ⟨hn, hfields f List.mem_cons_self⟩
    · exact ih (fun g hg => hfields g (List.mem_cons_of_mem f hg)) hlater leaf hleaf

theorem reference_keeps {P : Field → Prop} (hP : Stable P) (hdecls : AllFields P decls) (n : ℕ) :
    ∀ name leaves, reference decls n name = some leaves →
      ∀ f ∈ leaves, f.type ≠ .NESTED ∧ P f := by
  induction n with
  | zero => intro name leaves h; cases h
  | succ n ih =>
    intro name leaves h
    obtain ⟨s, hs, hfields⟩ := Option.bind_eq_some_iff.mp h
    exact reference_fields_keeps hP ih _ (hdecls s (List.mem_of_find?_eq_some hs)) hfields

end Reference

/-! ## Placing leaves -/

@[simp] theorem total_size_nil : total_size [] = 0 := rfl

@[simp] theorem total_size_cons (leaf : Field) (rest : List Field) :
    total_size (leaf :: rest) = leaf.size + total_size rest := rfl

@[simp] theorem total_size_append (a b : List Field) :
    total_size (a ++ b) = total_size a + total_size b := by
  simp [total_size]

@[simp] theorem rename_leaves_cons (label : CStr) (leaf : Field) (rest : List Field) :
    rename_leaves label (leaf :: rest)
      = { leaf with name := label ++ '.' :: leaf.name } :: rename_leaves label rest := rfl

@[simp] theorem total_size_rename (element : CStr) (leaves : List Field) :
    total_size (rename_leaves element leaves) = total_size leaves := by
  simp [total_size, rename_leaves, Function.comp_def]

theorem place_append (a : List Field) : ∀ (offset : ℕ) (b : List Field),
    place offset (a ++ b) = place offset a ++ place (offset + total_size a) b := by
  induction a with
  | nil => intro offset b; rfl
  | cons leaf rest ih =>
    intro offset b
    simp [place, ih, Nat.add_assoc]

/-- Every leaf is behind those before it, and ends before the total. -/
theorem place_offset_lt (leaves : List Field) : ∀ (offset : ℕ),
    ∀ leaf ∈ place offset leaves, offset ≤ leaf.offset ∧
      leaf.offset + leaf.size ≤ offset + total_size leaves := by
  induction leaves with
  | nil => intro offset leaf h; cases h
  | cons first rest ih =>
    intro offset leaf h
    rcases List.mem_cons.mp h with rfl | h
    · exact ⟨le_rfl, by simp⟩
    · have := ih (offset + first.size) leaf h
      rw [total_size_cons]
      omega

/-- Placing a nested struct's leaves under the name of an element, when the
buffers hold the names. -/
theorem place_rename (label : CStr) (leaves : List Field) : ∀ (base offset : ℕ),
    (∀ leaf ∈ leaves, (label ++ '.' :: leaf.name).length < 128) →
    (place offset leaves).map (place_field id label base)
      = place (base + offset) (rename_leaves label leaves) := by
  induction leaves with
  | nil => intro base offset _; rfl
  | cons leaf rest ih =>
    intro base offset hfit
    have hname : cstr 128 (label ++ '.' :: leaf.name) = label ++ '.' :: leaf.name := by
      have hlen := hfit leaf List.mem_cons_self
      rw [cstr, List.take_of_length_le (by omega)]
    have hrest := ih base (offset + leaf.size) fun l hl => hfit l (List.mem_cons_of_mem leaf hl)
    rw [place, List.map_cons, hrest, rename_leaves_cons, place, Nat.add_assoc]
    simp [place_field, hname]

/-! ## The pass computes the reference -/

/-- A struct, or what is placed of one, holds these leaves. -/
structure Holds (leaves : List Field) (x : Placed) : Prop where
  fields : x.fields = place 0 leaves
  offset : x.offset = total_size leaves
  variable_seen : x.variable_seen = leaves.any Field.is_variable
  variable_last : ∀ leaf ∈ leaves.dropLast, leaf.is_variable = false

def Shape.placed (s : Shape) : Placed :=
  { fields := s.fields, offset := s.min_size, variable_seen := s.has_variable }

/-- A field that is no array takes one element, and one of variable length takes no room. -/
def Regular (f : Field) : Prop :=
  f.is_variable = decide (f.type = .VARBYTES) ∧ (f.is_variable = true → f.size = 0)

theorem regular_stable : Stable Regular := fun _ _ _ h => h

section Pass

variable {shapes : List Shape} {f : Field} {leaves : List Field}

theorem any_variable_rename (label : CStr) (leaves : List Field) :
    (rename_leaves label leaves).any Field.is_variable = leaves.any Field.is_variable := by
  rw [rename_leaves, List.any_map]
  rfl

theorem layout_elements_reference {nested : Shape} (hdot : '.' ∈ f.name)
    (hnested : find_shape shapes (nested_type f) = some nested)
    (hfields : nested.fields = place 0 leaves) (offset n : ℕ) : ∀ {idx : ℕ} {fields : List Field},
    (f.is_array → ∀ i, idx ≤ i → i < idx + n → (f.name ++ index_suffix i).length < 128) →
    (∀ i, idx ≤ i → i < idx + n → ∀ leaf ∈ leaves,
      (element_label f i ++ '.' :: leaf.name).length < 128) →
    layout_elements id shapes f (nested_type f) (nested_name f) offset (total_size leaves) n idx
      = some fields →
    fields = place (offset + idx * total_size leaves)
      ((List.range' idx n).flatMap fun i => rename_leaves (element_label f i) leaves) := by
  induction n with
  | zero =>
    intro idx fields _ _ h
    cases h
    rfl
  | succ n ih =>
    intro idx fields hfit hlabels h
    obtain ⟨here, rest, hhere, hrest, rfl⟩ := layout_elements_succ_some.mp h
    obtain ⟨type_name, field_name, found, hsplit, hfound, rfl⟩ := layout_element_some.mp hhere
    obtain ⟨rfl, rfl⟩ := split_element_name hdot
      (fun harr => hfit harr idx le_rfl (by omega)) hsplit
    have hsame : found = nested := Option.some.inj (hfound.symm.trans hnested)
    have hrest' := ih (fun harr i hi hn => hfit harr i (by omega) (by omega))
      (fun i hi hn => hlabels i (by omega) (by omega)) hrest
    have hstep : offset + (idx + 1) * total_size leaves
        = offset + idx * total_size leaves + total_size leaves := by
      rw [Nat.succ_mul, Nat.add_assoc]
    rw [hsame, hfields, place_rename _ _ _ _ (hlabels idx le_rfl (by omega)), hrest', hstep,
      List.range'_succ, List.flatMap_cons, place_append, total_size_rename]
    rfl

theorem total_size_elements (f : Field) (leaves : List Field) (n : ℕ) : ∀ idx : ℕ,
    total_size ((List.range' idx n).flatMap fun i => rename_leaves (element_label f i) leaves)
      = total_size leaves * n := by
  induction n with
  | zero => intro idx; rfl
  | succ n ih =>
    intro idx
    rw [List.range'_succ, List.flatMap_cons, total_size_append, total_size_rename, ih,
      Nat.mul_succ, Nat.add_comm]

theorem any_variable_elements (f : Field) (leaves : List Field) (n : ℕ) (hn : n ≠ 0) : ∀ idx : ℕ,
    ((List.range' idx n).flatMap fun i => rename_leaves (element_label f i) leaves).any
      Field.is_variable = leaves.any Field.is_variable := by
  intro idx
  obtain ⟨m, rfl⟩ := Nat.exists_eq_succ_of_ne_zero hn
  rw [List.any_flatMap]
  simp only [any_variable_rename]
  rw [List.range'_succ, List.any_cons]
  by_cases h : leaves.any Field.is_variable = true
  · simp [h]
  · rw [Bool.not_eq_true] at h
    simp [h]

end Pass

/-- The elements of a nested field have a field of variable length last, if at
all: the pass takes no array of them. -/
theorem variable_last_elements {f : Field} {leaves : List Field}
    (hlast : ∀ leaf ∈ leaves.dropLast, leaf.is_variable = false)
    (hmany : leaves.any Field.is_variable = true → element_count f ≤ 1) (hcount : element_count f ≠ 0) :
    ∀ leaf ∈ ((List.range' 0 (element_count f)).flatMap fun i =>
      rename_leaves (element_label f i) leaves).dropLast, leaf.is_variable = false := by
  by_cases hvar : leaves.any Field.is_variable = true
  · have hone : element_count f = 1 := by
      have := hmany hvar
      omega
    intro leaf hleaf
    rw [hone, List.range'_one, List.flatMap_singleton, rename_leaves, ← List.map_dropLast] at hleaf
    obtain ⟨src, hsrc, rfl⟩ := List.mem_map.mp hleaf
    exact hlast src hsrc
  · intro leaf hleaf
    have hany := any_variable_elements f leaves (element_count f) hcount 0
    rw [Bool.not_eq_true] at hvar
    rw [hvar] at hany
    exact eq_false_of_ne_true (List.any_eq_false.mp hany leaf (List.dropLast_subset _ hleaf))

/-- Leaves behind leaves, of which only the last may be of variable length. -/
theorem variable_last_append {before here : List Field}
    (hbefore : before.any Field.is_variable = false)
    (hhere : ∀ leaf ∈ here.dropLast, leaf.is_variable = false) :
    ∀ leaf ∈ (before ++ here).dropLast, leaf.is_variable = false := by
  have hall : ∀ leaf ∈ before, leaf.is_variable = false := fun leaf hleaf =>
    eq_false_of_ne_true (List.any_eq_false.mp hbefore leaf hleaf)
  intro leaf hleaf
  by_cases hnil : here = []
  · rw [hnil, List.append_nil] at hleaf
    exact hall leaf (List.dropLast_subset _ hleaf)
  · rw [List.dropLast_append_of_ne_nil hnil] at hleaf
    rcases List.mem_append.mp hleaf with hleaf | hleaf
    · exact hall leaf hleaf
    · exact hhere leaf hleaf

section Struct

variable {decls shapes : List Shape} {before : List Field}

/-- One field of the pass: the leaves the reference has for it come behind those before it. -/
theorem layout_field_reference {leaves_of : CStr → Option (List Field)} {f : Field}
    {here : List Field} {x x' : Placed} (hregular : Regular f)
    (hof : f.type = .NESTED → ∃ nested leaves, find_shape shapes (nested_type f) = some nested ∧
      leaves_of (nested_type f) = some leaves ∧ Holds leaves nested.placed)
    (hfit : f.is_array → ∀ i < f.array_size, (f.name ++ index_suffix i).length < 128)
    (hhere : reference_field leaves_of f = some here)
    (hlabels : ∀ leaf ∈ here, leaf.name.length < 128)
    (hx : Holds before x) (h : layout_field id shapes f x = some x') :
    Holds (before ++ here) x' := by
  obtain ⟨hseen, hcount, ⟨hn, h⟩ | ⟨hn, h⟩⟩ := layout_field_some.mp h
  · -- a nested field: all elements, each with the leaves of the struct
    obtain ⟨nested, leaves, hnested, hleaves, hholds⟩ := hof hn
    obtain ⟨type_name, field_name, found, fields, hsplit, hfound, hmany, hfields, rfl⟩ :=
      layout_nested_some.mp h
    obtain ⟨hdot, rfl, rfl⟩ := split_name_some hsplit
    have hsame : found = nested := Option.some.inj (hfound.symm.trans hnested)
    subst hsame
    have helements : here = (List.range' 0 (element_count f)).flatMap fun i =>
        rename_leaves (element_label f i) leaves := by
      rcases reference_field_some.mp hhere with ⟨-, leaves', hleaves', rfl⟩ | ⟨hno, -⟩
      · have : leaves' = leaves := Option.some.inj (hleaves'.symm.trans hleaves)
        rw [this, reference_elements_eq]
      · exact absurd hn hno
    have hmin : found.min_size = total_size leaves := hholds.offset
    have hvar : found.has_variable = leaves.any Field.is_variable := hholds.variable_seen
    rw [hmin] at hfields
    have hplaced := layout_elements_reference hdot hfound hholds.fields x.offset (element_count f)
      (fun harr i _ hi => hfit harr i (by simpa [element_count, harr] using hi))
      (fun i _ hi leaf hleaf => hlabels { leaf with name := _ } (by
        rw [helements]
        exact List.mem_flatMap.mpr ⟨i, by simpa using hi, List.mem_map_of_mem hleaf⟩)) hfields
    rw [← helements, Nat.zero_mul, Nat.add_zero, hx.offset] at hplaced
    have htotal : total_size here = total_size leaves * element_count f := by
      rw [helements, total_size_elements]
    have hany : here.any Field.is_variable = leaves.any Field.is_variable := by
      rw [helements, any_variable_elements f leaves _ hcount]
    refine ⟨?_, ?_, ?_, ?_⟩
    · rw [place_append, Nat.zero_add, ← hplaced, hx.fields]
    · rw [total_size_append, htotal, ← hx.offset, ← hmin]
      rfl
    · rw [List.any_append, hany, ← hvar, hx.variable_seen]
    · refine variable_last_append (hx.variable_seen ▸ hseen) ?_
      rw [helements]
      exact variable_last_elements hholds.variable_last (fun hv => hmany (hvar.trans hv)) hcount
  · -- a leaf, which the reference keeps
    obtain ⟨-, rfl⟩ := layout_leaf_some.mp h
    have hsingle : here = [f] := by
      rcases reference_field_some.mp hhere with ⟨hyes, -⟩ | ⟨-, heq⟩
      · exact absurd hyes hn
      · exact heq.symm
    subst hsingle
    refine ⟨?_, ?_, ?_, variable_last_append (hx.variable_seen ▸ hseen) (by simp)⟩
    · rw [place_append, hx.fields, hx.offset, Nat.zero_add]
      rfl
    · rw [total_size_append, ← hx.offset]
      by_cases hvar : f.is_variable = true
      · simp [hvar, hregular.2 hvar]
      · simp [hvar]
    · simp [hx.variable_seen]

/-- A list of fields. -/
theorem layout_fields_reference {leaves_of : CStr → Option (List Field)} (fields : List Field) :
    ∀ (before : List Field) {leaves : List Field} {x x' : Placed},
    (∀ f ∈ fields, Regular f) →
    (∀ f ∈ fields, f.type = .NESTED → ∃ nested leaves,
      find_shape shapes (nested_type f) = some nested ∧ leaves_of (nested_type f) = some leaves ∧
        Holds leaves nested.placed) →
    (∀ f ∈ fields, f.is_array → ∀ i < f.array_size, (f.name ++ index_suffix i).length < 128) →
    reference_fields leaves_of fields = some leaves → (∀ leaf ∈ leaves, leaf.name.length < 128) →
    Holds before x → layout_fields id shapes fields x = some x' → Holds (before ++ leaves) x' := by
  induction fields with
  | nil =>
    intro before leaves x x' _ _ _ hleaves _ hx h
    cases hleaves
    cases h
    rw [List.append_nil]
    exact hx
  | cons f rest ih =>
    intro before leaves x x' hregular hof hfit hleaves hlabels hx h
    obtain ⟨here, later, hhere, hlater, rfl⟩ := reference_fields_cons_some.mp hleaves
    obtain ⟨x1, hfield, hrest⟩ := layout_fields_cons_some.mp h
    have hx1 := layout_field_reference (hregular f List.mem_cons_self) (hof f List.mem_cons_self)
      (hfit f List.mem_cons_self) hhere
      (fun leaf hleaf => hlabels leaf (List.mem_append_left _ hleaf)) hx hfield
    have hrest' := ih (before ++ here) (fun g hg => hregular g (List.mem_cons_of_mem f hg))
      (fun g hg => hof g (List.mem_cons_of_mem f hg))
      (fun g hg => hfit g (List.mem_cons_of_mem f hg)) hlater
      (fun leaf hleaf => hlabels leaf (List.mem_append_right _ hleaf)) hx1 hrest
    rw [List.append_assoc] at hrest'
    exact hrest'

end Struct

/-! ## The structs of the pass -/

/-- A declaration and the struct it became, whose nesting is followed in less
than `n` steps. -/
structure Expanded (decls : List Shape) (n : ℕ) (d s : Shape) : Prop where
  mem : d ∈ decls
  name : s.name = d.name
  holds : ∃ k < n, ∃ leaves, reference_fields (reference decls k) d.fields = some leaves ∧
    Holds leaves s.placed

theorem Expanded.mono {decls : List Shape} {n m : ℕ} {d s : Shape} (h : Expanded decls n d s)
    (hnm : n ≤ m) : Expanded decls m d s := by
  obtain ⟨k, hk, hleaves⟩ := h.holds
  exact ⟨h.mem, h.name, k, by omega, hleaves⟩

/-- The first struct of a name is at the same place in both lists. -/
theorem find_expanded {decls : List Shape} {n : ℕ} {name : CStr} {prior done : List Shape}
    (h : List.Forall₂ (Expanded decls n) prior done) (hname : ∃ t ∈ prior, t.name = name) :
    ∃ d s, find_shape prior name = some d ∧ find_shape done name = some s ∧ Expanded decls n d s := by
  induction h with
  | nil =>
    obtain ⟨t, ht, -⟩ := hname
    cases ht
  | @cons d s prior done hhead _ ih =>
    by_cases hd : d.name = name
    · have hs : s.name = name := hhead.name.trans hd
      exact ⟨d, s, by simp [find_shape, hd], by simp [find_shape, hs], hhead⟩
    · have hs : s.name ≠ name := fun heq => hd (hhead.name.symm.trans heq)
      have hrest : ∃ t ∈ prior, t.name = name := by
        obtain ⟨t, ht, heq⟩ := hname
        rcases List.mem_cons.mp ht with rfl | ht
        · exact absurd heq hd
        · exact ⟨t, ht, heq⟩
      obtain ⟨d', s', hfound, hfound', hexpanded⟩ := ih hrest
      exact ⟨d', s', by simpa [find_shape, hd] using hfound,
        by simpa [find_shape, hs] using hfound', hexpanded⟩

theorem find_shape_append {as bs : List Shape} {name : CStr} {s : Shape}
    (h : find_shape as name = some s) : find_shape (as ++ bs) name = some s := by
  rw [find_shape, List.find?_append, ← find_shape, h]
  rfl

/-- One struct: it becomes its reference when all structs before it have. -/
theorem layout_struct_reference {prior done todo : List Shape} {d s : Shape}
    (hregular : AllFields Regular (prior ++ d :: todo)) (hfit : NamesFit (prior ++ d :: todo))
    (hdeclared : ∀ f ∈ d.fields, f.type = .NESTED → ∃ t ∈ prior, t.name = nested_type f)
    (hdone : List.Forall₂ (Expanded (prior ++ d :: todo) prior.length) prior done)
    (h : layout_struct id done d todo = some s) :
    Expanded (prior ++ d :: todo) (prior.length + 1) d s := by
  have hmem : d ∈ prior ++ d :: todo := List.mem_append_right _ List.mem_cons_self
  obtain ⟨x, hx, rfl⟩ := layout_struct_some.mp h
  have hof : ∀ f ∈ d.fields, f.type = .NESTED → ∃ nested leaves,
      find_shape (done ++ { d with has_variable := false } :: todo) (nested_type f) = some nested ∧
      reference (prior ++ d :: todo) prior.length (nested_type f) = some leaves ∧
      Holds leaves nested.placed := by
    intro f hf hn
    obtain ⟨t, nested, hfound, hfound', hexpanded⟩ := find_expanded hdone (hdeclared f hf hn)
    obtain ⟨k, hk, leaves, hleaves, hholds⟩ := hexpanded.holds
    exact ⟨nested, leaves, find_shape_append hfound',
      reference_of_lt hk (find_shape_append hfound) hleaves, hholds⟩
  obtain ⟨leaves, hleaves⟩ := reference_fields_exists d.fields fun f hf hn => by
    obtain ⟨nested, leaves, -, hleaves, -⟩ := hof f hf hn
    exact ⟨leaves, hleaves⟩
  have hlabels : ∀ leaf ∈ leaves, leaf.name.length < 128 := by
    have hlength : prior.length ≤ (prior ++ d :: todo).length := by simp
    have hnames := hfit.leaves d hmem
    rw [reference_struct, reference_mono hlength hleaves] at hnames
    exact hnames
  have hholds := layout_fields_reference d.fields [] (hregular d hmem) hof (hfit.elements d hmem)
    hleaves hlabels ⟨rfl, rfl, rfl, by simp⟩ hx
  exact ⟨hmem, rfl, prior.length, Nat.lt_succ_self _, leaves, hleaves, hholds⟩

theorem layout_rest_reference (todo : List Shape) : ∀ (prior : List Shape) {done out : List Shape},
    AllFields Regular (prior ++ todo) → NamesFit (prior ++ todo) → DeclaredBefore prior todo →
    List.Forall₂ (Expanded (prior ++ todo) prior.length) prior done →
    layout_rest id done todo = some out →
    List.Forall₂ (Expanded (prior ++ todo) (prior ++ todo).length) (prior ++ todo) out := by
  induction todo with
  | nil =>
    intro prior done out _ _ _ hdone h
    cases h
    rw [List.append_nil] at hdone ⊢
    exact hdone
  | cons d todo ih =>
    intro prior done out hregular hfit hdeclared hdone h
    obtain ⟨s, hstruct, hrest⟩ := layout_rest_cons_some.mp h
    have hs := layout_struct_reference hregular hfit hdeclared.1 hdone hstruct
    have hassoc : prior ++ d :: todo = (prior ++ [d]) ++ todo := by simp
    rw [hassoc] at hregular hfit hdone hs ⊢
    refine ih (prior ++ [d]) hregular hfit hdeclared.2 ?_ hrest
    rw [List.length_append]
    exact List.rel_append (hdone.imp fun _ _ h => h.mono (by omega)) (.cons hs .nil)

/-! ## The structs of an accepted text -/

theorem declarations_regular (source : List Char) : AllFields Regular (declarations source) := by
  intro d hd f hf
  obtain ⟨e, s, hparsed, rfl⟩ := declarations_parsed source d hd
  have hf := hparsed.fields f hf
  refine ⟨hf.is_variable, fun hvar => ?_⟩
  rw [hf.is_variable, decide_eq_true_eq] at hvar
  rw [hf.fixed (by rw [hvar]; decide) (by rw [hvar]; decide), hvar]
  rfl

/-- Offsets that fit are not wrapped. -/
theorem Holds.reduced {leaves : List Field} {s : Shape} (h : Holds leaves s.placed)
    (hsize : total_size leaves < 2 ^ 32) : s.reduced = s := by
  have hfields : s.fields.map Field.reduced = s.fields.map id := by
    refine List.map_congr_left fun f hf => ?_
    have hplace : f ∈ place 0 leaves := by
      rw [← h.fields]
      exact hf
    have hlt := (place_offset_lt leaves 0 f hplace).2
    rw [Field.reduced, u32_of_lt (by omega)]
    rfl
  have hmin : s.min_size = total_size leaves := h.offset
  rw [Shape.reduced, hfields, List.map_id, u32_of_lt (hmin ▸ hsize)]

/-- A struct that became its reference is what the claims of its declaration
say, when its sizes fit. -/
theorem Expanded.isExpansion {decls : List Shape} {d s : Shape} (hregular : AllFields Regular decls)
    (hsizes : SizesFit decls) (h : Expanded decls decls.length d s) :
    ∃ leaves, IsExpansion decls d s.reduced leaves := by
  obtain ⟨k, hk, leaves, hleaves, hholds⟩ := h.holds
  have hreference : reference_struct decls d = some leaves := reference_mono hk.le hleaves
  have hkeeps := reference_fields_keeps regular_stable
    (reference_keeps regular_stable hregular decls.length) d.fields (hregular d h.mem) hreference
  have hsize : total_size leaves < 2 ^ 32 := by
    have := hsizes d h.mem
    rwa [hreference] at this
  rw [hholds.reduced hsize]
  refine ⟨leaves, hreference, h.name, hholds.fields, hholds.offset, hholds.variable_seen,
    fun leaf hleaf => (hkeeps leaf hleaf).1, fun leaf hleaf => ?_⟩
  have hfixed := hholds.variable_last leaf hleaf
  rw [(hkeeps leaf (List.dropLast_subset _ hleaf)).2.1] at hfixed
  exact of_decide_eq_false hfixed

/-- **The layout of an accepted text is the reference expansion** of its
declarations: the same leaves under the same names in the same order, each at
the sum of the sizes before it. -/
theorem flatten_reference {source : List Char} {proto : ProtocolDef}
    (h : (pdef_parse_string source).1 = .accepted proto)
    (hdeclared : DeclaredBefore [] (declarations source)) (hnames : NamesFit (declarations source))
    (hsizes : SizesFit (declarations source)) :
    List.Forall₂ (fun d s => ∃ leaves, IsExpansion (declarations source) d s.shape leaves)
      (declarations source) (structs_of proto) := by
  obtain ⟨exact_shapes, hexact, hreduced⟩ := (accepted_of h).exact_layout
  have hregular := declarations_regular source
  have hexpanded := layout_rest_reference (declarations source) [] hregular hnames
    hdeclared .nil hexact
  have hall := hexpanded.imp fun d s hs => hs.isExpansion hregular hsizes
  rw [List.nil_append] at hall
  have hmapped : List.Forall₂ (fun d s => ∃ leaves, IsExpansion (declarations source) d s leaves)
      (declarations source) (exact_shapes.map Shape.reduced) :=
    List.forall₂_map_right_iff.mpr hall
  rw [hreduced] at hmapped
  exact List.forall₂_map_right_iff.mp hmapped

/-- A text with an array of a nested struct. -/
def array_text : List Char :=
  ("@protocol { endian = big } Item { uint16 id; uint16 count; } " ++
    "Inventory { uint8 kind; Item items[2]; Item last; varbytes rest; }").toList

set_option maxRecDepth 100000 in
theorem array_text_reference : ∃ proto, (pdef_parse_string array_text).1 = .accepted proto ∧
    List.Forall₂ (fun d s => ∃ leaves, IsExpansion (declarations array_text) d s.shape leaves)
      (declarations array_text) (structs_of proto) := by
  obtain ⟨proto, hproto⟩ : ∃ proto, (pdef_parse_string array_text).1.protocol? = some proto :=
    Option.isSome_iff_exists.mp (by decide +kernel)
  have haccepted := ParseResult.protocol?_eq_some.mp hproto
  exact ⟨proto, haccepted, flatten_reference haccepted (by decide +kernel)
    ⟨by decide +kernel, by decide +kernel⟩ (by unfold SizesFit; decide +kernel)⟩

end RxNetCap.Pdef
