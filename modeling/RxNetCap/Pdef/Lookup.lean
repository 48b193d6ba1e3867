/-
What the flattening of one struct looks up, and what becomes of it.

A struct is laid out among the structs before it, which are done, and itself
and those after it, which are as they were declared; so a nested field finds
the layout of a struct declared before, and the declaration of any other
(`lookup_before`, `lookup_ahead`). Nothing else of the other structs matters
(`layout_fields_congr`), and of what is found every field becomes a leaf, once
for each element (`layout_nested_eq`).
-/
import RxNetCap.Pdef.Expansion

set_option autoImplicit false

namespace RxNetCap.Pdef

/-! ## Names of elements -/

/-- The name the source makes up for an element names the same struct, even
where the buffer cuts it off. -/
theorem element_type {f : Field} {type_name field_name : CStr} {idx : ℕ} {t l : CStr}
    (hsplit : split_name f.name = some (type_name, field_name))
    (h : split_name (element_name f type_name field_name idx) = some (t, l)) : t = type_name := by
  obtain ⟨hdot, rfl, rfl⟩ := split_name_some hsplit
  obtain ⟨-, rfl, -⟩ := split_name_some h
  obtain ⟨htype, hname⟩ := nested_parts hdot
  by_cases harr : f.is_array
  · have hlen : (f.name.takeWhile (· ≠ '.')).length < 64 := by
      simp only [split_name, Option.ite_none_right_eq_some] at hsplit
      exact hsplit.1.2.1
    have htype' : '.' ∉ f.name.takeWhile (· ≠ '.') := htype
    rw [element_name, if_pos harr, cstr]
    generalize f.name.takeWhile (· ≠ '.') = type_name at *
    obtain ⟨k, hk⟩ : ∃ k, 128 - 1 - type_name.length = k + 1 := ⟨126 - type_name.length, by omega⟩
    rw [List.append_assoc, List.append_assoc, List.append_assoc, List.append_assoc,
      List.singleton_append, List.take_append, List.take_of_length_le (by omega), hk,
      List.take_succ_cons]
    exact takeWhile_dot _ htype'
  · rw [element_name, if_neg harr]

/-! ## What is found is all that matters -/

/-- The part behind the dot of the name of an element. -/
def element_part (f : Field) (idx : ℕ) : CStr :=
  ((element_name f (nested_type f) (nested_name f) idx).dropWhile (· ≠ '.')).tail

/-- The leaves of `n` elements of a struct, from `idx` on. -/
def nest_elements (w : ℕ → ℕ) (f : Field) (nested : Shape) (offset n idx : ℕ) : List Field :=
  (List.range' idx n).flatMap fun i =>
    nested.fields.map (place_field w (element_part f i) (w (offset + i * nested.min_size)))

section Found

variable {w : ℕ → ℕ} {shapes shapes' : List Shape} {f : Field} {nested : Shape} {x x' : Placed}

theorem layout_elements_eq (hnested : find_shape shapes (nested_type f) = some nested)
    {field_name : CStr} (hsplit : split_name f.name = some (nested_type f, field_name))
    (offset n : ℕ) : ∀ {idx : ℕ} {fields : List Field},
    layout_elements w shapes f (nested_type f) (nested_name f) offset nested.min_size n idx
      = some fields → fields = nest_elements w f nested offset n idx := by
  induction n with
  | zero =>
    intro idx fields h
    cases h
    rfl
  | succ n ih =>
    intro idx fields h
    obtain ⟨here, rest, hhere, hrest, rfl⟩ := layout_elements_succ_some.mp h
    obtain ⟨t, l, found, hname, hfound, rfl⟩ := layout_element_some.mp hhere
    have hown : field_name = nested_name f := (split_name_some hsplit).2.2.symm
    have ht : t = nested_type f := element_type hsplit (hown ▸ hname)
    rw [ht] at hfound
    have hl : l = element_part f idx := (split_name_some hname).2.2.symm
    rw [Option.some.inj (hfound.symm.trans hnested), ih hrest, hl, nest_elements, nest_elements,
      List.range'_succ, List.flatMap_cons]

/-- **A nested field that is laid out** has found its struct, and becomes the
leaves of its elements. -/
theorem layout_nested_eq {count : ℕ} (h : layout_nested w shapes f count x = some x') :
    ∃ nested, find_shape shapes (nested_type f) = some nested ∧
      x' = { fields := x.fields ++ nest_elements w f nested x.offset count 0
             offset := w (x.offset + nested.min_size * count)
             variable_seen := x.variable_seen || nested.has_variable } := by
  obtain ⟨t, l, nested, fields, hsplit, hfound, -, hfields, rfl⟩ := layout_nested_some.mp h
  obtain ⟨-, rfl, rfl⟩ := split_name_some hsplit
  refine ⟨nested, hfound, ?_⟩
  rw [layout_elements_eq hfound hsplit x.offset count hfields]

/-- What one field of the pass comes to. -/
inductive FieldStep (w : ℕ → ℕ) (shapes : List Shape) (f : Field) (x x' : Placed) : Prop
  | nested (count : ℕ) (count_eq : element_count f = count + 1) (type_eq : f.type = .NESTED)
      (nested : Shape)
      (found : find_shape shapes (nested_type f) = some nested)
      (fields : x'.fields = x.fields ++ nest_elements w f nested x.offset (count + 1) 0)
      (offset : x'.offset = w (x.offset + nested.min_size * (count + 1)))
      (seen : x'.variable_seen = (x.variable_seen || nested.has_variable))
  | leaf (type_ne : f.type ≠ .NESTED)
      (fields : x'.fields = x.fields ++ [{ f with offset := x.offset }])
      (offset : x'.offset = if f.is_variable then x.offset else w (x.offset + f.size))
      (seen : x'.variable_seen = (x.variable_seen || f.is_variable))

theorem fieldStep (h : layout_field w shapes f x = some x') : FieldStep w shapes f x x' := by
  obtain ⟨-, hcount, ⟨hn, h⟩ | ⟨hn, h⟩⟩ := layout_field_some.mp h
  · obtain ⟨count, hcount⟩ := Nat.exists_eq_succ_of_ne_zero hcount
    rw [hcount] at h
    obtain ⟨nested, hfound, rfl⟩ := layout_nested_eq h
    exact .nested count hcount hn nested hfound rfl rfl rfl
  · obtain ⟨-, rfl⟩ := layout_leaf_some.mp h
    exact .leaf hn rfl rfl rfl

theorem layout_fields_extends (fields : List Field) : ∀ {x x' : Placed},
    layout_fields w shapes fields x = some x' → x.fields <+: x'.fields := by
  induction fields with
  | nil =>
    intro x x' h
    cases h
    exact List.prefix_rfl
  | cons f rest ih =>
    intro x x' h
    obtain ⟨x1, hfield, hrest⟩ := layout_fields_cons_some.mp h
    refine List.IsPrefix.trans ?_ (ih hrest)
    cases fieldStep hfield with
    | nested _ _ _ _ _ fields _ _ =>
      rw [fields]
      exact List.prefix_append _ _
    | leaf _ fields _ _ =>
      rw [fields]
      exact List.prefix_append _ _

/-- The first element, and the others. -/
theorem nest_elements_succ (f : Field) (nested : Shape) (offset n idx : ℕ) :
    nest_elements w f nested offset (n + 1) idx
      = nested.fields.map (place_field w (element_part f idx) (w (offset + idx * nested.min_size)))
        ++ nest_elements w f nested offset n (idx + 1) := by
  rw [nest_elements, List.range'_succ, List.flatMap_cons]
  rfl

theorem mem_nest_elements {offset n idx : ℕ} {leaf : Field}
    (h : leaf ∈ nest_elements w f nested offset n idx) :
    ∃ src ∈ nested.fields, ∃ name base, leaf = place_field w name base src := by
  obtain ⟨i, -, hmem⟩ := List.mem_flatMap.mp h
  obtain ⟨src, hsrc, rfl⟩ := List.mem_map.mp hmem
  exact ⟨src, hsrc, _, _, rfl⟩

end Found

/-! ## One struct among the others -/

theorem find_shape_some {shapes : List Shape} {name : CStr} {s : Shape}
    (h : find_shape shapes name = some s) : s ∈ shapes ∧ s.name = name :=
  ⟨List.mem_of_find?_eq_some h, by simpa using List.find?_some h⟩

theorem find_shape_mem {shapes : List Shape} {name : CStr} (h : name ∈ shapes.map Shape.name) :
    ∃ s, find_shape shapes name = some s := by
  obtain ⟨s, hs, rfl⟩ := List.mem_map.mp h
  exact Option.isSome_iff_exists.mp (List.find?_isSome.mpr ⟨s, hs, by simp⟩)

/-- A name that some structs do not bear is looked for behind them. -/
theorem find_shape_behind {done rest : List Shape} {name : CStr}
    (h : name ∉ done.map Shape.name) : find_shape (done ++ rest) name = find_shape rest name := by
  have hnone : done.find? (fun s => decide (s.name = name)) = none := by
    refine List.find?_eq_none.mpr fun s hs => ?_
    intro heq
    exact h (List.mem_map.mpr ⟨s, hs, of_decide_eq_true heq⟩)
  rw [find_shape, List.find?_append, hnone]
  rfl

/-- With distinct names, a struct is found under its own. -/
theorem find_shape_self {shapes : List Shape} (h : (shapes.map Shape.name).Nodup) {s : Shape}
    (hs : s ∈ shapes) : find_shape shapes s.name = some s := by
  obtain ⟨t, ht⟩ := find_shape_mem (List.mem_map_of_mem (f := Shape.name) hs)
  obtain ⟨hmem, hname⟩ := find_shape_some ht
  rw [ht, List.inj_on_of_nodup_map h hmem hs hname]

section Position

variable {w : ℕ → ℕ}

theorem layout_rest_extends (todo : List Shape) : ∀ {done out : List Shape},
    layout_rest w done todo = some out →
    ∃ later, out = done ++ later ∧ later.map Shape.name = todo.map Shape.name := by
  induction todo with
  | nil =>
    intro done out h
    cases h
    exact ⟨[], by simp, rfl⟩
  | cons s todo ih =>
    intro done out h
    obtain ⟨s', hstruct, hrest⟩ := layout_rest_cons_some.mp h
    obtain ⟨later, rfl, hnames⟩ := ih hrest
    obtain ⟨x, -, rfl⟩ := layout_struct_some.mp hstruct
    rw [List.append_assoc]
    exact ⟨_, rfl, by rw [List.map_append, List.map_cons, hnames]; rfl⟩

/-- The pass at the struct `s`: the structs before it are laid out as `done`,
and it becomes `s'`. -/
structure LaidAt (w : ℕ → ℕ) (out pre : List Shape) (s : Shape) (post done : List Shape)
    (s' : Shape) : Prop where
  before : done <+: out
  mem : s' ∈ out
  name : s'.name = s.name
  names : done.map Shape.name = pre.map Shape.name
  fields : layout_fields w (done ++ { s with has_variable := false } :: post) s.fields {}
    = some s'.placed

theorem layout_rest_at (pre : List Shape) {s : Shape} {post : List Shape} :
    ∀ {done out : List Shape}, layout_rest w done (pre ++ s :: post) = some out →
    ∃ mid s', LaidAt w out (done ++ pre) s post (done ++ mid) s' := by
  induction pre with
  | nil =>
    intro done out h
    obtain ⟨s', hstruct, hrest⟩ := layout_rest_cons_some.mp h
    obtain ⟨later, rfl, -⟩ := layout_rest_extends _ hrest
    obtain ⟨x, hx, rfl⟩ := layout_struct_some.mp hstruct
    have hx' : layout_fields w (done ++ [] ++ { s with has_variable := false } :: post) s.fields {}
        = some x := by
      rw [List.append_nil]
      exact hx
    exact ⟨[], _, by simp, List.mem_append_left _ (List.mem_append_right _ List.mem_cons_self), rfl,
      by simp, hx'⟩
  | cons t pre ih =>
    intro done out h
    obtain ⟨t', hstruct, hrest⟩ := layout_rest_cons_some.mp h
    obtain ⟨mid, s', hat⟩ := ih hrest
    have hname : t'.name = t.name := by
      obtain ⟨x, -, rfl⟩ := layout_struct_some.mp hstruct
      rfl
    refine ⟨t' :: mid, s', ?_, hat.mem, hat.name, ?_, ?_⟩
    · simpa using hat.before
    · simpa [hname] using hat.names
    · simpa using hat.fields

/-- **Every declared struct is laid out at its place.** -/
theorem layout_at {pre post out : List Shape} {s : Shape}
    (h : layout w (pre ++ s :: post) = some out) : ∃ done s', LaidAt w out pre s post done s' := by
  obtain ⟨mid, s', hat⟩ := layout_rest_at pre h
  exact ⟨mid, s', hat⟩

theorem layout_names {decls out : List Shape} (h : layout w decls = some out) :
    out.map Shape.name = decls.map Shape.name := by
  obtain ⟨later, rfl, hnames⟩ := layout_rest_extends _ h
  exact hnames

variable {out pre post done : List Shape} {s s' : Shape} {name : CStr}

/-- Before `s`, the layout is found. -/
theorem LaidAt.lookup_before (h : LaidAt w out pre s post done s')
    (hname : name ∈ pre.map Shape.name) :
    ∃ found ∈ out, find_shape (done ++ { s with has_variable := false } :: post) name = some found ∧
      found.name = name := by
  rw [← h.names] at hname
  obtain ⟨found, hfound⟩ := find_shape_mem hname
  obtain ⟨hmem, hsame⟩ := find_shape_some hfound
  exact ⟨found, h.before.subset hmem, find_shape_append hfound, hsame⟩

/-- From `s` on, the declaration is found. -/
theorem LaidAt.lookup_ahead (h : LaidAt w out pre s post done s')
    (hname : name ∉ pre.map Shape.name) {found : Shape}
    (hfound : find_shape (done ++ { s with has_variable := false } :: post) name = some found) :
    ∃ t ∈ s :: post, t.name = name ∧ found.fields = t.fields ∧ (name ≠ s.name → found = t) := by
  rw [← h.names] at hname
  rw [find_shape_behind hname] at hfound
  by_cases hself : s.name = name
  · rw [find_shape, List.find?_cons_of_pos (by simpa using hself)] at hfound
    cases hfound
    exact ⟨s, List.mem_cons_self, hself, rfl, fun hne => absurd hself.symm hne⟩
  · rw [find_shape, List.find?_cons_of_neg (by simpa using hself)] at hfound
    obtain ⟨hmem, hsame⟩ := find_shape_some hfound
    exact ⟨found, List.mem_cons_of_mem s hmem, hsame, rfl, fun _ => rfl⟩

end Position

end RxNetCap.Pdef
