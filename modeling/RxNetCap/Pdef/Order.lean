/-
Does the layout depend on the order of the declarations?

It does: a nested field finds the layout of a struct declared before and the
bare declaration of any other, whose offsets and size are still 0, and whose
nested fields are copied as they are. This file says exactly when that makes no
difference (`order_independent_iff`): no struct with nested fields is used
ahead of its layout, and one that is used ahead in one order and behind in the
other takes no room.
-/
import RxNetCap.Pdef.Lookup
import Mathlib.Data.List.Induction
import Mathlib.Logic.Relation

set_option autoImplicit false

namespace RxNetCap.Pdef

open Relation

/-! ## Uses -/

/-- The struct `a` has a field of the struct `b`. -/
def Uses (decls : List Shape) (a b : CStr) : Prop :=
  ∃ s ∈ decls, s.name = a ∧ ∃ f ∈ s.fields, f.type = .NESTED ∧ nested_type f = b

/-- It has, and `b` is not declared before `a`. -/
def UsesAhead (decls : List Shape) (a b : CStr) : Prop :=
  ∃ pre s post, decls = pre ++ s :: post ∧ s.name = a ∧
    (∃ f ∈ s.fields, f.type = .NESTED ∧ nested_type f = b) ∧ b ∉ pre.map Shape.name

/-- Some struct contains itself, directly or through others. -/
def Cyclic (decls : List Shape) : Prop := ∃ a, TransGen (Uses decls) a a

/-- A struct that is used ahead has no nested field. -/
def AheadFlat (decls : List Shape) : Prop :=
  ∀ a b, UsesAhead decls a b → ∀ t ∈ decls, t.name = b → ∀ f ∈ t.fields, f.type ≠ .NESTED

/-- A struct that is used ahead here and not there has no field of any size. -/
def TurnedEmpty (decls decls' : List Shape) : Prop :=
  ∀ a b, UsesAhead decls a b → ¬ UsesAhead decls' a b →
    ∀ t ∈ decls, t.name = b → ∀ f ∈ t.fields, f.size = 0

/-- The same names at the same offsets, in the same room. -/
structure SameLayout (s s' : Shape) : Prop where
  names : s.fields.map Field.name = s'.fields.map Field.name
  offsets : s.fields.map Field.offset = s'.fields.map Field.offset
  min_size : s.min_size = s'.min_size
  has_variable : s.has_variable = s'.has_variable

/-- What is asked of the layouts of two texts with the same structs: they are
the same, and no struct is left that contains itself or a nested field. -/
structure OrderIndependent (decls decls' out out' : List Shape) : Prop where
  same : ∀ s ∈ out, ∀ s' ∈ out', s.name = s'.name → SameLayout s s'
  acyclic : ¬ Cyclic decls ∧ ¬ Cyclic decls'
  no_nested : ∀ s ∈ out ++ out', ∀ f ∈ s.fields, f.type ≠ .NESTED

/-! ## Declarations -/

/-- A struct that is not laid out yet. -/
structure Raw (s : Shape) : Prop where
  offset : ∀ f ∈ s.fields, f.offset = 0
  min_size : s.min_size = 0
  has_variable : s.has_variable = s.fields.any Field.is_variable
  size_lt : ∀ f ∈ s.fields, f.size < 2 ^ 32
  variable_size : ∀ f ∈ s.fields, f.is_variable = true → f.size = 0

/-- Fields from offset 0 on, all numbers reduced. -/
structure Based (x : Placed) : Prop where
  first : ∀ f ∈ x.fields.head?, f.offset = 0
  empty : x.fields = [] → x.offset = 0
  fields_lt : ∀ f ∈ x.fields, f.offset < 2 ^ 32
  offset_lt : x.offset < 2 ^ 32

theorem Raw.based {s : Shape} (h : Raw s) : Based s.placed where
  first := fun f hf => h.offset f (List.mem_of_mem_head? hf)
  empty := fun _ => h.min_size
  fields_lt := fun f hf => by
    rw [h.offset f hf]
    exact Nat.two_pow_pos _
  offset_lt := by
    show s.min_size < 2 ^ 32
    rw [h.min_size]
    exact Nat.two_pow_pos _

section Based

variable {shapes : List Shape}

theorem layout_field_based {f : Field} {x x' : Placed}
    (hshapes : ∀ s ∈ shapes, Based s.placed) (hx : Based x)
    (h : layout_field u32 shapes f x = some x') : Based x' := by
  cases fieldStep h with
  | nested count _ _ nested found fields offset _ =>
    have hnested := hshapes nested (find_shape_some found).1
    rw [nest_elements_succ] at fields
    refine ⟨?_, ?_, ?_, ?_⟩
    · intro g hg
      rw [fields, List.head?_append, Option.mem_def, Option.or_eq_some_iff] at hg
      rcases hg with hg | ⟨hnil, hg⟩
      · exact hx.first g hg
      · -- the first leaf of the first element of the first field
        rw [List.head?_append, List.head?_map, Option.or_eq_some_iff] at hg
        have hoffset := hx.empty (List.head?_eq_none_iff.mp hnil)
        rcases hg with hg | ⟨hempty, hg⟩
        · obtain ⟨src, hsrc, rfl⟩ := Option.map_eq_some_iff.mp hg
          have hfirst : src.offset = 0 := hnested.first src hsrc
          simp [place_field, hoffset, hfirst, u32]
        · have hnone : nested.fields = [] := by simpa using hempty
          have hmem := List.mem_of_mem_head? hg
          obtain ⟨src, hsrc, -⟩ := mem_nest_elements hmem
          rw [hnone] at hsrc
          cases hsrc
    · intro hnil
      rw [fields, List.append_eq_nil_iff, List.append_eq_nil_iff, List.map_eq_nil_iff] at hnil
      have hmin : nested.min_size = 0 := hnested.empty hnil.2.1
      rw [offset, hx.empty hnil.1, hmin]
      simp [u32]
    · intro g hg
      rw [fields, ← nest_elements_succ] at hg
      rcases List.mem_append.mp hg with hg | hg
      · exact hx.fields_lt g hg
      · obtain ⟨src, -, name, base, rfl⟩ := mem_nest_elements hg
        exact u32_lt _
    · rw [offset]
      exact u32_lt _
  | leaf _ fields offset _ =>
    refine ⟨?_, ?_, ?_, ?_⟩
    · intro g hg
      rw [fields, List.head?_append, Option.mem_def, Option.or_eq_some_iff] at hg
      rcases hg with hg | ⟨hnil, hg⟩
      · exact hx.first g hg
      · cases hg
        exact hx.empty (List.head?_eq_none_iff.mp hnil)
    · intro hnil
      rw [fields] at hnil
      simp at hnil
    · intro g hg
      rw [fields] at hg
      rcases List.mem_append.mp hg with hg | hg
      · exact hx.fields_lt g hg
      · rw [List.mem_singleton.mp hg]
        exact hx.offset_lt
    · rw [offset]
      by_cases hvar : f.is_variable = true
      · rw [if_pos hvar]
        exact hx.offset_lt
      · rw [if_neg hvar]
        exact u32_lt _

theorem layout_fields_based (hshapes : ∀ s ∈ shapes, Based s.placed) (fields : List Field) :
    ∀ {x x' : Placed}, Based x → layout_fields u32 shapes fields x = some x' → Based x' := by
  induction fields with
  | nil =>
    intro x x' hx h
    cases h
    exact hx
  | cons f rest ih =>
    intro x x' hx h
    obtain ⟨x1, hfield, hrest⟩ := layout_fields_cons_some.mp h
    exact ih (layout_field_based hshapes hx hfield) hrest

theorem layout_rest_based (todo : List Shape) : ∀ {done out : List Shape},
    (∀ s ∈ done, Based s.placed) → (∀ s ∈ todo, Raw s) → layout_rest u32 done todo = some out →
    ∀ s ∈ out, Based s.placed := by
  induction todo with
  | nil =>
    intro done out hdone _ h
    cases h
    exact hdone
  | cons s todo ih =>
    intro done out hdone htodo h
    obtain ⟨s', hstruct, hrest⟩ := layout_rest_cons_some.mp h
    obtain ⟨x, hx, rfl⟩ := layout_struct_some.mp hstruct
    have hs := htodo s List.mem_cons_self
    refine ih ?_ (fun t ht => htodo t (List.mem_cons_of_mem s ht)) hrest
    have hself : Based ({ s with has_variable := false } : Shape).placed :=
      ⟨hs.based.first, hs.based.empty, hs.based.fields_lt, hs.based.offset_lt⟩
    have hothers : ∀ t ∈ done ++ { s with has_variable := false } :: todo, Based t.placed := by
      intro t ht
      rcases List.mem_append.mp ht with ht | ht
      · exact hdone t ht
      · rcases List.mem_cons.mp ht with rfl | ht
        · exact hself
        · exact (htodo t (List.mem_cons_of_mem s ht)).based
    have hempty : Based {} := ⟨by simp, fun _ => rfl, by simp, Nat.two_pow_pos _⟩
    intro t ht
    rcases List.mem_append.mp ht with ht | ht
    · exact hdone t ht
    · rw [List.mem_singleton.mp ht]
      exact layout_fields_based hothers s.fields hempty hx

end Based

/-! ## Two runs over the same fields -/

/-- Sums that agree modulo `2 ^ 32` have summands that agree. -/
theorem u32_add_cancel {o a b : ℕ} (ha : a < 2 ^ 32) (hb : b < 2 ^ 32)
    (h : u32 (o + a) = u32 (o + b)) : a = b := by
  unfold u32 at h
  omega

theorem offsets_cancel {o : ℕ} (as : List Field) : ∀ {bs : List Field},
    (∀ f ∈ as, f.offset < 2 ^ 32) → (∀ f ∈ bs, f.offset < 2 ^ 32) →
    (as.map fun f => u32 (o + f.offset)) = (bs.map fun f => u32 (o + f.offset)) →
    as.map Field.offset = bs.map Field.offset := by
  induction as with
  | nil =>
    intro bs _ _ h
    cases bs with
    | nil => rfl
    | cons g bs => cases h
  | cons f as ih =>
    intro bs has hbs h
    cases bs with
    | nil => cases h
    | cons g bs =>
      rw [List.map_cons, List.map_cons, List.cons.injEq] at h
      have hhead := u32_add_cancel (has f List.mem_cons_self) (hbs g List.mem_cons_self) h.1
      have htail := ih (fun k hk => has k (List.mem_cons_of_mem f hk))
        (fun k hk => hbs k (List.mem_cons_of_mem g hk)) h.2
      rw [List.map_cons, List.map_cons, hhead, htail]

/-- Lists that agree agree on prefixes of one length. -/
theorem prefix_map_eq {α β : Type} {g : α → β} {as as' bs bs' : List α} (h : as <+: bs) (h' : as' <+: bs')
    (hmap : bs.map g = bs'.map g) (hlen : as.length = as'.length) : as.map g = as'.map g := by
  obtain ⟨t, rfl⟩ := h
  obtain ⟨t', rfl⟩ := h'
  rw [List.map_append, List.map_append] at hmap
  exact (List.append_inj hmap (by simpa using hlen)).1

theorem nest_elements_length (f : Field) (nested : Shape) (offset n : ℕ) : ∀ idx : ℕ,
    (nest_elements u32 f nested offset n idx).length = n * nested.fields.length := by
  induction n with
  | zero => intro idx; simp [nest_elements]
  | succ n ih =>
    intro idx
    rw [nest_elements_succ, List.length_append, List.length_map, ih, Nat.succ_mul, Nat.add_comm]

/-- The offsets of the leaves, the first element's before the others'. -/
theorem nest_elements_offsets (f : Field) (nested : Shape) (offset n idx : ℕ) :
    (nest_elements u32 f nested offset (n + 1) idx).map Field.offset
      = (nested.fields.map fun src => u32 (u32 (offset + idx * nested.min_size) + src.offset))
        ++ (nest_elements u32 f nested offset n (idx + 1)).map Field.offset := by
  rw [nest_elements_succ, List.map_append, List.map_map]
  rfl

/-- What two lookups have in common when the runs over them end alike. -/
structure Alike (a b : Shape) : Prop where
  offsets : a.fields.map Field.offset = b.fields.map Field.offset
  min_size : a.min_size = b.min_size

/-- Leaves of elements at the same offsets come from the same offsets, at the
same start; and the size is the same, when it shows in a second element or in
what is behind. -/
theorem alike_of_elements {f : Field} {a b : Shape} {o o' n : ℕ} (ha : Based a.placed)
    (hb : Based b.placed) (hlen : a.fields.length = b.fields.length) (ho : o < 2 ^ 32)
    (ho' : o' < 2 ^ 32)
    (hleaves : (nest_elements u32 f a o (n + 1) 0).map Field.offset
      = (nest_elements u32 f b o' (n + 1) 0).map Field.offset)
    (hend : u32 (o + a.min_size * (n + 1)) = u32 (o' + b.min_size * (n + 1))) :
    o = o' ∧ Alike a b := by
  cases hfields : a.fields with
  | nil =>
    -- no leaves: no size either
    have hbnil : b.fields = [] := by
      rw [← List.length_eq_zero_iff, ← hlen, hfields]
      rfl
    have hamin : a.min_size = 0 := ha.empty hfields
    have hbmin : b.min_size = 0 := hb.empty hbnil
    rw [hamin, hbmin] at hend
    refine ⟨?_, by rw [hfields, hbnil], by rw [hamin, hbmin]⟩
    simpa [u32_of_lt ho, u32_of_lt ho'] using hend
  | cons g rest =>
    obtain ⟨g', rest', hbfields⟩ : ∃ g' rest', b.fields = g' :: rest' := by
      cases hb' : b.fields with
      | nil =>
        rw [hfields, hb'] at hlen
        cases hlen
      | cons g' rest' => exact ⟨g', rest', rfl⟩
    have hg : g.offset = 0 := ha.first g (by rw [Shape.placed, hfields]; rfl)
    have hg' : g'.offset = 0 := hb.first g' (by rw [Shape.placed, hbfields]; rfl)
    rw [nest_elements_offsets, nest_elements_offsets] at hleaves
    obtain ⟨hfirst, hothers⟩ := List.append_inj hleaves (by simpa using hlen)
    simp only [Nat.zero_mul, Nat.add_zero, u32_of_lt ho, u32_of_lt ho'] at hfirst
    have hstart : o = o' := by
      rw [hfields, hbfields, List.map_cons, List.map_cons, List.cons.injEq, hg, hg', Nat.add_zero,
        Nat.add_zero, u32_of_lt ho, u32_of_lt ho'] at hfirst
      exact hfirst.1
    subst hstart
    have hoffsets := offsets_cancel _ ha.fields_lt hb.fields_lt hfirst
    refine ⟨rfl, hoffsets, u32_add_cancel (o := o) ha.offset_lt hb.offset_lt ?_⟩
    cases n with
    | zero => simpa using hend
    | succ n =>
      -- the first leaf of the second element
      rw [nest_elements_offsets, nest_elements_offsets] at hothers
      have hsecond := (List.append_inj hothers (by simpa using hlen)).1
      rw [hfields, hbfields, List.map_cons, List.map_cons, List.cons.injEq, hg, hg'] at hsecond
      simpa [u32] using hsecond.1

section Runs

variable {shapes shapes' : List Shape}

/-- Two lookups of one name give as many leaves. -/
def Comparable (shapes shapes' : List Shape) (f : Field) : Prop :=
  ∀ found found', find_shape shapes (nested_type f) = some found →
    find_shape shapes' (nested_type f) = some found' →
    Based found.placed ∧ Based found'.placed ∧ found.fields.length = found'.fields.length

/-- **Runs that end alike have found alike.** The proof goes from the last field
to the first: where the offset behind a field is the same in both runs, so is
the offset before it. -/
theorem alike_of_runs (fields : List Field) : ∀ {x x' y y' : Placed},
    layout_fields u32 shapes fields x = some y → layout_fields u32 shapes' fields x' = some y' →
    (∀ f ∈ fields, f.type = .NESTED → Comparable shapes shapes' f) →
    x.fields.length = x'.fields.length → x.offset < 2 ^ 32 → x'.offset < 2 ^ 32 →
    y.fields.map Field.offset = y'.fields.map Field.offset → y.offset = y'.offset →
    x.offset = x'.offset ∧ ∀ f ∈ fields, f.type = .NESTED → ∀ found found',
      find_shape shapes (nested_type f) = some found →
      find_shape shapes' (nested_type f) = some found' → Alike found found' := by
  induction fields with
  | nil =>
    intro x x' y y' h h' _ _ _ _ _ hend
    cases h
    cases h'
    exact ⟨hend, by simp⟩
  | cons f rest ih =>
    intro x x' y y' h h' hcomp hlen hx hx' hmap hend
    obtain ⟨z, hfield, hrest⟩ := layout_fields_cons_some.mp h
    obtain ⟨z', hfield', hrest'⟩ := layout_fields_cons_some.mp h'
    have hcomp' : ∀ g ∈ rest, g.type = .NESTED → Comparable shapes shapes' g :=
      fun g hg => hcomp g (List.mem_cons_of_mem f hg)
    have hprefix := layout_fields_extends rest hrest
    have hprefix' := layout_fields_extends rest hrest'
    cases fieldStep hfield with
    | nested count hcount hn found hfound hz hoffset _ =>
      cases fieldStep hfield' with
      | leaf hno => exact absurd hn hno
      | nested count' hcount' _ found' hfound' hz' hoffset' _ =>
        have hsame : count' = count := by omega
        subst hsame
        obtain ⟨hbased, hbased', hleaves⟩ := hcomp f List.mem_cons_self hn found found' hfound hfound'
        have hzlen : z.fields.length = z'.fields.length := by
          rw [hz, hz', List.length_append, List.length_append, nest_elements_length,
            nest_elements_length, hlen, hleaves]
        obtain ⟨hzoffset, halike⟩ := ih hrest hrest' hcomp' hzlen (by rw [hoffset]; exact u32_lt _)
          (by rw [hoffset']; exact u32_lt _) hmap hend
        have hzmap := prefix_map_eq hprefix hprefix' hmap hzlen
        rw [hz, hz', List.map_append, List.map_append] at hzmap
        rw [hoffset, hoffset'] at hzoffset
        obtain ⟨hstart, hhere⟩ := alike_of_elements hbased hbased' hleaves hx hx'
          (List.append_inj hzmap (by simpa using hlen)).2 hzoffset
        refine ⟨hstart, fun g hg hgn => ?_⟩
        rcases List.mem_cons.mp hg with rfl | hg
        · intro a a' ha ha'
          rw [Option.some.inj (ha.symm.trans hfound), Option.some.inj (ha'.symm.trans hfound')]
          exact hhere
        · exact halike g hg hgn
    | leaf hno hz hoffset _ =>
      cases fieldStep hfield' with
      | nested _ _ hn => exact absurd hn hno
      | leaf _ hz' hoffset' _ =>
        have hzlen : z.fields.length = z'.fields.length := by
          rw [hz, hz', List.length_append, List.length_append, hlen]
          rfl
        have hlt : ∀ {a b : ℕ}, a < 2 ^ 32 → (if f.is_variable then a else u32 b) < 2 ^ 32 := by
          intro a b ha
          split
          · exact ha
          · exact u32_lt b
        obtain ⟨-, halike⟩ := ih hrest hrest' hcomp' hzlen (by rw [hoffset]; exact hlt hx)
          (by rw [hoffset']; exact hlt hx') hmap hend
        have hzmap := prefix_map_eq hprefix hprefix' hmap hzlen
        rw [hz, hz', List.map_append, List.map_append] at hzmap
        have hleaf := (List.append_inj hzmap (by simpa using hlen)).2
        refine ⟨by simpa using hleaf, fun g hg hgn => ?_⟩
        rcases List.mem_cons.mp hg with rfl | hg
        · exact absurd hgn hno
        · exact halike g hg hgn

/-- Runs over the same lookups end the same. -/
theorem runs_eq (fields : List Field) : ∀ {x y y' : Placed},
    layout_fields u32 shapes fields x = some y → layout_fields u32 shapes' fields x = some y' →
    (∀ f ∈ fields, f.type = .NESTED →
      find_shape shapes (nested_type f) = find_shape shapes' (nested_type f)) → y = y' := by
  induction fields with
  | nil =>
    intro x y y' h h' _
    cases h
    cases h'
    rfl
  | cons f rest ih =>
    intro x y y' h h' hsame
    obtain ⟨z, hfield, hrest⟩ := layout_fields_cons_some.mp h
    obtain ⟨z', hfield', hrest'⟩ := layout_fields_cons_some.mp h'
    have hz : z = z' := by
      rcases z with ⟨zf, zo, zs⟩
      rcases z' with ⟨zf', zo', zs'⟩
      cases fieldStep hfield with
      | nested count hcount hn found hfound hz hoffset hseen =>
        cases fieldStep hfield' with
        | leaf hno => exact absurd hn hno
        | nested count' hcount' _ found' hfound' hz' hoffset' hseen' =>
          have hcounts : count' = count := by omega
          have hfounds : found' = found := by
            rw [hsame f List.mem_cons_self hn] at hfound
            exact Option.some.inj (hfound'.symm.trans hfound)
          subst hcounts hfounds
          simp only at hz hz' hoffset hoffset' hseen hseen'
          rw [hz, hz', hoffset, hoffset', hseen, hseen']
      | leaf hno hz hoffset hseen =>
        cases fieldStep hfield' with
        | nested _ _ hn => exact absurd hn hno
        | leaf _ hz' hoffset' hseen' =>
          simp only at hz hz' hoffset hoffset' hseen hseen'
          rw [hz, hz', hoffset, hoffset', hseen, hseen']
    subst hz
    exact ih hrest hrest' fun g hg => hsame g (List.mem_cons_of_mem f hg)

/-- The types of the leaves are those of the fields and of what is found. -/
theorem run_no_nested (fields : List Field) : ∀ {x y : Placed},
    layout_fields u32 shapes fields x = some y → (∀ g ∈ x.fields, g.type ≠ .NESTED) →
    (∀ f ∈ fields, f.type = .NESTED → ∀ found, find_shape shapes (nested_type f) = some found →
      ∀ g ∈ found.fields, g.type ≠ .NESTED) → ∀ g ∈ y.fields, g.type ≠ .NESTED := by
  induction fields with
  | nil =>
    intro x y h hx _
    cases h
    exact hx
  | cons f rest ih =>
    intro x y h hx hfound
    obtain ⟨z, hfield, hrest⟩ := layout_fields_cons_some.mp h
    refine ih hrest ?_ fun g hg => hfound g (List.mem_cons_of_mem f hg)
    intro g hg
    cases fieldStep hfield with
    | nested count _ hn found hf hz _ _ =>
      rw [hz] at hg
      rcases List.mem_append.mp hg with hg | hg
      · exact hx g hg
      · obtain ⟨src, hsrc, name, base, rfl⟩ := mem_nest_elements hg
        exact hfound f List.mem_cons_self hn found hf src hsrc
    | leaf hno hz _ _ =>
      rw [hz] at hg
      rcases List.mem_append.mp hg with hg | hg
      · exact hx g hg
      · rw [List.mem_singleton.mp hg]
        exact hno

/-- Every field that is found becomes a leaf of its type. -/
theorem run_keeps_found (fields : List Field) : ∀ {x y : Placed} {f : Field},
    layout_fields u32 shapes fields x = some y → f ∈ fields → f.type = .NESTED →
    ∃ found, find_shape shapes (nested_type f) = some found ∧
      ∀ g ∈ found.fields, ∃ leaf ∈ y.fields, leaf.type = g.type := by
  induction fields with
  | nil =>
    intro x y f _ hf
    cases hf
  | cons f rest ih =>
    intro x y g h hg hn
    obtain ⟨z, hfield, hrest⟩ := layout_fields_cons_some.mp h
    rcases List.mem_cons.mp hg with rfl | hg
    · cases fieldStep hfield with
      | leaf hno => exact absurd hn hno
      | nested count _ _ found hfound hz _ _ =>
        refine ⟨found, hfound, fun src hsrc => ?_⟩
        refine ⟨place_field u32 (element_part g 0) (u32 (x.offset + 0 * found.min_size)) src, ?_, rfl⟩
        refine (layout_fields_extends rest hrest).subset ?_
        rw [hz, nest_elements_succ]
        exact List.mem_append_right _ (List.mem_append_left _ (List.mem_map_of_mem hsrc))
    · exact ih hrest hg hn

end Runs

/-! ## Structs without nested fields -/

section Flat

variable {shapes : List Shape}

theorem flat_length (fields : List Field) : ∀ {x y : Placed},
    (∀ f ∈ fields, f.type ≠ .NESTED) → layout_fields u32 shapes fields x = some y →
    y.fields.length = x.fields.length + fields.length := by
  induction fields with
  | nil =>
    intro x y _ h
    cases h
    rfl
  | cons f rest ih =>
    intro x y hflat h
    obtain ⟨z, hfield, hrest⟩ := layout_fields_cons_some.mp h
    cases fieldStep hfield with
    | nested _ _ hn => exact absurd hn (hflat f List.mem_cons_self)
    | leaf _ hz _ _ =>
      rw [ih (fun g hg => hflat g (List.mem_cons_of_mem f hg)) hrest, hz, List.length_append,
        List.length_cons]
      simp only [List.length_cons, List.length_nil]
      omega

/-- Leaves all at offset 0, and no room behind them, are leaves of no size. -/
theorem flat_empty (fields : List Field) : ∀ {x y : Placed},
    (∀ f ∈ fields, f.type ≠ .NESTED ∧ f.size < 2 ^ 32 ∧ (f.is_variable = true → f.size = 0)) →
    layout_fields u32 shapes fields x = some y → (∀ leaf ∈ y.fields, leaf.offset = 0) →
    y.offset = 0 → x.offset = 0 ∧ ∀ f ∈ fields, f.size = 0 := by
  induction fields with
  | nil =>
    intro x y _ h _ hend
    cases h
    exact ⟨hend, by simp⟩
  | cons f rest ih =>
    intro x y hflat h hzero hend
    obtain ⟨hno, hlt, hvar⟩ := hflat f List.mem_cons_self
    obtain ⟨z, hfield, hrest⟩ := layout_fields_cons_some.mp h
    obtain ⟨hz0, hsizes⟩ := ih (fun g hg => hflat g (List.mem_cons_of_mem f hg)) hrest hzero hend
    cases fieldStep hfield with
    | nested _ _ hn => exact absurd hn hno
    | leaf _ hz hoffset _ =>
      have hx : x.offset = 0 := hzero { f with offset := x.offset }
        ((layout_fields_extends rest hrest).subset (by rw [hz]; simp))
      have hsize : f.size = 0 := by
        by_cases hv : f.is_variable = true
        · exact hvar hv
        · rw [if_neg hv, hz0, hx, Nat.zero_add, u32_of_lt hlt] at hoffset
          exact hoffset.symm
      refine ⟨hx, fun g hg => ?_⟩
      rcases List.mem_cons.mp hg with rfl | hg
      · exact hsize
      · exact hsizes g hg

/-- Conversely, leaves of no size stay as they were declared. -/
theorem flat_run (fields : List Field) : ∀ {x y : Placed},
    (∀ f ∈ fields, f.type ≠ .NESTED ∧ f.size = 0 ∧ f.offset = 0) → x.offset = 0 →
    layout_fields u32 shapes fields x = some y →
    y = { fields := x.fields ++ fields, offset := 0
          variable_seen := x.variable_seen || fields.any Field.is_variable } := by
  induction fields with
  | nil =>
    intro x y _ hx h
    cases h
    rcases x with ⟨xf, xo, xs⟩
    simp only at hx
    simp [hx]
  | cons f rest ih =>
    intro x y hflat hx h
    obtain ⟨hno, hsize, hzero⟩ := hflat f List.mem_cons_self
    obtain ⟨z, hfield, hrest⟩ := layout_fields_cons_some.mp h
    cases fieldStep hfield with
    | nested _ _ hn => exact absurd hn hno
    | leaf _ hz hoffset hseen =>
      have hz0 : z.offset = 0 := by
        rw [hoffset, hx, hsize]
        simp [u32]
      have hf : ({ f with offset := x.offset } : Field) = f := by
        rw [hx, ← hzero]
      rw [ih (fun g hg => hflat g (List.mem_cons_of_mem f hg)) hz0 hrest, hz, hseen, hf]
      simp [Bool.or_assoc]

end Flat

/-! ## One order -/

/-- The declarations and the layout of a text, its structs with distinct names. -/
structure LaidOut (decls out : List Shape) : Prop where
  layout : layout u32 decls = some out
  nodup : (decls.map Shape.name).Nodup
  raw : ∀ s ∈ decls, Raw s

namespace LaidOut

variable {decls out pre post done : List Shape} {s s' : Shape}

theorem based (h : LaidOut decls out) : ∀ s ∈ out, Based s.placed :=
  layout_rest_based decls (by simp) h.raw h.layout

theorem out_nodup (h : LaidOut decls out) : (out.map Shape.name).Nodup := by
  rw [layout_names h.layout]
  exact h.nodup

/-- Where a struct of the layout comes from. -/
theorem laidAt (h : LaidOut decls out) {t r : Shape} (ht : t ∈ decls) (hr : r ∈ out)
    (hname : r.name = t.name) :
    ∃ pre post done, decls = pre ++ t :: post ∧ LaidAt u32 out pre t post done r := by
  obtain ⟨pre, post, hsplit⟩ := List.append_of_mem ht
  obtain ⟨done, r', hat⟩ := layout_at (hsplit ▸ h.layout)
  have hsame : r = r' :=
    List.inj_on_of_nodup_map h.out_nodup hr hat.mem (hname.trans hat.name.symm)
  exact ⟨pre, post, done, hsplit, hsame ▸ hat⟩

/-- What is declared before a struct does not depend on how it is found. -/
theorem not_before (h : LaidOut decls out) (hsplit : decls = pre ++ s :: post) {b : CStr}
    (hahead : UsesAhead decls s.name b) : b ∉ pre.map Shape.name := by
  obtain ⟨pre', t, post', hsplit', hname, -, hb⟩ := hahead
  have hnodup := h.nodup
  have hnames : pre.map Shape.name ++ s.name :: post.map Shape.name
      = pre'.map Shape.name ++ s.name :: post'.map Shape.name := by
    have := congrArg (List.map Shape.name) (hsplit.symm.trans hsplit')
    rw [List.map_append, List.map_append, List.map_cons, List.map_cons, hname] at this
    exact this
  have hself : s.name ∉ pre.map Shape.name ∧ s.name ∉ post.map Shape.name := by
    rw [hsplit, List.map_append, List.map_cons, List.nodup_middle, List.nodup_cons,
      List.mem_append, not_or] at hnodup
    exact hnodup.1
  rw [List.append_cons_inj_of_notMem hself.1 hself.2] at hnames
  rw [hnames.1]
  exact hb

/-- **What a nested field finds**: the layout of a struct declared before, or
the declaration of another one. -/
theorem lookup_cases (hsplit : decls = pre ++ s :: post)
    (hat : LaidAt u32 out pre s post done s') {f : Field} (hf : f ∈ s.fields)
    (hn : f.type = .NESTED) {found : Shape}
    (hfound : find_shape (done ++ { s with has_variable := false } :: post) (nested_type f)
      = some found) :
    (nested_type f ∈ pre.map Shape.name ∧ found ∈ out ∧ found.name = nested_type f) ∨
    (UsesAhead decls s.name (nested_type f) ∧ ∃ t ∈ decls, t.name = nested_type f ∧
      found.fields = t.fields ∧ (nested_type f ≠ s.name → found = t)) := by
  by_cases hbefore : nested_type f ∈ pre.map Shape.name
  · obtain ⟨found', hmem, hfound', hname⟩ := hat.lookup_before hbefore
    have hsame : found = found' := Option.some.inj (hfound.symm.trans hfound')
    exact .inl ⟨hbefore, hsame ▸ hmem, hsame ▸ hname⟩
  · obtain ⟨t, ht, hname, hfields, heq⟩ := hat.lookup_ahead hbefore hfound
    exact .inr ⟨⟨pre, s, post, hsplit, rfl, ⟨f, hf, hn, rfl⟩, hbefore⟩, t,
      hsplit ▸ List.mem_append_right _ ht, hname, hfields, heq⟩

/-- A struct that is used ahead and has no nested field is found as declared. -/
theorem found_flat (h : LaidOut decls out) (hflat : AheadFlat decls) {b : CStr} {t found : Shape}
    (hs : s ∈ decls) (hahead : UsesAhead decls s.name b) (ht : t ∈ decls) (hname : t.name = b)
    (heq : b ≠ s.name → found = t) : found = t := by
  refine heq fun hself => ?_
  -- a struct that used itself would have a nested field
  have hts : t = s := List.inj_on_of_nodup_map h.nodup ht hs (hname.trans hself)
  have hno := hflat _ _ hahead t ht hname
  obtain ⟨pre, s0, post, hsplit, hs0, ⟨f, hf, hn, -⟩, -⟩ := hahead
  have hs0s : s0 = s := List.inj_on_of_nodup_map h.nodup
    (hsplit ▸ List.mem_append_right _ List.mem_cons_self) hs hs0
  exact hno f (by rw [hts, ← hs0s]; exact hf) hn

/-- Structs are laid out one after the other: what holds of one when it holds of
all before it holds of all. -/
theorem position_induction {P : Shape → Prop}
    (hP : ∀ pre s post, decls = pre ++ s :: post → (∀ t ∈ pre, P t) → P s) : ∀ s ∈ decls, P s := by
  have hall : ∀ (pre post : List Shape), decls = pre ++ post → ∀ t ∈ pre, P t := by
    intro pre
    induction pre using List.reverseRecOn with
    | nil => intro post _ t ht; cases ht
    | append_singleton pre s ih =>
      intro post hsplit t ht
      rw [List.append_assoc] at hsplit
      have hbefore := ih _ hsplit
      rcases List.mem_append.mp ht with ht | ht
      · exact hbefore t ht
      · rw [List.mem_singleton.mp ht]
        exact hP pre s post hsplit hbefore
  exact hall decls [] (by simp)

/-- No nested field is left exactly when no struct with nested fields is used
ahead. -/
theorem no_nested_iff (h : LaidOut decls out) :
    (∀ s ∈ out, ∀ f ∈ s.fields, f.type ≠ .NESTED) ↔ AheadFlat decls := by
  constructor
  · intro hall a b hahead t ht hname g hg
    obtain ⟨pre, s, post, hsplit, rfl, ⟨f, hf, hn, rfl⟩, hb⟩ := hahead
    obtain ⟨done, s', hat⟩ := layout_at (hsplit ▸ h.layout)
    obtain ⟨found, hfound, hleaves⟩ := run_keeps_found s.fields hat.fields hf hn
    obtain ⟨u, hu, huname, hfields, -⟩ := hat.lookup_ahead hb hfound
    have hut : u = t := List.inj_on_of_nodup_map h.nodup
      (hsplit ▸ List.mem_append_right _ hu) ht (huname.trans hname.symm)
    obtain ⟨leaf, hleaf, htype⟩ := hleaves g (by rw [hfields, hut]; exact hg)
    rw [← htype]
    exact hall s' hat.mem leaf hleaf
  · intro hflat
    have hdecls : ∀ s ∈ decls, ∀ r ∈ out, r.name = s.name → ∀ f ∈ r.fields, f.type ≠ .NESTED := by
      refine position_induction fun pre s post hsplit hbefore r hr hname => ?_
      have hs : s ∈ decls := hsplit ▸ List.mem_append_right _ List.mem_cons_self
      obtain ⟨done, s', hat⟩ := layout_at (hsplit ▸ h.layout)
      have hsame : r = s' := List.inj_on_of_nodup_map h.out_nodup hr hat.mem
        (hname.trans hat.name.symm)
      subst hsame
      refine run_no_nested s.fields hat.fields (by simp) fun f hf hn found hfound => ?_
      rcases lookup_cases hsplit hat hf hn hfound with ⟨hmem, hout, hfname⟩ |
        ⟨hahead, t, ht, htname, hfields, -⟩
      · obtain ⟨t, ht, htname⟩ := List.mem_map.mp hmem
        exact hbefore t ht found hout (hfname.trans htname.symm)
      · rw [hfields]
        exact hflat _ _ hahead t ht htname
    intro r hr
    have hmem : r.name ∈ decls.map Shape.name := by
      rw [← layout_names h.layout]
      exact List.mem_map_of_mem hr
    obtain ⟨s, hs, hname⟩ := List.mem_map.mp hmem
    exact hdecls s hs r hr hname.symm

/-- A struct that has uses is declared before its users, when no struct with
nested fields is used ahead. -/
theorem uses_back (h : LaidOut decls out) (hflat : AheadFlat decls) {a b c : CStr}
    (hab : Uses decls a b) (hbc : Uses decls b c) :
    (decls.map Shape.name).idxOf b < (decls.map Shape.name).idxOf a := by
  obtain ⟨s, hs, rfl, f, hf, hn, rfl⟩ := hab
  obtain ⟨t, ht, htname, g, hg, hgn, -⟩ := hbc
  obtain ⟨pre, post, hsplit⟩ := List.append_of_mem hs
  have hbefore : nested_type f ∈ pre.map Shape.name := by
    by_contra hb
    exact hflat _ _ ⟨pre, s, post, hsplit, rfl, ⟨f, hf, hn, rfl⟩, hb⟩ t ht htname g
      hg hgn
  have hself : s.name ∉ pre.map Shape.name := by
    have hnodup := h.nodup
    rw [hsplit, List.map_append, List.map_cons, List.nodup_middle, List.nodup_cons,
      List.mem_append, not_or] at hnodup
    exact hnodup.1.1
  rw [hsplit, List.map_append, List.map_cons, List.idxOf_append_of_mem hbefore,
    List.idxOf_append_of_notMem hself]
  exact lt_of_lt_of_le (List.idxOf_lt_length_of_mem hbefore) (Nat.le_add_right _ _)

/-- Where no struct with nested fields is used ahead, nothing contains itself:
every use of a struct with uses goes back in the declarations. -/
theorem acyclic (h : LaidOut decls out) (hflat : AheadFlat decls) : ¬ Cyclic decls := by
  have hback : ∀ {a b : CStr}, TransGen (Uses decls) a b → ∀ {c : CStr}, Uses decls b c →
      (decls.map Shape.name).idxOf b < (decls.map Shape.name).idxOf a := by
    intro a b hab
    induction hab with
    | single huse => exact fun hbc => h.uses_back hflat huse hbc
    | tail _ huse ih => exact fun hbc => (h.uses_back hflat huse hbc).trans (ih huse)
  rintro ⟨a, hcycle⟩
  obtain ⟨b, huse, -⟩ := TransGen.head'_iff.mp hcycle
  exact lt_irrefl _ (hback hcycle huse)

end LaidOut

/-! ## Two orders -/

theorem Shape.eq_of_placed {s s' : Shape} (hname : s.name = s'.name) (h : s.placed = s'.placed) :
    s = s' := by
  rcases s with ⟨name, fields, min_size, has_variable⟩
  rcases s' with ⟨name', fields', min_size', has_variable'⟩
  simp only [Shape.placed, Placed.mk.injEq] at h
  simp only at hname
  rw [hname, h.1, h.2.1, h.2.2]

namespace LaidOut

variable {decls decls' out out' : List Shape}

/-- A struct without nested fields keeps the number of its fields. -/
theorem flat_same_length (h : LaidOut decls out) {t r : Shape} (ht : t ∈ decls) (hr : r ∈ out)
    (hname : r.name = t.name) (hflat : ∀ f ∈ t.fields, f.type ≠ .NESTED) :
    r.fields.length = t.fields.length := by
  obtain ⟨pre, post, done, -, hat⟩ := h.laidAt ht hr hname
  have hlength := flat_length t.fields hflat hat.fields
  rw [List.length_nil, Nat.zero_add] at hlength
  exact hlength

/-- One whose fields have no size either is laid out as it was declared. -/
theorem flat_unchanged (h : LaidOut decls out) {t r : Shape} (ht : t ∈ decls) (hr : r ∈ out)
    (hname : r.name = t.name) (hflat : ∀ f ∈ t.fields, f.type ≠ .NESTED)
    (hempty : ∀ f ∈ t.fields, f.size = 0) : r = t := by
  obtain ⟨pre, post, done, -, hat⟩ := h.laidAt ht hr hname
  have hraw := h.raw t ht
  have hrun := flat_run t.fields (fun f hf => ⟨hflat f hf, hempty f hf, hraw.offset f hf⟩) rfl
    hat.fields
  refine Shape.eq_of_placed hname (hrun.trans ?_)
  rw [Shape.placed, hraw.min_size, hraw.has_variable]
  rfl

section Pair

variable (h : LaidOut decls out) (h' : LaidOut decls' out') (hperm : decls.Perm decls')
  (hflat : AheadFlat decls) (hflat' : AheadFlat decls')

include h h' hperm hflat hflat'

/-- What the two orders find for a nested field can be compared. -/
theorem comparable (hsame : ∀ r ∈ out, ∀ r' ∈ out', r.name = r'.name → SameLayout r r')
    {pre post done pre' post' done' : List Shape} {s r r' : Shape}
    (hsplit : decls = pre ++ s :: post) (hat : LaidAt u32 out pre s post done r)
    (hsplit' : decls' = pre' ++ s :: post') (hat' : LaidAt u32 out' pre' s post' done' r')
    {f : Field} (hf : f ∈ s.fields) (hn : f.type = .NESTED) :
    Comparable (done ++ { s with has_variable := false } :: post)
      (done' ++ { s with has_variable := false } :: post') f := by
  intro found found' hfound hfound'
  have hs : s ∈ decls := hsplit ▸ List.mem_append_right _ List.mem_cons_self
  have hs' : s ∈ decls' := hsplit' ▸ List.mem_append_right _ List.mem_cons_self
  rcases lookup_cases hsplit hat hf hn hfound with ⟨-, hout, hname⟩ |
    ⟨hahead, t, ht, hname, -, heq⟩
  · rcases lookup_cases hsplit' hat' hf hn hfound' with ⟨-, hout', hname'⟩ |
      ⟨hahead', t', ht', hname', -, heq'⟩
    · refine ⟨h.based found hout, h'.based found' hout', ?_⟩
      have hlen := congrArg List.length
        (hsame found hout found' hout' (hname.trans hname'.symm)).offsets
      simpa using hlen
    · have hdecl := h'.found_flat hflat' hs' hahead' ht' hname' heq'
      subst hdecl
      exact ⟨h.based found hout, (h'.raw found' ht').based,
        h.flat_same_length (hperm.mem_iff.mpr ht') hout (hname.trans hname'.symm)
          (hflat' _ _ hahead' found' ht' hname')⟩
  · have hdecl := h.found_flat hflat hs hahead ht hname heq
    subst hdecl
    rcases lookup_cases hsplit' hat' hf hn hfound' with ⟨-, hout', hname'⟩ |
      ⟨hahead', t', ht', hname', -, heq'⟩
    · exact ⟨(h.raw found ht).based, h'.based found' hout',
        (h'.flat_same_length (hperm.mem_iff.mp ht) hout' (hname'.trans hname.symm)
          (hflat _ _ hahead found ht hname)).symm⟩
    · have hdecl' := h'.found_flat hflat' hs' hahead' ht' hname' heq'
      subst hdecl'
      have hsame_decl : found = found' := List.inj_on_of_nodup_map h.nodup ht
        (hperm.mem_iff.mpr ht') (hname.trans hname'.symm)
      exact ⟨(h.raw found ht).based, (h'.raw found' ht').based, by rw [hsame_decl]⟩

/-- **Same layouts need turned structs to be empty.** -/
theorem turnedEmpty_of_same (hsame : ∀ r ∈ out, ∀ r' ∈ out', r.name = r'.name → SameLayout r r') :
    TurnedEmpty decls decls' := by
  intro a b hahead hnot t ht hname
  have hturned := hflat a b hahead t ht hname
  obtain ⟨pre, s, post, hsplit, rfl, ⟨f, hf, hn, rfl⟩, hb⟩ := hahead
  have hs : s ∈ decls := hsplit ▸ List.mem_append_right _ List.mem_cons_self
  obtain ⟨done, r, hat⟩ := layout_at (hsplit ▸ h.layout)
  obtain ⟨pre', post', hsplit'⟩ := List.append_of_mem (hperm.mem_iff.mp hs)
  obtain ⟨done', r', hat'⟩ := layout_at (hsplit' ▸ h'.layout)
  obtain ⟨found, hfound, -⟩ := run_keeps_found s.fields hat.fields hf hn
  obtain ⟨found', hfound', -⟩ := run_keeps_found s.fields hat'.fields hf hn
  have hlayouts := hsame r hat.mem r' hat'.mem (hat.name.trans hat'.name.symm)
  have halike := (alike_of_runs s.fields hat.fields hat'.fields
    (fun g hg hgn => comparable h h' hperm hflat hflat' hsame hsplit hat hsplit' hat' hg hgn)
    rfl (Nat.two_pow_pos _) (Nat.two_pow_pos _) hlayouts.offsets hlayouts.min_size).2
    f hf hn found found' hfound hfound'
  -- ahead the declaration is found, and behind the layout
  obtain ⟨u, hu, huname, -, heq⟩ := hat.lookup_ahead hb hfound
  have hut : u = t := List.inj_on_of_nodup_map h.nodup
    (hsplit ▸ List.mem_append_right _ hu) ht (huname.trans hname.symm)
  have hdecl : found = t := h.found_flat hflat hs ⟨pre, s, post, hsplit, rfl, ⟨f, hf, hn, rfl⟩, hb⟩
    ht hname (hut ▸ heq)
  subst hdecl
  rcases lookup_cases hsplit' hat' hf hn hfound' with ⟨-, hout', hname'⟩ | ⟨hahead', -⟩
  · obtain ⟨pre2, post2, done2, -, hat2⟩ :=
      h'.laidAt (hperm.mem_iff.mp ht) hout' (hname'.trans hname.symm)
    have hraw := h.raw found ht
    have hzero : ∀ leaf ∈ found'.fields, leaf.offset = 0 := by
      intro leaf hleaf
      have hmem : leaf.offset ∈ found.fields.map Field.offset := by
        rw [halike.offsets]
        exact List.mem_map_of_mem hleaf
      obtain ⟨g, hg, heq⟩ := List.mem_map.mp hmem
      rw [← heq]
      exact hraw.offset g hg
    exact (flat_empty found.fields
      (fun g hg => ⟨hturned g hg, hraw.size_lt g hg, hraw.variable_size g hg⟩) hat2.fields hzero
      (halike.min_size.symm.trans hraw.min_size)).2
  · exact absurd hahead' hnot

/-- **Empty turned structs are enough**: a struct finds the same in both
orders. -/
theorem same_of_turnedEmpty (hturned : TurnedEmpty decls decls') (hturned' : TurnedEmpty decls' decls) :
    ∀ s ∈ decls, ∀ r ∈ out, ∀ r' ∈ out', r.name = s.name → r'.name = s.name → r = r' := by
  refine position_induction fun pre s post hsplit hbefore r hr r' hr' hname hname' => ?_
  have hs : s ∈ decls := hsplit ▸ List.mem_append_right _ List.mem_cons_self
  have hs' : s ∈ decls' := hperm.mem_iff.mp hs
  obtain ⟨done, r0, hat⟩ := layout_at (hsplit ▸ h.layout)
  have hr0 : r = r0 := List.inj_on_of_nodup_map h.out_nodup hr hat.mem (hname.trans hat.name.symm)
  subst hr0
  obtain ⟨pre', post', done', hsplit', hat'⟩ := h'.laidAt hs' hr' hname'
  refine Shape.eq_of_placed (hname.trans hname'.symm)
    (runs_eq s.fields hat.fields hat'.fields fun f hf hn => ?_)
  obtain ⟨found, hfound, -⟩ := run_keeps_found s.fields hat.fields hf hn
  obtain ⟨found', hfound', -⟩ := run_keeps_found s.fields hat'.fields hf hn
  rw [hfound, hfound', Option.some.injEq]
  rcases lookup_cases hsplit hat hf hn hfound with ⟨hmem, hout, hfname⟩ |
    ⟨hahead, t, ht, htname, -, heq⟩
  · rcases lookup_cases hsplit' hat' hf hn hfound' with ⟨-, hout', hfname'⟩ |
      ⟨hahead', t', ht', htname', -, heq'⟩
    · obtain ⟨t, ht, htname⟩ := List.mem_map.mp hmem
      exact hbefore t ht found hout found' hout' (hfname.trans htname.symm)
        (hfname'.trans htname.symm)
    · have hdecl := h'.found_flat hflat' hs' hahead' ht' htname' heq'
      subst hdecl
      have hnot : ¬ UsesAhead decls s.name (nested_type f) := fun hahead =>
        h.not_before hsplit hahead hmem
      exact h.flat_unchanged (hperm.mem_iff.mpr ht') hout (hfname.trans htname'.symm)
        (hflat' _ _ hahead' found' ht' htname') (hturned' _ _ hahead' hnot found' ht' htname')
  · have hdecl := h.found_flat hflat hs hahead ht htname heq
    subst hdecl
    rcases lookup_cases hsplit' hat' hf hn hfound' with ⟨hmem', hout', hfname'⟩ |
      ⟨hahead', t', ht', htname', -, heq'⟩
    · have hnot : ¬ UsesAhead decls' s.name (nested_type f) := fun hahead' =>
        h'.not_before hsplit' hahead' hmem'
      exact (h'.flat_unchanged (hperm.mem_iff.mp ht) hout' (hfname'.trans htname.symm)
        (hflat _ _ hahead found ht htname) (hturned _ _ hahead hnot found ht htname)).symm
    · have hdecl' := h'.found_flat hflat' hs' hahead' ht' htname' heq'
      subst hdecl'
      exact List.inj_on_of_nodup_map h.nodup ht (hperm.mem_iff.mpr ht')
        (htname.trans htname'.symm)

end Pair

/-- **When the order does not matter.** -/
theorem orderIndependent_iff (h : LaidOut decls out) (h' : LaidOut decls' out')
    (hperm : decls.Perm decls') : OrderIndependent decls decls' out out' ↔
      AheadFlat decls ∧ AheadFlat decls' ∧ TurnedEmpty decls decls' ∧ TurnedEmpty decls' decls := by
  constructor
  · intro hind
    have hflat := h.no_nested_iff.mp fun s hs => hind.no_nested s (List.mem_append_left _ hs)
    have hflat' := h'.no_nested_iff.mp fun s hs => hind.no_nested s (List.mem_append_right _ hs)
    refine ⟨hflat, hflat', turnedEmpty_of_same h h' hperm hflat hflat' hind.same,
      turnedEmpty_of_same h' h hperm.symm hflat' hflat ?_⟩
    intro r' hr' r hr hname
    have hsame := hind.same r hr r' hr' hname.symm
    exact ⟨hsame.names.symm, hsame.offsets.symm, hsame.min_size.symm, hsame.has_variable.symm⟩
  · rintro ⟨hflat, hflat', hturned, hturned'⟩
    refine ⟨?_, ⟨h.acyclic hflat, h'.acyclic hflat'⟩, ?_⟩
    · intro r hr r' hr' hname
      have hmem : r.name ∈ decls.map Shape.name := by
        rw [← layout_names h.layout]
        exact List.mem_map_of_mem hr
      obtain ⟨s, hs, hsname⟩ := List.mem_map.mp hmem
      have heq := same_of_turnedEmpty h h' hperm hflat hflat' hturned hturned' s hs r hr r' hr'
        hsname.symm (hname.symm.trans hsname.symm)
      rw [heq]
      exact ⟨rfl, rfl, rfl, rfl⟩
    · intro s hs
      rcases List.mem_append.mp hs with hs | hs
      · exact h.no_nested_iff.mpr hflat s hs
      · exact h'.no_nested_iff.mpr hflat' s hs

end LaidOut

/-! ## Two texts -/

/-- The byte order of a field is that of the `@protocol` blocks before its
struct, so it may change with the order; nothing here looks at it. -/
theorem usesAhead_untagged (decls : List Shape) (a b : CStr) :
    UsesAhead (decls.map Shape.untagged) a b ↔ UsesAhead decls a b := by
  constructor
  · rintro ⟨pre, s, post, hsplit, rfl, ⟨f, hf, hn, rfl⟩, hb⟩
    obtain ⟨pre0, rest, rfl, rfl, hrest⟩ := List.map_eq_append_iff.mp hsplit
    obtain ⟨s0, post0, rfl, rfl, rfl⟩ := List.map_eq_cons_iff.mp hrest
    obtain ⟨f0, hf0, rfl⟩ := List.mem_map.mp hf
    refine ⟨pre0, s0, post0, rfl, rfl, ⟨f0, hf0, hn, rfl⟩, ?_⟩
    rw [List.map_map] at hb
    exact hb
  · rintro ⟨pre, s, post, rfl, rfl, ⟨f, hf, hn, rfl⟩, hb⟩
    refine ⟨pre.map Shape.untagged, s.untagged, post.map Shape.untagged, by simp, rfl,
      ⟨_, List.mem_map_of_mem hf, hn, rfl⟩, ?_⟩
    rw [List.map_map]
    exact hb

theorem uses_untagged (decls : List Shape) :
    Uses (decls.map Shape.untagged) = Uses decls := by
  funext a b
  refine propext ⟨?_, ?_⟩
  · rintro ⟨s, hs, rfl, f, hf, hn, rfl⟩
    obtain ⟨s0, hs0, rfl⟩ := List.mem_map.mp hs
    obtain ⟨f0, hf0, rfl⟩ := List.mem_map.mp hf
    exact ⟨s0, hs0, rfl, f0, hf0, hn, rfl⟩
  · rintro ⟨s, hs, rfl, f, hf, hn, rfl⟩
    exact ⟨s.untagged, List.mem_map_of_mem hs, rfl, _, List.mem_map_of_mem hf, hn, rfl⟩

theorem aheadFlat_untagged (decls : List Shape) :
    AheadFlat (decls.map Shape.untagged) ↔ AheadFlat decls := by
  constructor
  · intro h a b hahead t ht hname f hf
    exact h a b ((usesAhead_untagged decls a b).mpr hahead) t.untagged (List.mem_map_of_mem ht)
      hname (f.mapped id fun _ => .BIG) (List.mem_map_of_mem hf)
  · intro h a b hahead t ht hname f hf
    obtain ⟨t0, ht0, rfl⟩ := List.mem_map.mp ht
    obtain ⟨f0, hf0, rfl⟩ := List.mem_map.mp hf
    exact h a b ((usesAhead_untagged decls a b).mp hahead) t0 ht0 hname f0 hf0

theorem turnedEmpty_untagged (decls decls' : List Shape) :
    TurnedEmpty (decls.map Shape.untagged) (decls'.map Shape.untagged) ↔ TurnedEmpty decls decls' := by
  constructor
  · intro h a b hahead hnot t ht hname f hf
    exact h a b ((usesAhead_untagged decls a b).mpr hahead)
      (mt (usesAhead_untagged decls' a b).mp hnot) t.untagged (List.mem_map_of_mem ht) hname
      (f.mapped id fun _ => .BIG) (List.mem_map_of_mem hf)
  · intro h a b hahead hnot t ht hname f hf
    obtain ⟨t0, ht0, rfl⟩ := List.mem_map.mp ht
    obtain ⟨f0, hf0, rfl⟩ := List.mem_map.mp hf
    exact h a b ((usesAhead_untagged decls a b).mp hahead)
      (mt (usesAhead_untagged decls' a b).mpr hnot) t0 ht0 hname f0 hf0

theorem sameLayout_untagged (s s' : Shape) :
    SameLayout s.untagged s'.untagged ↔ SameLayout s s' := by
  have hnames (s : Shape) : s.untagged.fields.map Field.name = s.fields.map Field.name :=
    List.map_map
  have hoffsets (s : Shape) : s.untagged.fields.map Field.offset = s.fields.map Field.offset :=
    List.map_map
  constructor
  · rintro ⟨h1, h2, h3, h4⟩
    rw [hnames, hnames] at h1
    rw [hoffsets, hoffsets] at h2
    exact ⟨h1, h2, h3, h4⟩
  · rintro ⟨h1, h2, h3, h4⟩
    exact ⟨by rw [hnames, hnames, h1], by rw [hoffsets, hoffsets, h2], h3, h4⟩

theorem orderIndependent_untagged (decls decls' out out' : List Shape) :
    OrderIndependent (decls.map Shape.untagged) (decls'.map Shape.untagged)
      (out.map Shape.untagged) (out'.map Shape.untagged) ↔
    OrderIndependent decls decls' out out' := by
  have hcyclic (decls : List Shape) : Cyclic (decls.map Shape.untagged) ↔ Cyclic decls := by
    rw [Cyclic, uses_untagged]
    rfl
  constructor
  · intro h
    refine ⟨fun s hs s' hs' hname => ?_, ?_, fun s hs f hf => ?_⟩
    · exact (sameLayout_untagged s s').mp
        (h.same _ (List.mem_map_of_mem hs) _ (List.mem_map_of_mem hs') hname)
    · rw [← hcyclic decls, ← hcyclic decls']
      exact h.acyclic
    · refine h.no_nested s.untagged ?_ (f.mapped id fun _ => .BIG) (List.mem_map_of_mem hf)
      rw [← List.map_append]
      exact List.mem_map_of_mem hs
  · intro h
    refine ⟨fun s hs s' hs' hname => ?_, ?_, fun s hs f hf => ?_⟩
    · obtain ⟨s0, hs0, rfl⟩ := List.mem_map.mp hs
      obtain ⟨s0', hs0', rfl⟩ := List.mem_map.mp hs'
      exact (sameLayout_untagged s0 s0').mpr (h.same s0 hs0 s0' hs0' hname)
    · rw [hcyclic decls, hcyclic decls']
      exact h.acyclic
    · rw [← List.map_append] at hs
      obtain ⟨s0, hs0, rfl⟩ := List.mem_map.mp hs
      obtain ⟨f0, hf0, rfl⟩ := List.mem_map.mp hf
      exact h.no_nested s0 hs0 f0 hf0

theorem declarations_raw (source : List Char) :
    ∀ s ∈ (declarations source).map Shape.untagged, Raw s := by
  intro s hs
  obtain ⟨d, hd, rfl⟩ := List.mem_map.mp hs
  have hregular := declarations_regular source d hd
  obtain ⟨e, t, hparsed, rfl⟩ := declarations_parsed source d hd
  refine ⟨?_, hparsed.min_size, ?_, ?_, ?_⟩
  · intro f hf
    obtain ⟨f0, hf0, rfl⟩ := List.mem_map.mp hf
    exact (hparsed.fields f0 hf0).offset
  · refine hparsed.has_variable.trans ?_
    rw [Shape.untagged, Shape.mapped, List.any_map]
    rfl
  · intro f hf
    obtain ⟨f0, hf0, rfl⟩ := List.mem_map.mp hf
    exact (hparsed.fields f0 hf0).size
  · intro f hf hvar
    obtain ⟨f0, hf0, rfl⟩ := List.mem_map.mp hf
    exact (hregular f0 hf0).2 hvar

theorem laidOut_of_accepted {source : List Char} {proto : ProtocolDef}
    (h : (pdef_parse_string source).1 = .accepted proto)
    (hnames : ((declarations source).map Shape.name).Nodup) :
    LaidOut ((declarations source).map Shape.untagged)
      (((structs_of proto).map StructDef.shape).map Shape.untagged) where
  layout := by
    rw [layout_untagged, (accepted_of h).layout]
    rfl
  nodup := by
    rw [List.map_map]
    exact hnames
  raw := declarations_raw source

/-- **When the layout of a text does not depend on the order of its structs**:
for two accepted texts with the same structs, of distinct names, in any two
orders. -/
theorem order_independent_iff {source source' : List Char} {proto proto' : ProtocolDef}
    (h : (pdef_parse_string source).1 = .accepted proto)
    (h' : (pdef_parse_string source').1 = .accepted proto')
    (hnames : ((declarations source).map Shape.name).Nodup)
    (hperm : ((declarations source).map Shape.untagged).Perm
      ((declarations source').map Shape.untagged)) :
    OrderIndependent (declarations source) (declarations source')
        ((structs_of proto).map StructDef.shape) ((structs_of proto').map StructDef.shape) ↔
      AheadFlat (declarations source) ∧ AheadFlat (declarations source') ∧
        TurnedEmpty (declarations source) (declarations source') ∧
        TurnedEmpty (declarations source') (declarations source) := by
  have hnames' : ((declarations source').map Shape.name).Nodup := by
    have hsame := hperm.map Shape.name
    rw [List.map_map, List.map_map] at hsame
    exact hsame.nodup_iff.mp hnames
  rw [← orderIndependent_untagged, (laidOut_of_accepted h hnames).orderIndependent_iff
    (laidOut_of_accepted h' hnames') hperm, aheadFlat_untagged, aheadFlat_untagged,
    turnedEmpty_untagged, turnedEmpty_untagged]

/-- A struct behind its user, and before it. -/
def ahead_text : List Char := "@protocol { endian = big } B { A a; uint8 y; } A { uint16 x; }".toList

def behind_text : List Char := "@protocol { endian = big } A { uint16 x; } B { A a; uint8 y; }".toList

/-- In the first text `B` takes one byte, in the second three. -/
def sizes_differ (proto proto' : ProtocolDef) : Prop :=
  ∃ s ∈ (structs_of proto).map StructDef.shape, ∃ s' ∈ (structs_of proto').map StructDef.shape,
    s.name = s'.name ∧ s.min_size ≠ s'.min_size

instance (proto proto' : ProtocolDef) : Decidable (sizes_differ proto proto') :=
  inferInstanceAs (Decidable (∃ s ∈ _, ∃ s' ∈ _, _ ∧ _))

set_option maxRecDepth 100000 in
theorem turned_texts_parse : ∃ proto ∈ (pdef_parse_string ahead_text).1.protocol?,
    ∃ proto' ∈ (pdef_parse_string behind_text).1.protocol?, sizes_differ proto proto' := by
  decide +kernel

set_option maxRecDepth 100000 in
theorem turned_texts_declarations : ((declarations ahead_text).map Shape.name).Nodup ∧
    ((declarations ahead_text).map Shape.untagged).Perm
      ((declarations behind_text).map Shape.untagged) := by
  decide +kernel

theorem turned_texts_order_dependent : ∃ proto proto',
    (pdef_parse_string ahead_text).1 = .accepted proto ∧
    (pdef_parse_string behind_text).1 = .accepted proto' ∧
    ((declarations ahead_text).map Shape.name).Nodup ∧
    ((declarations ahead_text).map Shape.untagged).Perm
      ((declarations behind_text).map Shape.untagged) ∧
    ¬ OrderIndependent (declarations ahead_text) (declarations behind_text)
        ((structs_of proto).map StructDef.shape) ((structs_of proto').map StructDef.shape) := by
  obtain ⟨proto, hproto, proto', hproto', s, hs, s', hs', hname, hsize⟩ := turned_texts_parse
  refine ⟨proto, proto', ParseResult.protocol?_eq_some.mp hproto,
    ParseResult.protocol?_eq_some.mp hproto', turned_texts_declarations.1,
    turned_texts_declarations.2, fun hind => hsize ?_⟩
  exact (hind.same s hs s' hs' hname).min_size

theorem turned_texts_order_independent_iff : ∃ proto proto',
    (pdef_parse_string ahead_text).1 = .accepted proto ∧
    (pdef_parse_string behind_text).1 = .accepted proto' ∧
    (OrderIndependent (declarations ahead_text) (declarations behind_text)
        ((structs_of proto).map StructDef.shape) ((structs_of proto').map StructDef.shape) ↔
      AheadFlat (declarations ahead_text) ∧ AheadFlat (declarations behind_text) ∧
        TurnedEmpty (declarations ahead_text) (declarations behind_text) ∧
        TurnedEmpty (declarations behind_text) (declarations ahead_text)) := by
  obtain ⟨proto, hproto, proto', hproto', -⟩ := turned_texts_parse
  have haccepted := ParseResult.protocol?_eq_some.mp hproto
  have haccepted' := ParseResult.protocol?_eq_some.mp hproto'
  exact ⟨proto, proto', haccepted, haccepted', order_independent_iff haccepted haccepted'
    turned_texts_declarations.1 turned_texts_declarations.2⟩

end RxNetCap.Pdef
