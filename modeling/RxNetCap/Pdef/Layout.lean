/-
The flattening pass as a function of the declarations.

`layout` computes what `flatten_structs` leaves in the table of structs, without
the table: no blocks, no buffers that grow, no error texts. Its parameter `w`
is what becomes of every offset and every size that is added up: `u32` gives
the pass of the source (`RxNetCap.Pdef.FlattenCorrect`), and `id` the pass in
exact arithmetic. The two never differ in which fields there are, only in the
numbers, and there exactly by reduction modulo `2 ^ 32` (`layout_u32`).
-/
import RxNetCap.Pdef.Flatten

set_option autoImplicit false

namespace RxNetCap.Pdef

/-! ## Structs without their blocks -/

structure Shape where
  name : CStr
  fields : List Field
  min_size : ℕ
  has_variable : Bool
  deriving DecidableEq, Repr

def StructDef.shape (s : StructDef) : Shape where
  name := s.name
  fields := s.fields.elems
  min_size := s.min_size
  has_variable := s.has_variable

def find_shape (shapes : List Shape) (name : CStr) : Option Shape := shapes.find? (·.name = name)

/-- The names `parse_nested_field_names` splits a name into. -/
def split_name (name : CStr) : Option (CStr × CStr) :=
  let type_name := name.takeWhile (· ≠ '.')
  let field_name := (name.dropWhile (· ≠ '.')).tail
  if '.' ∈ name ∧ type_name.length < 64 ∧ field_name.length < 64 then
    some (type_name, field_name)
  else none

/-! ## The pass -/

section Pass

variable (w : ℕ → ℕ)

/-- What is carried from field to field. -/
structure Placed where
  fields : List Field := []
  offset : ℕ := 0
  variable_seen : Bool := false
  deriving DecidableEq, Repr

/-- A field of a nested struct as a field of the struct around it. -/
def place_field (field_name : CStr) (base_offset : ℕ) (src : Field) : Field :=
  { src with
    name := cstr 128 (field_name ++ ['.'] ++ src.name)
    offset := w (base_offset + src.offset) }

def layout_element (shapes : List Shape) (f : Field) (type_name field_name : CStr)
    (offset min_size idx : ℕ) : Option (List Field) := do
  let (type_name, field_name) ← split_name (element_name f type_name field_name idx)
  let nested ← find_shape shapes type_name
  return nested.fields.map (place_field w field_name (w (offset + idx * min_size)))

/-- `n` elements from `idx` on. -/
def layout_elements (shapes : List Shape) (f : Field) (type_name field_name : CStr)
    (offset min_size : ℕ) : ℕ → ℕ → Option (List Field)
  | 0, _ => some []
  | n + 1, idx => do
    let here ← layout_element w shapes f type_name field_name offset min_size idx
    let rest ← layout_elements shapes f type_name field_name offset min_size n (idx + 1)
    return here ++ rest

def layout_nested (shapes : List Shape) (f : Field) (count : ℕ) (x : Placed) : Option Placed := do
  let (type_name, field_name) ← split_name f.name
  let nested ← find_shape shapes type_name
  if nested.has_variable ∧ count > 1 then none
  let fields ← layout_elements w shapes f type_name field_name x.offset nested.min_size count 0
  return { fields := x.fields ++ fields
           offset := w (x.offset + nested.min_size * count)
           variable_seen := x.variable_seen || nested.has_variable }

def layout_leaf (f : Field) (x : Placed) : Option Placed :=
  if f.is_array then none
  else some { fields := x.fields ++ [{ f with offset := x.offset }]
              offset := if f.is_variable then x.offset else w (x.offset + f.size)
              variable_seen := x.variable_seen || f.is_variable }

/-- The number of elements of a field. -/
def element_count (f : Field) : ℕ := if f.is_array then f.array_size else 1

def layout_field (shapes : List Shape) (f : Field) (x : Placed) : Option Placed :=
  if x.variable_seen then none
  else if element_count f = 0 then none
  else if f.type = .NESTED then layout_nested w shapes f (element_count f) x
  else layout_leaf w f x

def layout_fields (shapes : List Shape) : List Field → Placed → Option Placed
  | [], x => some x
  | f :: rest, x => do layout_fields shapes rest (← layout_field w shapes f x)

/-- A struct among the structs before it, which are done, and after it, which
are as they were declared. -/
def layout_struct (done : List Shape) (s : Shape) (todo : List Shape) : Option Shape := do
  let x ← layout_fields w (done ++ { s with has_variable := false } :: todo) s.fields {}
  return { name := s.name, fields := x.fields, min_size := x.offset, has_variable := x.variable_seen }

def layout_rest (done : List Shape) : List Shape → Option (List Shape)
  | [] => some done
  | s :: todo => do layout_rest (done ++ [← layout_struct w done s todo]) todo

def layout (decls : List Shape) : Option (List Shape) := layout_rest w [] decls

end Pass

/-! ## What a step that succeeds has found -/

section Inversion

variable {w : ℕ → ℕ} {shapes : List Shape} {f : Field} {x x' : Placed}

theorem layout_element_some {type_name field_name : CStr} {offset min_size idx : ℕ}
    {fields : List Field} :
    layout_element w shapes f type_name field_name offset min_size idx = some fields ↔
      ∃ type_name' field_name' nested,
        split_name (element_name f type_name field_name idx) = some (type_name', field_name') ∧
        find_shape shapes type_name' = some nested ∧
        nested.fields.map (place_field w field_name' (w (offset + idx * min_size))) = fields := by
  simp [layout_element, Option.bind_eq_some_iff]

theorem layout_elements_succ_some {type_name field_name : CStr} {offset min_size n idx : ℕ}
    {fields : List Field} :
    layout_elements w shapes f type_name field_name offset min_size (n + 1) idx = some fields ↔
      ∃ here rest, layout_element w shapes f type_name field_name offset min_size idx = some here ∧
        layout_elements w shapes f type_name field_name offset min_size n (idx + 1) = some rest ∧
        here ++ rest = fields := by
  simp only [layout_elements, Option.bind_eq_bind, Option.bind_eq_some_iff, Option.pure_def,
    Option.some.injEq]
  constructor
  · rintro ⟨here, hhere, rest, hrest, rfl⟩
    exact ⟨here, rest, hhere, hrest, rfl⟩
  · rintro ⟨here, rest, hhere, hrest, rfl⟩
    exact ⟨here, hhere, rest, hrest, rfl⟩

theorem layout_nested_some {count : ℕ} :
    layout_nested w shapes f count x = some x' ↔
      ∃ type_name field_name nested fields,
        split_name f.name = some (type_name, field_name) ∧
        find_shape shapes type_name = some nested ∧
        (nested.has_variable = true → count ≤ 1) ∧
        layout_elements w shapes f type_name field_name x.offset nested.min_size count 0
          = some fields ∧
        x' = { fields := x.fields ++ fields
               offset := w (x.offset + nested.min_size * count)
               variable_seen := x.variable_seen || nested.has_variable } := by
  simp only [layout_nested, Option.bind_eq_bind, Option.bind_eq_some_iff, Option.pure_def]
  constructor
  · rintro ⟨⟨type_name, field_name⟩, hsplit, nested, hfind, h⟩
    by_cases hmany : nested.has_variable = true ∧ count > 1
    · simp [hmany] at h
    · simp only [if_neg hmany, Option.bind_eq_some_iff, Option.some.injEq] at h
      obtain ⟨fields, hfields, rfl⟩ := h
      exact ⟨type_name, field_name, nested, fields, hsplit, hfind,
        fun hv => not_lt.mp fun hc => hmany ⟨hv, hc⟩, hfields, rfl⟩
  · rintro ⟨type_name, field_name, nested, fields, hsplit, hfind, hcount, hfields, rfl⟩
    refine ⟨(type_name, field_name), hsplit, nested, hfind, ?_⟩
    have hmany : ¬ (nested.has_variable = true ∧ count > 1) := fun h =>
      absurd (hcount h.1) (not_le.mpr h.2)
    simp [hmany, hfields]

theorem layout_leaf_some :
    layout_leaf w f x = some x' ↔ f.is_array = false ∧
      { fields := x.fields ++ [{ f with offset := x.offset }]
        offset := if f.is_variable then x.offset else w (x.offset + f.size)
        variable_seen := x.variable_seen || f.is_variable } = x' := by
  by_cases harr : f.is_array <;> simp [layout_leaf, harr]

theorem layout_field_some :
    layout_field w shapes f x = some x' ↔
      x.variable_seen = false ∧ element_count f ≠ 0 ∧
        ((f.type = .NESTED ∧ layout_nested w shapes f (element_count f) x = some x') ∨
          (f.type ≠ .NESTED ∧ layout_leaf w f x = some x')) := by
  rw [layout_field]
  by_cases hseen : x.variable_seen = true
  · simp [hseen]
  · by_cases hcount : element_count f = 0
    · simp [hcount]
    · by_cases hnested : f.type = .NESTED
      · simp [hseen, hcount, hnested]
      · simp [hseen, hcount, hnested]

theorem layout_fields_cons_some {rest : List Field} :
    layout_fields w shapes (f :: rest) x = some x' ↔
      ∃ x1, layout_field w shapes f x = some x1 ∧ layout_fields w shapes rest x1 = some x' := by
  simp [layout_fields, Option.bind_eq_some_iff]

theorem layout_struct_some {done todo : List Shape} {s s' : Shape} :
    layout_struct w done s todo = some s' ↔
      ∃ x, layout_fields w (done ++ { s with has_variable := false } :: todo) s.fields {} = some x ∧
        { name := s.name, fields := x.fields, min_size := x.offset,
          has_variable := x.variable_seen } = s' := by
  simp [layout_struct, Option.bind_eq_some_iff]

theorem layout_rest_cons_some {done todo out : List Shape} {s : Shape} :
    layout_rest w done (s :: todo) = some out ↔
      ∃ s', layout_struct w done s todo = some s' ∧ layout_rest w (done ++ [s']) todo = some out := by
  simp [layout_rest, Option.bind_eq_some_iff]

end Inversion

/-! ## What every field keeps -/

section Kept

variable {w : ℕ → ℕ} {P : Field → Prop}

/-- All fields of all structs. -/
def AllFields (P : Field → Prop) (shapes : List Shape) : Prop := ∀ s ∈ shapes, ∀ f ∈ s.fields, P f

/-- The pass gives a field a new name and a new offset, and nothing else. -/
def Stable (P : Field → Prop) : Prop :=
  ∀ (f : Field) (name : CStr) (offset : ℕ), P f → P { f with name := name, offset := offset }

variable {shapes : List Shape}

theorem layout_elements_keeps (hP : Stable P) (hshapes : AllFields P shapes) {f : Field}
    {type_name field_name : CStr} {offset min_size : ℕ} (n : ℕ) : ∀ {idx : ℕ} {fields : List Field},
      layout_elements w shapes f type_name field_name offset min_size n idx = some fields →
      ∀ g ∈ fields, P g := by
  induction n with
  | zero =>
    intro idx fields h
    cases h
    simp
  | succ n ih =>
    intro idx fields h g hg
    obtain ⟨here, rest, hhere, hrest, rfl⟩ := layout_elements_succ_some.mp h
    rcases List.mem_append.mp hg with hg | hg
    · obtain ⟨_, _, nested, -, hfind, rfl⟩ := layout_element_some.mp hhere
      obtain ⟨src, hsrc, rfl⟩ := List.mem_map.mp hg
      exact hP src _ _ (hshapes nested (List.mem_of_find?_eq_some hfind) src hsrc)
    · exact ih hrest g hg

theorem layout_field_keeps (hP : Stable P) (hshapes : AllFields P shapes) {f : Field} (hf : P f)
    {x x' : Placed} (hx : ∀ g ∈ x.fields, P g) (h : layout_field w shapes f x = some x') :
    ∀ g ∈ x'.fields, P g := by
  obtain ⟨-, -, ⟨-, h⟩ | ⟨-, h⟩⟩ := layout_field_some.mp h
  · obtain ⟨_, _, nested, fields, -, -, -, hfields, rfl⟩ := layout_nested_some.mp h
    intro g hg
    rcases List.mem_append.mp hg with hg | hg
    · exact hx g hg
    · exact layout_elements_keeps hP hshapes _ hfields g hg
  · obtain ⟨-, rfl⟩ := layout_leaf_some.mp h
    intro g hg
    rcases List.mem_append.mp hg with hg | hg
    · exact hx g hg
    · rw [List.mem_singleton.mp hg]
      exact hP f f.name x.offset hf

theorem layout_fields_keeps (hP : Stable P) (hshapes : AllFields P shapes) (fields : List Field) :
    ∀ {x x' : Placed}, (∀ f ∈ fields, P f) → (∀ g ∈ x.fields, P g) →
      layout_fields w shapes fields x = some x' → ∀ g ∈ x'.fields, P g := by
  induction fields with
  | nil =>
    intro x x' _ hx h
    cases h
    exact hx
  | cons f rest ih =>
    intro x x' hfields hx h
    obtain ⟨x1, hfield, hrest⟩ := layout_fields_cons_some.mp h
    exact ih (fun g hg => hfields g (List.mem_cons_of_mem f hg))
      (layout_field_keeps hP hshapes (hfields f List.mem_cons_self) hx hfield) hrest

theorem layout_rest_keeps (hP : Stable P) (todo : List Shape) : ∀ {done out : List Shape},
    AllFields P done → AllFields P todo → layout_rest w done todo = some out →
    AllFields P out := by
  induction todo with
  | nil =>
    intro done out hdone _ h
    cases h
    exact hdone
  | cons s todo ih =>
    intro done out hdone htodo h
    obtain ⟨s', hstruct, hrest⟩ := layout_rest_cons_some.mp h
    obtain ⟨x, hx, rfl⟩ := layout_struct_some.mp hstruct
    have hs := htodo s List.mem_cons_self
    have hothers : AllFields P (done ++ { s with has_variable := false } :: todo) := by
      intro t ht
      rcases List.mem_append.mp ht with ht | ht
      · exact hdone t ht
      · rcases List.mem_cons.mp ht with rfl | ht
        · exact hs
        · exact htodo t (List.mem_cons_of_mem s ht)
    refine ih ?_ (fun t ht => htodo t (List.mem_cons_of_mem s ht)) hrest
    intro t ht
    rcases List.mem_append.mp ht with ht | ht
    · exact hdone t ht
    · rw [List.mem_singleton.mp ht]
      exact layout_fields_keeps hP hothers _ hs (by simp) hx

/-- **What holds of all declared fields holds of all laid out ones**, when it
does not depend on the name and the offset. -/
theorem layout_keeps (hP : Stable P) {decls out : List Shape} (h : layout w decls = some out)
    (hdecls : AllFields P decls) : AllFields P out :=
  layout_rest_keeps hP decls (by intro s hs; cases hs) hdecls h

end Kept

/-! ## Maps of fields that the pass respects -/

/-- A field with other numbers. -/
def Field.mapped (h : ℕ → ℕ) (e : Endian → Endian) (f : Field) : Field :=
  { f with offset := h f.offset, endian := e f.endian }

def Shape.mapped (h : ℕ → ℕ) (e : Endian → Endian) (s : Shape) : Shape :=
  { s with fields := s.fields.map (Field.mapped h e), min_size := h s.min_size }

def Placed.mapped (h : ℕ → ℕ) (e : Endian → Endian) (x : Placed) : Placed :=
  { x with fields := x.fields.map (Field.mapped h e), offset := h x.offset }

/-- `h` takes sums reduced by `w` to sums reduced by `w'`. -/
structure Respects (w w' h : ℕ → ℕ) : Prop where
  zero : h 0 = 0
  element : ∀ offset min_size idx src, w' (w' (h offset + idx * h min_size) + h src)
    = h (w (w (offset + idx * min_size) + src))
  nested : ∀ offset min_size count, w' (h offset + h min_size * count)
    = h (w (offset + min_size * count))
  leaf : ∀ offset size, w' (h offset + size) = h (w (offset + size))

section Mapped

variable {w w' h : ℕ → ℕ} (e : Endian → Endian) (hw : Respects w w' h)

theorem find_shape_mapped (h : ℕ → ℕ) (e : Endian → Endian) (shapes : List Shape) (name : CStr) :
    find_shape (shapes.map (Shape.mapped h e)) name
      = (find_shape shapes name).map (Shape.mapped h e) := by
  rw [find_shape, List.find?_map]
  rfl

include hw

theorem layout_element_mapped (shapes : List Shape) (f : Field) (type_name field_name : CStr)
    (offset min_size idx : ℕ) :
    layout_element w' (shapes.map (Shape.mapped h e)) (f.mapped h e) type_name field_name
        (h offset) (h min_size) idx
      = (layout_element w shapes f type_name field_name offset min_size idx).map
          (List.map (Field.mapped h e)) := by
  have hname : element_name (f.mapped h e) type_name field_name idx
      = element_name f type_name field_name idx := rfl
  simp only [layout_element, hname, find_shape_mapped, Option.bind_eq_bind, Option.pure_def,
    Option.map_bind, Option.bind_map, Function.comp_def]
  refine Option.bind_congr fun names _ => Option.bind_congr fun nested _ => ?_
  simp [Shape.mapped, place_field, Field.mapped, hw.element]

theorem layout_elements_mapped (shapes : List Shape) (f : Field) (type_name field_name : CStr)
    (offset min_size n : ℕ) : ∀ idx : ℕ,
    layout_elements w' (shapes.map (Shape.mapped h e)) (f.mapped h e) type_name field_name
        (h offset) (h min_size) n idx
      = (layout_elements w shapes f type_name field_name offset min_size n idx).map
          (List.map (Field.mapped h e)) := by
  induction n with
  | zero => intro idx; rfl
  | succ n ih =>
    intro idx
    simp only [layout_elements, layout_element_mapped e hw, ih, Option.bind_eq_bind,
      Option.pure_def, Option.map_bind, Option.bind_map, Function.comp_def]
    refine Option.bind_congr fun here _ => Option.bind_congr fun rest _ => ?_
    simp

theorem layout_nested_mapped (shapes : List Shape) (f : Field) (count : ℕ) (x : Placed) :
    layout_nested w' (shapes.map (Shape.mapped h e)) (f.mapped h e) count (x.mapped h e)
      = (layout_nested w shapes f count x).map (Placed.mapped h e) := by
  simp only [layout_nested, find_shape_mapped, Option.bind_eq_bind, Option.pure_def,
    Option.map_bind, Option.bind_map, Function.comp_def]
  refine Option.bind_congr fun names _ => Option.bind_congr fun nested _ => ?_
  by_cases hmany : nested.has_variable = true ∧ count > 1
  · simp [Shape.mapped, hmany]
  · have helements := layout_elements_mapped e hw shapes f names.1 names.2 x.offset
      nested.min_size count 0
    simp [Shape.mapped, Placed.mapped, hmany, helements, hw.nested, Option.map_bind,
      Option.bind_map]

theorem layout_leaf_mapped (f : Field) (x : Placed) :
    layout_leaf w' (f.mapped h e) (x.mapped h e) = (layout_leaf w f x).map (Placed.mapped h e) := by
  by_cases harr : f.is_array
  · simp [layout_leaf, Field.mapped, harr]
  · by_cases hvar : f.is_variable
    · simp [layout_leaf, Field.mapped, Placed.mapped, harr, hvar]
    · simp [layout_leaf, Field.mapped, Placed.mapped, harr, hvar, hw.leaf]

theorem layout_field_mapped (shapes : List Shape) (f : Field) (x : Placed) :
    layout_field w' (shapes.map (Shape.mapped h e)) (f.mapped h e) (x.mapped h e)
      = (layout_field w shapes f x).map (Placed.mapped h e) := by
  have hcount : element_count (f.mapped h e) = element_count f := rfl
  have htype : (f.mapped h e).type = f.type := rfl
  have hseen : (x.mapped h e).variable_seen = x.variable_seen := rfl
  rw [layout_field, layout_field, hcount, htype, hseen, layout_nested_mapped e hw,
    layout_leaf_mapped e hw]
  split_ifs <;> rfl

theorem layout_fields_mapped (shapes : List Shape) (fields : List Field) : ∀ x : Placed,
    layout_fields w' (shapes.map (Shape.mapped h e)) (fields.map (Field.mapped h e)) (x.mapped h e)
      = (layout_fields w shapes fields x).map (Placed.mapped h e) := by
  induction fields with
  | nil => intro x; rfl
  | cons f rest ih =>
    intro x
    simp only [List.map_cons, layout_fields, layout_field_mapped e hw, Option.bind_eq_bind,
      Option.map_bind, Option.bind_map]
    exact Option.bind_congr fun x1 _ => ih x1

theorem layout_struct_mapped (done : List Shape) (s : Shape) (todo : List Shape) :
    layout_struct w' (done.map (Shape.mapped h e)) (s.mapped h e) (todo.map (Shape.mapped h e))
      = (layout_struct w done s todo).map (Shape.mapped h e) := by
  have hshapes : done.map (Shape.mapped h e)
        ++ { s.mapped h e with has_variable := false } :: todo.map (Shape.mapped h e)
      = (done ++ { s with has_variable := false } :: todo).map (Shape.mapped h e) := by
    rw [List.map_append, List.map_cons]
    rfl
  have hempty : ({} : Placed) = ({} : Placed).mapped h e := by
    rw [Placed.mapped, hw.zero]
    rfl
  have hfields := layout_fields_mapped e hw (done ++ { s with has_variable := false } :: todo)
    s.fields {}
  rw [layout_struct, hshapes]
  simp only [layout_struct, Option.bind_eq_bind, Option.pure_def, Option.map_bind]
  rw [show (s.mapped h e).fields = s.fields.map (Field.mapped h e) from rfl, hempty, hfields,
    Option.bind_map, ← hempty]
  rfl

theorem layout_rest_mapped (todo : List Shape) : ∀ done : List Shape,
    layout_rest w' (done.map (Shape.mapped h e)) (todo.map (Shape.mapped h e))
      = (layout_rest w done todo).map (List.map (Shape.mapped h e)) := by
  induction todo with
  | nil => intro done; rfl
  | cons s todo ih =>
    intro done
    simp only [List.map_cons, layout_rest, layout_struct_mapped e hw, Option.bind_eq_bind,
      Option.map_bind, Option.bind_map, Function.comp_def]
    refine Option.bind_congr fun s' _ => ?_
    rw [← ih, List.map_append]
    rfl

/-- **The pass respects the map**: mapped declarations have the mapped layout. -/
theorem layout_mapped (decls : List Shape) :
    layout w' (decls.map (Shape.mapped h e))
      = (layout w decls).map (List.map (Shape.mapped h e)) :=
  layout_rest_mapped e hw decls []

end Mapped

/-! ## The wrapped pass is the exact one, reduced -/

def Field.reduced (f : Field) : Field := { f with offset := u32 f.offset }

def Shape.reduced (s : Shape) : Shape :=
  { s with fields := s.fields.map Field.reduced, min_size := u32 s.min_size }

theorem respects_u32 : Respects id u32 u32 where
  zero := rfl
  element := by simp [u32, Nat.add_mod, Nat.mul_mod]
  nested := by simp [u32, Nat.add_mod, Nat.mul_mod]
  leaf := by simp [u32]

/-- **The source computes the exact layout modulo `2 ^ 32`**, of declarations
that carry no number of that size themselves. -/
theorem layout_u32 {decls : List Shape} (h : decls.map Shape.reduced = decls) :
    layout u32 decls = (layout id decls).map (List.map Shape.reduced) := by
  have hmapped := layout_mapped id respects_u32 decls
  have hsame : Shape.mapped u32 id = Shape.reduced := rfl
  rw [hsame, h] at hmapped
  exact hmapped

/-! ## Tags do not matter -/

/-- A struct without the byte orders of its fields. -/
def Shape.untagged (s : Shape) : Shape := s.mapped id fun _ => .BIG

theorem layout_untagged (decls : List Shape) :
    layout u32 (decls.map Shape.untagged) = (layout u32 decls).map (List.map Shape.untagged) :=
  layout_mapped (fun _ => .BIG) ⟨rfl, fun _ _ _ _ => rfl, fun _ _ _ => rfl, fun _ _ => rfl⟩ decls

end RxNetCap.Pdef
