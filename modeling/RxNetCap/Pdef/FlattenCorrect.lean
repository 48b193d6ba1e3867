/-
`flatten_structs` computes `layout`.

Function by function: a step of the pass that returns has computed the
corresponding step of `layout` in `uint32_t` arithmetic on the shapes of the
structs it found in the table, and has turned its buffer into the next one. The
one thing a step changes in the table is the mark `has_variable` of the struct
at hand, and it agrees with the `variable_seen` that is carried along.
-/
import RxNetCap.Pdef.Layout
import RxNetCap.Pdef.Blocks

set_option autoImplicit false

namespace RxNetCap.Pdef

open RxNetCap.Ledger RxNetCap.ErrState

/-! ## Looking up -/

/-- The structs of the parser, as shapes. -/
def shapes (p : Parser) : List Shape := p.temp_structs.elems.map StructDef.shape

theorem find_shape_map (structs : List StructDef) (name : CStr) :
    find_shape (structs.map StructDef.shape) name
      = (structs.find? (·.name = name)).map StructDef.shape := by
  rw [find_shape, List.find?_map]
  rfl

theorem parse_nested_field_names_ok {name type_name field_name : CStr} {p q : Parser} :
    parse_nested_field_names name p = .ok (type_name, field_name) q ↔
      split_name name = some (type_name, field_name) ∧ p = q := by
  simp only [parse_nested_field_names, split_name, ite_ok, bind_ok, parser_error_ok, pure_ok]
  by_cases hdot : '.' ∈ name
  · simp [hdot, and_assoc]
  · simp [hdot]

theorem require_struct_ok {name : CStr} {nested : StructDef} {p q : Parser}
    (h : require_struct name p = .ok nested q) :
    p.temp_structs.elems.find? (·.name = name) = some nested ∧ Quiet p q := by
  simp only [require_struct, find_struct_by_name, bind_ok, get_ok, consult_ok, pure_ok] at h
  obtain ⟨found, _, ⟨_, _, ⟨rfl, rfl⟩, _, _, rfl, _, _, ⟨rfl, rfl⟩, _, _, rfl, _, _, ⟨rfl, rfl⟩,
    rfl, rfl⟩, h⟩ := h
  have hquiet : Quiet p { p with heap := (p.heap.consult p.proto.ptr).consult p.temp_structs.ptr } :=
    (Moves.consult (proto_held p)).trans (Moves.consult (temp_structs_held p))
  cases hfind : p.temp_structs.elems.find? (·.name = name) with
  | none => simp only [hfind, parser_error_ok] at h
  | some s =>
    simp only [hfind, pure_ok] at h
    obtain ⟨rfl, rfl⟩ := h
    exact ⟨rfl, hquiet⟩

/-! ## Nested fields -/

theorem expand_fields_ok {field_name : CStr} {base_offset : ℕ} (fields : List Field) :
    ∀ {t t' : Table Field} {p q : Parser},
      expand_fields field_name base_offset fields t p = .ok t' q →
      t'.elems = t.elems ++ fields.map (place_field u32 field_name base_offset) ∧
        Moves {t.ptr} {t'.ptr} p q := by
  induction fields with
  | nil =>
    intro t t' p q h
    rw [expand_fields, pure_ok] at h
    obtain ⟨rfl, rfl⟩ := h
    exact ⟨by simp, .refl p⟩
  | cons src rest ih =>
    intro t t' p q h
    simp only [expand_fields, bind_ok] at h
    obtain ⟨t1, p1, hreserve, hrest⟩ := h
    obtain ⟨helems1, hroom⟩ := reserve_moves hreserve
    obtain ⟨helems, hmoves⟩ := ih hrest
    refine ⟨?_, hroom.trans hmoves⟩
    rw [helems, Table.push_elems, helems1, List.append_assoc]
    rfl

theorem expand_nested_field_ok {nested_name : CStr} {base_offset : ℕ} {t t' : Table Field}
    {p q : Parser} (h : expand_nested_field nested_name t base_offset p = .ok t' q) :
    ∃ type_name field_name nested, split_name nested_name = some (type_name, field_name) ∧
      find_shape (shapes p) type_name = some nested ∧
      t'.elems = t.elems ++ nested.fields.map (place_field u32 field_name base_offset) ∧
      Moves {t.ptr} {t'.ptr} p q := by
  simp only [expand_nested_field, bind_ok, or_free_ok, consult_ok] at h
  obtain ⟨⟨type_name, field_name⟩, _, hnames, nested, p1, hfind, _, _, rfl, hexpand⟩ := h
  rw [parse_nested_field_names_ok] at hnames
  obtain ⟨hnames, rfl⟩ := hnames
  obtain ⟨hfind, hquiet⟩ := require_struct_ok hfind
  have hmem : nested ∈ p1.temp_structs.elems := by
    rw [hquiet.frame]
    exact List.mem_of_find?_eq_some hfind
  have hquiet' := hquiet.trans (Moves.consult (fields_held hmem))
  obtain ⟨helems, hmoves⟩ := expand_fields_ok _ hexpand
  refine ⟨type_name, field_name, nested.shape, hnames, ?_, helems, hmoves.after_quiet hquiet'⟩
  rw [shapes, find_shape_map, hfind]
  rfl

theorem expand_elements_ok {f : Field} {type_name field_name : CStr} {offset min_size : ℕ}
    (n : ℕ) : ∀ {idx : ℕ} {t t' : Table Field} {p q : Parser},
      expand_elements f type_name field_name offset min_size n idx t p = .ok t' q →
      ∃ fields, layout_elements u32 (shapes p) f type_name field_name offset min_size n idx
          = some fields ∧ t'.elems = t.elems ++ fields ∧ Moves {t.ptr} {t'.ptr} p q := by
  induction n with
  | zero =>
    intro idx t t' p q h
    rw [expand_elements, pure_ok] at h
    obtain ⟨rfl, rfl⟩ := h
    exact ⟨[], rfl, by simp, .refl p⟩
  | succ n ih =>
    intro idx t t' p q h
    simp only [expand_elements, bind_ok] at h
    obtain ⟨t1, p1, hhere, hrest⟩ := h
    obtain ⟨type_name', field_name', nested, hnames, hfind, helems1, hmoves1⟩ :=
      expand_nested_field_ok hhere
    obtain ⟨rest, hlayout, helems, hmoves⟩ := ih hrest
    have hshapes : shapes p1 = shapes p := by
      rw [shapes, hmoves1.frame]
      rfl
    rw [hshapes] at hlayout
    refine ⟨nested.fields.map (place_field u32 field_name' (u32 (offset + idx * min_size))) ++ rest,
      ?_, ?_, hmoves1.trans hmoves⟩
    · simp [layout_elements, layout_element, hnames, hfind, hlayout]
    · rw [helems, helems1, List.append_assoc]

/-! ## Fields -/

/-- The parser with the mark `has_variable` of struct `i` set. -/
def with_variable (i : ℕ) (b : Bool) (p : Parser) : Parser :=
  { p with temp_structs := { p.temp_structs with
    elems := p.temp_structs.elems.modify i fun s => { s with has_variable := b } } }

theorem set_has_variable_ok {i : ℕ} {b : Bool} {p q : Parser} {u : Unit} :
    set_has_variable i b p = .ok u q ↔ with_variable i b p = q := by
  rw [set_has_variable, update_struct, modify_ok]
  rfl

theorem with_variable_twice (i : ℕ) (b c : Bool) (p : Parser) :
    with_variable i b (with_variable i c p) = with_variable i b p := by
  simp only [with_variable, List.modify_modify_eq]
  rfl

theorem held_with_variable (i : ℕ) (b : Bool) (p : Parser) :
    held (with_variable i b p) = held p := by
  have hptrs : (p.temp_structs.elems.modify i fun s => { s with has_variable := b }).map
      (·.fields.ptr) = p.temp_structs.elems.map (·.fields.ptr) := by
    apply List.ext_getElem?
    intro k
    simp only [List.getElem?_map, List.getElem?_modify]
    by_cases hk : i = k <;> cases p.temp_structs.elems[k]? <;> simp [hk]
  simp only [held, with_variable, hptrs]

/-- From `p` to `q` nothing changed but tokens, the heap, and that mark. -/
def Marked (i : ℕ) (b : Bool) (p q : Parser) : Prop :=
  q = { with_variable i b p with toks := q.toks, heap := q.heap }

theorem Marked.trans {i : ℕ} {b c : Bool} {p q r : Parser} (h1 : Marked i b p q)
    (h2 : Marked i c q r) : Marked i c p r := by
  have htwice := congrArg Parser.temp_structs (with_variable_twice i c b p)
  have hstructs : (with_variable i c q).temp_structs = (with_variable i c p).temp_structs := by
    rw [h1]
    exact htwice
  have hframe : with_variable i c q
      = { with_variable i c p with toks := q.toks, heap := q.heap } := by
    rw [h1] at hstructs ⊢
    simp only [with_variable] at hstructs ⊢
    rw [hstructs]
  rw [Marked, hframe] at h2
  exact h2

theorem Marked.held_eq {i : ℕ} {b : Bool} {p q : Parser} (h : Marked i b p q) :
    held q = held p := by
  rw [h]
  exact held_with_variable i b p

def Expansion.placed (x : Expansion) : Placed where
  fields := x.fields.elems
  offset := x.offset
  variable_seen := x.variable_seen

/-- A step of the pass at struct `i`, from one buffer to the next. -/
structure FlattenStep (i : ℕ) (x x' : Expansion) (p q : Parser) : Prop where
  frame : Marked i x'.variable_seen p q
  heap : Transfers (held p) p.heap q.heap {x.fields.ptr} {x'.fields.ptr}

namespace FlattenStep

variable {i : ℕ} {x x' x'' : Expansion} {p q r : Parser}

theorem trans (h1 : FlattenStep i x x' p q) (h2 : FlattenStep i x' x'' q r) :
    FlattenStep i x x'' p r where
  frame := h1.frame.trans h2.frame
  heap := h1.heap.trans (h1.frame.held_eq ▸ h2.heap)

/-- A step that marks nothing, at a struct that is not marked. -/
theorem of_moves (hp : with_variable i false p = p) (hx' : x'.variable_seen = false)
    (h : Moves {x.fields.ptr} {x'.fields.ptr} p q) : FlattenStep i x x' p q where
  frame := by
    rw [hx', Marked, hp]
    exact h.frame
  heap := h.heap

/-- A step that marks the struct at its end. -/
theorem of_moves_marked (hx' : x'.variable_seen = true)
    (h : Moves {x.fields.ptr} {x'.fields.ptr} p q) :
    FlattenStep i x x' p (with_variable i true q) where
  frame := by
    rw [hx', Marked, h.frame]
    rfl
  heap := h.heap

end FlattenStep

section Fields

variable {i : ℕ} {s_name : CStr} {f : Field} {x x' : Expansion} {p q : Parser}

theorem flatten_nested_ok {count : ℕ} (hseen : x.variable_seen = false)
    (hp : with_variable i false p = p) (h : flatten_nested i s_name f count x p = .ok x' q) :
    layout_nested u32 (shapes p) f count x.placed = some x'.placed ∧ FlattenStep i x x' p q := by
  simp only [flatten_nested, bind_ok, or_free_ok, ite_ok, parser_error_ok, pure_ok,
    set_has_variable_ok] at h
  obtain ⟨⟨type_name, field_name⟩, _, hnames, nested, p1, hfind, h⟩ := h
  rw [parse_nested_field_names_ok] at hnames
  obtain ⟨hnames, rfl⟩ := hnames
  obtain ⟨hfind, hquiet⟩ := require_struct_ok hfind
  rcases h with ⟨-, _, _, hfalse, -⟩ | ⟨hsingle, expanded, p2, helements, h⟩
  · exact hfalse.elim
  obtain ⟨fields, hlayout, helems, hmoves⟩ := expand_elements_ok _ helements
  have hmoves := hmoves.after_quiet hquiet
  have hshapes : shapes p1 = shapes p := by
    rw [shapes, hquiet.frame]
    rfl
  have hfind' : find_shape (shapes p) type_name = some nested.shape := by
    rw [shapes, find_shape_map, hfind]
    rfl
  have hplaced : layout_nested u32 (shapes p) f count x.placed
      = some { fields := expanded.elems
               offset := u32 (x.offset + nested.min_size * count)
               variable_seen := x.variable_seen || nested.has_variable } := by
    rw [hshapes] at hlayout
    have hoffset : x.placed.offset = x.offset := rfl
    have hmin : nested.shape.min_size = nested.min_size := rfl
    have hvar : nested.shape.has_variable = nested.has_variable := rfl
    simp only [layout_nested, hnames, hfind', hoffset, hmin, hvar, Option.bind_eq_bind,
      Option.bind_some, if_neg hsingle, hlayout, helems]
    rfl
  rcases h with ⟨hmark, _, _, rfl, rfl, rfl⟩ | ⟨hplain, rfl, rfl⟩
  · exact ⟨hplaced, .of_moves_marked (by simp [hmark]) hmoves⟩
  · exact ⟨hplaced, .of_moves hp (by simpa [hseen] using hplain) hmoves⟩

theorem flatten_leaf_ok (hseen : x.variable_seen = false)
    (hp : with_variable i false p = p) (h : flatten_leaf i s_name f x p = .ok x' q) :
    layout_leaf u32 f x.placed = some x'.placed ∧ FlattenStep i x x' p q := by
  simp only [flatten_leaf, bind_ok, or_free_ok, ite_ok, parser_error_ok, pure_ok,
    set_has_variable_ok] at h
  rcases h with ⟨-, _, _, hfalse, -⟩ | ⟨hsingle, expanded, p1, hreserve, h⟩
  · exact hfalse.elim
  obtain ⟨helems, hmoves⟩ := reserve_moves hreserve
  have hplaced : layout_leaf u32 f x.placed
      = some { fields := expanded.elems ++ [{ f with offset := x.offset }]
               offset := if f.is_variable then x.offset else u32 (x.offset + f.size)
               variable_seen := x.variable_seen || f.is_variable } := by
    rw [layout_leaf, if_neg hsingle, helems]
    rfl
  rw [hplaced]
  rcases h with ⟨hmark, _, _, rfl, rfl, rfl⟩ | ⟨hplain, rfl, rfl⟩
  · refine ⟨?_, .of_moves_marked rfl hmoves⟩
    simp [Expansion.placed, hmark]
  · refine ⟨?_, .of_moves hp hseen hmoves⟩
    simp [Expansion.placed, hplain]

theorem flatten_field_ok (hp : x.variable_seen = false → with_variable i false p = p)
    (h : flatten_field i s_name f x p = .ok x' q) :
    x.variable_seen = false ∧ layout_field u32 (shapes p) f x.placed = some x'.placed ∧
      FlattenStep i x x' p q := by
  simp only [flatten_field, bind_ok, or_free_ok, ite_ok, parser_error_ok] at h
  rcases h with ⟨-, _, _, hfalse, -⟩ | ⟨hseen, h⟩
  · exact hfalse.elim
  rcases h with ⟨-, _, _, hfalse, -⟩ | ⟨hcount, h⟩
  · exact hfalse.elim
  rw [Bool.not_eq_true] at hseen
  have hseen' : x.placed.variable_seen = false := hseen
  refine ⟨hseen, ?_⟩
  rw [layout_field, hseen', if_neg Bool.false_ne_true,
    if_neg (show ¬ element_count f = 0 from hcount)]
  rcases h with ⟨hnested, h⟩ | ⟨hleaf, h⟩
  · rw [if_pos hnested]
    exact flatten_nested_ok hseen (hp hseen) h
  · rw [if_neg hleaf]
    exact flatten_leaf_ok hseen (hp hseen) h

end Fields

/-- After a variable field only the end of the struct is left, so the other
structs do not matter any more. -/
theorem layout_fields_seen {w : ℕ → ℕ} (shapes shapes' : List Shape) (fields : List Field)
    {x : Placed} (h : x.variable_seen = true) :
    layout_fields w shapes fields x = layout_fields w shapes' fields x := by
  cases fields with
  | nil => rfl
  | cons f rest => simp [layout_fields, layout_field, h]

theorem flatten_fields_ok {i : ℕ} {s_name : CStr} (fields : List Field) :
    ∀ {x x' : Expansion} {p q : Parser},
      (x.variable_seen = false → with_variable i false p = p) →
      flatten_fields i s_name fields x p = .ok x' q →
      layout_fields u32 (shapes p) fields x.placed = some x'.placed ∧
        (FlattenStep i x x' p q ∨ (x' = x ∧ q = p)) := by
  induction fields with
  | nil =>
    intro x x' p q _ h
    rw [flatten_fields, pure_ok] at h
    obtain ⟨rfl, rfl⟩ := h
    exact ⟨rfl, .inr ⟨rfl, rfl⟩⟩
  | cons f rest ih =>
    intro x x' p q hp h
    simp only [flatten_fields, bind_ok] at h
    obtain ⟨x1, p1, hfield, hrest⟩ := h
    obtain ⟨hseen, hlayout, hstep⟩ := flatten_field_ok hp hfield
    have hp1 : x1.variable_seen = false →
        p1.temp_structs = p.temp_structs ∧ with_variable i false p1 = p1 := by
      intro hseen1
      have hstructs : p1.temp_structs = p.temp_structs := by
        have hframe := congrArg Parser.temp_structs hstep.frame
        rw [hseen1] at hframe
        have hsame : (with_variable i false p).temp_structs = p.temp_structs :=
          congrArg Parser.temp_structs (hp hseen)
        exact hframe.trans hsame
      refine ⟨hstructs, ?_⟩
      have hmodify := congrArg Parser.temp_structs (hp hseen)
      simp only [with_variable, ← hstructs] at hmodify ⊢
      rw [hmodify]
    obtain ⟨hrest_layout, hrest_step⟩ := ih (fun h1 => (hp1 h1).2) hrest
    have hshapes : layout_fields u32 (shapes p) rest x1.placed
        = layout_fields u32 (shapes p1) rest x1.placed := by
      by_cases hseen1 : x1.variable_seen = true
      · exact layout_fields_seen _ _ rest hseen1
      · rw [shapes, shapes, (hp1 (by simpa using hseen1)).1]
    refine ⟨?_, .inl ?_⟩
    · simp only [layout_fields, hlayout, Option.bind_eq_bind, Option.bind_some, hshapes,
        hrest_layout]
    · rcases hrest_step with hnext | ⟨rfl, rfl⟩
      · exact hstep.trans hnext
      · exact hstep

/-! ## Structs -/

/-- The parser with other structs in the same table. -/
def with_structs (structs : List StructDef) (p : Parser) : Parser :=
  { p with temp_structs := { p.temp_structs with elems := structs } }

theorem modify_middle {α : Type} (before : List α) (x : α) (after : List α) (g : α → α) :
    (before ++ x :: after).modify before.length g = before ++ g x :: after := by
  induction before with
  | nil => rfl
  | cons y before ih => exact congrArg (y :: ·) ih

/-- Replacing the fields of one struct replaces one block. -/
theorem held_with_structs {done todo : List StructDef} {s : StructDef} {p : Parser}
    (hp : p.temp_structs.elems = done ++ s :: todo) (s' : StructDef) :
    {s'.fields.ptr} + (held p : Multiset ℕ)
      = s.fields.ptr ::ₘ (held (with_structs (done ++ s' :: todo) p) : Multiset ℕ) := by
  have hswap (x : ℕ) (a b : List ℕ) : ((a ++ x :: b : List ℕ) : Multiset ℕ) = {x} + (a ++ b : List ℕ) := by
    rw [Multiset.singleton_add, ← Multiset.coe_add, ← Multiset.coe_add, ← Multiset.cons_coe,
      Multiset.add_cons]
  rw [← Multiset.singleton_add, held_parts, held_parts, hp]
  simp only [with_structs, List.map_append, List.map_cons, hswap]
  ac_rfl

/-- One struct of the pass: the buffer becomes its fields, and the block of its
declared fields is released. -/
theorem flatten_struct_ok {done todo : List StructDef} {s : StructDef} {p q : Parser} {u : Unit}
    (hp : p.temp_structs.elems = done ++ s :: todo)
    (h : flatten_struct done.length s p = .ok u q) :
    ∃ s', layout_struct u32 (done.map StructDef.shape) s.shape (todo.map StructDef.shape)
        = some s'.shape ∧
      q = { with_structs (done ++ s' :: todo) p with toks := q.toks, heap := q.heap } ∧
      Keeps p q := by
  simp only [flatten_struct, bind_ok, get_ok, consult_ok, calloc_ok, set_has_variable_ok,
    update_struct, modify_ok, free_ok] at h
  obtain ⟨_, _, ⟨rfl, rfl⟩, _, _, rfl, expanded, _, ⟨hexpanded, rfl⟩, _, _, rfl, _, p3, hp3, x, p4,
    hfields, _, _, rfl, rfl⟩ := h
  -- the state in which the fields are laid out; the mark is off in it
  have hp3' : Marked done.length false p p3 := by
    rw [← hp3]
    rfl
  have hfixed : with_variable done.length false p3 = p3 := by
    have hagain : Marked done.length false p (with_variable done.length false p3) :=
      hp3'.trans rfl
    exact Eq.trans hagain (Eq.symm hp3')
  have hmarked (b : Bool) : (with_variable done.length b p).temp_structs.elems
      = done ++ { s with has_variable := b } :: todo := by
    rw [with_variable]
    simp only [hp]
    exact modify_middle done s todo _
  have hstructs3 : p3.temp_structs.elems = done ++ { s with has_variable := false } :: todo := by
    rw [hp3']
    exact hmarked false
  have hmem : s ∈ p.temp_structs.elems := by
    rw [hp]
    exact List.mem_append_right _ List.mem_cons_self
  have hbefore : Transfers (held p) p.heap p3.heap 0 {expanded.ptr} := by
    rw [← hp3, ← hexpanded]
    exact (Transfers.trans (.consult (temp_structs_held p)) .malloc).trans
      (.consult (fields_held hmem))
  obtain ⟨hlayout, hstep⟩ := flatten_fields_ok _ (fun _ => hfixed) hfields
  have hafter : Marked done.length x.variable_seen p p4 ∧
      Transfers (held p) p.heap p4.heap 0 {x.fields.ptr} := by
    rcases hstep with hstep | ⟨rfl, rfl⟩
    · exact ⟨hp3'.trans hstep.frame, hbefore.trans (hp3'.held_eq ▸ hstep.heap)⟩
    · exact ⟨hp3', hbefore⟩
  obtain ⟨hframe, hheap⟩ := hafter
  have hstructs4 : p4.temp_structs.elems
      = done ++ { s with has_variable := x.variable_seen } :: todo := by
    rw [hframe]
    exact hmarked x.variable_seen
  refine ⟨{ s with has_variable := x.variable_seen, min_size := x.offset, fields := x.fields },
    ?_, ?_, ?_⟩
  · have hempty : ({ fields := expanded } : Expansion).placed = {} := by
      rw [← hexpanded]
      rfl
    rw [shapes, hstructs3, List.map_append, List.map_cons, hempty] at hlayout
    have hlayout' : layout_fields u32 (done.map StructDef.shape
        ++ { s.shape with has_variable := false } :: todo.map StructDef.shape) s.shape.fields {}
        = some x.placed := hlayout
    rw [layout_struct, hlayout']
    rfl
  · have hlast : (p4.temp_structs.elems.modify done.length fun s =>
        { s with min_size := x.offset, fields := x.fields })
        = done ++ { s with has_variable := x.variable_seen, min_size := x.offset,
                           fields := x.fields } :: todo := by
      rw [hstructs4]
      exact modify_middle _ _ _ _
    simp only [hlast]
    rw [hframe]
    rfl
  · intro m _ ho
    have hown := hheap ((held p : Multiset ℕ) + m)
      (fun t ht => Multiset.mem_add.mpr (.inl ht)) (by rw [zero_add]; exact ho)
    rw [← add_assoc, held_with_structs hp { s with has_variable := x.variable_seen
                                                   min_size := x.offset
                                                   fields := x.fields }, Multiset.cons_add] at hown
    have hfree := hown.free
    have hlast : (p4.temp_structs.elems.modify done.length fun s =>
        { s with min_size := x.offset, fields := x.fields })
        = done ++ { s with has_variable := x.variable_seen, min_size := x.offset,
                           fields := x.fields } :: todo := by
      rw [hstructs4]
      exact modify_middle _ _ _ _
    simp only [hlast]
    rw [hframe]
    exact hfree

/-! ## The pass -/

/-- What the pass leaves: other structs, in the same table. -/
structure Flattened (structs : List StructDef) (p q : Parser) : Prop where
  frame : q = { with_structs structs p with toks := q.toks, heap := q.heap }
  keeps : Keeps p q

theorem flatten_from_ok (todo : List StructDef) : ∀ (done : List StructDef) {p q : Parser} {u : Unit},
    p.temp_structs.elems = done ++ todo → flatten_from todo.length done.length p = .ok u q →
    ∃ structs, layout_rest u32 (done.map StructDef.shape) (todo.map StructDef.shape)
        = some (structs.map StructDef.shape) ∧ Flattened structs p q := by
  induction todo with
  | nil =>
    intro done p q u hp h
    rw [List.length_nil, flatten_from, pure_ok] at h
    obtain ⟨-, rfl⟩ := h
    rw [List.append_nil] at hp
    refine ⟨done, rfl, ?_, Transfers.refl⟩
    rw [with_structs, ← hp]
  | cons s todo ih =>
    intro done p q u hp h
    simp only [List.length_cons, flatten_from, bind_ok, get_ok] at h
    obtain ⟨_, _, ⟨rfl, rfl⟩, h⟩ := h
    have hget : p.temp_structs.elems[done.length]? = some s := by
      rw [hp, List.getElem?_append_right le_rfl, Nat.sub_self]
      rfl
    simp only [hget, bind_ok] at h
    obtain ⟨_, p1, hstruct, hrest⟩ := h
    obtain ⟨s', hlayout, hframe, hkeeps⟩ := flatten_struct_ok hp hstruct
    have hp1 : p1.temp_structs.elems = (done ++ [s']) ++ todo := by
      rw [hframe, List.append_assoc]
      rfl
    obtain ⟨structs, hlayouts, hflat⟩ := ih _ hp1 (by rw [List.length_append]; exact hrest)
    refine ⟨structs, ?_, ?_, hkeeps.trans hflat.keeps⟩
    · rw [List.map_cons, layout_rest, hlayout]
      simpa using hlayouts
    · have h := hflat.frame
      rw [hframe] at h
      exact h

/-- **The pass computes the layout** of the structs it finds, in `uint32_t`
arithmetic. -/
theorem flatten_structs_ok {p q : Parser} {u : Unit} (h : flatten_structs p = .ok u q) :
    layout u32 (shapes p) = some (shapes q) ∧ Flattened q.temp_structs.elems p q := by
  simp only [flatten_structs, bind_ok, get_ok, consult_ok] at h
  obtain ⟨_, _, ⟨rfl, rfl⟩, _, _, rfl, _, _, ⟨rfl, rfl⟩, h⟩ := h
  have hquiet : Quiet p { p with heap := p.heap.consult p.proto.ptr } :=
    Moves.consult (proto_held p)
  obtain ⟨structs, hlayout, hflat⟩ := flatten_from_ok p.temp_structs.elems []
    (p := { p with heap := p.heap.consult p.proto.ptr }) rfl h
  have hstructs : q.temp_structs.elems = structs := by
    rw [hflat.frame]
    rfl
  refine ⟨?_, ?_, ?_⟩
  · rw [layout, shapes, shapes, hstructs]
    exact hlayout
  · rw [hstructs]
    exact hflat.frame
  · exact hquiet.keeps.trans hflat.keeps

end RxNetCap.Pdef
