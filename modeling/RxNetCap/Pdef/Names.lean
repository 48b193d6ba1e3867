/-
Which texts keep their names apart.

The name of a constant or a struct is kept in a `char[64]`, and so is each part
of a field path; a whole path is kept in a `char[128]`. Nothing is rejected for
being longer, except an element of an array that its own buffer cuts off. A
look-up compares the whole name it is given. So every name is found by the word
that declares it exactly when no name has more than 63 characters and no path
more than 127, and no nested field answers to a path (`names_kept_iff`).

The paths are followed through the pass that lays out the structs, in the words
of the text (`struct_entries`). The pass leaves a nested field as it is where its
struct is laid out later; such a field is no leaf, but it has a name.
-/
import RxNetCap.Pdef.Spelled
import RxNetCap.Pdef.Lookup
import Mathlib.Data.List.TakeWhile

set_option autoImplicit false

namespace RxNetCap.Pdef

variable {source : List Char}

/-! ## Looking up in a protocol -/

/-- `protocol_find_constant` of `src/runtime/protocol.c`. -/
def protocol_find_constant (proto : ProtocolDef) (name : CStr) : Option ℕ :=
  (proto.constants.find? (·.name = name)).map ConstantEntry.value

/-- `protocol_find_struct` of `src/runtime/protocol.c`. -/
def protocol_find_struct (proto : ProtocolDef) (name : CStr) : Option StructDef :=
  (structs_of proto).find? (·.name = name)

/-! ## Paths in the words of the text -/

/-- The parts of a field path. -/
abbrev Path := List CStr

/-- The path as it is written in a condition. -/
def Path.text : Path → CStr
  | [] => []
  | [part] => part
  | part :: rest => part ++ '.' :: Path.text rest

def FieldDecl.nested (f : FieldDecl) : Bool := token_to_field_type f.type.type = .NESTED

/-- What a field of a struct is to the text: a leaf has a path, a nested field
that stays as it is has the name that the buffers keep. -/
inductive Entry
  | leaf (path : Path)
  | nested (name : CStr)
  deriving DecidableEq

/-- The entry as a field of a nested field, whose name is `word` in the text and
`part` in the buffers. -/
def Entry.under (word part : CStr) : Entry → Entry
  | .leaf path => .leaf (word :: path)
  | .nested name => .nested (cstr 128 (part ++ ['.'] ++ name))

def Entry.path? : Entry → Option Path
  | .leaf path => some path
  | .nested _ => none

/-- The name of one element of a field. -/
def FieldDecl.element (f : FieldDecl) (idx : ℕ) : CStr :=
  if f.count.isSome then f.name.word ++ index_suffix idx else f.name.word

/-- What the buffers keep of the name of an element, whatever the byte order. -/
def FieldDecl.kept_element (f : FieldDecl) (idx : ℕ) : CStr := element_part (declared_field .BIG f) idx

/-- The fields of a struct as they were declared. -/
def declared_entries (d : StructDecl) : List Entry :=
  d.fields.map fun f =>
    if f.nested then .nested (declared_field .BIG f).name else .leaf [f.name.word]

/-- The entries of the struct that a type names, among the structs `structs` with
the entries `entries`. -/
def entries_of (structs : List StructDecl) (entries : List (List Entry)) (type_name : CStr) :
    List Entry :=
  (((structs.zip entries).find? fun x => cstr 64 x.1.name.token.text = type_name).map Prod.snd).getD []

/-- What a field comes to when the structs have the entries `entries`. -/
def field_entries (structs : List StructDecl) (entries : List (List Entry)) (f : FieldDecl) :
    List Entry :=
  if f.nested then
    (List.range (f.count.elim 1 fun x => u32 x.token.value)).flatMap fun idx =>
      (entries_of structs entries (cstr 64 f.type.token.text)).map
        (Entry.under (f.element idx) (f.kept_element idx))
  else [.leaf [f.name.word]]

/-- The structs in turn, those before with the entries `done`. -/
def rest_entries (structs : List StructDecl) (done : List (List Entry)) :
    List StructDecl → List (List Entry)
  | [] => done
  | d :: todo => rest_entries structs
      (done ++ [d.fields.flatMap (field_entries structs (done ++ (d :: todo).map declared_entries))]) todo

/-- The fields of each struct of a text once they are laid out, in their order. -/
def struct_entries (w : Script) : List (List Entry) := rest_entries w.structs [] w.structs

/-! ## Keeping names -/

/-- A constant is found by the word that declares it, and what is found by a
word was declared by it. -/
structure ConstantsKept (proto : ProtocolDef) (w : Script) : Prop where
  found : ∀ c ∈ w.constants, (protocol_find_constant proto c.name.word).isSome
  exact : ∀ name value, protocol_find_constant proto name = some value →
    ∃ c ∈ w.constants, c.name.word = name ∧ c.value.token.value = value

/-- The same of the structs. -/
structure StructsKept (proto : ProtocolDef) (w : Script) : Prop where
  found : ∀ d ∈ w.structs, (protocol_find_struct proto d.name.word).isSome
  exact : ∀ name s, protocol_find_struct proto name = some s →
    ∃ d, (s, d) ∈ (structs_of proto).zip w.structs ∧ d.name.word = name

/-- Every leaf of a struct is found by its path, and no other field answers to it. -/
structure FieldsKept (s : StructDef) (entries : List Entry) : Prop where
  found : ∀ e, .leaf e ∈ entries → (find_field_by_path s e.text).isSome
  exact : ∀ e, .leaf e ∈ entries → ∀ f entry, (f, entry) ∈ s.fields.elems.zip entries →
    f.name = e.text → ∃ e', entry = .leaf e' ∧ e'.text = e.text

/-- Every name of a text keeps its identity. -/
structure NamesKept (source : List Char) (proto : ProtocolDef) : Prop where
  constants : ConstantsKept proto (script source)
  structs : StructsKept proto (script source)
  fields : List.Forall₂ FieldsKept (structs_of proto) (struct_entries (script source))

/-- A path that the buffers have room for. -/
def Path.Fits (e : Path) : Prop := (∀ part ∈ e, part.length ≤ 63) ∧ e.text.length ≤ 127

instance (e : Path) : Decidable e.Fits := by
  unfold Path.Fits
  infer_instance

/-- Every name of a text has the room it needs, and no nested field that stays
as it is has the name of a leaf. -/
structure RoomForNames (source : List Char) : Prop where
  constants : ∀ c ∈ (script source).constants, c.name.word.length ≤ 63
  structs : ∀ d ∈ (script source).structs, d.name.word.length ≤ 63
  fields : ∀ entries ∈ struct_entries (script source), ∀ e ∈ entries.filterMap Entry.path?,
    e.Fits ∧ .nested e.text ∉ entries

/-! ## Words and parts -/

/-- No part of a path contains a dot. -/
def Solid (part : CStr) : Prop := '.' ∉ part

theorem word_solid (x : Lexeme) : Solid x.word := by
  intro hdot
  have halnum : is_alnum '.' = true := List.mem_takeWhile_imp hdot
  revert halnum
  decide

theorem decimal_solid (n : ℕ) : Solid (decimal n) := by
  intro hdot
  have hdigit := Nat.isDigit_of_mem_toDigits (by decide) (by decide) hdot
  revert hdigit
  decide

theorem element_solid (f : FieldDecl) (idx : ℕ) : Solid (f.element idx) := by
  have hsuffix : '.' ∉ index_suffix idx := by
    simp only [index_suffix, List.mem_append, List.mem_cons, List.cons_append]
    rintro (h | h | h | h)
    · exact absurd h (by decide)
    · exact decimal_solid idx h
    · exact absurd h (by decide)
    · cases h
  unfold FieldDecl.element
  split
  · exact fun hdot => (List.mem_append.mp hdot).elim (word_solid f.name) hsuffix
  · exact word_solid f.name

/-- What a buffer of 64 keeps of a word. -/
theorem Lexeme.Is.kept_word {x : Lexeme} (h : x.Is source .IDENTIFIER) :
    cstr 64 x.token.text = x.word.take 63 := by
  rw [h.word_text, cstr, List.take_take]
  rfl

/-- A name whose parts are short, and which the longest buffer holds. -/
structure Short (name : CStr) : Prop where
  parts : ∀ part, part <:+: name → Solid part → part.length ≤ 63
  length : name.length ≤ 127

theorem Short.of_length {name : CStr} (h : name.length ≤ 63) : Short name where
  parts _ hpart _ := hpart.length_le.trans h
  length := h.trans (by decide)

/-- A part of two names with a dot between them is a part of one of them. -/
theorem solid_infix {part a b : CStr} (h : part <:+: a ++ '.' :: b) (hsolid : Solid part) :
    part <:+: a ∨ part <:+: b := by
  rcases List.infix_append_iff.mp h with h | h | ⟨front, back, rfl, hfront, hback⟩
  · exact .inl h
  · rcases List.infix_cons_iff.mp h with h | h
    · cases part with
      | nil => exact .inl (List.nil_infix)
      | cons c part =>
        obtain ⟨t, ht⟩ := h
        exact absurd ((List.cons.inj ht).1 ▸ List.mem_cons_self) hsolid
    · exact .inr h
  · -- the second half of a part that stretches over the dot would start with it
    cases back with
    | nil => exact .inl (by rw [List.append_nil]; exact hfront.isInfix)
    | cons c back =>
      obtain ⟨t, ht⟩ := hback
      have hdot : '.' ∈ front ++ c :: back :=
        List.mem_append_right _ ((List.cons.inj ht).1 ▸ List.mem_cons_self)
      exact absurd hdot hsolid

/-- Two short names, the first of one part, joined by a dot in a buffer. -/
theorem Short.join {a b : CStr} (ha : a.length ≤ 63) (hb : Short b) :
    Short (cstr 128 (a ++ ['.'] ++ b)) where
  parts part hpart hsolid := by
    have hinfix : part <:+: a ++ '.' :: b := by
      have h := hpart.trans (List.take_prefix _ _).isInfix
      rwa [List.append_assoc, List.singleton_append] at h
    rcases solid_infix hinfix hsolid with h | h
    · exact h.length_le.trans ha
    · exact hb.parts part h hsolid
  length := (List.length_take_le _ _)

/-! ## Paths -/

theorem Path.text_cons {part : CStr} {e : Path} (he : e ≠ []) :
    Path.text (part :: e) = part ++ '.' :: Path.text e := by
  cases e with
  | nil => exact absurd rfl he
  | cons part' rest => rfl

/-- A part of a path is a part of its text. -/
theorem Path.part_infix (e : Path) : ∀ part ∈ e, part <:+: e.text := by
  induction e with
  | nil => simp
  | cons first rest ih =>
    intro part hpart
    by_cases hrest : rest = []
    · subst hrest
      rw [List.mem_singleton.mp hpart]
      exact List.infix_rfl
    · rw [Path.text_cons hrest]
      rcases List.mem_cons.mp hpart with rfl | hpart
      · exact (List.prefix_append _ _).isInfix
      · exact (ih part hpart).trans ((List.suffix_cons _ _).isInfix.trans (List.suffix_append _ _).isInfix)

/-- A path whose text is short has the room it needs. -/
theorem Path.fits_of_short {e : Path} (hsolid : ∀ part ∈ e, Solid part) (h : Short e.text) : e.Fits :=
  ⟨fun part hpart => h.parts part (e.part_infix part hpart) (hsolid part hpart), h.length⟩

/-! ## The name of a field and its path -/

/-- A field of the table and its entry: the name is short, and it is the path
where that has the room. -/
structure NameOf (f : Field) (entry : Entry) : Prop where
  short : Short f.name
  leaf : ∀ e, entry = .leaf e → e ≠ [] ∧ (∀ part ∈ e, Solid part) ∧ (e.Fits → f.name = e.text)
  nested : ∀ name, entry = .nested name → f.name = name

/-- The name of a field is all that matters. -/
theorem NameOf.congr {f g : Field} {entry : Entry} (h : NameOf f entry) (hname : g.name = f.name) :
    NameOf g entry where
  short := hname ▸ h.short
  leaf e he := hname ▸ h.leaf e he
  nested name he := hname ▸ h.nested name he

theorem nested_type_word (type : TokenType) : token_to_field_type type = .NESTED ↔ type = .IDENTIFIER := by
  cases type <;> simp [token_to_field_type]

section Declared

variable {e : Endian} {d : FieldDecl}

theorem declared_type : (declared_field e d).type = token_to_field_type d.type.type := by
  unfold declared_field name_field
  split <;> rfl

theorem declared_leaf_name (h : d.nested = false) :
    (declared_field e d).name = cstr 128 (cstr 64 d.name.token.text) := by
  have hn : token_to_field_type d.type.type ≠ .NESTED := by simpa [FieldDecl.nested] using h
  unfold declared_field name_field
  rw [if_neg hn]

theorem declared_nested_name (h : d.nested = true) : (declared_field e d).name
    = cstr 128 (cstr 64 d.type.token.text ++ ['.'] ++ cstr 64 d.name.token.text) := by
  have hn : token_to_field_type d.type.type = .NESTED := by simpa [FieldDecl.nested] using h
  unfold declared_field name_field
  rw [if_pos hn]

/-- A nested field that stays as it is. -/
theorem declared_nested_kept (h : d.nested = true) :
    NameOf (declared_field e d) (.nested (declared_field .BIG d).name) where
  short := by
    rw [declared_nested_name h]
    exact .join (List.length_take_le _ _) (.of_length (List.length_take_le _ _))
  leaf := nofun
  nested := by
    rintro _ ⟨⟩
    rw [declared_nested_name h, declared_nested_name h]

variable (hd : FieldLexemes source d)

include hd

/-- A leaf keeps its word. -/
theorem FieldLexemes.leaf_name (h : d.nested = false) : NameOf (declared_field e d) (.leaf [d.name.word]) where
  short := by
    rw [declared_leaf_name h]
    exact .of_length ((List.length_take_le' _ _).trans (List.length_take_le 63 _))
  leaf := by
    rintro _ ⟨⟩
    refine ⟨by simp, by simpa using word_solid d.name, fun hfits => ?_⟩
    have hlen : d.name.word.length ≤ 63 := hfits.1 _ List.mem_cons_self
    rw [declared_leaf_name h, hd.name.kept_word, List.take_of_length_le hlen, cstr,
      List.take_of_length_le (hlen.trans (by decide))]
    rfl
  nested := nofun

/-- The type a nested field is kept under. -/
theorem FieldLexemes.kept_type (h : d.nested = true) :
    cstr 64 d.type.token.text = d.type.word.take 63 := by
  have hword : d.type.type = .IDENTIFIER :=
    (nested_type_word _).mp (by simpa [FieldDecl.nested] using h)
  exact Lexeme.Is.kept_word ⟨hd.type, hword⟩

/-- The name of a nested field is its two words, cut to 63 characters each. -/
theorem FieldLexemes.nested_parts_eq (h : d.nested = true) :
    (declared_field e d).name = d.type.word.take 63 ++ '.' :: d.name.word.take 63 ∧
      nested_type (declared_field e d) = d.type.word.take 63 ∧
      nested_name (declared_field e d) = d.name.word.take 63 := by
  have hsolid : '.' ∉ d.type.word.take 63 := fun hdot => word_solid d.type (List.mem_of_mem_take hdot)
  have hname : (declared_field e d).name = d.type.word.take 63 ++ '.' :: d.name.word.take 63 := by
    rw [declared_nested_name h, hd.kept_type h, hd.name.kept_word, cstr, List.append_assoc,
      List.singleton_append]
    refine List.take_of_length_le ?_
    rw [List.length_append, List.length_cons, List.length_take, List.length_take]
    omega
  refine ⟨hname, ?_, ?_⟩
  · rw [nested_type, hname, takeWhile_dot _ hsolid]
  · rw [nested_name, hname, dropWhile_dot _ hsolid]

/-- The part of a path that an element adds, where it has the room. -/
theorem FieldLexemes.element_part_eq (h : d.nested = true) {idx : ℕ} (hfits : (d.element idx).length ≤ 63) :
    element_part (declared_field e d) idx = d.element idx := by
  obtain ⟨hname, htype, hown⟩ := hd.nested_parts_eq (e := e) h
  have hsolid : '.' ∉ d.type.word.take 63 := fun hdot => word_solid d.type (List.mem_of_mem_take hdot)
  have hword : d.name.word.length ≤ 63 := by
    refine le_trans ?_ hfits
    unfold FieldDecl.element
    split
    · rw [List.length_append]
      omega
    · exact le_rfl
  rw [List.take_of_length_le hword] at hown hname
  have harray : (declared_field e d).is_array = d.count.isSome := rfl
  unfold element_part element_name
  rw [harray, htype, hown]
  unfold FieldDecl.element at hfits ⊢
  by_cases hcount : d.count.isSome
  · rw [if_pos hcount, if_pos hcount] at *
    have hlong : d.type.word.take 63 ++ ['.'] ++ d.name.word ++ ['['] ++ decimal idx ++ [']']
        = d.type.word.take 63 ++ '.' :: (d.name.word ++ index_suffix idx) := by
      simp [index_suffix]
    rw [hlong, cstr, List.take_of_length_le, dropWhile_dot _ hsolid]
    rw [List.length_append, List.length_cons, List.length_take]
    omega
  · rw [if_neg hcount, if_neg hcount] at *
    rw [hname, dropWhile_dot _ hsolid]

end Declared

/-! ## Laying out -/

/-- The struct and its entries correspond field by field. -/
abbrev Named (fields : List Field) (entries : List Entry) : Prop := List.Forall₂ NameOf fields entries

theorem declared_named {e : Endian} {ds : List FieldDecl} (h : ∀ d ∈ ds, FieldLexemes source d) :
    Named (ds.map (declared_field e))
      (ds.map fun f => if f.nested then .nested (declared_field .BIG f).name else .leaf [f.name.word]) := by
  rw [Named, List.forall₂_map_left_iff, List.forall₂_map_right_iff, List.forall₂_same]
  intro d hd
  by_cases hn : d.nested = true
  · rw [if_pos hn]
    exact declared_nested_kept hn
  · rw [if_neg hn]
    exact (h d hd).leaf_name (by simpa using hn)

/-- One field of a nested struct, as a field of the struct around it. -/
theorem NameOf.place {w : ℕ → ℕ} {base : ℕ} {part word : CStr} {src : Field} {entry : Entry}
    (h : NameOf src entry) (hpart : part.length ≤ 63) (hword : word.length ≤ 63 → part = word)
    (hsolid : Solid word) : NameOf (place_field w part base src) (entry.under word part) where
  short := .join hpart h.short
  leaf := by
    intro e he
    obtain ⟨rest, hrest, rfl⟩ : ∃ rest, entry = .leaf rest ∧ e = word :: rest := by
      cases entry with
      | leaf rest => exact ⟨rest, rfl, (Entry.leaf.inj he).symm⟩
      | nested name => cases he
    obtain ⟨hne, hparts, hname⟩ := h.leaf rest hrest
    refine ⟨by simp, List.forall_mem_cons.mpr ⟨hsolid, hparts⟩, fun hfits => ?_⟩
    have htext : Path.text (word :: rest) = word ++ '.' :: Path.text rest := Path.text_cons hne
    have hlength := hfits.2
    rw [htext, List.length_append, List.length_cons] at hlength
    have hrestfits : Path.Fits rest :=
      ⟨fun p hp => hfits.1 p (List.mem_cons_of_mem _ hp), by omega⟩
    show cstr 128 (part ++ ['.'] ++ src.name) = _
    rw [hword (hfits.1 word List.mem_cons_self), hname hrestfits, htext, List.append_assoc,
      List.singleton_append, cstr, List.take_of_length_le]
    rw [List.length_append, List.length_cons]
    omega
  nested := by
    intro name hname
    cases entry with
    | leaf rest => cases hname
    | nested own =>
      cases hname
      show cstr 128 (part ++ ['.'] ++ src.name) = _
      rw [h.nested own rfl]

theorem forall₂_flatMap {α β ι : Type} {R : α → β → Prop} {f : ι → List α} {g : ι → List β}
    (is : List ι) (h : ∀ i ∈ is, List.Forall₂ R (f i) (g i)) :
    List.Forall₂ R (is.flatMap f) (is.flatMap g) := by
  induction is with
  | nil => exact .nil
  | cons i is ih =>
    rw [List.flatMap_cons, List.flatMap_cons]
    exact List.rel_append (h i List.mem_cons_self) (ih fun j hj => h j (List.mem_cons_of_mem i hj))

/-- All elements of a nested field. -/
theorem nest_elements_named {w : ℕ → ℕ} {e : Endian} {d : FieldDecl} (hd : FieldLexemes source d)
    (hn : d.nested = true) {nested : Shape} {entries : List Entry}
    (h : Named nested.fields entries) (offset n : ℕ)
    (hparts : ∀ idx < n, (element_part (declared_field e d) idx).length ≤ 63) :
    Named (nest_elements w (declared_field e d) nested offset n 0)
      ((List.range n).flatMap fun idx =>
        entries.map (Entry.under (d.element idx) (d.kept_element idx))) := by
  rw [nest_elements, ← List.range_eq_range']
  refine forall₂_flatMap _ fun idx hidx => ?_
  rw [List.forall₂_map_left_iff, List.forall₂_map_right_iff]
  refine h.imp fun src entry hsrc => ?_
  exact hsrc.place (hparts idx (List.mem_range.mp hidx)) (hd.element_part_eq hn) (element_solid d idx)

/-- An element whose part has no room is rejected. -/
theorem layout_elements_parts {w : ℕ → ℕ} {shapes : List Shape} {f : Field} {offset min_size : ℕ} (n : ℕ) :
    ∀ {idx : ℕ} {fields : List Field},
    layout_elements w shapes f (nested_type f) (nested_name f) offset min_size n idx = some fields →
    ∀ i, idx ≤ i → i < idx + n → (element_part f i).length ≤ 63 := by
  induction n with
  | zero => intro idx fields _ i hle hlt; omega
  | succ n ih =>
    intro idx fields h i hle hlt
    obtain ⟨here, rest, hhere, hrest, -⟩ := layout_elements_succ_some.mp h
    by_cases hi : i = idx
    · obtain ⟨t, part, -, hname, -, -⟩ := layout_element_some.mp hhere
      simp only [split_name, Option.ite_none_right_eq_some, Option.some.injEq, Prod.mk.injEq] at hname
      rw [hi]
      exact Nat.le_of_lt_succ hname.1.2.2
    · exact ih hrest i (by omega) (by omega)

/-- The shapes bear the names of the structs, and their fields have the entries. -/
structure Follows (structs : List StructDecl) (entries : List (List Entry)) (shapes : List Shape) :
    Prop where
  names : List.Forall₂ (fun s d => s.name = cstr 64 d.name.token.text) shapes structs
  fields : List.Forall₂ (fun s es => Named s.fields es) shapes entries

theorem Follows.find {structs : List StructDecl} {entries : List (List Entry)}
    {shapes : List Shape} (h : Follows structs entries shapes) {name : CStr} {nested : Shape}
    (hfound : find_shape shapes name = some nested) : Named nested.fields (entries_of structs entries name) := by
  obtain ⟨hnames, hfields⟩ := h
  induction hnames generalizing entries with
  | nil => cases hfound
  | @cons s d shapes structs hname _ ih =>
    cases hfields with
    | @cons _ es _ entries hhead hrest =>
      by_cases hs : s.name = name
      · rw [find_shape, List.find?_cons_of_pos (by simpa using hs)] at hfound
        cases hfound
        have hd : entries_of (d :: structs) (es :: entries) name = es := by
          simp [entries_of, ← hname, hs]
        rw [hd]
        exact hhead
      · rw [find_shape, List.find?_cons_of_neg (by simpa using hs)] at hfound
        have hd : entries_of (d :: structs) (es :: entries) name = entries_of structs entries name := by
          simp [entries_of, ← hname, hs]
        rw [hd]
        exact ih hfound hrest

section Fields

variable {w : ℕ → ℕ} {e : Endian} {structs : List StructDecl} {entries : List (List Entry)}
  {shapes : List Shape}

theorem layout_field_named (h : Follows structs entries shapes) {d : FieldDecl} (hd : FieldLexemes source d)
    {x x' : Placed} {es : List Entry} (hx : Named x.fields es)
    (hlayout : layout_field w shapes (declared_field e d) x = some x') :
    Named x'.fields (es ++ field_entries structs entries d) := by
  by_cases hn : d.nested = true
  · have htype : (declared_field e d).type = .NESTED := by
      rw [declared_type]
      simpa [FieldDecl.nested] using hn
    obtain ⟨-, -, ⟨-, hnested⟩ | ⟨hleaf, -⟩⟩ := layout_field_some.mp hlayout
    · obtain ⟨t, part, nested, fields, hsplit, hfound, -, hfields, rfl⟩ := layout_nested_some.mp hnested
      obtain ⟨-, rfl, rfl⟩ := split_name_some hsplit
      have hparts := layout_elements_parts _ hfields
      rw [layout_elements_eq hfound hsplit x.offset _ hfields]
      have hcount : element_count (declared_field e d)
          = d.count.elim 1 fun x => u32 x.token.value := by
        unfold element_count declared_field
        cases d.count <;> rfl
      have htypename : nested_type (declared_field e d) = cstr 64 d.type.token.text := by
        rw [(hd.nested_parts_eq hn).2.1, hd.kept_type hn]
      have hentries := h.find hfound
      rw [show (declared_field e d).name.takeWhile (· ≠ '.') = nested_type (declared_field e d) from rfl,
        htypename] at hentries
      rw [field_entries, if_pos hn, ← hcount]
      exact List.rel_append hx (nest_elements_named hd hn hentries _ _ fun idx hidx =>
        hparts idx (Nat.zero_le _) (by rwa [Nat.zero_add]))
    · exact absurd htype hleaf
  · have htype : (declared_field e d).type ≠ .NESTED := by
      rw [declared_type]
      simpa [FieldDecl.nested] using hn
    obtain ⟨-, -, ⟨hnested, -⟩ | ⟨-, hleaf⟩⟩ := layout_field_some.mp hlayout
    · exact absurd hnested htype
    · obtain ⟨-, rfl⟩ := layout_leaf_some.mp hleaf
      rw [field_entries, if_neg hn]
      exact List.rel_append hx (.cons ((hd.leaf_name (e := e) (by simpa using hn)).congr rfl) .nil)

theorem layout_fields_named (h : Follows structs entries shapes) (ds : List FieldDecl) :
    ∀ {x x' : Placed} {es : List Entry}, (∀ d ∈ ds, FieldLexemes source d) → Named x.fields es →
    layout_fields w shapes (ds.map (declared_field e)) x = some x' →
    Named x'.fields (es ++ ds.flatMap (field_entries structs entries)) := by
  induction ds with
  | nil =>
    intro x x' es _ hx hlayout
    cases hlayout
    rw [List.flatMap_nil, List.append_nil]
    exact hx
  | cons d ds ih =>
    intro x x' es hds hx hlayout
    obtain ⟨hd, hds⟩ := List.forall_mem_cons.mp hds
    obtain ⟨x1, hfield, hrest⟩ := layout_fields_cons_some.mp hlayout
    have hx1 := layout_field_named h hd hx hfield
    rw [List.flatMap_cons, ← List.append_assoc]
    exact ih hds hx1 hrest

end Fields

/-- A shape that is as its struct was declared. -/
structure DeclaredAs (source : List Char) (s : Shape) (d : StructDecl) : Prop where
  name : s.name = cstr 64 d.name.token.text
  sound : ∀ f ∈ d.fields, FieldLexemes source f
  fields : ∃ e, s.fields = d.fields.map (declared_field e)

theorem DeclaredAs.named {s : Shape} {d : StructDecl} (h : DeclaredAs source s d) :
    Named s.fields (declared_entries d) := by
  obtain ⟨e, hfields⟩ := h.fields
  rw [hfields]
  exact declared_named h.sound

/-- **The pass keeps the entries.** -/
theorem layout_rest_named {w : ℕ → ℕ} (todo : List StructDecl) : ∀ {pre : List StructDecl}
    {done shapes out : List Shape} {entries : List (List Entry)},
    Follows pre entries done → List.Forall₂ (DeclaredAs source) shapes todo →
    layout_rest w done shapes = some out →
    List.Forall₂ (fun s es => Named s.fields es) out (rest_entries (pre ++ todo) entries todo) := by
  induction todo with
  | nil =>
    intro pre done shapes out entries hdone htodo h
    cases htodo
    cases h
    exact hdone.fields
  | cons d todo ih =>
    intro pre done shapes out entries hdone htodo h
    cases htodo with
    | @cons s _ shapes _ hs hshapes =>
      obtain ⟨s', hstruct, hrest⟩ := layout_rest_cons_some.mp h
      obtain ⟨x, hx, rfl⟩ := layout_struct_some.mp hstruct
      obtain ⟨e, hfields⟩ := hs.fields
      have hfollows : Follows (pre ++ d :: todo) (entries ++ (d :: todo).map declared_entries)
          (done ++ { s with has_variable := false } :: shapes) := by
        refine ⟨List.rel_append hdone.names (.cons hs.name (hshapes.imp fun _ _ h => h.name)), ?_⟩
        refine List.rel_append hdone.fields (.cons hs.named ?_)
        rw [List.forall₂_map_right_iff]
        exact hshapes.imp fun _ _ h => h.named
      have hx' : layout_fields w (done ++ { s with has_variable := false } :: shapes)
          (d.fields.map (declared_field e)) {} = some x :=
        hfields ▸ hx
      have hnone : Named ({} : Placed).fields [] := .nil
      have hnamed := layout_fields_named hfollows d.fields hs.sound hnone hx'
      rw [List.nil_append] at hnamed
      have hassoc : pre ++ d :: todo = (pre ++ [d]) ++ todo := by simp
      rw [rest_entries, hassoc]
      rw [hassoc] at hnamed
      refine ih ⟨?_, ?_⟩ hshapes hrest
      · exact List.rel_append hdone.names (.cons hs.name .nil)
      · exact List.rel_append hdone.fields (.cons hnamed .nil)

/-! ## Looking up by a word -/

theorem forall₂_left {α β : Type} {R : α → β → Prop} {as : List α} {bs : List β}
    (h : List.Forall₂ R as bs) {a : α} (ha : a ∈ as) : ∃ b, (a, b) ∈ as.zip bs ∧ R a b := by
  induction h with
  | nil => cases ha
  | @cons a' b' as bs hab _ ih =>
    rcases List.mem_cons.mp ha with rfl | ha
    · exact ⟨b', List.mem_cons_self, hab⟩
    · obtain ⟨b, hmem, hr⟩ := ih ha
      exact ⟨b, List.mem_cons_of_mem _ hmem, hr⟩

theorem forall₂_right {α β : Type} {R : α → β → Prop} {as : List α} {bs : List β}
    (h : List.Forall₂ R as bs) {b : β} (hb : b ∈ bs) : ∃ a, (a, b) ∈ as.zip bs ∧ R a b := by
  induction h with
  | nil => cases hb
  | @cons a' b' as bs hab _ ih =>
    rcases List.mem_cons.mp hb with rfl | hb
    · exact ⟨a', List.mem_cons_self, hab⟩
    · obtain ⟨a, hmem, hr⟩ := ih hb
      exact ⟨a, List.mem_cons_of_mem _ hmem, hr⟩

section Words

variable {α β : Type} {name : α → CStr} {word : β → CStr} {as : List α} {bs : List β}

/-- A table keeps 63 characters of each word. A word that finds something in it is short. -/
theorem short_of_found (h : List.Forall₂ (fun a b => name a = (word b).take 63) as bs) {b : β}
    (hfound : (as.find? (name · = word b)).isSome) : (word b).length ≤ 63 := by
  obtain ⟨a, ha⟩ := Option.isSome_iff_exists.mp hfound
  have hname : name a = word b := by simpa using List.find?_some ha
  obtain ⟨b', -, hkept⟩ := forall₂_left h (List.mem_of_find?_eq_some ha)
  rw [← hname, hkept]
  exact List.length_take_le _ _

theorem found_of_short (h : List.Forall₂ (fun a b => name a = (word b).take 63) as bs) {b : β}
    (hb : b ∈ bs) (hshort : (word b).length ≤ 63) : (as.find? (name · = word b)).isSome := by
  obtain ⟨a, hmem, hkept⟩ := forall₂_right h hb
  rw [List.take_of_length_le hshort] at hkept
  rw [List.find?_isSome]
  exact ⟨a, (List.of_mem_zip hmem).1, by simpa using hkept⟩

theorem word_of_found (h : List.Forall₂ (fun a b => name a = (word b).take 63) as bs)
    (hshort : ∀ b ∈ bs, (word b).length ≤ 63) {w : CStr} {a : α} (ha : as.find? (name · = w) = some a) :
    ∃ b, (a, b) ∈ as.zip bs ∧ word b = w := by
  have hname : name a = w := by simpa using List.find?_some ha
  obtain ⟨b, hmem, hkept⟩ := forall₂_left h (List.mem_of_find?_eq_some ha)
  rw [List.take_of_length_le (hshort b (List.of_mem_zip hmem).2)] at hkept
  exact ⟨b, hmem, hkept.symm.trans hname⟩

end Words

/-- The fields of one struct. -/
theorem fieldsKept_iff {s : StructDef} {entries : List Entry} (h : Named s.fields.elems entries) :
    FieldsKept s entries ↔
      ∀ e ∈ entries.filterMap Entry.path?, e.Fits ∧ .nested e.text ∉ entries := by
  have hleaf (e : Path) : e ∈ entries.filterMap Entry.path? ↔ .leaf e ∈ entries := by
    rw [List.mem_filterMap]
    constructor
    · rintro ⟨entry, hentry, he⟩
      cases entry with
      | leaf path => cases he; exact hentry
      | nested name => cases he
    · exact fun he => ⟨_, he, rfl⟩
  constructor
  · intro hkept e he
    rw [hleaf] at he
    obtain ⟨f, hf⟩ := Option.isSome_iff_exists.mp (hkept.found e he)
    have hname : f.name = e.text := by simpa using List.find?_some hf
    obtain ⟨entry, -, hshort⟩ := forall₂_left h (List.mem_of_find?_eq_some hf)
    obtain ⟨f', -, hpath⟩ := forall₂_right h he
    refine ⟨Path.fits_of_short (hpath.leaf e rfl).2.1 (hname ▸ hshort.short), fun hnested => ?_⟩
    obtain ⟨g, hg, hgname⟩ := forall₂_right h hnested
    obtain ⟨e', hentry, -⟩ := hkept.exact e he g _ hg (hgname.nested _ rfl)
    cases hentry
  · intro hroom
    constructor
    · intro e he
      obtain ⟨f, hmem, hname⟩ := forall₂_right h he
      rw [find_field_by_path, List.find?_isSome]
      have hfits := (hroom e ((hleaf e).mpr he)).1
      exact ⟨f, (List.of_mem_zip hmem).1, by simpa using (hname.leaf e rfl).2.2 hfits⟩
    · intro e he f entry hmem hf
      have hname : NameOf f entry := (List.forall₂_iff_zip.mp h).2 hmem
      have hentry : entry ∈ entries := (List.of_mem_zip hmem).2
      cases entry with
      | leaf e' =>
        have hfits := (hroom e' ((hleaf e').mpr hentry)).1
        exact ⟨e', rfl, ((hname.leaf e' rfl).2.2 hfits).symm.trans hf⟩
      | nested own =>
        have hown : own = e.text := (hname.nested own rfl).symm.trans hf
        exact absurd (hown ▸ hentry) (hroom e ((hleaf e).mpr he)).2

/-! ## All names -/

/-- **The names that keep their identity.** Every constant, struct and leaf of
an accepted text is found by its own spelling, and by no other, exactly where
the buffers have room for all of them. -/
theorem names_kept_iff {proto : ProtocolDef} (h : (pdef_parse_string source).1 = .accepted proto) :
    NamesKept source proto ↔ RoomForNames source := by
  obtain ⟨p0, p1, p2, hphases⟩ := accepted_phases.mp h
  have hblocks : after_blocks source = some p0 := returned_eq_some.mpr hphases.blocks
  have hkept := script_kept hblocks
  have hlayout := hphases.accepted.layout
  have hdecls : declarations source = p0.temp_structs.elems.map StructDef.shape := by
    rw [declarations, hblocks]
    rfl
  -- the constants, with their values
  have hconsts : List.Forall₂ (fun (e : ConstantEntry) (c : ConstDecl) => e.name = c.name.word.take 63 ∧
      e.value = c.value.token.value) proto.constants (script source).constants := by
    have hstored := hkept.constants.stored
    rw [← hphases.constants_eq, ← List.forall₂_eq_eq_eq, List.forall₂_map_left_iff,
      List.forall₂_map_right_iff] at hstored
    have hsound := hkept.constants.sound
    rw [List.forall₂_iff_zip] at hstored ⊢
    refine ⟨hstored.1, fun hmem => ?_⟩
    obtain ⟨hname, hvalue⟩ := Prod.mk.inj (hstored.2 hmem)
    exact ⟨hname.trans (hsound _ (List.of_mem_zip hmem).2).1.kept_word, hvalue⟩
  have hnames := hconsts.imp fun _ _ hc => hc.1
  -- the structs, by their names
  have hstructs : List.Forall₂ (fun (s : StructDef) (d : StructDecl) => s.name = d.name.word.take 63)
      (structs_of proto) (script source).structs := by
    have hdeclared : List.Forall₂ (fun (n : CStr) (d : StructDecl) => n = d.name.word.take 63)
        ((p0.temp_structs.elems.map StructDef.shape).map Shape.name) (script source).structs := by
      rw [List.map_map, List.forall₂_map_left_iff]
      exact hkept.structs.imp fun _ _ hd => hd.name.trans hd.word.kept_word
    rw [← hdecls, ← layout_names hlayout, List.map_map, List.forall₂_map_left_iff] at hdeclared
    exact hdeclared
  -- the fields, by the layout
  have hfields : List.Forall₂ (fun (s : StructDef) (es : List Entry) => Named s.fields.elems es)
      (structs_of proto) (struct_entries (script source)) := by
    have hsame : List.Forall₂ (DeclaredAs source) (declarations source) (script source).structs := by
      rw [hdecls, List.forall₂_map_left_iff]
      exact hkept.structs.imp fun _ _ hd => ⟨hd.name, hd.sound, hd.fields⟩
    have hnamed := layout_rest_named _ ⟨.nil, .nil⟩ hsame hlayout
    rw [List.forall₂_map_left_iff] at hnamed
    exact hnamed
  have hfields_iff : List.Forall₂ FieldsKept (structs_of proto) (struct_entries (script source)) ↔
      ∀ entries ∈ struct_entries (script source), ∀ e ∈ entries.filterMap Entry.path?,
        e.Fits ∧ .nested e.text ∉ entries :=
    forall₂_iff hfields fun _ _ hs => fieldsKept_iff hs
  constructor
  · intro hk
    refine ⟨fun c hc => ?_, fun d hd => ?_, hfields_iff.mp hk.fields⟩
    · have hfound := hk.constants.found c hc
      rw [protocol_find_constant, Option.isSome_map] at hfound
      exact short_of_found hnames hfound
    · exact short_of_found hstructs (hk.structs.found d hd)
  · intro hr
    refine ⟨⟨fun c hc => ?_, fun name value hvalue => ?_⟩, ⟨fun d hd => ?_, fun name s hs => ?_⟩,
      hfields_iff.mpr hr.fields⟩
    · rw [protocol_find_constant, Option.isSome_map]
      exact found_of_short hnames hc (hr.constants c hc)
    · obtain ⟨entry, hentry, rfl⟩ := Option.map_eq_some_iff.mp hvalue
      obtain ⟨c, hmem, hword⟩ := word_of_found hnames hr.constants hentry
      exact ⟨c, (List.of_mem_zip hmem).2, hword, ((List.forall₂_iff_zip.mp hconsts).2 hmem).2.symm⟩
    · exact found_of_short hstructs hd (hr.structs d hd)
    · exact word_of_found hstructs hr.structs hs

/-- Constants, an array of structs, and a field of a struct that is declared later. -/
def names_text : List Char :=
  ("@const { LOW = 16; } Item { uint8 id; } Packet { Item items[2]; Tail rest; } " ++
    "Tail { Item last; uint8 end; } @filter F { items[1].id = LOW; rest.end = 0; }").toList

set_option maxRecDepth 100000 in
theorem names_text_kept : ∃ proto, (pdef_parse_string names_text).1 = .accepted proto ∧
    NamesKept names_text proto := by
  obtain ⟨proto, hproto⟩ : ∃ proto, (pdef_parse_string names_text).1.protocol? = some proto :=
    Option.isSome_iff_exists.mp (by decide +kernel)
  have haccepted := ParseResult.protocol?_eq_some.mp hproto
  exact ⟨proto, haccepted, (names_kept_iff haccepted).mpr
    ⟨by decide +kernel, by decide +kernel, by decide +kernel⟩⟩

/-- A name of 64 letters. -/
def long_name (last : Char) : List Char := List.replicate 63 'a' ++ [last]

/-- Two structs whose names differ in the 64th letter; the type of `z` is the second. -/
def merged_text : List Char :=
  long_name 'x' ++ " \x7b uint8 x; \x7d ".toList ++ long_name 'y' ++ " \x7b uint32 y; \x7d ".toList ++
    "Outer \x7b ".toList ++ long_name 'y' ++ " z; \x7d".toList

/-- The field `z` gets the field of the other struct. -/
example : struct_entries (script merged_text) = [[.leaf [['x']]], [.leaf [['y']]], [.leaf [['z'], ['x']]]] := by
  decide +kernel

set_option maxRecDepth 100000 in
theorem merged_structs_accepted : ∃ proto, (pdef_parse_string merged_text).1 = .accepted proto ∧
    ¬ NamesKept merged_text proto := by
  obtain ⟨proto, hproto⟩ : ∃ proto, (pdef_parse_string merged_text).1.protocol? = some proto :=
    Option.isSome_iff_exists.mp (by decide +kernel)
  refine ⟨proto, ParseResult.protocol?_eq_some.mp hproto, fun hkept => ?_⟩
  have hdeclared : ∃ d ∈ (script merged_text).structs, d.name.word = long_name 'y' := by
    decide +kernel
  have hmissing : ((pdef_parse_string merged_text).1.protocol?.bind
      (protocol_find_struct · (long_name 'y'))).isNone = true := by
    decide +kernel
  obtain ⟨d, hd, hword⟩ := hdeclared
  have hfound := hkept.structs.found d hd
  rw [hproto, Option.bind_some, Option.isNone_iff_eq_none] at hmissing
  rw [hword, hmissing] at hfound
  cases hfound

end RxNetCap.Pdef
