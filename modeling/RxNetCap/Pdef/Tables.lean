/-
Whether the parser stays within its tables.

Eight tables are filled. The conditions of a filter, the values of a list, the
fields of a struct and the fields of a laid out struct grow; the parsed filters
are counted before one is added, which bounds the compiled filters as well; a
program has the size that its first pass adds up. The structs are the one table
that neither grows nor is counted: `parse_struct_def` writes to the entry at
`struct_count`, whatever that number is.

So a text is read within the tables unless it comes to a seventeenth struct
(`tables_hold`). Texts that need a table of more than `2 ^ 31` elements are left
open in one direction; there the `uint32_t` of a capacity or of a size wraps.
-/
import RxNetCap.Pdef.Targets
import RxNetCap.Pdef.Expansion

set_option autoImplicit false

namespace RxNetCap.Pdef

open RxNetCap.Ledger RxNetCap.ErrState Relation
open EStateM (Result)

variable {α β : Type}

/-! ## Reading -/

/-- From one block of a text to the next. -/
def NextBlock (p q : Parser) : Prop := parse_block p = .ok () q

/-- The text comes to a struct when it has declared sixteen. -/
def SeventeenthStruct (source : List Char) : Prop :=
  ∃ p, ReflTransGen NextBlock (parser_init source) p ∧
    p.current_token.type = .IDENTIFIER ∧ 16 ≤ p.temp_structs.count

/-- Of a parser that has read some blocks of a text of `n` tokens. -/
structure Tidy (n : ℕ) (p : Parser) : Prop where
  left : Left p.tables p.toks.length p
  short : p.toks.length ≤ n
  within : p.tables.Within n
  sixteen : p.temp_structs.cap = 16 ∧ p.temp_filters.cap = 16 ∧ p.temp_filter_rules.cap = 16
  no_filters : p.temp_filters.elems = []

theorem tidy_init (source : List Char) : Tidy (lex source).1.length (parser_init source) where
  left := ⟨(lex_loop_final _ _ le_rfl).1, le_rfl, rfl, Nat.zero_le _⟩
  short := le_rfl
  within := ⟨nofun, nofun, Nat.zero_le _⟩
  sixteen := ⟨rfl, rfl, rfl⟩
  no_filters := rfl

/-- The tables that are counted keep their capacity. -/
theorem BlockStep.sixteen {p q : Parser} (h : BlockStep p q) :
    q.temp_structs.cap = p.temp_structs.cap ∧ q.temp_filters = p.temp_filters ∧
      q.temp_filter_rules.cap = p.temp_filter_rules.cap := by
  cases h.kind with
  | protocol _ settings =>
    rw [settings.frame]
    exact ⟨rfl, rfl, rfl⟩
  | constants entries adds =>
    rw [adds.frame]
    exact ⟨rfl, rfl, rfl⟩
  | filter rule _ frame _ =>
    rw [frame]
    exact ⟨rfl, rfl, rfl⟩
  | struct _ s _ frame _ =>
    rw [frame]
    exact ⟨rfl, rfl, rfl⟩

variable {n : ℕ} {p q : Parser}

theorem Tidy.block_triple (hp : Tidy n p) (hn : n < 2 ^ 31) (hroom : ¬ Crowded p) :
    Triple (· = p) parse_block (fun _ q => NextBlock p q ∧ Tidy n q ∧ q.toks.length < p.toks.length)
      Told := by
  have hrun : Triple (· = p) parse_block
      (fun _ q => ∃ X, X.Within n ∧ Spent X p.toks.length 1 q) Told := by
    refine .before ?_ (parse_block_paid hp.within hp.short hn)
    rintro _ rfl
    exact ⟨hroom, hp.left⟩
  refine hrun.returning.after ?_
  rintro ⟨⟩ q ⟨hblock, X, hX, j, hj, hleft⟩
  have hshort := hp.short
  have htoks := hleft.toks
  have htables := hleft.tables
  obtain ⟨hstructs, hfilters, hrules⟩ := (parse_block_step hblock).sixteen
  refine ⟨hblock, ⟨?_, by omega, ?_, ?_, ?_⟩, by omega⟩
  · exact ⟨hleft.ends, le_rfl, rfl, hleft.fits⟩
  · rw [htables]
    exact hX
  · rw [hstructs, hfilters, hrules]
    exact hp.sixteen
  · rw [hfilters]
    exact hp.no_filters

/-- The struct too many is written behind the table. -/
theorem crowded_overruns (h : Crowded p) :
    Triple (· = p) parse_block (fun _ _ => False) (fun e _ => e = .overrun) := by
  have hdef : Triple (fun q => q.temp_structs.count = p.temp_structs.count ∧
      q.temp_structs.cap = p.temp_structs.cap ∧ q.current_token = p.current_token)
      parse_struct_def (fun _ _ => False) (fun e _ => e = .overrun) := by
    refine .bind (Q := fun _ q => q.temp_structs.count = p.temp_structs.count ∧
      q.temp_structs.cap = p.temp_structs.cap) ?_ fun _ => ?_
    · rintro q ⟨hcount, hcap, hcurrent⟩
      have hword : q.current_token.type = .IDENTIFIER := by rw [hcurrent]; exact h.1
      have hrequire := (parser_require_ok .IDENTIFIER "Expected struct name" q q ()).mpr ⟨hword, rfl⟩
      rw [hrequire]
      exact ⟨hcount, hcap⟩
    refine .get_bind fun q hq => .bind (Q := fun _ q => q.temp_structs.count = p.temp_structs.count ∧
      q.temp_structs.cap = p.temp_structs.cap) ?_ fun _ => ?_
    · rintro _ rfl
      exact hq
    refine .get_bind fun q1 hq1 => .get_bind fun q2 hq2 => ?_
    rw [hq2]
    refine .ite (fun _ => .bind (Q := fun _ _ => False) (.throw fun _ _ => rfl)
      fun _ _ hq => hq.elim) fun hroom => absurd h.2 ?_
    rw [← hq1.1, ← hq1.2]
    exact hroom
  refine .bind (Q := fun token q => token = p.current_token ∧ q = p) ?_ fun token => .of_fact ?_
  · rintro _ rfl
    exact ⟨rfl, rfl⟩
  · rintro rfl
    rw [h.1]
    refine .before ?_ hdef
    rintro _ rfl
    exact ⟨rfl, rfl, rfl⟩

/-- A block that was read started with a token of the text. -/
theorem NextBlock.shorter (h : NextBlock p q) (hlast : Final p.last) :
    p.current_token.type ≠ .EOF ∧ q.toks.length < p.toks.length := by
  have hnot : ¬ Final p.current_token := by
    intro hfinal
    have hok : parse_block p = .ok () q := h
    simp only [parse_block, bind_ok, current_token_ok] at hok
    obtain ⟨token, _, ⟨rfl, rfl⟩, hok⟩ := hok
    rcases hfinal with hfinal | hfinal
    · rw [hfinal] at hok
      exact ((parser_error_ok _ _ _ _).mp hok).elim
    · rw [hfinal] at hok
      exact ((parser_error_ok _ _ _ _).mp hok).elim
  have hne : p.toks ≠ [] := by
    intro hnil
    rw [Parser.current_token, hnil] at hnot
    exact hnot hlast
  have hlength := (parse_block_step h).toks.length_le
  have hpos := List.length_pos_iff.mpr hne
  rw [List.length_tail] at hlength
  exact ⟨fun heof => hnot (.inl heof), by omega⟩

/-- Whatever is read after `p`, the run that gets there goes past the table. -/
theorem blocks_overrun {r : Parser} (hcrowded : Crowded r) (hsteps : ReflTransGen NextBlock p r) :
    ∀ {m : ℕ}, Final p.last → p.toks.length < m →
      Triple (· = p) (parse_blocks m) (fun _ _ => False) (fun e _ => e = .overrun) := by
  induction hsteps using ReflTransGen.head_induction_on with
  | refl =>
    intro m _ hm
    cases m with
    | zero => exact absurd hm (Nat.not_lt_zero _)
    | succ m =>
      refine .bind (Q := fun token q => token = r.current_token ∧ q = r) ?_ fun token => .of_fact ?_
      · rintro _ rfl
        exact ⟨rfl, rfl⟩
      · rintro rfl
        refine .ite (fun _ => .bind (crowded_overruns hcrowded) fun _ _ hq => hq.elim) fun heof => ?_
        rw [hcrowded.1] at heof
        exact absurd (by decide) heof
  | @head p q hblock _ ih =>
    intro m hlast hm
    cases m with
    | zero => exact absurd hm (Nat.not_lt_zero _)
    | succ m =>
      have hok : parse_block p = .ok () q := hblock
      obtain ⟨heof, hless⟩ := hblock.shorter hlast
      have hlast' : Final q.last := by
        rw [(parse_block_step hblock).last]
        exact hlast
      refine .bind (Q := fun token s => token = p.current_token ∧ s = p) ?_ fun token => .of_fact ?_
      · rintro _ rfl
        exact ⟨rfl, rfl⟩
      · rintro rfl
        refine .ite (fun _ => .bind (Q := fun _ s => s = q) ?_ fun _ => ih hlast' (by omega))
          fun hend => absurd heof hend
        rintro _ rfl
        rw [hok]

/-- **All blocks are read within the tables** of a text that comes to no
seventeenth struct. -/
theorem blocks_told {source : List Char} (hn : n < 2 ^ 31) (hfew : ¬ SeventeenthStruct source) :
    ∀ {m : ℕ} {p : Parser}, ReflTransGen NextBlock (parser_init source) p → Tidy n p →
      p.toks.length < m → Triple (· = p) (parse_blocks m) (fun _ q => Tidy n q) Told := by
  intro m
  induction m with
  | zero => intro p _ _ hm; exact absurd hm (Nat.not_lt_zero _)
  | succ m ih =>
    intro p hreached hp hm
    have hroom : ¬ Crowded p := fun hfull => hfew ⟨p, hreached, hfull.1, hp.sixteen.1 ▸ hfull.2⟩
    refine .bind (Q := fun _ q => q = p) ?_ fun token => .ite (fun _ => ?_) fun _ => .pure ?_
    · rintro _ rfl
      rfl
    · refine .bind (hp.block_triple hn hroom) fun _ => ?_
      rintro q ⟨hblock, htidy, hless⟩
      exact ih (hreached.tail hblock) htidy (by omega) q rfl
    · rintro _ rfl
      exact hp

/-! ## Laying out -/

/-- The names and the fields of the structs, whatever their marks. -/
def inventory (structs : List StructDef) : List (CStr × List Field) :=
  structs.map fun s => (s.name, s.fields.elems)

/-- The parser has these structs, and its compiled filters within their table. -/
structure Stocked (S : List (CStr × List Field)) (p : Parser) : Prop where
  structs : inventory p.temp_structs.elems = S
  fits : p.temp_filters.count ≤ p.temp_filters.cap

/-- The fields of the struct of the name. -/
def fields_named (S : List (CStr × List Field)) (name : CStr) : List Field :=
  ((S.find? (·.1 = name)).map Prod.snd).getD []

/-- How many fields a declared field becomes. -/
def spread_field (S : List (CStr × List Field)) (f : Field) : ℕ :=
  if f.type = .NESTED then element_count f * (fields_named S (nested_type f)).length else 1

def spread (S : List (CStr × List Field)) (fields : List Field) : ℕ :=
  (fields.map (spread_field S)).sum

section Layout

variable {S : List (CStr × List Field)}

theorem Stocked.heapFree : HeapFree (Stocked S) := fun _ _ h => ⟨h.structs, h.fits⟩

theorem parse_nested_field_names_told {P : Parser → Prop}
    (hP : ∀ p, P p → p.temp_filters.count ≤ p.temp_filters.cap) (name : CStr) :
    Triple P (parse_nested_field_names name) (fun r p => split_name name = some r ∧ P p) Told := by
  refine .ite (fun _ => tell_then hP _) fun hdot => .ite (fun _ => tell_then hP _) fun htype => ?_
  refine .ite (fun _ => tell_then hP _) fun hfield => .pure fun p hp => ⟨?_, hp⟩
  rw [split_name, if_pos ⟨not_not.mp hdot, not_le.mp htype, not_le.mp hfield⟩]

theorem require_struct_told (name : CStr) :
    Triple (Stocked S) (require_struct name)
      (fun nested p => nested.fields.elems = fields_named S name ∧ Stocked S p) Told := by
  have hfind : Triple (Stocked S) (find_struct_by_name name)
      (fun found p => (found.map (·.fields.elems)).getD [] = fields_named S name ∧ Stocked S p)
      Told := by
    refine .get_bind fun p hp => .bind (Q := fun _ => Stocked S) ?_ fun _ => ?_
    · rintro _ rfl
      exact Stocked.heapFree _ _ hp
    refine .get_bind fun p hp => .bind (Q := fun _ => Stocked S) ?_ fun _ => ?_
    · rintro _ rfl
      exact Stocked.heapFree _ _ hp
    refine .get_bind fun p hp => .pure ?_
    rintro _ rfl
    refine ⟨?_, hp⟩
    rw [fields_named, ← hp.structs, inventory, List.find?_map, Option.map_map]
    rfl
  refine .bind hfind fun found => .of_fact fun hfound => ?_
  cases found with
  | none => exact tell (fun _ h => h.fits) _
  | some nested => exact .pure fun p hp => ⟨hfound, hp⟩

theorem expand_fields_told (field_name : CStr) (base_offset : ℕ) (fields : List Field) :
    ∀ {t : Table Field}, Grows t → t.count + fields.length ≤ 2 ^ 31 →
      Triple (Stocked S) (expand_fields field_name base_offset fields t)
        (fun t' p => (Grows t' ∧ t'.count = t.count + fields.length) ∧ Stocked S p) Told := by
  induction fields with
  | nil => intro t ht _; exact .pure fun p hp => ⟨⟨ht, rfl⟩, hp⟩
  | cons src rest ih =>
    intro t ht hsmall
    rw [List.length_cons] at hsmall ⊢
    refine .bind (Stocked.heapFree.reserve ht (by omega)) fun expanded => .of_fact ?_
    rintro ⟨helems, hroom⟩
    have hpush : (expanded.push (nest_field field_name base_offset src)).count = t.count + 1 := by
      rw [Table.count, Table.push_elems, List.length_append, helems]
      rfl
    refine (ih (.push hroom _) (by omega)).after ?_
    rintro t' p ⟨⟨hgrows, hcount⟩, hp⟩
    exact ⟨⟨hgrows, by omega⟩, hp⟩

theorem expand_nested_field_told {nested_name : CStr} {base_offset m : ℕ} {t : Table Field}
    (hm : ∀ type_name field_name, split_name nested_name = some (type_name, field_name) →
      (fields_named S type_name).length = m)
    (ht : Grows t) (hsmall : t.count + m ≤ 2 ^ 31) :
    Triple (Stocked S) (expand_nested_field nested_name t base_offset)
      (fun t' p => (Grows t' ∧ t'.count = t.count + m) ∧ Stocked S p) Told := by
  refine .bind (or_free_ends told_heap_free _ (parse_nested_field_names_told (fun _ h => h.fits) _)) fun names =>
    .of_fact fun hnames => ?_
  obtain ⟨type_name, field_name⟩ := names
  refine .bind (or_free_ends told_heap_free _ (require_struct_told _)) fun nested => .of_fact fun hnested => ?_
  refine .bind (Stocked.heapFree.consult _) fun _ => ?_
  have hlength : nested.fields.elems.length = m := by
    rw [hnested]
    exact hm _ _ hnames
  have hrun := expand_fields_told (S := S) field_name base_offset nested.fields.elems ht
    (by rw [hlength]; exact hsmall)
  rwa [hlength] at hrun

theorem expand_elements_told {f : Field} {type_name field_name : CStr} {offset min_size m : ℕ}
    (hm : ∀ idx type_name' field_name',
      split_name (element_name f type_name field_name idx) = some (type_name', field_name') →
        (fields_named S type_name').length = m) (n : ℕ) :
    ∀ {idx : ℕ} {t : Table Field}, Grows t → t.count + n * m ≤ 2 ^ 31 →
      Triple (Stocked S) (expand_elements f type_name field_name offset min_size n idx t)
        (fun t' p => (Grows t' ∧ t'.count = t.count + n * m) ∧ Stocked S p) Told := by
  induction n with
  | zero =>
    intro idx t ht _
    exact .pure fun p hp => ⟨⟨ht, by rw [Nat.zero_mul, Nat.add_zero]⟩, hp⟩
  | succ n ih =>
    intro idx t ht hsmall
    rw [Nat.succ_mul] at hsmall ⊢
    refine .bind (expand_nested_field_told (hm idx) ht (by omega)) fun expanded => .of_fact ?_
    rintro ⟨hgrows, hcount⟩
    refine (ih hgrows (by omega)).after ?_
    rintro t' p ⟨⟨hgrows', hcount'⟩, hp⟩
    exact ⟨⟨hgrows', by omega⟩, hp⟩

/-- However the name of an element is cut off, the type in front of it stays. -/
theorem element_name_type {f : Field} {idx : ℕ} {own type_name field_name : CStr}
    (hlong : (nested_type f).length < 64)
    (h : split_name (element_name f (nested_type f) own idx) = some (type_name, field_name)) :
    type_name = nested_type f := by
  obtain ⟨-, rfl, -⟩ := split_name_some h
  have hnodot : '.' ∉ nested_type f := fun hmem => by
    have hpred := List.all_takeWhile (p := (· ≠ '.')) (l := f.name)
    simpa using List.all_eq_true.mp hpred '.' hmem
  by_cases harr : f.is_array
  · -- the buffer holds the type and the dot, and as much of the rest as fits
    have hcut (rest : CStr) : (nested_type f ++ '.' :: rest).take 127
        = nested_type f ++ '.' :: rest.take (127 - (nested_type f).length - 1) := by
      obtain ⟨k, hk⟩ : ∃ k, 127 - (nested_type f).length = k + 1 :=
        ⟨126 - (nested_type f).length, by omega⟩
      rw [List.take_append, List.take_of_length_le (by omega), hk, List.take_succ_cons]
      rfl
    have helement : element_name f (nested_type f) own idx
        = (nested_type f ++ '.' :: (own ++ ['['] ++ decimal idx ++ [']'])).take 127 := by
      rw [element_name, if_pos harr, cstr]
      simp only [List.append_assoc, List.cons_append, List.nil_append]
    rw [helement, hcut]
    exact takeWhile_dot _ hnodot
  · rw [element_name, if_neg harr]
    rfl

theorem split_name_type {f : Field} {type_name field_name : CStr}
    (h : split_name f.name = some (type_name, field_name)) :
    type_name = nested_type f ∧ (nested_type f).length < 64 := by
  obtain ⟨-, rfl, -⟩ := split_name_some h
  rw [split_name] at h
  split at h
  · rename_i hsplit
    exact ⟨rfl, hsplit.2.1⟩
  · cases h

theorem set_has_variable_told (i : ℕ) (b : Bool) :
    Triple (Stocked S) (set_has_variable i b) (fun _ => Stocked S) Told := by
  refine .modify fun p hp => ⟨?_, hp.fits⟩
  rw [← hp.structs]
  show inventory (p.temp_structs.elems.modify i _) = _
  rw [inventory, inventory]
  refine List.ext_getElem? fun j => ?_
  rw [List.getElem?_map, List.getElem?_map, List.getElem?_modify]
  cases p.temp_structs.elems[j]? with
  | none => rfl
  | some s =>
    show some (StructDef.name _, _) = some (s.name, s.fields.elems)
    split <;> rfl

variable {i : ℕ} {s_name : CStr} {f : Field} {x : Expansion}

theorem flatten_nested_told {count : ℕ} (hx : Grows x.fields)
    (hsmall : x.fields.count + count * (fields_named S (nested_type f)).length ≤ 2 ^ 31) :
    Triple (Stocked S) (flatten_nested i s_name f count x)
      (fun x' p => (Grows x'.fields ∧
        x'.fields.count = x.fields.count + count * (fields_named S (nested_type f)).length) ∧
        Stocked S p) Told := by
  refine .bind (or_free_ends told_heap_free _ (parse_nested_field_names_told (fun _ h => h.fits) _)) fun names =>
    .of_fact fun hnames => ?_
  obtain ⟨type_name, field_name⟩ := names
  obtain ⟨rfl, hlong⟩ := split_name_type hnames
  refine .bind (or_free_ends told_heap_free _ (require_struct_told _)) fun nested => .of_fact fun _ => ?_
  have hrest : Triple (Stocked S) (do
      let expanded ← expand_elements f (nested_type f) field_name x.offset nested.min_size count 0
        x.fields
      if nested.has_variable then set_has_variable i true
      return ({ fields := expanded
                offset := u32 (x.offset + nested.min_size * count)
                variable_seen := x.variable_seen || nested.has_variable } : Expansion))
      (fun x' p => (Grows x'.fields ∧
        x'.fields.count = x.fields.count + count * (fields_named S (nested_type f)).length) ∧
        Stocked S p) Told := by
    refine .bind (expand_elements_told (fun idx _ _ hsplit => ?_) count hx hsmall) fun expanded =>
      .of_fact fun hexpanded => ?_
    · rw [element_name_type hlong hsplit]
    · refine .ite (fun _ => .bind (set_has_variable_told _ _) fun _ => ?_) fun _ => ?_
      · exact .pure fun p hp => ⟨hexpanded, hp⟩
      · exact .pure fun p hp => ⟨hexpanded, hp⟩
  refine .ite (fun _ => .bind (Q := fun _ _ => False) (or_free_ends told_heap_free _ (tell (fun _ h => h.fits) _))
    fun _ _ hq => hq.elim) fun _ => hrest

theorem flatten_leaf_told (hx : Grows x.fields) (hsmall : x.fields.count + 1 ≤ 2 ^ 31) :
    Triple (Stocked S) (flatten_leaf i s_name f x)
      (fun x' p => (Grows x'.fields ∧ x'.fields.count = x.fields.count + 1) ∧ Stocked S p) Told := by
  refine .ite (fun _ => .bind (Q := fun _ _ => False) (or_free_ends told_heap_free _ (tell (fun _ h => h.fits) _))
    fun _ _ hq => hq.elim) fun _ => ?_
  refine .bind (Stocked.heapFree.reserve hx (by omega)) fun expanded => .of_fact ?_
  rintro ⟨helems, hroom⟩
  have hpush (src : Field) : (expanded.push src).count = x.fields.count + 1 := by
    rw [Table.count, Table.push_elems, List.length_append, helems]
    rfl
  refine .ite (fun _ => .bind (set_has_variable_told _ _) fun _ => ?_) fun _ => ?_
  · exact .pure fun p hp => ⟨⟨.push hroom _, hpush _⟩, hp⟩
  · exact .pure fun p hp => ⟨⟨.push hroom _, hpush _⟩, hp⟩

theorem flatten_field_told (hx : Grows x.fields) (hsmall : x.fields.count + spread_field S f ≤ 2 ^ 31) :
    Triple (Stocked S) (flatten_field i s_name f x)
      (fun x' p => (Grows x'.fields ∧ x'.fields.count = x.fields.count + spread_field S f) ∧
        Stocked S p) Told := by
  have herror {Q : Expansion → Parser → Prop} (text : String) {k : Unit → ParseM Expansion} :
      Triple (Stocked S) (or_free x.fields.ptr (parser_error text : ParseM Unit) >>= k) Q Told :=
    .bind (Q := fun _ _ => False) (or_free_ends told_heap_free _ (tell (fun _ h => h.fits) _)) fun _ _ hq => hq.elim
  refine .ite (fun _ => herror _) fun _ => .ite (fun _ => herror _) fun _ => ?_
  refine .ite (fun hnested => ?_) fun hleaf => ?_
  · rw [spread_field, if_pos hnested] at hsmall ⊢
    exact flatten_nested_told hx hsmall
  · rw [spread_field, if_neg hleaf] at hsmall ⊢
    exact flatten_leaf_told hx hsmall

theorem flatten_fields_told (fields : List Field) : ∀ {x : Expansion}, Grows x.fields →
    x.fields.count + spread S fields ≤ 2 ^ 31 →
    Triple (Stocked S) (flatten_fields i s_name fields x) (fun _ => Stocked S) Told := by
  induction fields with
  | nil => intro x _ _; exact .pure fun p hp => hp
  | cons f rest ih =>
    intro x hx hsmall
    have hsum : spread S (f :: rest) = spread_field S f + spread S rest := List.sum_cons
    refine .bind (flatten_field_told hx (by omega)) fun x' => .of_fact ?_
    rintro ⟨hgrows, hcount⟩
    exact ih hgrows (by omega)

/-- **One struct is laid out within its table.** -/
theorem flatten_struct_told {s : StructDef} (hshort : s.fields.count < 2 ^ 30)
    (hsmall : spread S s.fields.elems ≤ 2 ^ 31) :
    Triple (Stocked S) (flatten_struct i s)
      (fun _ p => p.temp_filters.count ≤ p.temp_filters.cap) Told := by
  refine .get_bind fun p hp => .bind (Q := fun _ => Stocked S) ?_ fun _ => ?_
  · rintro _ rfl
    exact Stocked.heapFree _ _ hp
  refine .bind (Stocked.heapFree.calloc _) fun expanded => .of_fact ?_
  rintro ⟨hnil, hcap⟩
  have hgrows : Grows expanded := by
    refine ⟨?_, by rw [Table.count, hnil]; exact Nat.zero_le _⟩
    rw [hcap]
    split
    · rw [u32_of_lt (by omega)]
      omega
    · exact Nat.zero_lt_succ _
  refine .bind (set_has_variable_told _ _) fun _ => .bind (Stocked.heapFree.consult _) fun _ => ?_
  have hzero : ({ fields := expanded } : Expansion).fields.count = 0 := by
    show expanded.elems.length = 0
    rw [hnil]
    rfl
  refine .bind (flatten_fields_told _ hgrows (by omega)) fun x => ?_
  refine .bind (Q := fun _ p => p.temp_filters.count ≤ p.temp_filters.cap) (.modify fun q hq => ?_)
    fun _ => .modify fun q hq => hq
  exact hq.fits

end Layout

/-- No struct that the pass comes to is laid out into more than `2 ^ 31` fields. -/
def Manageable (done : List Shape) : List Shape → Prop
  | [] => True
  | s :: todo =>
    spread ((done ++ s :: todo).map fun r => (r.name, r.fields)) s.fields ≤ 2 ^ 31 ∧
      ∀ s', layout_struct u32 done s todo = some s' → Manageable (done ++ [s']) todo

theorem flatten_from_told (todo : List StructDef) : ∀ (done : List StructDef) {p : Parser},
    p.temp_structs.elems = done ++ todo → p.temp_filters.count ≤ p.temp_filters.cap →
    (∀ s ∈ todo, s.fields.count < 2 ^ 30) →
    Manageable (done.map StructDef.shape) (todo.map StructDef.shape) →
    Triple (· = p) (flatten_from todo.length done.length) (fun _ _ => True) Told := by
  induction todo with
  | nil => intro done p _ _ _ _; exact .pure fun _ _ => trivial
  | cons s todo ih =>
    intro done p hp hfits hshort hmanageable
    obtain ⟨hspread, hrest⟩ := hmanageable
    refine .get_bind fun q hq => ?_
    subst hq
    have hfound : q.temp_structs.elems[done.length]? = some s := by
      rw [hp, List.getElem?_append_right le_rfl, Nat.sub_self]
      rfl
    rw [hfound]
    have hinventory : inventory q.temp_structs.elems
        = (done.map StructDef.shape ++ s.shape :: todo.map StructDef.shape).map
            fun r => (r.name, r.fields) := by
      rw [hp, inventory, ← List.map_cons, ← List.map_append, List.map_map]
      rfl
    have hone : Triple (· = q) (flatten_struct done.length s)
        (fun _ p => p.temp_filters.count ≤ p.temp_filters.cap) Told := by
      refine .before ?_ (flatten_struct_told (S := inventory q.temp_structs.elems)
        (hshort s List.mem_cons_self) ?_)
      · rintro _ rfl
        exact ⟨rfl, hfits⟩
      · rw [hinventory]
        exact hspread
    refine .bind hone.returning fun _ => ?_
    rintro r ⟨hreturned, hfits'⟩
    obtain ⟨s', hlayout, hr, -⟩ := flatten_struct_ok hp hreturned
    have helems : r.temp_structs.elems = (done ++ [s']) ++ todo := by
      rw [hr, List.append_assoc]
      rfl
    have hnext := ih (done ++ [s']) helems hfits' (fun t ht => hshort t (List.mem_cons_of_mem _ ht))
      (by rw [List.map_append]; exact hrest _ hlayout) r rfl
    rw [List.length_append] at hnext
    exact hnext

theorem flatten_structs_told (hfits : p.temp_filters.count ≤ p.temp_filters.cap)
    (hshort : ∀ s ∈ p.temp_structs.elems, s.fields.count < 2 ^ 30)
    (hmanageable : Manageable [] (shapes p)) :
    Triple (· = p) flatten_structs (fun _ _ => True) Told := by
  refine .get_bind fun q hq => .bind (Q := fun _ r => r = { q with heap := q.heap.consult q.proto.ptr }) ?_
    fun _ => .get_bind fun r hr => ?_
  · rintro _ rfl
    rfl
  · subst hq hr
    exact flatten_from_told q.temp_structs.elems [] rfl hfits hshort hmanageable

/-! ## Compiling -/

section Compile

variable {P : Parser → Prop}

theorem block_size_le (cond : FilterCondition) : block_size cond ≤ 3 * cond_weight cond := by
  rw [block_size, cond_weight]
  split <;> omega

theorem block_sizes_le (conds : List FilterCondition) :
    (conds.map block_size).sum ≤ 3 * (conds.map cond_weight).sum := by
  induction conds with
  | nil => exact le_rfl
  | cons cond rest ih =>
    rw [List.map_cons, List.map_cons, List.sum_cons, List.sum_cons]
    have hone := block_size_le cond
    omega

/-- **A filter is compiled within its program**: no size wraps, and the second
pass writes where the first one has counted. -/
theorem compile_filter_rule_told (hheap : HeapFree P)
    (hP : ∀ p, P p → p.temp_filters.count ≤ p.temp_filters.cap) {rule : TempFilterRule}
    (hsmall : rule_weight rule < 2 ^ 30) :
    Triple P (compile_filter_rule rule) (fun _ => P) Told := by
  refine .of_each fun p hp => ?_
  have hbound := block_sizes_le rule.conditions.elems
  rw [rule_weight] at hsmall
  have hends : Triple (fun q => P q ∧ q.temp_structs.elems = p.temp_structs.elems)
      (compile_filter_rule rule)
      (fun _ q => P q ∧ q.temp_structs.elems = p.temp_structs.elems) Told :=
    compile_filter_rule_ends (fun q h hq => ⟨hheap q h hq.1, hq.2⟩) (fun _ _ _ he => he)
      (fun _ hq => hq.2) (by rw [program_size]; omega)
      fun _ _ q hq => ⟨⟨_, rfl⟩, hP q hq.1⟩
  refine (hends.before (P := (· = p)) ?_).after fun _ q hq => hq.1
  rintro _ rfl
  exact ⟨hp, rfl⟩

theorem compile_rules_told (rules : List TempFilterRule) : ∀ {k : ℕ},
    (∀ rule ∈ rules, rule_weight rule < 2 ^ 30) → rules.length ≤ k →
    Triple (fun p => p.temp_filters.count + k ≤ p.temp_filters.cap) (compile_rules rules)
      (fun _ p => p.temp_filters.count ≤ p.temp_filters.cap) Told := by
  induction rules with
  | nil => intro k _ _; exact .pure fun p hp => le_trans (Nat.le_add_right _ _) hp
  | cons rule rest ih =>
    intro k hsmall hk
    rw [List.length_cons] at hk
    refine .bind (compile_filter_rule_told (fun p h hp => hp)
      (fun p hp => le_trans (Nat.le_add_right _ _) hp) (hsmall rule List.mem_cons_self)) fun filter => ?_
    refine .bind (Q := fun _ p => p.temp_filters.count + (k - 1) ≤ p.temp_filters.cap)
      (.modify fun p hp => ?_) fun _ =>
        ih (fun r hr => hsmall r (List.mem_cons_of_mem _ hr)) (by omega)
    show (p.temp_filters.elems ++ [filter]).length + (k - 1) ≤ p.temp_filters.cap
    rw [List.length_append, List.length_singleton, ← Table.count]
    omega

end Compile

/-! ## Whole texts -/

/-- Every write of the parse goes to an index below the capacity of its table:
the run ends in an error that the source reports, or returns, and the compiled
filters, whose number is never looked at, fit their table. -/
def InBounds (source : List Char) : Prop :=
  match parse_source (parser_init source) with
  | .ok _ p => p.temp_filters.count ≤ p.temp_filters.cap
  | .error e p => Told e p

/-- The text needs more of a table than `uint32_t` arithmetic can grow: it has
`2 ^ 30` tokens, or a struct of more than `2 ^ 31` fields once it is laid out. -/
def Vast (source : List Char) : Prop :=
  2 ^ 30 ≤ (lex source).1.length ∨ ¬ Manageable [] (declarations source)

theorem inBounds_iff {source : List Char} : InBounds source ↔
    Triple (· = parser_init source) parse_source
      (fun _ p => p.temp_filters.count ≤ p.temp_filters.cap) Told := by
  rw [InBounds]
  constructor
  · rintro h _ rfl
    split at h <;> simp_all
  · intro h
    have hrun := h _ rfl
    split <;> simp_all

theorem structs_cap {source : List Char} (h : ReflTransGen NextBlock (parser_init source) p) :
    p.temp_structs.cap = 16 := by
  induction h with
  | refl => rfl
  | tail _ hblock ih => rw [(parse_block_step hblock).sixteen.1, ih]

theorem told_of_few {source : List Char} (hvast : ¬ Vast source)
    (hfew : ¬ SeventeenthStruct source) : InBounds source := by
  obtain ⟨hshort, hmanageable⟩ := not_or.mp hvast
  rw [not_le] at hshort
  rw [not_not] at hmanageable
  have hinit := tidy_init source
  refine inBounds_iff.mpr (.bind (Q := fun m p => m = (lex source).1.length + 1 ∧ p = parser_init source)
    ?_ fun m => .of_fact ?_)
  · rintro _ rfl
    exact ⟨rfl, rfl⟩
  rintro rfl
  refine .bind (blocks_told (by omega) hfew .refl hinit (Nat.lt_succ_self _)).returning fun _ => ?_
  rintro p ⟨hblocks, hp⟩
  have hstructs : ∀ s ∈ p.temp_structs.elems, s.fields.count < 2 ^ 30 := fun s hs =>
    (hp.within.structs s hs).trans_lt hshort
  have hdeclared : shapes p = declarations source := by
    have hafter : after_blocks source = some p := returned_eq_some.mpr hblocks
    rw [declarations, hafter]
    rfl
  have hrest : Triple (· = p) (flatten_structs >>= fun _ => compile_filter_rules)
      (fun _ p => p.temp_filters.count ≤ p.temp_filters.cap) Told := by
    refine .bind (flatten_structs_told hp.left.fits hstructs
      (by rw [hdeclared]; exact hmanageable)).returning fun _ => ?_
    rintro q ⟨hflatten, -⟩
    have hframe := (flatten_structs_ok hflatten).2.frame
    have hfilters : q.temp_filters = p.temp_filters := by rw [hframe]; rfl
    have hrules : q.temp_filter_rules = p.temp_filter_rules := by rw [hframe]; rfl
    have hroom : q.temp_filters.count + 16 ≤ q.temp_filters.cap := by
      rw [hfilters, Table.count, hp.no_filters, hp.sixteen.2.1]
      exact le_rfl
    have hcompile : Triple (fun p => p.temp_filters.count + 16 ≤ p.temp_filters.cap)
        (compile_rules q.temp_filter_rules.elems)
        (fun _ p => p.temp_filters.count ≤ p.temp_filters.cap) Told := by
      refine compile_rules_told _ (fun rule hrule => ?_) ?_
      · rw [hrules] at hrule
        exact (hp.within.rules rule hrule).trans_lt hshort
      · rw [hrules]
        exact hp.within.counted.trans hp.sixteen.2.2.le
    have hall : Triple (· = q) compile_filter_rules
        (fun _ p => p.temp_filters.count ≤ p.temp_filters.cap) Told := by
      refine .get_bind fun r hr => .bind (Q := fun _ s => s.temp_filters = q.temp_filters ∧
        s.temp_filter_rules = q.temp_filter_rules) ?_ fun _ => .get_bind fun s hs => ?_
      · rintro _ rfl
        rw [hr]
        exact ⟨rfl, rfl⟩
      · rw [hs.2]
        refine .before ?_ hcompile
        rintro _ rfl
        rw [hs.1]
        exact hroom
    exact hall q rfl
  exact hrest p rfl

theorem overrun_of_seventeenth {source : List Char} (h : SeventeenthStruct source) :
    ¬ InBounds source := by
  obtain ⟨p, hsteps, hword, hfull⟩ := h
  have hcrowded : Crowded p := ⟨hword, by rw [structs_cap hsteps]; exact hfull⟩
  have hoverrun : Triple (· = parser_init source) parse_source (fun _ _ => False)
      (fun e _ => e = .overrun) := by
    refine .bind (Q := fun m p => m = (lex source).1.length + 1 ∧ p = parser_init source) ?_ fun m =>
      .of_fact ?_
    · rintro _ rfl
      exact ⟨rfl, rfl⟩
    · rintro rfl
      exact .bind (blocks_overrun hcrowded hsteps (tidy_init source).left.ends (Nat.lt_succ_self _))
        fun _ _ hq => hq.elim
  have hrun := hoverrun _ rfl
  rw [InBounds]
  cases hcase : parse_source (parser_init source) with
  | ok u q =>
    rw [hcase] at hrun
    exact hrun.elim
  | error e q =>
    rw [hcase] at hrun
    have he : e = .overrun := hrun
    rintro ⟨⟨e', htold⟩, -⟩
    rw [he] at htold
    cases htold

/-- **The parser stays within its tables exactly when the text comes to no
seventeenth struct**, in every text whose tables can grow as far as they must;
and a text that comes to one is never read within them. -/
theorem tables_hold (source : List Char) :
    (¬ Vast source → (InBounds source ↔ ¬ SeventeenthStruct source)) ∧
      (SeventeenthStruct source → ¬ InBounds source) :=
  ⟨fun hvast => ⟨fun h hmany => overrun_of_seventeenth hmany h, told_of_few hvast⟩,
    overrun_of_seventeenth⟩

/-- Seventeen structs without a field. -/
def seventeen_structs : List Char := (List.replicate 17 "S\x7b\x7d ".toList).flatten

def overran : Result Stop Parser Unit → Bool
  | .error .overrun _ => true
  | _ => false

theorem not_inBounds_of_overran {source : List Char}
    (h : overran (parse_source (parser_init source)) = true) : ¬ InBounds source := by
  intro hin
  rw [InBounds] at hin
  cases hcase : parse_source (parser_init source) with
  | ok u p =>
    rw [hcase] at h
    cases h
  | error e p =>
    rw [hcase] at h hin
    obtain ⟨⟨e', rfl⟩, -⟩ := hin
    cases h

/-- The last of them is written behind the sixteen entries of `temp_structs`. -/
theorem seventeen_structs_overrun : ¬ InBounds seventeen_structs := by
  have hover : overran (parse_source (parser_init seventeen_structs)) = true := by decide +kernel
  exact not_inBounds_of_overran hover

end RxNetCap.Pdef
