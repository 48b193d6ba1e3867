/-
What a parse owns, and what it releases.

The parser's run is followed with the ledger: through every block, through the
layout of every struct and the compilation of every filter, the parser owns
exactly what it holds (`held`). On the way out of an accepted text
`parser_cleanup` releases the parsed filters, and `protocol_free` then the
rest, each block once (`accepted_releases`).

The way out of a rejected text releases the protocol first and lets
`parser_cleanup` read the number of structs from it, so it consults a block
after its release whatever was wrong with the text (`rejected_consults`).
-/
import RxNetCap.Pdef.Phases

set_option autoImplicit false

namespace RxNetCap.Pdef

open RxNetCap.Ledger RxNetCap.ErrState Relation

/-! ## Blocks and structs -/

/-- A step that adds blocks to what is held. -/
theorem Keeps.of_adds {B : Multiset ℕ} {p q : Parser}
    (h : Transfers (held p) p.heap q.heap 0 B) (hq : (held q : Multiset ℕ) = B + held p) :
    Keeps p q := by
  have hlend := h.lend [] (held p) fun t ht => .inr ht
  rw [zero_add, ← hq] at hlend
  exact hlend

theorem BlockStep.keeps {p q : Parser} (h : BlockStep p q) : Keeps p q := by
  cases h.kind with
  | protocol _ settings =>
    refine .of_adds settings.heap ?_
    rw [settings.frame, zero_add]
    rfl
  | constants entries adds =>
    refine .of_adds adds.heap ?_
    rw [adds.frame, held_parts, held_parts]
    simp only [List.map_append, ← Multiset.coe_add]
    ac_rfl
  | filter rule _ frame heap =>
    refine .of_adds heap ?_
    rw [frame, held_parts, held_parts, rule_blocks_eq]
    simp only [Table.push_ptr, Table.push_elems, List.flatMap_append, List.flatMap_cons,
      List.flatMap_nil, List.append_nil, ← Multiset.coe_add]
    ac_rfl
  | struct _ s _ frame heap =>
    refine .of_adds heap ?_
    rw [frame, held_parts, held_parts]
    simp only [Table.push_ptr, Table.push_elems, List.map_append, List.map_cons, List.map_nil,
      ← Multiset.coe_add, Multiset.coe_singleton]
    ac_rfl

theorem keeps_of_steps {p q : Parser} (h : ReflTransGen BlockStep p q) : Keeps p q := by
  induction h with
  | refl => exact Transfers.refl
  | tail _ hstep ih => exact ih.trans hstep.keeps

/-! ## Filters -/

/-- Compiling a filter allocates its two programs; the two blocks of the first
pass come and go. -/
theorem compiled_heap_transfers {p : Parser} {temp_rule : TempFilterRule} {s : StructDef}
    (htemp : temp_rule ∈ p.temp_filter_rules.elems) (hs : s ∈ p.temp_structs.elems) :
    Transfers (held p) p.heap (compiled_heap p temp_rule s) 0
      ([p.heap.next + 1, p.heap.next + 3] : List ℕ) := by
  have hconsults : Transfers (held p) p.heap ((((p.heap.consult p.temp_filter_rules.ptr).consult
      temp_rule.conditions.ptr).consult p.temp_structs.ptr).consult s.fields.ptr) 0 0 :=
    ((Transfers.consult (temp_filter_rules_held p)).trans (.consult (conditions_held htemp))).trans
      ((Transfers.consult (temp_structs_held p)).trans (.consult (fields_held hs)))
  have hallocs : Transfers (held p) p.heap _ 0 ((p.heap.next + 3) ::ₘ (p.heap.next + 2) ::ₘ
      (p.heap.next + 1) ::ₘ p.heap.next ::ₘ (0 : Multiset ℕ)) :=
    ((hconsults.trans .malloc).trans .malloc).trans (Transfers.trans .malloc .malloc)
  have hswap : (p.heap.next + 3) ::ₘ (p.heap.next + 2) ::ₘ (p.heap.next + 1) ::ₘ
      p.heap.next ::ₘ (0 : Multiset ℕ)
      = p.heap.next ::ₘ (p.heap.next + 2) ::ₘ ([p.heap.next + 1, p.heap.next + 3] : List ℕ) := by
    rw [← Multiset.cons_coe, ← Multiset.cons_coe, Multiset.coe_nil]
    simp only [← Multiset.singleton_add]
    ac_rfl
  rw [hswap] at hallocs
  exact hallocs.trans (Transfers.trans .free .free)

theorem target_struct_mem {structs : List StructDef} {temp_rule : TempFilterRule} {s : StructDef}
    (h : target_struct structs temp_rule = some s) : s ∈ structs := by
  unfold target_struct at h
  cases hhead : temp_rule.conditions.elems.head? with
  | none => simp [hhead] at h
  | some cond =>
    simp only [hhead] at h
    exact List.mem_of_find?_eq_some h

theorem compile_rules_keeps (temp_rules : List TempFilterRule) : ∀ {p q : Parser} {u : Unit},
    (∀ t ∈ temp_rules, t ∈ p.temp_filter_rules.elems) →
    compile_rules temp_rules p = .ok u q → Keeps p q := by
  induction temp_rules with
  | nil =>
    intro p q u _ h
    rw [compile_rules, pure_ok] at h
    rw [h.2]
    exact Transfers.refl
  | cons temp_rule rest ih =>
    intro p q u hmem h
    simp only [compile_rules, bind_ok, modify_ok] at h
    obtain ⟨rule, p1, hrule, _, p2, hpush, hrest⟩ := h
    obtain ⟨s, bs, hto, rfl, hptr, hptr_le⟩ := compile_filter_rule_ok hrule
    have hheap := compiled_heap_transfers (hmem temp_rule List.mem_cons_self)
      (target_struct_mem hto.target)
    have hone : Keeps p p2 := by
      rw [← hpush]
      refine .of_adds hheap ?_
      rw [held_parts, held_parts]
      simp only [Table.push_ptr, Table.push_elems, List.flatMap_append, List.flatMap_cons,
        List.flatMap_nil, List.append_nil, ← Multiset.coe_add, code_blocks, hptr, hptr_le]
      ac_rfl
    refine hone.trans (ih (fun t ht => ?_) hrest)
    rw [← hpush]
    exact hmem t (List.mem_cons_of_mem _ ht)

theorem compile_filter_rules_keeps {p q : Parser} {u : Unit}
    (h : compile_filter_rules p = .ok u q) : Keeps p q := by
  simp only [compile_filter_rules, bind_ok, get_ok, consult_ok] at h
  obtain ⟨_, _, ⟨rfl, rfl⟩, _, _, rfl, _, _, ⟨rfl, rfl⟩, h⟩ := h
  have hquiet : Quiet p { p with heap := p.heap.consult p.proto.ptr } :=
    Moves.consult (proto_held p)
  exact hquiet.keeps.trans (compile_rules_keeps _ (fun t ht => ht) h)

/-! ## The way out of an accepted text -/

theorem owns_init (source : List Char) :
    Owns (parser_init source).heap (held (parser_init source)) := by
  have hown : Owns (parser_init source).heap (3 ::ₘ 2 ::ₘ 1 ::ₘ 0 ::ₘ 0) :=
    Owns.init.malloc.malloc.malloc.malloc
  have hheld : (held (parser_init source) : Multiset ℕ) = 3 ::ₘ 2 ::ₘ 1 ::ₘ 0 ::ₘ 0 := by
    have hlist : held (parser_init source) = [0, 1, 2, 3] := rfl
    rw [hlist]
    decide
  rw [hheld]
  exact hown

/-- Releasing an array and the blocks in it. -/
theorem free_array_owns {h : Heap} {ptr : ℕ} {inside : List ℕ} {m : Multiset ℕ}
    (ho : Owns h (ptr ::ₘ (inside + m))) :
    Owns (((h.consult ptr).freeAll inside).free ptr) m := by
  have hconsult := ho.consult (Multiset.mem_cons_self ptr _)
  rw [← Multiset.add_cons] at hconsult
  exact hconsult.freeAll.free

theorem free_constants_owns (entries : List ConstantEntry) : ∀ {h : Heap} {m : Multiset ℕ},
    Owns h ((entries.map ConstantEntry.ptr : List ℕ) + m) → Owns (free_constants entries h) m := by
  induction entries with
  | nil =>
    intro h m ho
    simpa [free_constants] using ho
  | cons entry rest ih =>
    intro h m ho
    rw [List.map_cons, ← Multiset.cons_coe, Multiset.cons_add] at ho
    exact ih (ho.consult (Multiset.mem_cons_self _ _)).free

/-- **An accepted text is released whole**: `parser_cleanup` and then
`protocol_free` release every block that was allocated, once. -/
theorem accepted_releases {source : List Char} {proto : ProtocolDef} {h : Heap}
    (hparse : pdef_parse_string source = (.accepted proto, h)) :
    Owns (protocol_free proto h) 0 := by
  obtain ⟨p0, p1, p2, hphases, rfl⟩ := accepted_phases_heap.mp hparse
  have hkeeps : Keeps (parser_init source) p2 :=
    ((keeps_of_steps (parse_blocks_steps _ hphases.blocks).1).trans
      (flatten_structs_ok hphases.flatten).2.keeps).trans (compile_filter_rules_keeps hphases.compile)
  have hown : Owns p2.heap (held p2 : Multiset ℕ) := by
    have hall := hkeeps 0 (by simp) (by rw [add_zero]; exact owns_init source)
    rwa [add_zero] at hall
  -- in the order of release: the parsed filters, the structs, the compiled
  -- filters, the constants, the protocol
  have horder : (held p2 : Multiset ℕ) = p2.temp_filter_rules.ptr
      ::ₘ ((p2.temp_filter_rules.elems.flatMap condition_blocks : List ℕ)
        + (p2.proto.ptr ::ₘ p2.temp_structs.ptr
          ::ₘ ((p2.temp_structs.elems.map (·.fields.ptr) : List ℕ)
            + (p2.temp_filters.ptr ::ₘ ((p2.temp_filters.elems.flatMap code_blocks : List ℕ)
              + ((p2.proto.constants.map ConstantEntry.ptr : List ℕ) + 0)))))) := by
    rw [held_parts]
    simp only [← Multiset.cons_coe, ← Multiset.singleton_add, Multiset.coe_nil]
    ac_rfl
  rw [horder] at hown
  have hrules := free_array_owns hown
  have hproto := hrules.consult (Multiset.mem_cons_self p2.proto.ptr _)
  rw [Multiset.cons_swap, ← Multiset.add_cons] at hproto
  have hstructs := free_array_owns hproto
  rw [Multiset.cons_swap, ← Multiset.add_cons] at hstructs
  have hfilters := free_array_owns hstructs
  rw [← Multiset.add_cons] at hfilters
  have hconstants := (free_constants_owns _ hfilters).free
  rw [← hphases.result]
  exact hconstants

/-! ## The way out of a rejected text -/

/-- The protocol is released last by `protocol_free` and read first by
`parser_cleanup`. -/
theorem cleanup_after_protocol_free (proto : ProtocolDef) (structs : Table StructDef)
    (filters : ℕ) (rules : Table TempFilterRule) (h : Heap) :
    ¬ Disciplined (cleanup_filter_rules rules
      ((cleanup_structs proto.ptr structs (protocol_free proto h)).free filters)).log := by
  have hfree : .free proto.ptr ∈ (protocol_free proto h).log := List.mem_cons_self
  refine not_disciplined_of_consult_after_free hfree ?_
  have hstructs : ((protocol_free proto h).consult proto.ptr).log
      <:+ (cleanup_structs proto.ptr structs (protocol_free proto h)).log :=
    ((Heap.suffix_consult _ _).trans (Heap.suffix_freeAll _ _)).trans (Heap.suffix_free _ _)
  have hrules (g : Heap) : g.log <:+ (cleanup_filter_rules rules g).log :=
    ((Heap.suffix_consult _ _).trans (Heap.suffix_freeAll _ _)).trans (Heap.suffix_free _ _)
  exact (hstructs.trans (Heap.suffix_free _ _)).trans (hrules _)

/-- A rejected text: a block was consulted after its release. -/
theorem rejected_consults {source : List Char} {error_msg : CStr} {h : Heap}
    (hparse : pdef_parse_string source = (.rejected error_msg, h)) : ¬ Disciplined h.log := by
  unfold pdef_parse_string at hparse
  split at hparse
  · cases hparse
  · cases hparse
    exact cleanup_after_protocol_free _ _ _ _ _
  · cases hparse

/-! ## Every parse -/

/-- Every block of the log was released once, and nothing was touched after
its release. -/
def ReleasesAll (log : List Event) : Prop := Disciplined log ∧ ReleasedOnce log

/-- The call released what it allocated: by itself when it returns no protocol,
and with `protocol_free` of the protocol when it returns one. A call that runs
over a table has no defined outcome and releases nothing for sure. -/
def ParseReleases (call : ParseResult × Heap) : Prop :=
  match call with
  | (.accepted proto, h) => ReleasesAll (protocol_free proto h).log
  | (.rejected _, h) => ReleasesAll h.log
  | (.undefined, _) => False

/-- **A parse releases what it allocated exactly when it accepts its text.** -/
theorem parse_releases_iff (source : List Char) :
    ParseReleases (pdef_parse_string source) ↔
      ∃ proto, (pdef_parse_string source).1 = .accepted proto := by
  cases hparse : pdef_parse_string source with
  | mk result heap =>
  cases result with
  | accepted proto =>
    have hown := accepted_releases hparse
    exact ⟨fun _ => ⟨proto, rfl⟩, fun _ => ⟨hown.disciplined, hown.released_once⟩⟩
  | rejected error_msg =>
    have hnot := rejected_consults hparse
    constructor
    · intro h
      exact absurd h.1 hnot
    · rintro ⟨proto, h⟩
      cases h
  | undefined =>
    constructor
    · intro h
      exact h.elim
    · rintro ⟨proto, h⟩
      cases h

/-- A text that is no PDEF. -/
def stray_text : List Char := "\x7d".toList

def ParseResult.is_rejected : ParseResult → Bool
  | .rejected _ => true
  | _ => false

/-- It is rejected, and a block is consulted after its release. -/
theorem stray_text_not_released : (pdef_parse_string stray_text).1.is_rejected = true ∧
    ¬ ParseReleases (pdef_parse_string stray_text) := by
  have hrejected : (pdef_parse_string stray_text).1.is_rejected = true := by decide +kernel
  refine ⟨hrejected, ?_⟩
  cases hparse : pdef_parse_string stray_text with
  | mk result heap =>
  rw [hparse] at hrejected
  cases result with
  | accepted proto => cases hrejected
  | undefined => cases hrejected
  | rejected error_msg =>
    intro h
    exact rejected_consults hparse h.1

end RxNetCap.Pdef
