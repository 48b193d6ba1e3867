/-
A text that is accepted, phase by phase.

`pdef_parse_string` reads the blocks, lays out the structs, compiles the
filters, and hands the two tables to the protocol. This file names what each
phase leaves (`declarations`, `source_filters`, and the lists of the protocol)
and collects what is known of an accepted text (`Accepted`): the layout of its
structs, the programs of its filters, and the byte order of its tags.
-/
import RxNetCap.Pdef.FlattenCorrect
import RxNetCap.Pdef.Program

set_option autoImplicit false

namespace RxNetCap.Pdef

open RxNetCap.Ledger RxNetCap.ErrState Relation
open EStateM (Result)

/-! ## The phases -/

/-- The parser a program leaves, if it returns. -/
def returned (r : Result Stop Parser Unit) : Option Parser :=
  match r with
  | .ok () p => some p
  | .error _ _ => none

theorem returned_eq_some {r : Result Stop Parser Unit} {p : Parser} :
    returned r = some p ↔ r = .ok () p := by
  cases r with
  | ok u q => simp [returned]
  | error e q => simp [returned]

/-- The parser once all blocks are read. -/
def after_blocks (source : List Char) : Option Parser :=
  returned (parse_blocks ((parser_init source).toks.length + 1) (parser_init source))

/-- The parser once the structs are laid out. -/
def after_flatten (source : List Char) : Option Parser :=
  (after_blocks source).bind fun p => returned (flatten_structs p)

/-- The structs of a text, as they were declared. -/
def declarations (source : List Char) : List Shape := ((after_blocks source).map shapes).getD []

/-- The filters of a text, as they were written. -/
def source_filters (source : List Char) : List TempFilterRule :=
  ((after_blocks source).map (·.temp_filter_rules.elems)).getD []

/-- What reading the blocks, laying out the structs and compiling the filters
of an accepted text leave. -/
structure Phases (source : List Char) (proto : ProtocolDef) (p0 p1 p2 : Parser) : Prop where
  blocks : parse_blocks ((parser_init source).toks.length + 1) (parser_init source) = .ok () p0
  flatten : flatten_structs p0 = .ok () p1
  compile : compile_filter_rules p1 = .ok () p2
  result : { p2.proto with structs := some p2.temp_structs, filters := some p2.temp_filters } = proto

theorem accepted_phases_heap {source : List Char} {proto : ProtocolDef} {heap : Heap} :
    pdef_parse_string source = (.accepted proto, heap) ↔ ∃ p0 p1 p2,
      Phases source proto p0 p1 p2 ∧ cleanup_filter_rules p2.temp_filter_rules p2.heap = heap := by
  have hsource (p2 : Parser) : parse_source (parser_init source) = .ok () p2 ↔
      ∃ p0 p1, parse_blocks ((parser_init source).toks.length + 1) (parser_init source) = .ok () p0 ∧
        flatten_structs p0 = .ok () p1 ∧ compile_filter_rules p1 = .ok () p2 := by
    simp only [parse_source, bind_ok, turns_ok]
    constructor
    · rintro ⟨_, _, ⟨rfl, rfl⟩, _, p0, hblocks, _, p1, hflatten, hcompile⟩
      exact ⟨p0, p1, hblocks, hflatten, hcompile⟩
    · rintro ⟨p0, p1, hblocks, hflatten, hcompile⟩
      exact ⟨_, _, ⟨rfl, rfl⟩, (), p0, hblocks, (), p1, hflatten, hcompile⟩
  constructor
  · intro h
    cases hparse : parse_source (parser_init source) with
    | ok u p2 =>
      obtain ⟨p0, p1, hblocks, hflatten, hcompile⟩ := (hsource p2).mp hparse
      simp only [pdef_parse_string, hparse, Prod.mk.injEq, ParseResult.accepted.injEq] at h
      exact ⟨p0, p1, p2, ⟨hblocks, hflatten, hcompile, h.1⟩, h.2⟩
    | error e p2 =>
      cases e <;> simp [pdef_parse_string, hparse] at h
  · rintro ⟨p0, p1, p2, h, hheap⟩
    have hparse := (hsource p2).mpr ⟨p0, p1, h.blocks, h.flatten, h.compile⟩
    simp only [pdef_parse_string, hparse, h.result, hheap]

theorem accepted_phases {source : List Char} {proto : ProtocolDef} :
    (pdef_parse_string source).1 = .accepted proto ↔ ∃ p0 p1 p2, Phases source proto p0 p1 p2 := by
  constructor
  · intro h
    obtain ⟨p0, p1, p2, hphases, -⟩ := accepted_phases_heap.mp (Prod.ext h rfl)
    exact ⟨p0, p1, p2, hphases⟩
  · rintro ⟨p0, p1, p2, hphases⟩
    exact congrArg Prod.fst (accepted_phases_heap.mpr ⟨p0, p1, p2, hphases, rfl⟩)

/-! ## What reading the blocks keeps -/

/-- Of a parser that has read some blocks of a text. -/
structure Reading (p : Parser) : Prop where
  no_filters : p.temp_filters.elems = []
  no_result : p.proto.structs = none ∧ p.proto.filters = none
  unknown : p.proto.detected_endian = .UNKNOWN
  settled : SettledEndian p.proto
  conditions : ∀ rule ∈ p.temp_filter_rules.elems, ∀ c ∈ rule.conditions.elems, WellFormed c
  structs : ∀ s ∈ p.temp_structs.elems, ∃ e, ParsedStruct e s

theorem reading_init (source : List Char) : Reading (parser_init source) where
  no_filters := rfl
  no_result := ⟨rfl, rfl⟩
  unknown := rfl
  settled := rfl
  conditions := by simp [parser_init]
  structs := by simp [parser_init]

theorem BlockStep.reading {p q : Parser} (h : BlockStep p q) (hp : Reading p) : Reading q := by
  cases h.kind with
  | protocol first settings =>
    have hsettled := settings.settled hp.settled
    rw [settings.frame] at hsettled ⊢
    exact ⟨hp.no_filters, hp.no_result, hp.unknown, hsettled, hp.conditions, hp.structs⟩
  | constants entries adds =>
    rw [adds.frame]
    exact ⟨hp.no_filters, hp.no_result, hp.unknown, hp.settled, hp.conditions, hp.structs⟩
  | filter rule conditions frame _ =>
    rw [frame]
    refine ⟨hp.no_filters, hp.no_result, hp.unknown, hp.settled, ?_, hp.structs⟩
    intro r hr
    rcases List.mem_append.mp hr with hr | hr
    · exact hp.conditions r hr
    · rw [List.mem_singleton.mp hr]
      exact conditions
  | struct _ s parsed frame _ =>
    rw [frame]
    refine ⟨hp.no_filters, hp.no_result, hp.unknown, hp.settled, hp.conditions, ?_⟩
    intro r hr
    rcases List.mem_append.mp hr with hr | hr
    · exact hp.structs r hr
    · rw [List.mem_singleton.mp hr]
      exact ⟨_, parsed⟩

theorem reading_of_steps {p q : Parser} (h : ReflTransGen BlockStep p q) (hp : Reading p) :
    Reading q := by
  induction h with
  | refl => exact hp
  | tail _ hstep ih => exact hstep.reading ih

/-! ## An accepted text -/

/-- What is known of a text that is accepted as `proto`. -/
structure Accepted (source : List Char) (proto : ProtocolDef) : Prop where
  layout : layout u32 (declarations source) = some ((structs_of proto).map StructDef.shape)
  filters : Compiled (structs_of proto) (source_filters source) (rules_of proto)
  unknown : proto.detected_endian = .UNKNOWN
  settled : SettledEndian proto

theorem Phases.accepted {source : List Char} {proto : ProtocolDef} {p0 p1 p2 : Parser}
    (h : Phases source proto p0 p1 p2) : Accepted source proto := by
  have hblocks : after_blocks source = some p0 := returned_eq_some.mpr h.blocks
  have hreading : Reading p0 := reading_of_steps (parse_blocks_steps _ h.blocks).1 (reading_init source)
  obtain ⟨hlayout, hflat⟩ := flatten_structs_ok h.flatten
  obtain ⟨rules, hrules, hp2⟩ := compile_filter_rules_ok h.compile
  have hproto1 : p1.proto = p0.proto := by
    rw [hflat.frame]
    rfl
  have htemp1 : p1.temp_filter_rules = p0.temp_filter_rules := by
    rw [hflat.frame]
    rfl
  have hempty1 : p1.temp_filters.elems = [] := by
    rw [hflat.frame]
    exact hreading.no_filters
  have hstructs : structs_of proto = p1.temp_structs.elems := by
    rw [← h.result, hp2]
    rfl
  have hfilters : rules_of proto = rules := by
    rw [← h.result, hp2, rules_of]
    simp [hempty1]
  have hsettings : proto.detected_endian = p0.proto.detected_endian ∧
      proto.default_endian = p0.proto.default_endian ∧
      proto.endian_mode = p0.proto.endian_mode := by
    rw [← h.result, hp2, ← hproto1]
    exact ⟨rfl, rfl, rfl⟩
  refine ⟨?_, ?_, ?_, ?_⟩
  · rw [declarations, hblocks, hstructs]
    exact hlayout
  · rw [hstructs, hfilters, source_filters, hblocks]
    rw [htemp1] at hrules
    exact hrules
  · rw [hsettings.1]
    exact hreading.unknown
  · rw [SettledEndian, hsettings.2.1, hsettings.2.2]
    exact hreading.settled

/-- **What acceptance says.** -/
theorem accepted_of {source : List Char} {proto : ProtocolDef}
    (h : (pdef_parse_string source).1 = .accepted proto) : Accepted source proto := by
  obtain ⟨p0, p1, p2, hphases⟩ := accepted_phases.mp h
  exact hphases.accepted

/-- What a declaration is, of any text. -/
theorem declarations_parsed (source : List Char) :
    ∀ d ∈ declarations source, ∃ e s, ParsedStruct e s ∧ s.shape = d := by
  intro d hd
  cases hblocks : after_blocks source with
  | none => simp [declarations, hblocks] at hd
  | some p0 =>
    have hreading : Reading p0 := reading_of_steps
      (parse_blocks_steps _ (returned_eq_some.mp hblocks)).1 (reading_init source)
    have hd' : d ∈ shapes p0 := by simpa [declarations, hblocks] using hd
    obtain ⟨s, hs, rfl⟩ := List.mem_map.mp hd'
    obtain ⟨e, hparsed⟩ := hreading.structs s hs
    exact ⟨e, s, hparsed, rfl⟩

/-- Declarations carry no offset and no size yet. -/
theorem declarations_reduced (source : List Char) :
    (declarations source).map Shape.reduced = declarations source := by
  have hsame : ∀ d ∈ declarations source, d.reduced = d := by
    intro d hd
    obtain ⟨e, s, hparsed, rfl⟩ := declarations_parsed source d hd
    have hfields : s.fields.elems.map Field.reduced = s.fields.elems.map id := by
      refine List.map_congr_left fun f hf => ?_
      rw [Field.reduced, (hparsed.fields f hf).offset, u32_of_lt (by decide),
        ← (hparsed.fields f hf).offset]
      rfl
    rw [Shape.reduced]
    simp only [StructDef.shape, hfields, List.map_id, hparsed.min_size]
    rfl
  calc (declarations source).map Shape.reduced
      = (declarations source).map id := List.map_congr_left hsame
    _ = declarations source := List.map_id _

/-- **What the structs of an accepted text are**: the exact layout of its
declarations, its offsets and sizes modulo `2 ^ 32`. -/
theorem Accepted.exact_layout {source : List Char} {proto : ProtocolDef}
    (h : Accepted source proto) : ∃ exact, RxNetCap.Pdef.layout id (declarations source) = some exact ∧
      exact.map Shape.reduced = (structs_of proto).map StructDef.shape := by
  have hlayout := h.layout
  rw [layout_u32 (declarations_reduced source)] at hlayout
  exact Option.map_eq_some_iff.mp hlayout

/-! ## The byte order of the tags -/

/-- The text starts with its one `@protocol` block. -/
def ProtocolFirst (source : List Char) : Prop :=
  match (lex source).1 with
  | [] => False
  | t :: rest => t.type = .PROTOCOL ∧ ∀ t' ∈ rest, t'.type ≠ .PROTOCOL

instance (source : List Char) : Decidable (ProtocolFirst source) := by
  unfold ProtocolFirst
  split <;> infer_instance

/-- Of a parser behind the one `@protocol` block: no other is to come, and
every struct is tagged with the byte order of the protocol. -/
structure BehindProtocol (p : Parser) : Prop where
  no_protocol : ∀ t ∈ p.toks, t.type ≠ .PROTOCOL
  tagged : AllFields (fun f => f.endian = p.proto.default_endian) (shapes p)

theorem BlockStep.behindProtocol {p q : Parser} (h : BlockStep p q) (hp : BehindProtocol p) :
    BehindProtocol q := by
  have htoks : ∀ t ∈ q.toks, t.type ≠ .PROTOCOL := fun t ht =>
    hp.no_protocol t ((h.toks.trans (List.tail_suffix _)).subset ht)
  cases h.kind with
  | protocol first settings =>
    obtain ⟨t, ht, htype⟩ := first
    exact absurd htype (hp.no_protocol t (List.mem_of_mem_head? ht))
  | constants entries adds =>
    refine ⟨htoks, ?_⟩
    rw [adds.frame]
    exact hp.tagged
  | filter rule _ frame _ =>
    refine ⟨htoks, ?_⟩
    rw [frame]
    exact hp.tagged
  | struct _ s parsed frame _ =>
    refine ⟨htoks, ?_⟩
    have hshapes : shapes q = shapes p ++ [s.shape] := by
      rw [frame]
      simp [shapes]
    have hproto : q.proto = p.proto := by rw [frame]
    rw [hshapes, hproto]
    intro r hr f hf
    rcases List.mem_append.mp hr with hr | hr
    · exact hp.tagged r hr f hf
    · rw [List.mem_singleton.mp hr] at hf
      exact (parsed.fields f hf).endian

/-- The first block of such a text is the `@protocol` block. -/
theorem behindProtocol_first {source : List Char} (h : ProtocolFirst source) {q : Parser}
    (hstep : BlockStep (parser_init source) q) : BehindProtocol q := by
  unfold ProtocolFirst at h
  cases htoks : (lex source).1 with
  | nil =>
    rw [htoks] at h
    exact h.elim
  | cons t rest =>
    rw [htoks] at h
    have hinit : (parser_init source).toks = t :: rest := htoks
    have hno : ∀ t' ∈ q.toks, t'.type ≠ .PROTOCOL := by
      have hsuffix := hstep.toks
      rw [hinit] at hsuffix
      exact fun t' ht' => h.2 t' (hsuffix.subset ht')
    refine ⟨hno, ?_⟩
    cases hstep.kind with
    | protocol first settings =>
      rw [settings.frame]
      intro s hs
      cases hs
    | constants entries adds =>
      rw [adds.frame]
      intro s hs
      cases hs
    | filter rule _ frame _ =>
      rw [frame]
      intro s hs
      cases hs
    | struct first _ _ _ _ =>
      rw [Parser.current_token, hinit, List.headD_cons, h.1] at first
      cases first

theorem behindProtocol_of_steps {p q : Parser} (h : ReflTransGen BlockStep p q)
    (hp : BehindProtocol p) : BehindProtocol q := by
  induction h with
  | refl => exact hp
  | tail _ hstep ih => exact hstep.behindProtocol ih

/-- **Every field is tagged with the byte order of the protocol** in a text
whose one `@protocol` block comes first. -/
theorem fields_tagged {source : List Char} {proto : ProtocolDef}
    (h : (pdef_parse_string source).1 = .accepted proto) (hfirst : ProtocolFirst source) :
    ∀ s ∈ structs_of proto, ∀ f ∈ s.fields.elems, f.endian = proto.default_endian := by
  obtain ⟨p0, p1, p2, hphases⟩ := accepted_phases.mp h
  obtain ⟨hsteps, heof⟩ := parse_blocks_steps _ hphases.blocks
  have hbehind : BehindProtocol p0 := by
    rcases ReflTransGen.cases_head hsteps with heq | ⟨q, hstep, hrest⟩
    · -- a text without a block ends at once, and this one starts with a keyword
      rw [← heq, Parser.current_token] at heof
      unfold ProtocolFirst at hfirst
      cases htoks : (lex source).1 with
      | nil => rw [htoks] at hfirst; exact hfirst.elim
      | cons t rest =>
        have hinit : (parser_init source).toks = t :: rest := htoks
        rw [htoks] at hfirst
        rw [hinit, List.headD_cons, hfirst.1] at heof
        cases heof
    · exact behindProtocol_of_steps hrest (behindProtocol_first hfirst hstep)
  obtain ⟨hlayout, hflat⟩ := flatten_structs_ok hphases.flatten
  obtain ⟨rules, -, hp2⟩ := compile_filter_rules_ok hphases.compile
  have hproto : proto.default_endian = p0.proto.default_endian := by
    rw [← hphases.result, hp2, hflat.frame]
    rfl
  have hstructs : structs_of proto = p1.temp_structs.elems := by
    rw [← hphases.result, hp2]
    rfl
  rw [hproto, hstructs]
  intro s hs
  exact layout_keeps (fun f _ _ hf => hf) hlayout hbehind.tagged s.shape (List.mem_map_of_mem hs)

end RxNetCap.Pdef
