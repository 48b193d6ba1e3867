/-
`packet_filter_match` on plain filters, in a fixed byte order.

The filters are tried in order, and the first answer that is not "no" is the
answer (`first_answer`). With the programs replaced by what they read, the
matching says whether some filter holds, unless a filter before it reads past
the end of the packet (`first_answer_readings`).

Two questions are settled with this. Does the matching decode fields in the
byte order the text declares? It decodes big-endian, whatever is declared
(`match_declared_order_iff`): the tags of a little-endian text make `bytecode`
a little-endian program, and the little-endian mode then runs the swapped one.
And does it accept what `execute_filter` accepts? Only `execute_filter` asks
for the size of the struct (`match_execute_filter_iff`).
-/
import RxNetCap.Runtime.Filters

set_option autoImplicit false

namespace RxNetCap.Runtime

open RxNetCap.Pdef

/-! ## The first answer -/

/-- The first answer that is not a clean "no". -/
def first_answer : List ExecResult → ExecResult
  | [] => .returns false
  | .returns false :: rest => first_answer rest
  | r :: _ => r

/-- The program a fixed byte order runs. -/
def fixed_code (e : Endian) (rule : FilterRule) : List Instruction :=
  match e with
  | .BIG => code_be rule
  | .LITTLE => code_le rule

/-- The mode that the declaration of a byte order sets. -/
def declared_mode : Endian → EndianMode
  | .BIG => .BIG
  | .LITTLE => .LITTLE

theorem match_rules_plain {e : Endian} {proto : ProtocolDef} (packet : Packet)
    (hmode : proto.endian_mode = declared_mode e) (rules : List FilterRule)
    (hplain : ∀ rule ∈ rules, rule.sliding_window = false) :
    match_rules packet rules proto
      = (first_answer (rules.map fun rule => execute_bytecode packet (fixed_code e rule)), proto) := by
  induction rules with
  | nil => rfl
  | cons rule rest ih =>
    have hone : match_rule packet rule proto
        = (execute_bytecode packet (fixed_code e rule), proto) := by
      rw [match_rule, if_neg (by simp [hplain rule List.mem_cons_self]), try_match_with_endian,
        hmode]
      cases e <;> rfl
    have hrest := ih fun r hr => hplain r (List.mem_cons_of_mem rule hr)
    rw [match_rules, hone, List.map_cons]
    cases hexec : execute_bytecode packet (fixed_code e rule) with
    | returns b =>
      cases b with
      | false => exact hrest
      | true => rfl
    | out_of_bounds => rfl
    | out_of_turns => rfl

/-! ## Filters, read directly -/

/-- Some filter, tried before one that holds, is read past the packet. -/
def ReachesOutside (order : Order) : List (List Bound) → Packet → Prop
  | [], _ => False
  | bs :: rest, packet =>
    ReadsOutside order bs packet ∨ (¬ AllHold order bs packet ∧ ReachesOutside order rest packet)

instance ReachesOutside.decidable (order : Order) :
    (filters : List (List Bound)) → (packet : Packet) →
      Decidable (ReachesOutside order filters packet)
  | [], _ => inferInstanceAs (Decidable False)
  | _ :: rest, packet =>
    have := ReachesOutside.decidable order rest packet
    inferInstanceAs (Decidable (_ ∨ _))

/-- Some filter holds. -/
def SomeHolds (order : Order) (filters : List (List Bound)) (packet : Packet) : Prop :=
  ∃ bs ∈ filters, AllHold order bs packet

instance (order : Order) (filters : List (List Bound)) (packet : Packet) :
    Decidable (SomeHolds order filters packet) :=
  inferInstanceAs (Decidable (∃ bs ∈ filters, _))

/-- A filter that holds is read inside the packet. -/
theorem not_readsOutside_of_allHold {order : Order} {bs : List Bound} {packet : Packet}
    (h : AllHold order bs packet) : ¬ ReadsOutside order bs packet := by
  refine not_readsOutside_of_fits fun b hb => ?_
  exact lt_of_le_of_lt (h b hb).1 packet.len_lt

theorem first_answer_readings (order : Order) (packet : Packet) (filters : List (List Bound)) :
    first_answer (filters.map fun bs => direct_reading order bs packet) =
      if ReachesOutside order filters packet then .out_of_bounds
      else .returns (decide (SomeHolds order filters packet)) := by
  induction filters with
  | nil => simp [first_answer, ReachesOutside, SomeHolds]
  | cons bs rest ih =>
    have hsome : SomeHolds order (bs :: rest) packet ↔
        AllHold order bs packet ∨ SomeHolds order rest packet := by
      simp [SomeHolds]
    rw [List.map_cons, direct_reading_eq]
    by_cases hout : ReadsOutside order bs packet
    · rw [if_pos hout, if_pos (show ReachesOutside order (bs :: rest) packet from .inl hout)]
      rfl
    · rw [if_neg hout]
      by_cases hhold : AllHold order bs packet
      · have hin : ¬ ReachesOutside order (bs :: rest) packet := by
          rintro (h | ⟨h, -⟩)
          · exact hout h
          · exact h hhold
        rw [if_neg hin, decide_eq_true hhold, decide_eq_true (hsome.mpr (.inl hhold))]
        rfl
      · have hreach : ReachesOutside order (bs :: rest) packet ↔
            ReachesOutside order rest packet := by
          simp [ReachesOutside, hout, hhold]
        have hsome' : SomeHolds order (bs :: rest) packet ↔ SomeHolds order rest packet := by
          rw [hsome]
          exact or_iff_right hhold
        rw [decide_eq_false hhold]
        simp only [hreach, hsome']
        exact ih

/-- The byte order of the fields that are read is all that matters of an order. -/
theorem direct_reading_congr {order order' : Order} {bs : List Bound} (packet : Packet)
    (h : ∀ b ∈ bs, order b.1 = order' b.1) :
    direct_reading order bs packet = direct_reading order' bs packet := by
  induction bs with
  | nil => rfl
  | cons b rest ih =>
    rw [direct_reading, direct_reading, h b List.mem_cons_self,
      ih fun c hc => h c (List.mem_cons_of_mem b hc)]

/-! ## The filters of a text -/

/-- The filters of an accepted text, as conditions on the fields of its
structs. -/
def conditions_of (source : List Char) (proto : ProtocolDef) : List (List Bound) :=
  (source_filters source).map (filter_conditions (structs_of proto))

theorem mem_bind_conditions {s : StructDef} {conds : List FilterCondition} :
    ∀ {bs : List Bound}, bind_conditions s conds = some bs → ∀ b ∈ bs, b.1 ∈ s.fields.elems := by
  induction conds with
  | nil => intro bs h; cases h; simp
  | cons cond rest ih =>
    intro bs h b hb
    simp only [bind_conditions, List.mapM_cons, Option.bind_eq_bind, Option.bind_eq_some_iff,
      Option.map_eq_some_iff, Option.pure_def, Option.some.injEq] at h
    obtain ⟨bound, ⟨field, hfield, rfl⟩, bs', hbs', rfl⟩ := h
    rcases List.mem_cons.mp hb with rfl | hb
    · exact List.mem_of_find?_eq_some hfield
    · exact ih hbs' b hb

/-- The fields of a filter are fields of the structs. -/
theorem mem_filter_conditions {structs : List StructDef} {temp_rule : TempFilterRule} {b : Bound}
    (hb : b ∈ filter_conditions structs temp_rule) : ∃ s ∈ structs, b.1 ∈ s.fields.elems := by
  unfold filter_conditions at hb
  cases htarget : target_struct structs temp_rule with
  | none => simp [htarget] at hb
  | some s =>
    cases hbind : bind_conditions s temp_rule.conditions.elems with
    | none => simp [htarget, hbind] at hb
    | some bs =>
      simp only [htarget, hbind, Option.bind_some, Option.getD_some] at hb
      refine ⟨s, ?_, mem_bind_conditions hbind b hb⟩
      unfold target_struct at htarget
      cases hhead : temp_rule.conditions.elems.head? with
      | none => simp [hhead] at htarget
      | some cond =>
        simp only [hhead] at htarget
        exact List.mem_of_find?_eq_some htarget

section Compiled

variable {structs : List StructDef} {temp_rules : List TempFilterRule} {rules : List FilterRule}

/-- The order in which a fixed mode reads: of the tags, or against them. -/
def fixed_order : Endian → Order
  | .BIG => tagged
  | .LITTLE => untagged

theorem readings_of_compiled (h : Compiled structs temp_rules rules) (e : Endian)
    (packet : Packet) :
    rules.map (fun rule => execute_bytecode packet (fixed_code e rule))
      = (temp_rules.map (filter_conditions structs)).map fun bs =>
          direct_reading (fixed_order e) bs packet := by
  induction h with
  | nil => rfl
  | cons hto _ ih =>
    obtain ⟨s, bs, hto⟩ := hto
    rw [List.map_cons, ih, List.map_cons, List.map_cons, hto.conditions]
    cases e with
    | BIG => rw [fixed_code, execute_code_be hto]; rfl
    | LITTLE => rw [fixed_code, execute_code_le hto]; rfl

theorem plain_of_compiled (h : Compiled structs temp_rules rules)
    (hplain : ∀ t ∈ temp_rules, t.sliding_window = false) :
    ∀ rule ∈ rules, rule.sliding_window = false := by
  induction h with
  | nil => simp
  | cons hto _ ih =>
    obtain ⟨s, bs, hto⟩ := hto
    intro rule hrule
    rcases List.mem_cons.mp hrule with rfl | hrule
    · rw [hto.sliding_window]
      exact hplain _ List.mem_cons_self
    · exact ih (fun t ht => hplain t (List.mem_cons_of_mem _ ht)) rule hrule

end Compiled

/-- **Matching with plain filters in a fixed byte order.** -/
theorem match_fixed {source : List Char} {proto : ProtocolDef}
    (h : (pdef_parse_string source).1 = .accepted proto) {e : Endian}
    (hmode : proto.endian_mode = declared_mode e)
    (hplain : ∀ t ∈ source_filters source, t.sliding_window = false) (packet : Packet) (port : ℕ) :
    (packet_filter_match packet port proto).1 =
      if ReachesOutside (fixed_order e) (conditions_of source proto) packet then .out_of_bounds
      else .returns (decide (SomeHolds (fixed_order e) (conditions_of source proto) packet)) := by
  have haccepted := accepted_of h
  rw [packet_filter_match, match_rules_plain packet hmode _
    (plain_of_compiled haccepted.filters hplain), readings_of_compiled haccepted.filters,
    ← first_answer_readings]
  rfl

/-! ## The declared byte order -/

/-- Read every field in one order. -/
def read_as (e : Endian) : Order := fun _ => e

/-- Whatever byte order a text declares, its fields are read big-endian: a
little-endian text tags them `LITTLE`, and its mode then runs the program with
the opcodes swapped. -/
theorem match_reads_big {source : List Char} {proto : ProtocolDef}
    (h : (pdef_parse_string source).1 = .accepted proto) (hfirst : ProtocolFirst source)
    {e : Endian} (hmode : proto.endian_mode = declared_mode e)
    (hplain : ∀ t ∈ source_filters source, t.sliding_window = false) (packet : Packet) (port : ℕ) :
    (packet_filter_match packet port proto).1 =
      if ReachesOutside (read_as .BIG) (conditions_of source proto) packet then .out_of_bounds
      else .returns (decide (SomeHolds (read_as .BIG) (conditions_of source proto) packet)) := by
  have haccepted := accepted_of h
  have htag : proto.default_endian = e := by
    rw [haccepted.settled, hmode]
    cases e <;> rfl
  have horder : ∀ bs ∈ conditions_of source proto, ∀ b ∈ bs,
      fixed_order e b.1 = read_as .BIG b.1 := by
    intro bs hbs b hb
    obtain ⟨t, -, rfl⟩ := List.mem_map.mp hbs
    obtain ⟨s, hs, hf⟩ := mem_filter_conditions hb
    have hendian := fields_tagged h hfirst s hs b.1 hf
    rw [htag] at hendian
    cases e with
    | BIG => exact hendian
    | LITTLE => exact congrArg flip hendian
  have hreadings : (conditions_of source proto).map (fun bs =>
        direct_reading (fixed_order e) bs packet)
      = (conditions_of source proto).map fun bs => direct_reading (read_as .BIG) bs packet :=
    List.map_congr_left fun bs hbs => direct_reading_congr packet (horder bs hbs)
  rw [match_fixed h hmode hplain, ← first_answer_readings, hreadings, first_answer_readings]

/-- A little-endian text with one 16-bit field. -/
def little_text : List Char :=
  "@protocol { endian = little } H { uint16 x; } @filter f { x = 1; }".toList

set_option maxRecDepth 100000 in
theorem little_text_declares : ∃ proto ∈ (pdef_parse_string little_text).1.protocol?,
    ProtocolFirst little_text ∧ proto.endian_mode = declared_mode .LITTLE ∧
      ∀ t ∈ source_filters little_text, t.sliding_window = false := by
  decide +kernel

/-- `execute_filter` asks for the size of the struct first. -/
theorem execute_filter_true {structs : List StructDef} {temp_rule : TempFilterRule}
    {s : StructDef} {bs : List Bound} {rule : FilterRule}
    (h : CompiledTo structs temp_rule s bs rule) (packet : Packet) :
    execute_filter packet rule = .returns true ↔
      s.min_size ≤ packet.len ∧ AllHold tagged bs packet := by
  rw [execute_filter, h.min_packet_size, execute_compiled h, direct_reading_eq]
  by_cases hshort : packet.len < s.min_size
  · rw [if_pos hshort]
    simp only [ExecResult.returns.injEq, Bool.false_eq_true, false_iff, not_and]
    intro hle
    omega
  · rw [if_neg hshort]
    by_cases hout : ReadsOutside tagged bs packet
    · rw [if_pos hout]
      simp only [reduceCtorEq, false_iff, not_and]
      intro _ hall
      exact not_readsOutside_of_allHold hall hout
    · rw [if_neg hout, ExecResult.returns.injEq, decide_eq_true_iff]
      exact ⟨fun hall => ⟨not_lt.mp hshort, hall⟩, And.right⟩

/-- The filter holds of a packet as long as the struct it is about. -/
def HoldsInFull (structs : List StructDef) (packet : Packet) (temp_rule : TempFilterRule) : Prop :=
  AllHold tagged (filter_conditions structs temp_rule) packet ∧
    ∃ s ∈ target_struct structs temp_rule, s.min_size ≤ packet.len

instance (structs : List StructDef) (packet : Packet) (temp_rule : TempFilterRule) :
    Decidable (HoldsInFull structs packet temp_rule) :=
  inferInstanceAs (Decidable (_ ∧ _))

theorem execute_filter_some {structs : List StructDef} {temp_rules : List TempFilterRule}
    {rules : List FilterRule} (h : Compiled structs temp_rules rules) (packet : Packet) :
    (∃ rule ∈ rules, execute_filter packet rule = .returns true) ↔
      ∃ t ∈ temp_rules, HoldsInFull structs packet t := by
  induction h with
  | nil => simp
  | cons hto _ ih =>
    obtain ⟨s, bs, hto⟩ := hto
    have hone := execute_filter_true hto packet
    rw [List.exists_mem_cons_iff, List.exists_mem_cons_iff, ih, hone, HoldsInFull, hto.conditions,
      hto.target]
    simp [and_comm]

/-- **When matching accepts what `execute_filter` accepts.** In a big-endian
text without sliding filters it does exactly when no filter is read past the
packet and, if some filter holds, one holds of a packet as long as its struct. -/
theorem match_execute_filter_iff {source : List Char} {proto : ProtocolDef}
    (h : (pdef_parse_string source).1 = .accepted proto) (hmode : proto.endian_mode = .BIG)
    (hplain : ∀ t ∈ source_filters source, t.sliding_window = false) (packet : Packet) (port : ℕ) :
    (packet_filter_match packet port proto).1
        = .returns (decide (∃ rule ∈ rules_of proto, execute_filter packet rule = .returns true)) ↔
      ¬ ReachesOutside tagged (conditions_of source proto) packet ∧
        (SomeHolds tagged (conditions_of source proto) packet →
          ∃ t ∈ source_filters source, HoldsInFull (structs_of proto) packet t) := by
  have hfixed := match_fixed h (e := .BIG) hmode hplain packet port
  have hsome := execute_filter_some (accepted_of h).filters packet
  rw [hfixed, fixed_order]
  simp only [hsome]
  by_cases hout : ReachesOutside tagged (conditions_of source proto) packet
  · rw [if_pos hout]
    simp [hout]
  · rw [if_neg hout, ExecResult.returns.injEq, decide_eq_decide]
    -- a filter that holds in full holds
    have hfull : (∃ t ∈ source_filters source, HoldsInFull (structs_of proto) packet t) →
        SomeHolds tagged (conditions_of source proto) packet := by
      rintro ⟨t, ht, hall, -⟩
      exact ⟨_, List.mem_map_of_mem ht, hall⟩
    constructor
    · intro hiff
      exact ⟨hout, hiff.mp⟩
    · rintro ⟨-, himp⟩
      exact ⟨himp, hfull⟩

/-- A text whose filter looks at the first of two bytes. -/
def two_byte_text : List Char :=
  "@protocol { endian = big } H { uint8 a; uint8 b; } @filter f { a = 1; }".toList

set_option maxRecDepth 100000 in
/-- A packet of the first byte alone is matched, and no rule executes on it. -/
theorem two_byte_text_matches_short :
    ∃ proto ∈ (pdef_parse_string two_byte_text).1.protocol?,
      proto.endian_mode = .BIG ∧
      (∀ t ∈ source_filters two_byte_text, t.sliding_window = false) ∧
      (packet_filter_match ⟨[1], by decide⟩ 0 proto).1 = .returns true ∧
      ¬ ∃ rule ∈ rules_of proto, execute_filter ⟨[1], by decide⟩ rule = .returns true := by
  decide +kernel

set_option maxRecDepth 100000 in
theorem two_byte_text_declares : ∃ proto ∈ (pdef_parse_string two_byte_text).1.protocol?,
    proto.endian_mode = .BIG ∧
      ∀ t ∈ source_filters two_byte_text, t.sliding_window = false := by
  decide +kernel

theorem two_byte_text_execute_filter_iff : ∃ proto,
    (pdef_parse_string two_byte_text).1 = .accepted proto ∧
      ((packet_filter_match ⟨[1, 2], by decide⟩ 0 proto).1 = .returns (decide
          (∃ rule ∈ rules_of proto, execute_filter ⟨[1, 2], by decide⟩ rule = .returns true)) ↔
        ¬ ReachesOutside tagged (conditions_of two_byte_text proto) ⟨[1, 2], by decide⟩ ∧
          (SomeHolds tagged (conditions_of two_byte_text proto) ⟨[1, 2], by decide⟩ →
            ∃ t ∈ source_filters two_byte_text,
              HoldsInFull (structs_of proto) ⟨[1, 2], by decide⟩ t)) := by
  obtain ⟨proto, hproto, hmode, hplain⟩ := two_byte_text_declares
  have h := ParseResult.protocol?_eq_some.mp hproto
  exact ⟨proto, h, match_execute_filter_iff h hmode hplain _ 0⟩

end RxNetCap.Runtime
