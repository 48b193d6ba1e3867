/-
How automatic mode settles the byte order.

In automatic mode a call of `packet_filter_match` may store the byte order it
matched with, in the middle of its loops over filters and offsets. `Learns`
says what such a step may do: a clean "no" changes nothing, and a "yes" leaves
a byte order that was unknown, or already the stored one, under which the
candidate matched. It holds of one program, and is carried through the offsets
of a sliding filter and the filters of a protocol, to a whole call and to runs
of calls.
-/
import RxNetCap.Runtime.Matching

set_option autoImplicit false

namespace RxNetCap.Runtime

open RxNetCap.Pdef

/-! ## One call -/

/-- What a step from the protocol `proto` may do to it. `Fits d` says that the
step's candidate matches under byte order `d`. -/
structure Learns (Fits : EndianType → Prop) (proto : ProtocolDef) (m : Match) : Prop where
  no : m.1 = .returns false → m.2 = proto
  yes : m.1 = .returns true → ∃ d, d ≠ .UNKNOWN ∧ Fits d ∧
    m.2 = { proto with detected_endian := d } ∧
    (proto.detected_endian ≠ .UNKNOWN → d = proto.detected_endian)

namespace Learns

variable {Fits Fits' : EndianType → Prop} {proto : ProtocolDef} {m : Match}

theorem mono (h : Learns Fits proto m) (hsub : ∀ d, Fits d → Fits' d) : Learns Fits' proto m where
  no := h.no
  yes := by
    intro hm
    obtain ⟨d, hd, hfits, hrest⟩ := h.yes hm
    exact ⟨d, hd, hsub d hfits, hrest⟩

/-- A candidate that says "no" hands on the protocol as it was. -/
theorem orElse {next : ProtocolDef → Match} (h : Learns Fits proto m)
    (hnext : Learns Fits' proto (next proto)) :
    Learns (fun d => Fits d ∨ Fits' d) proto (m.orElse next) := by
  obtain ⟨r, proto'⟩ := m
  by_cases hr : r = .returns false
  · subst hr
    have hsame : proto' = proto := h.no rfl
    rw [hsame]
    exact hnext.mono fun d => .inr
  · have helse : Match.orElse (r, proto') next = (r, proto') := by
      unfold Match.orElse
      split
      · next heq => cases heq; exact absurd rfl hr
      · rfl
    rw [helse]
    exact h.mono fun d => .inl

theorem no_match (proto : ProtocolDef) : Learns Fits proto (.returns false, proto) where
  no := fun _ => rfl
  yes := by
    intro h
    cases h

/-- Running a program of a byte order that is already settled. -/
theorem settled {r : ExecResult} (hd : proto.detected_endian ≠ .UNKNOWN)
    (hfits : r = .returns true → Fits proto.detected_endian) : Learns Fits proto (r, proto) where
  no := fun _ => rfl
  yes := fun h => ⟨proto.detected_endian, hd, hfits h, rfl, fun _ => rfl⟩

end Learns

/-- The program of a rule for a byte order. -/
def code_for (d : EndianType) (rule : FilterRule) : List Instruction :=
  match d with
  | .LITTLE => code_le rule
  | _ => code_be rule

theorem try_and_learn_learns (packet : Packet) (code : List Instruction) {order : EndianType}
    {proto : ProtocolDef} (horder : order ≠ .UNKNOWN) (hunknown : proto.detected_endian = .UNKNOWN) :
    Learns (fun d => d = order ∧ execute_bytecode packet code = .returns true) proto
      (try_and_learn packet code order proto) := by
  unfold try_and_learn
  split
  · next hexec =>
    refine ⟨fun h => (by cases h), fun _ => ⟨order, horder, ⟨rfl, hexec⟩, ?_, ?_⟩⟩
    · rw [learn_endian, if_pos hunknown]
    · exact fun hd => absurd hunknown hd
  · next hexec =>
    exact ⟨fun _ => rfl, fun h => absurd h hexec⟩

/-- One rule at one place. -/
theorem try_match_learns {packet : Packet} {rule : FilterRule} {proto : ProtocolDef}
    (hauto : proto.endian_mode = .AUTO) :
    Learns (fun d => execute_bytecode packet (code_for d rule) = .returns true) proto
      (try_match_with_endian packet rule proto) := by
  rw [try_match_with_endian, hauto]
  cases hd : proto.detected_endian with
  | BIG => exact .settled (by simp [hd]) (by simp [hd, code_for])
  | LITTLE => exact .settled (by simp [hd]) (by simp [hd, code_for])
  | UNKNOWN =>
    have hbig := try_and_learn_learns packet (code_be rule) (show EndianType.BIG ≠ .UNKNOWN by decide) hd
    have hlittle := try_and_learn_learns packet (code_le rule)
      (show EndianType.LITTLE ≠ .UNKNOWN by decide) hd
    refine (hbig.orElse hlittle).mono fun d => ?_
    rintro (⟨rfl, h⟩ | ⟨rfl, h⟩)
    · exact h
    · exact h

/-- The program of a rule for `d` returns true on the packet, or for a sliding
filter on what is left of it from some offset that is tried. -/
def RuleMatches (d : EndianType) (packet : Packet) (rule : FilterRule) : Prop :=
  if rule.sliding_window then
    ∃ offset < search_limit packet rule, rule.min_packet_size ≤ packet.len - offset ∧
      execute_bytecode (packet.drop offset) (code_for d rule) = .returns true
  else execute_bytecode packet (code_for d rule) = .returns true

theorem match_sliding_learns {packet : Packet} {rule : FilterRule} {proto : ProtocolDef}
    (hauto : proto.endian_mode = .AUTO) (n : ℕ) : ∀ offset : ℕ,
    Learns (fun d => ∃ k, offset ≤ k ∧ k < offset + n ∧ rule.min_packet_size ≤ packet.len - k ∧
        execute_bytecode (packet.drop k) (code_for d rule) = .returns true) proto
      (match_sliding packet rule n offset proto) := by
  induction n with
  | zero => intro offset; exact .no_match proto
  | succ n ih =>
    intro offset
    rw [match_sliding]
    by_cases hshort : packet.len - offset < rule.min_packet_size
    · rw [if_pos hshort]
      exact .no_match proto
    · rw [if_neg hshort]
      refine ((try_match_learns hauto).orElse (ih (offset + 1))).mono fun d => ?_
      rintro (h | ⟨k, hle, hlt, hmin, h⟩)
      · exact ⟨offset, le_rfl, by omega, by omega, h⟩
      · exact ⟨k, by omega, by omega, hmin, h⟩

theorem match_rule_learns {packet : Packet} {rule : FilterRule} {proto : ProtocolDef}
    (hauto : proto.endian_mode = .AUTO) :
    Learns (fun d => RuleMatches d packet rule) proto (match_rule packet rule proto) := by
  rw [match_rule]
  by_cases hsliding : rule.sliding_window
  · rw [if_pos hsliding]
    refine (match_sliding_learns hauto _ 0).mono fun d => ?_
    rintro ⟨k, -, hlt, hmin, h⟩
    rw [RuleMatches, if_pos hsliding]
    exact ⟨k, by omega, hmin, h⟩
  · rw [if_neg hsliding]
    refine (try_match_learns hauto).mono fun d h => ?_
    rwa [RuleMatches, if_neg hsliding]

theorem match_rules_learns (packet : Packet) {proto : ProtocolDef}
    (hauto : proto.endian_mode = .AUTO) (rules : List FilterRule) :
    Learns (fun d => ∃ rule ∈ rules, RuleMatches d packet rule) proto
      (match_rules packet rules proto) := by
  induction rules with
  | nil => exact .no_match proto
  | cons rule rest ih =>
    refine ((match_rule_learns hauto).orElse ih).mono fun d => ?_
    rintro (h | ⟨r, hr, h⟩)
    · exact ⟨rule, List.mem_cons_self, h⟩
    · exact ⟨r, List.mem_cons_of_mem rule hr, h⟩

/-! ## Filters under a byte order -/

/-- The order in which fields are read once `d` is detected: a field tagged
`BIG` in `d`, a field tagged `LITTLE` in the other. -/
def detected_order (d : EndianType) : Order :=
  match d with
  | .LITTLE => untagged
  | _ => tagged

/-- The conditions of a filter hold of the packet under `d`, or for a sliding
filter of what is left of it from some offset that the filter allows. -/
def FilterMatches (structs : List StructDef) (d : EndianType) (packet : Packet)
    (temp_rule : TempFilterRule) : Prop :=
  if temp_rule.sliding_window then
    ∃ offset < packet.len,
      (0 < temp_rule.sliding_max_offset → offset < temp_rule.sliding_max_offset) ∧
      AllHold (detected_order d) (filter_conditions structs temp_rule) (packet.drop offset)
  else AllHold (detected_order d) (filter_conditions structs temp_rule) packet

section Compiled

variable {structs : List StructDef} {temp_rule : TempFilterRule} {s : StructDef}
  {bs : List Bound} {rule : FilterRule}

theorem execute_code_for (h : CompiledTo structs temp_rule s bs rule) (d : EndianType)
    (packet : Packet) :
    execute_bytecode packet (code_for d rule) = direct_reading (detected_order d) bs packet := by
  cases d with
  | LITTLE => exact execute_code_le h packet
  | BIG => exact execute_code_be h packet
  | UNKNOWN => exact execute_code_be h packet

theorem allHold_of_code_for (h : CompiledTo structs temp_rule s bs rule) {d : EndianType}
    {packet : Packet} (hexec : execute_bytecode packet (code_for d rule) = .returns true) :
    AllHold (detected_order d) bs packet := by
  rw [execute_code_for h, direct_reading_eq] at hexec
  by_cases hout : ReadsOutside (detected_order d) bs packet
  · rw [if_pos hout] at hexec
    cases hexec
  · rw [if_neg hout, ExecResult.returns.injEq] at hexec
    exact of_decide_eq_true hexec

theorem filterMatches_of_ruleMatches (h : CompiledTo structs temp_rule s bs rule) {d : EndianType}
    {packet : Packet} (hrule : RuleMatches d packet rule) :
    FilterMatches structs d packet temp_rule := by
  rw [RuleMatches, h.sliding_window] at hrule
  rw [FilterMatches, h.conditions]
  by_cases hsliding : temp_rule.sliding_window
  · rw [if_pos hsliding] at hrule ⊢
    obtain ⟨offset, hlt, -, hexec⟩ := hrule
    rw [search_limit, h.sliding_max_offset] at hlt
    refine ⟨offset, ?_, ?_, allHold_of_code_for h hexec⟩
    · split at hlt <;> omega
    · intro hmax
      split at hlt <;> omega
  · rw [if_neg hsliding] at hrule ⊢
    exact allHold_of_code_for h hrule

end Compiled

theorem filterMatches_of_rules {structs : List StructDef} {temp_rules : List TempFilterRule}
    {rules : List FilterRule} (h : Compiled structs temp_rules rules) {d : EndianType}
    {packet : Packet} (hmatch : ∃ rule ∈ rules, RuleMatches d packet rule) :
    ∃ t ∈ temp_rules, FilterMatches structs d packet t := by
  induction h with
  | nil => simp at hmatch
  | @cons t rule ts rules hto _ ih =>
    obtain ⟨s, bs, hto⟩ := hto
    obtain ⟨r, hr, hmatch⟩ := hmatch
    rcases List.mem_cons.mp hr with rfl | hr
    · exact ⟨t, List.mem_cons_self, filterMatches_of_ruleMatches hto hmatch⟩
    · obtain ⟨t', ht', hfits⟩ := ih ⟨r, hr, hmatch⟩
      exact ⟨t', List.mem_cons_of_mem t ht', hfits⟩

/-! ## Runs -/

/-- A run of calls from `proto`: the packets given and the answers, and the
protocol after the last call. A call that reads past its packet is the end of
every run. -/
inductive MatchRun (proto : ProtocolDef) : List (Packet × Bool) → ProtocolDef → Prop where
  | start : MatchRun proto [] proto
  | call {calls : List (Packet × Bool)} {p p' : ProtocolDef} {packet : Packet} {port : ℕ} {b : Bool}
      (run : MatchRun proto calls p)
      (answer : packet_filter_match packet port p = (.returns b, p')) :
      MatchRun proto (calls ++ [(packet, b)]) p'

/-- What a run of calls keeps: the protocol differs from the first one in the
detected byte order at most, which is unknown as long as nothing was accepted,
and which every accepted packet matches under. -/
structure Settles (source : List Char) (proto : ProtocolDef) (calls : List (Packet × Bool))
    (p : ProtocolDef) : Prop where
  frame : p = { proto with detected_endian := p.detected_endian }
  unknown : (∀ c ∈ calls, c.2 = false) → p.detected_endian = .UNKNOWN
  known : (∃ c ∈ calls, c.2 = true) → p.detected_endian ≠ .UNKNOWN
  accepted : ∀ c ∈ calls, c.2 = true →
    ∃ t ∈ source_filters source, FilterMatches (structs_of proto) p.detected_endian c.1 t

section Runs

variable {source : List Char} {proto p p' : ProtocolDef} {calls : List (Packet × Bool)}
  {packet : Packet} {port : ℕ} {b : Bool}

/-- A call that answers. -/
theorem call_learns (h : Accepted source proto) (hauto : proto.endian_mode = .AUTO)
    (hp : p = { proto with detected_endian := p.detected_endian })
    (hcall : packet_filter_match packet port p = (.returns b, p')) :
    (b = false → p' = p) ∧ (b = true → ∃ d, d ≠ .UNKNOWN ∧
      p' = { proto with detected_endian := d } ∧
      (p.detected_endian ≠ .UNKNOWN → d = p.detected_endian) ∧
      ∃ t ∈ source_filters source, FilterMatches (structs_of proto) d packet t) := by
  have hpauto : p.endian_mode = .AUTO := by
    rw [hp]
    exact hauto
  have hrules : rules_of p = rules_of proto := by
    rw [hp]
    rfl
  have hlearns := match_rules_learns packet hpauto (rules_of p)
  rw [show match_rules packet (rules_of p) p = (.returns b, p') from hcall] at hlearns
  constructor
  · rintro rfl
    exact hlearns.no rfl
  · rintro rfl
    obtain ⟨d, hd, hmatch, hp', hsame⟩ := hlearns.yes rfl
    rw [hrules] at hmatch
    refine ⟨d, hd, ?_, hsame, filterMatches_of_rules h.filters hmatch⟩
    have hp'' : p' = { p with detected_endian := d } := hp'
    rw [hp'', hp]

theorem settles_call (h : Accepted source proto) (hauto : proto.endian_mode = .AUTO)
    (hs : Settles source proto calls p)
    (hcall : packet_filter_match packet port p = (.returns b, p')) :
    Settles source proto (calls ++ [(packet, b)]) p' := by
  obtain ⟨hno, hyes⟩ := call_learns h hauto hs.frame hcall
  cases b with
  | false =>
    rw [hno rfl]
    refine ⟨hs.frame, ?_, ?_, ?_⟩
    · intro hall
      exact hs.unknown fun c hc => hall c (List.mem_append_left _ hc)
    · rintro ⟨c, hc, hyes⟩
      rcases List.mem_append.mp hc with hc | hc
      · exact hs.known ⟨c, hc, hyes⟩
      · rw [List.mem_singleton.mp hc] at hyes
        cases hyes
    · intro c hc hyes
      rcases List.mem_append.mp hc with hc | hc
      · exact hs.accepted c hc hyes
      · rw [List.mem_singleton.mp hc] at hyes
        cases hyes
  | true =>
    obtain ⟨d, hd, rfl, hsame, hmatch⟩ := hyes rfl
    refine ⟨rfl, ?_, fun _ => hd, ?_⟩
    · intro hall
      exact absurd (hall (packet, true) (by simp)) (by simp)
    · intro c hc hyes
      rcases List.mem_append.mp hc with hc | hc
      · -- an earlier accept settled the order that this one matched under
        have hknown := hs.known ⟨c, hc, hyes⟩
        have haccepted := hs.accepted c hc hyes
        rw [← hsame hknown] at haccepted
        exact haccepted
      · rw [List.mem_singleton.mp hc]
        exact hmatch

theorem settles_run (h : Accepted source proto) (hauto : proto.endian_mode = .AUTO)
    (hrun : MatchRun proto calls p) : Settles source proto calls p := by
  induction hrun with
  | start => exact ⟨rfl, fun _ => h.unknown, by simp, by simp⟩
  | call _ hcall ih => exact settles_call h hauto ih hcall

end Runs

/-- What the byte order of a field is once `d` is detected, in a text that
starts with its one `@protocol` block: `d` itself. -/
theorem detected_order_eq {source : List Char} {proto : ProtocolDef}
    (h : (pdef_parse_string source).1 = .accepted proto) (hauto : proto.endian_mode = .AUTO)
    (hfirst : ProtocolFirst source) {s : StructDef} (hs : s ∈ structs_of proto) {f : Field}
    (hf : f ∈ s.fields.elems) :
    detected_order .BIG f = .BIG ∧ detected_order .LITTLE f = .LITTLE := by
  have htag : f.endian = .BIG := by
    rw [fields_tagged h hfirst s hs f hf, (accepted_of h).settled, hauto]
    rfl
  exact ⟨htag, congrArg flip htag⟩

/-- **Learning is once and for all.** In automatic mode, over any run of calls:
a call that answers "no" leaves the protocol as it was; the byte order is
unknown until the first packet is accepted and settled from then on; and every
accepted packet of the run matches some filter under the byte order that the
run ends with. -/
theorem learning_settles {source : List Char} {proto : ProtocolDef}
    (h : (pdef_parse_string source).1 = .accepted proto) (hauto : proto.endian_mode = .AUTO)
    {calls : List (Packet × Bool)} {p : ProtocolDef} (hrun : MatchRun proto calls p) :
    (∀ packet port p', packet_filter_match packet port p = (.returns false, p') → p' = p) ∧
    ((∀ c ∈ calls, c.2 = false) → p.detected_endian = .UNKNOWN) ∧
    ((∃ c ∈ calls, c.2 = true) →
      (p.detected_endian = .BIG ∨ p.detected_endian = .LITTLE) ∧
      ∀ packet port b p', packet_filter_match packet port p = (.returns b, p') →
        p'.detected_endian = p.detected_endian) ∧
    (∀ c ∈ calls, c.2 = true →
      ∃ t ∈ source_filters source, FilterMatches (structs_of proto) p.detected_endian c.1 t) := by
  have haccepted := accepted_of h
  have hs := settles_run haccepted hauto hrun
  refine ⟨?_, hs.unknown, ?_, hs.accepted⟩
  · intro packet port p' hcall
    exact (call_learns haccepted hauto hs.frame hcall).1 rfl
  · intro hyes
    have hknown := hs.known hyes
    constructor
    · cases hd : p.detected_endian with
      | UNKNOWN => exact absurd hd hknown
      | BIG => exact .inl rfl
      | LITTLE => exact .inr rfl
    · intro packet port b p' hcall
      obtain ⟨hno, hmatch⟩ := call_learns haccepted hauto hs.frame hcall
      cases b with
      | false => rw [hno rfl]
      | true =>
        obtain ⟨d, -, rfl, hsame, -⟩ := hmatch rfl
        exact hsame hknown

/-- A text in automatic mode. -/
def auto_text : List Char :=
  "@protocol { endian = auto } H { uint16 x; } @filter f { x = 1; }".toList

set_option maxRecDepth 100000 in
theorem auto_text_accepts : ∃ proto ∈ (pdef_parse_string auto_text).1.protocol?,
    proto.endian_mode = .AUTO ∧
      (packet_filter_match ⟨[1, 0], by decide⟩ 0 proto).1 = .returns true := by
  decide +kernel

/-- One accepted packet settles the byte order of `auto_text`. -/
theorem auto_text_settles : ∃ proto p : ProtocolDef,
    MatchRun proto [(⟨[1, 0], by decide⟩, true)] p ∧
      (p.detected_endian = .BIG ∨ p.detected_endian = .LITTLE) := by
  obtain ⟨proto, hproto, hauto, hyes⟩ := auto_text_accepts
  have h := ParseResult.protocol?_eq_some.mp hproto
  have hrun : MatchRun proto [(⟨[1, 0], by decide⟩, true)]
      (packet_filter_match ⟨[1, 0], by decide⟩ 0 proto).2 :=
    MatchRun.call .start (Prod.ext hyes (Eq.refl (packet_filter_match _ 0 _).2))
  exact ⟨proto, _, hrun, ((learning_settles h hauto hrun).2.2.1 ⟨_, List.mem_singleton_self _, rfl⟩).1⟩

end RxNetCap.Runtime
