/-
Which loads a filter performs, and whether they stay inside the packet.

A load is performed when the machine gets to it and its bounds test, in
`uint32_t` arithmetic, lets it pass. The field it means is at the sum of the
sizes before it, which the layout of the source knows modulo `2 ^ 32` only;
`exact_conditions` are the conditions over fields at their real places.

A load is reached when all conditions before it hold (`reached_load`,
`reaches_load`). So the loads of a text stay inside every packet exactly when
in each of its filters the conditions before the first field that ends beyond
`2 ^ 32` hold of no packet (`loads_inside_iff`).
-/
import RxNetCap.Runtime.Matching
import Mathlib.Data.List.TakeWhile

set_option autoImplicit false

namespace RxNetCap.Runtime

open RxNetCap.Pdef RxNetCap.Machine

/-! ## Loads that are performed -/

/-- The run of `code` on a packet gets to the load at `ip` and past its bounds
test. -/
def PerformsLoad (packet : Packet) (code : List Instruction) (ip : ℕ) : Prop :=
  ∃ vm ins w read, Reaches (exec_turn packet code) {} vm ∧ vm.ip = ip ∧ code[ip]? = some ins ∧
    load_op ins.opcode = some (w, read) ∧ u32 (ins.offset + w) ≤ packet.len

/-- The load at `ip`, if there is one, reads bytes of the packet. -/
def LoadInside (packet : Packet) (code : List Instruction) (ip : ℕ) : Prop :=
  ∀ ins w read, code[ip]? = some ins → load_op ins.opcode = some (w, read) →
    ins.offset + w ≤ packet.len

/-! ## Fields at their real places -/

/-- A struct with the fields and the size of an exact layout. -/
def unwrapped (s : StructDef) (e : Shape) : StructDef :=
  { s with fields := { s.fields with elems := e.fields }, min_size := e.min_size }

/-- The structs of a text, its offsets and sizes added up exactly. -/
def exact_structs (source : List Char) (proto : ProtocolDef) : List StructDef :=
  List.zipWith unwrapped (structs_of proto) ((layout id (declarations source)).getD [])

/-- The conditions of a filter over fields at their real places. -/
def exact_conditions (source : List Char) (proto : ProtocolDef) (temp_rule : TempFilterRule) :
    List Bound :=
  filter_conditions (exact_structs source proto) temp_rule

/-- **Every load that any program of any filter performs on any packet** reads
bytes of the packet, at its offset and at the real place of its field. The
parts of a packet that a sliding filter is tried on are packets too. -/
def LoadsInside (source : List Char) (proto : ProtocolDef) : Prop :=
  ∀ (i : ℕ) (temp_rule : TempFilterRule) (rule : FilterRule),
    (source_filters source)[i]? = some temp_rule → (rules_of proto)[i]? = some rule →
    ∀ code ∈ [rule.bytecode.elems, rule.bytecode_be.elems, rule.bytecode_le.elems],
    ∀ packet ip, PerformsLoad packet code ip →
      LoadInside packet code ip ∧
        LoadInside packet (program (exact_conditions source proto temp_rule)) ip

/-- The conditions before the first field that ends beyond `2 ^ 32`, if there is
one, hold of no packet. -/
def Shielded (order : Order) (bs : List Bound) : Prop :=
  (∀ b ∈ bs, Fits b.1) ∨ ∀ packet, ¬ AllHold order (bs.takeWhile fun b => Fits b.1) packet

/-! ## The loads that are reached -/

section Reached

variable {packet : Packet} {code : List Instruction} {fail_label : ℕ}

/-- A state that stops at a return is not at a load, and reaches nothing else. -/
theorem not_atLoad_of_done {vm vm' : Vm} {r : ExecResult} {ins : Instruction}
    (hins : code[vm.ip]? = some ins) (hload : load_op ins.opcode = none)
    (hdone : exec_turn packet code vm = .done r) (h : Reaches (exec_turn packet code) vm vm') :
    ¬ AtLoad code vm' := by
  rw [Reaches.of_done hdone h]
  exact not_atLoad hins hload

/-- **A load that is reached belongs to a condition with all conditions before
it holding.** -/
theorem reached_load (bs : List Bound) : ∀ {vm vm' : Vm}, Framed code fail_label vm.ip bs →
    Reaches (exec_turn packet code) vm vm' → AtLoad code vm' →
    ∃ before b after, bs = before ++ b :: after ∧ vm'.ip = vm.ip + blocks_size before ∧
      AllHold tagged before packet := by
  induction bs with
  | nil =>
    intro vm vm' h hreach hload
    have hreturn : code[vm.ip]? = some { opcode := .RETURN_TRUE } := h.success
    exact absurd hload (not_atLoad_of_done hreturn rfl (exec_turn_at hreturn) hreach)
  | cons b rest ih =>
    intro vm vm' h hreach hload
    obtain ⟨f, cond⟩ := b
    rcases Relation.ReflTransGen.cases_head hreach with rfl | ⟨vm1, hnext, hreach'⟩
    · exact ⟨[], (f, cond), rest, rfl, rfl, by simp [AllHold]⟩
    · -- the machine went on, so the field is inside the packet
      have hin : f.offset + width f ≤ packet.len := by
        by_contra hout
        have hturn := load_turn packet h.load
        rw [if_pos (show f.offset + width f > packet.len by omega)] at hturn
        by_cases hend : u32 (f.offset + width f) > packet.len
        · rw [if_pos hend, hnext] at hturn
          cases hturn
        · rw [if_neg hend, hnext] at hturn
          cases hturn
      obtain ⟨vm1', hturn, -, vm2, hip, hgoes⟩ := h.condition_leaves hin
      have hsame : vm1' = vm1 := by
        rw [hturn] at hnext
        cases hnext
        rfl
      subst hsame
      rcases hgoes.reaches_cases hreach' with hno | hreach2
      · exact absurd hload hno
      by_cases hpass : condition_test cond (field_value f.endian f packet)
      · rw [if_pos hpass] at hip
        obtain ⟨before, b, after, rfl, hip', hall⟩ := ih (hip ▸ h.next) hreach2 hload
        refine ⟨(f, cond) :: before, b, after, rfl, ?_, ?_⟩
        · rw [hip', hip, blocks_size_cons, Nat.add_assoc]
        · intro c hc
          rcases List.mem_cons.mp hc with rfl | hc
          · exact ⟨hin, hpass⟩
          · exact hall c hc
      · rw [if_neg hpass] at hip
        have hreturn : code[vm2.ip]? = some { opcode := .RETURN_FALSE } := hip ▸ h.failure
        exact absurd hload (not_atLoad_of_done hreturn rfl (exec_turn_at hreturn) hreach2)

/-- Conversely, the machine reaches the load behind conditions that hold. -/
theorem reaches_load (before : List Bound) {after : List Bound} : ∀ (vm : Vm),
    Framed code fail_label vm.ip (before ++ after) → AllHold tagged before packet →
    ∃ vm', Reaches (exec_turn packet code) vm vm' ∧ vm'.ip = vm.ip + blocks_size before := by
  induction before with
  | nil => exact fun vm _ _ => ⟨vm, .refl, rfl⟩
  | cons b rest ih =>
    intro vm h hall
    obtain ⟨f, cond⟩ := b
    obtain ⟨hin, hpass⟩ := hall (f, cond) List.mem_cons_self
    have hpass' : condition_test cond (field_value f.endian f packet) := hpass
    obtain ⟨vm1, hturn, -, vm2, hip, hgoes⟩ := h.condition_leaves hin
    rw [if_pos hpass'] at hip
    obtain ⟨vm3, hreach, hip'⟩ := ih vm2 (hip ▸ h.next)
      fun c hc => hall c (List.mem_cons_of_mem _ hc)
    refine ⟨vm3, (Reaches.head hturn hgoes.reaches).trans hreach, ?_⟩
    rw [hip', hip, blocks_size_cons, Nat.add_assoc]

/-- Behind some conditions the frame of the others starts. -/
theorem Framed.drop (before : List Bound) {after : List Bound} : ∀ {start : ℕ},
    Framed code fail_label start (before ++ after) →
    Framed code fail_label (start + blocks_size before) after := by
  induction before with
  | nil => exact fun h => h
  | cons b rest ih =>
    intro start h
    obtain ⟨f, cond⟩ := b
    have hrest := ih h.next
    rw [Nat.add_assoc] at hrest
    rw [blocks_size_cons]
    exact hrest

/-- The load of a condition stands at the start of its block. -/
theorem program_load {before : List Bound} {b : Bound} {after : List Bound}
    (hops : ∀ c ∈ before ++ b :: after, HasOperands c.2) :
    (program (before ++ b :: after))[blocks_size before]? = some (load_instruction b.1) := by
  have hframed := (program_framed hops).drop before
  rw [Nat.zero_add] at hframed
  obtain ⟨f, cond⟩ := b
  exact hframed.load

end Reached

/-! ## Fields at their real places, wrapped -/

/-- A struct with its offsets and its size as the source has them. -/
def wrapped (s : StructDef) : StructDef :=
  { s with fields := { s.fields with elems := s.fields.elems.map Field.reduced }
           min_size := u32 s.min_size }

def wrapped_bound (b : Bound) : Bound := (b.1.reduced, b.2)

theorem wrapped_unwrapped (structs : List StructDef) : ∀ {exact_shapes : List Shape},
    exact_shapes.map Shape.reduced = structs.map StructDef.shape →
    (List.zipWith unwrapped structs exact_shapes).map wrapped = structs := by
  induction structs with
  | nil => intro exact_shapes _; simp
  | cons s rest ih =>
    intro exact_shapes h
    cases exact_shapes with
    | nil => cases h
    | cons e later =>
      rw [List.map_cons, List.map_cons, List.cons.injEq] at h
      obtain ⟨hhead, hrest⟩ := h
      have hfields : e.fields.map Field.reduced = s.fields.elems := congrArg Shape.fields hhead
      have hmin : u32 e.min_size = s.min_size := congrArg Shape.min_size hhead
      rw [List.zipWith_cons_cons, List.map_cons, ih hrest]
      simp only [wrapped, unwrapped, hfields, hmin]

theorem exact_structs_wrapped {source : List Char} {proto : ProtocolDef}
    (h : Accepted source proto) : (exact_structs source proto).map wrapped = structs_of proto := by
  obtain ⟨exact_shapes, hexact, hreduced⟩ := h.exact_layout
  rw [exact_structs, hexact]
  exact wrapped_unwrapped _ hreduced

theorem find_field_wrapped (s : StructDef) (path : CStr) :
    find_field_by_path (wrapped s) path = (find_field_by_path s path).map Field.reduced := by
  rw [find_field_by_path, wrapped, List.find?_map]
  rfl

theorem target_struct_wrapped (structs : List StructDef) (temp_rule : TempFilterRule) :
    target_struct (structs.map wrapped) temp_rule
      = (target_struct structs temp_rule).map wrapped := by
  unfold target_struct
  cases temp_rule.conditions.elems.head? with
  | none => rfl
  | some cond => simp [List.find?_map, Function.comp_def, find_field_wrapped]

theorem bind_conditions_wrapped (s : StructDef) (conds : List FilterCondition) :
    bind_conditions (wrapped s) conds = (bind_conditions s conds).map (List.map wrapped_bound) := by
  induction conds with
  | nil => rfl
  | cons cond rest ih =>
    unfold bind_conditions at ih ⊢
    rw [List.mapM_cons, List.mapM_cons, ih, find_field_wrapped]
    cases find_field_by_path s cond.field_name with
    | none => rfl
    | some field =>
      cases (rest.mapM fun cond => (find_field_by_path s cond.field_name).map fun field =>
        (field, cond)) <;> rfl

/-- The conditions the source compiles are the exact ones, wrapped. -/
theorem filter_conditions_wrapped {source : List Char} {proto : ProtocolDef}
    (h : Accepted source proto) (temp_rule : TempFilterRule) :
    filter_conditions (structs_of proto) temp_rule
      = (exact_conditions source proto temp_rule).map wrapped_bound := by
  rw [← exact_structs_wrapped h, filter_conditions, target_struct_wrapped, exact_conditions,
    filter_conditions]
  cases target_struct (exact_structs source proto) temp_rule with
  | none => rfl
  | some s =>
    rw [Option.map_some, Option.bind_some, Option.bind_some, bind_conditions_wrapped]
    cases bind_conditions s temp_rule.conditions.elems <;> rfl

theorem reduced_of_fits {f : Field} (h : Fits f) : f.reduced = f := by
  have hlt : f.offset < 2 ^ 32 := lt_of_le_of_lt (Nat.le_add_right _ _) h
  rw [Field.reduced, u32_of_lt hlt]

/-! ## Longer packets -/

/-- The packet with zeros behind it, as long as a packet can be. -/
def Packet.pad (p : Packet) : Packet where
  bytes := p.bytes ++ List.replicate (2 ^ 32 - 1 - p.len) 0
  length_lt := by
    have := p.length_lt
    rw [List.length_append, List.length_replicate]
    unfold Packet.len
    omega

theorem Packet.len_pad (p : Packet) : p.pad.len = 2 ^ 32 - 1 := by
  have := p.length_lt
  rw [Packet.pad, Packet.len, List.length_append, List.length_replicate]
  unfold Packet.len
  omega

/-- A longer packet reads the same where the shorter one was read. -/
theorem allHold_pad {order : Order} {bs : List Bound} {packet : Packet}
    (h : AllHold order bs packet) : AllHold order bs packet.pad := by
  intro b hb
  obtain ⟨hin, htest⟩ := h b hb
  have hlt := packet.len_lt
  refine ⟨?_, ?_⟩
  · rw [Packet.len_pad]
    omega
  · have hbytes : (packet.pad.bytes.drop b.1.offset).take (width b.1)
        = (packet.bytes.drop b.1.offset).take (width b.1) := by
      unfold Packet.len at hin
      rw [Packet.pad, List.drop_append_of_le_length (by omega),
        List.take_append_of_le_length (by rw [List.length_drop]; omega)]
    rw [field_value, hbytes]
    exact htest

/-! ## One program -/

section Program

variable {bs : List Bound}

theorem performed_load {packet : Packet} {ip : ℕ} (hops : ∀ b ∈ bs, HasOperands b.2)
    (h : PerformsLoad packet (program bs) ip) : ∃ before b after, bs = before ++ b :: after ∧
      ip = blocks_size before ∧ AllHold tagged before packet ∧
      u32 (b.1.offset + width b.1) ≤ packet.len := by
  obtain ⟨vm, ins, w, read, hreach, rfl, hins, hload, hend⟩ := h
  obtain ⟨before, b, after, rfl, hip, hall⟩ := reached_load bs (program_framed hops) hreach
    ⟨ins, hins, by rw [hload]; rfl⟩
  rw [Nat.zero_add] at hip
  rw [hip, program_load hops, Option.some.injEq] at hins
  obtain ⟨read', hload', -⟩ := load_reads b.1
  have hw : (width b.1, read') = (w, read) := by
    rw [← hins] at hload
    exact Option.some.inj (hload'.symm.trans hload)
  cases hw
  rw [← hins] at hend
  exact ⟨before, b, after, rfl, hip, hall, hend⟩

theorem performs_load {packet : Packet} {before : List Bound} {b : Bound} {after : List Bound}
    (hops : ∀ c ∈ before ++ b :: after, HasOperands c.2) (hall : AllHold tagged before packet)
    (hend : u32 (b.1.offset + width b.1) ≤ packet.len) :
    PerformsLoad packet (program (before ++ b :: after)) (blocks_size before) := by
  obtain ⟨vm, hreach, hip⟩ := reaches_load before {} (program_framed hops) hall
  obtain ⟨read, hload, -⟩ := load_reads b.1
  exact ⟨vm, _, _, read, hreach, hip.trans (Nat.zero_add _), program_load hops, hload, hend⟩

/-- The load of a condition is inside the packet when its field is. -/
theorem loadInside_iff {packet : Packet} {before : List Bound} {b : Bound} {after : List Bound}
    (hops : ∀ c ∈ before ++ b :: after, HasOperands c.2) :
    LoadInside packet (program (before ++ b :: after)) (blocks_size before) ↔
      b.1.offset + width b.1 ≤ packet.len := by
  obtain ⟨read, hload, -⟩ := load_reads b.1
  constructor
  · intro h
    exact h _ _ _ (program_load hops) hload
  · intro h ins w read' hins hload'
    rw [program_load hops, Option.some.injEq] at hins
    rw [← hins] at hload' ⊢
    cases hload.symm.trans hload'
    exact h

/-- Up to the first field that ends beyond `2 ^ 32`, wrapping changes nothing. -/
theorem map_wrapped_of_fits {before : List Bound} (h : ∀ b ∈ before, Fits b.1) :
    before.map wrapped_bound = before := by
  calc before.map wrapped_bound
      = before.map id := List.map_congr_left fun b hb => by
        rw [wrapped_bound, reduced_of_fits (h b hb)]
        rfl
    _ = before := List.map_id _

theorem hasOperands_wrapped (h : ∀ b ∈ bs, HasOperands b.2) :
    ∀ b ∈ bs.map wrapped_bound, HasOperands b.2 := by
  intro b hb
  obtain ⟨c, hc, rfl⟩ := List.mem_map.mp hb
  exact h c hc

/-- The first field that ends beyond `2 ^ 32`. -/
theorem first_not_fits (h : ¬ ∀ b ∈ bs, Fits b.1) : ∃ b after,
    bs = (bs.takeWhile fun b => decide (Fits b.1)) ++ b :: after ∧
    (∀ c ∈ bs.takeWhile fun b => decide (Fits b.1), Fits c.1) ∧ ¬ Fits b.1 := by
  have hall : ∀ c ∈ bs.takeWhile fun b => decide (Fits b.1), Fits c.1 := fun c hc => by
    simpa using List.mem_takeWhile_imp hc
  cases hdrop : bs.dropWhile fun b => decide (Fits b.1) with
  | nil => exact absurd (by simpa using hdrop) h
  | cons b after =>
    have hsplit := List.takeWhile_append_dropWhile (p := fun b : Bound => decide (Fits b.1)) (l := bs)
    have hnot := List.head?_dropWhile_not (fun b : Bound => decide (Fits b.1)) bs
    rw [hdrop] at hsplit hnot
    exact ⟨b, after, hsplit.symm, hall, of_decide_eq_false hnot⟩

/-- In a shielded filter, every load behind conditions that hold is of a field
that ends before `2 ^ 32`. -/
theorem fits_of_shielded {packet : Packet} {before : List Bound} {b : Bound} {after : List Bound}
    (h : Shielded tagged (before ++ b :: after))
    (hall : AllHold tagged (before.map wrapped_bound) packet) : Fits b.1 := by
  rcases h with hfits | hnone
  · exact hfits b (List.mem_append_right _ List.mem_cons_self)
  by_contra hb
  refine hnone packet fun c hc => ?_
  have hc' : c ∈ before ∧ Fits c.1 := by
    have hfit : Fits c.1 := by simpa using List.mem_takeWhile_imp hc
    rw [List.takeWhile_append] at hc
    split at hc
    · rw [List.takeWhile_cons_of_neg (by simpa using hb), List.append_nil] at hc
      exact ⟨hc, hfit⟩
    · exact ⟨(List.takeWhile_prefix _).subset hc, hfit⟩
  have hholds := hall (wrapped_bound c) (List.mem_map_of_mem hc'.1)
  rwa [wrapped_bound, reduced_of_fits hc'.2] at hholds

/-- **The loads of one program** stay inside every packet exactly when its
filter is shielded. -/
theorem program_loads_inside_iff (hops : ∀ b ∈ bs, HasOperands b.2) :
    (∀ packet ip, PerformsLoad packet (program (bs.map wrapped_bound)) ip →
      LoadInside packet (program (bs.map wrapped_bound)) ip ∧ LoadInside packet (program bs) ip) ↔
    Shielded tagged bs := by
  constructor
  · intro h
    by_cases hfits : ∀ b ∈ bs, Fits b.1
    · exact .inl hfits
    refine .inr fun packet hall => ?_
    obtain ⟨b, after, hsplit, hbefore, hb⟩ := first_not_fits hfits
    -- the longest packet that the conditions before `b` hold of
    generalize (bs.takeWhile fun b => decide (Fits b.1)) = before at *
    subst hsplit
    have hmap : (before ++ b :: after).map wrapped_bound
        = before ++ wrapped_bound b :: after.map wrapped_bound := by
      rw [List.map_append, List.map_cons, map_wrapped_of_fits hbefore]
    have hops' := hasOperands_wrapped hops
    rw [hmap] at h hops'
    have hperforms := performs_load hops' (allHold_pad hall) (by
      rw [Packet.len_pad]
      exact Nat.le_sub_one_of_lt (u32_lt _))
    have hinside := (loadInside_iff hops).mp (h _ _ hperforms).2
    exact hb (lt_of_le_of_lt hinside (Packet.len_lt _))
  · intro hshield packet ip hperforms
    obtain ⟨before', b', after', hsplit, rfl, hall, hend⟩ :=
      performed_load (hasOperands_wrapped hops) hperforms
    obtain ⟨before, tail, rfl, rfl, htail⟩ := List.map_eq_append_iff.mp hsplit
    obtain ⟨b, after, rfl, rfl, rfl⟩ := List.map_eq_cons_iff.mp htail
    have hfits := fits_of_shielded hshield hall
    have hsize : blocks_size (before.map wrapped_bound) = blocks_size before := by
      rw [blocks_size, List.map_map]
      rfl
    have hreal : b.1.offset + width b.1 ≤ packet.len := by
      rw [wrapped_bound, reduced_of_fits hfits, u32_of_lt hfits] at hend
      exact hend
    refine ⟨?_, ?_⟩
    · rw [hsplit, loadInside_iff (hsplit ▸ hasOperands_wrapped hops), wrapped_bound,
        reduced_of_fits hfits]
      exact hreal
    · rw [hsize, loadInside_iff hops]
      exact hreal

end Program

/-! ## The program for the other byte order -/

theorem load_op_swap (op : OpCode) :
    (load_op (swap_endian_opcode op)).map Prod.fst = (load_op op).map Prod.fst := by
  cases op <;> simp only [swap_endian_opcode, load_op, Option.map_some, Option.map_none]

/-- Swapping keeps the width of a load. -/
theorem load_width_swap (ins : Instruction) (w : ℕ) :
    (∃ read, load_op (swap_endian ins).opcode = some (w, read)) ↔
      ∃ read, load_op ins.opcode = some (w, read) := by
  have hsame := load_op_swap ins.opcode
  rw [swap_endian]
  constructor
  · rintro ⟨read, hload⟩
    rw [hload] at hsame
    obtain ⟨⟨w', read'⟩, hload', heq⟩ := Option.map_eq_some_iff.mp hsame.symm
    cases heq
    exact ⟨read', hload'⟩
  · rintro ⟨read, hload⟩
    rw [hload] at hsame
    obtain ⟨⟨w', read'⟩, hload', heq⟩ := Option.map_eq_some_iff.mp hsame
    cases heq
    exact ⟨read', hload'⟩

theorem loadInside_swap (packet : Packet) (code : List Instruction) (ip : ℕ) :
    LoadInside packet (code.map swap_endian) ip ↔ LoadInside packet code ip := by
  constructor
  · intro h ins w read hins hload
    obtain ⟨read', hload'⟩ := (load_width_swap ins w).mpr ⟨read, hload⟩
    exact h (swap_endian ins) w read' (by rw [List.getElem?_map, hins]; rfl) hload'
  · intro h ins w read hins hload
    rw [List.getElem?_map] at hins
    obtain ⟨ins', hins', rfl⟩ := Option.map_eq_some_iff.mp hins
    obtain ⟨read', hload'⟩ := (load_width_swap ins' w).mp ⟨read, hload⟩
    exact h ins' w read' hins' hload'

theorem holds_swap_tag (b : Bound) (packet : Packet) :
    Holds (tagged (swap_tag b).1) (swap_tag b).1 (swap_tag b).2 packet
      ↔ Holds (untagged b.1) b.1 b.2 packet := Iff.rfl

theorem allHold_swap_tag (bs : List Bound) (packet : Packet) :
    AllHold tagged (bs.map swap_tag) packet ↔ AllHold untagged bs packet := by
  constructor
  · intro h b hb
    exact (holds_swap_tag b packet).mp (h (swap_tag b) (List.mem_map_of_mem hb))
  · intro h b hb
    obtain ⟨c, hc, rfl⟩ := List.mem_map.mp hb
    exact (holds_swap_tag c packet).mpr (h c hc)

theorem shielded_swap_tag (bs : List Bound) :
    Shielded tagged (bs.map swap_tag) ↔ Shielded untagged bs := by
  have hbefore : (bs.map swap_tag).takeWhile (fun b => decide (Fits b.1))
      = (bs.takeWhile fun b => decide (Fits b.1)).map swap_tag := List.takeWhile_map
  have hfits : (∀ b ∈ bs.map swap_tag, Fits b.1) ↔ ∀ b ∈ bs, Fits b.1 :=
    List.forall_mem_map
  rw [Shielded, Shielded, hbefore, hfits]
  simp only [allHold_swap_tag]

theorem swapped_loads_inside_iff {bs : List Bound} (hops : ∀ b ∈ bs, HasOperands b.2) :
    (∀ packet ip, PerformsLoad packet ((program (bs.map wrapped_bound)).map swap_endian) ip →
      LoadInside packet ((program (bs.map wrapped_bound)).map swap_endian) ip ∧
        LoadInside packet (program bs) ip) ↔
    Shielded untagged bs := by
  have hops' : ∀ b ∈ bs.map swap_tag, HasOperands b.2 := by
    intro b hb
    obtain ⟨c, hc, rfl⟩ := List.mem_map.mp hb
    exact hops c hc
  have hcomm : (bs.map wrapped_bound).map swap_tag = (bs.map swap_tag).map wrapped_bound := by
    rw [List.map_map, List.map_map]
    rfl
  have hmain := program_loads_inside_iff hops'
  rw [shielded_swap_tag, ← hcomm, ← swap_program, ← swap_program] at hmain
  simp only [fun packet : Packet => loadInside_swap packet (program bs)] at hmain
  exact hmain

/-! ## The loads of a text -/

/-- **The loads of an accepted text stay inside every packet exactly when its
filters are shielded**, in both byte orders. -/
theorem loads_inside_iff {source : List Char} {proto : ProtocolDef}
    (h : (pdef_parse_string source).1 = .accepted proto) :
    LoadsInside source proto ↔ ∀ temp_rule ∈ source_filters source,
      Shielded tagged (exact_conditions source proto temp_rule) ∧
        Shielded untagged (exact_conditions source proto temp_rule) := by
  have haccepted := accepted_of h
  have hcompiled := haccepted.filters
  have hlength := hcompiled.length_eq
  -- what the `i`-th filter compiles to
  have hrule : ∀ {i : ℕ} {temp_rule : TempFilterRule} {rule : FilterRule},
      (source_filters source)[i]? = some temp_rule → (rules_of proto)[i]? = some rule →
      (∀ b ∈ exact_conditions source proto temp_rule, HasOperands b.2) ∧
      rule.bytecode.elems = program ((exact_conditions source proto temp_rule).map wrapped_bound) ∧
      rule.bytecode_be = rule.bytecode ∧ rule.bytecode_le.elems
        = (program ((exact_conditions source proto temp_rule).map wrapped_bound)).map swap_endian := by
    intro i temp_rule rule htemp hrule
    obtain ⟨hi, hi_temp⟩ := List.getElem?_eq_some_iff.mp htemp
    obtain ⟨hj, hj_rule⟩ := List.getElem?_eq_some_iff.mp hrule
    obtain ⟨s, bs, hto⟩ : ∃ s bs, CompiledTo (structs_of proto) temp_rule s bs rule := by
      have hget := hcompiled.get hi hj
      rw [List.get_eq_getElem, List.get_eq_getElem, hi_temp, hj_rule] at hget
      exact hget
    have hbs := hto.conditions
    rw [filter_conditions_wrapped haccepted] at hbs
    rw [hbs]
    refine ⟨fun b hb => ?_, hto.code, hto.code_be, hto.code_le⟩
    exact hto.operands (wrapped_bound b) (hbs ▸ List.mem_map_of_mem hb)
  constructor
  · intro hall temp_rule hmem
    obtain ⟨i, hi, rfl⟩ := List.mem_iff_getElem.mp hmem
    have htemp := List.getElem?_eq_getElem hi
    have hget := List.getElem?_eq_getElem (l := rules_of proto) (i := i) (hlength ▸ hi)
    obtain ⟨hops, hcode, -, hcode_le⟩ := hrule htemp hget
    constructor
    · rw [← program_loads_inside_iff hops, ← hcode]
      exact fun packet ip => hall i _ _ htemp hget _ (by simp) packet ip
    · rw [← swapped_loads_inside_iff hops, ← hcode_le]
      exact fun packet ip => hall i _ _ htemp hget _ (by simp) packet ip
  · intro hall i temp_rule rule htemp hget code hmem packet ip
    obtain ⟨hops, hcode, hcode_be, hcode_le⟩ := hrule htemp hget
    obtain ⟨htagged, huntagged⟩ := hall temp_rule (List.mem_of_getElem? htemp)
    rw [← program_loads_inside_iff hops, ← hcode] at htagged
    rw [← swapped_loads_inside_iff hops, ← hcode_le] at huntagged
    simp only [List.mem_cons, List.not_mem_nil, or_false] at hmem
    rcases hmem with rfl | rfl | rfl
    · exact htagged packet ip
    · rw [hcode_be]
      exact htagged packet ip
    · exact huntagged packet ip

/-- A text with a field that ends at `2 ^ 32`. -/
def wrap_text : List Char :=
  "@protocol { endian = big } H { bytes[4294967295] pad; uint8 x; } @filter f { x = 1; }".toList

set_option maxRecDepth 100000 in
theorem wrap_text_parses : ∃ proto ∈ (pdef_parse_string wrap_text).1.protocol?,
    ∃ temp_rule ∈ (source_filters wrap_text)[0]?, ∃ rule ∈ (rules_of proto)[0]?,
    rule.bytecode.elems[0]? = some { opcode := .LOAD_U8, offset := 4294967295 } := by
  decide +kernel

/-- Its filter reads far outside the empty packet. -/
theorem wrap_text_reads_outside : ∃ proto, (pdef_parse_string wrap_text).1 = .accepted proto ∧
    ¬ LoadsInside wrap_text proto := by
  obtain ⟨proto, hproto, temp_rule, htemp, rule, hrule, hload⟩ := wrap_text_parses
  refine ⟨proto, ParseResult.protocol?_eq_some.mp hproto, fun hall => ?_⟩
  have hperforms : PerformsLoad ⟨[], by decide⟩ rule.bytecode.elems 0 :=
    ⟨{}, _, 1, _, .refl, rfl, hload, rfl, by decide⟩
  have hinside := (hall 0 temp_rule rule htemp hrule _ (by simp) _ _ hperforms).1 _ 1 _ hload rfl
  exact absurd hinside (by decide)

set_option maxRecDepth 100000 in
theorem wrap_text_loads_inside_iff : ∃ proto, (pdef_parse_string wrap_text).1 = .accepted proto ∧
    (LoadsInside wrap_text proto ↔ ∀ temp_rule ∈ source_filters wrap_text,
      Shielded tagged (exact_conditions wrap_text proto temp_rule) ∧
        Shielded untagged (exact_conditions wrap_text proto temp_rule)) := by
  obtain ⟨proto, hproto⟩ : ∃ proto, (pdef_parse_string wrap_text).1.protocol? = some proto :=
    Option.isSome_iff_exists.mp (by decide +kernel)
  have haccepted := ParseResult.protocol?_eq_some.mp hproto
  exact ⟨proto, haccepted, loads_inside_iff haccepted⟩

end RxNetCap.Runtime
