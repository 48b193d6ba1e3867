/-
Which filters are compiled, and against which struct.

The struct of a filter is the first one with a field that the first condition
names; the other conditions must find their fields in it. So a filter whose
conditions are all about one struct can be rejected all the same, when an
earlier struct has a field of that first name (`compiles_iff`).
-/
import RxNetCap.Pdef.Budget
import RxNetCap.Pdef.Program

set_option autoImplicit false

namespace RxNetCap.Pdef

open RxNetCap.Ledger RxNetCap.ErrState

variable {α β : Type}

/-! ## The struct of a filter -/

def HasField (s : StructDef) (path : CStr) : Prop := (find_field_by_path s path).isSome

/-- The struct has the fields of all conditions. -/
def Covers (s : StructDef) (temp_rule : TempFilterRule) : Prop :=
  ∀ cond ∈ temp_rule.conditions.elems, HasField s cond.field_name

/-- The first struct with the field of the first condition has them all. -/
def Targeted (structs : List StructDef) (temp_rule : TempFilterRule) : Prop :=
  ∃ s, target_struct structs temp_rule = some s ∧ Covers s temp_rule

/-- The number of instructions of a filter. -/
def program_size (temp_rule : TempFilterRule) : ℕ :=
  2 + (temp_rule.conditions.elems.map block_size).sum

/-! ## Running the compiler -/

section Compile

variable {P : Parser → Prop} {Q : α → Parser → Prop} {E : Stop → Parser → Prop}

theorem or_free_ends {x : ParseM α} (hE : ∀ e p h, E e p → E e { p with heap := h }) (ptr : ℕ)
    (hx : Triple P x Q E) : Triple P (or_free ptr x) Q E :=
  .tryCatch hx fun e => .bind (Q := fun _ => E e) (.modify fun p hp => hE e p _ hp) fun _ =>
    .throw fun _ hp => hp

theorem emit_ends {ins : Instruction} {code : Table Instruction × ℕ} (hcap : code.1.cap < 2 ^ 32)
    (hidx : code.2 < code.1.cap) :
    Triple P (emit ins code)
      (fun code' p => (code'.1.cap = code.1.cap ∧ code'.2 = code.2 + 1) ∧ P p) E := by
  obtain ⟨bytecode, idx⟩ := code
  refine .ite (fun hfull => absurd hidx (not_lt.mpr hfull)) fun _ => .pure fun p hp => ?_
  exact ⟨⟨rfl, u32_of_lt (Nat.lt_of_le_of_lt hidx hcap)⟩, hp⟩

theorem emit_in_ends (next_start fail_label : ℕ) (values : List ℕ) :
    ∀ {code : Table Instruction × ℕ}, code.1.cap < 2 ^ 32 →
      code.2 + 3 * values.length ≤ code.1.cap + 1 →
      Triple P (emit_in next_start fail_label values code)
        (fun code' p => code'.1.cap = code.1.cap ∧ P p) E := by
  induction values with
  | nil => intro code _ _; exact .pure fun p hp => ⟨rfl, hp⟩
  | cons value rest ih =>
    intro code hcap hroom
    rw [List.length_cons] at hroom
    cases rest with
    | nil =>
      refine .bind (emit_ends hcap (by simp at hroom; omega)) fun code1 => .of_fact ?_
      rintro ⟨hcap1, hidx1⟩
      refine (emit_ends (by omega) (by simp at hroom; omega)).after ?_
      rintro code2 p ⟨⟨hcap2, -⟩, hp⟩
      exact ⟨by omega, hp⟩
    | cons value' rest' =>
      rw [List.length_cons] at hroom ih
      refine .bind (emit_ends hcap (by omega)) fun code1 => .of_fact ?_
      rintro ⟨hcap1, hidx1⟩
      refine .bind (emit_ends (by omega) (by omega)) fun code2 => .of_fact ?_
      rintro ⟨hcap2, hidx2⟩
      refine .bind (emit_ends (by omega) (by omega)) fun code3 => .of_fact ?_
      rintro ⟨hcap3, hidx3⟩
      refine (ih (by omega) (by omega)).after ?_
      rintro code4 p ⟨hcap4, hp⟩
      exact ⟨by omega, hp⟩

theorem emit_not_in_ends (next_start fail_label : ℕ) (values : List ℕ) :
    ∀ {code : Table Instruction × ℕ}, code.1.cap < 2 ^ 32 →
      code.2 + 3 * values.length ≤ code.1.cap →
      Triple P (emit_not_in next_start fail_label values code)
        (fun code' p => code'.1.cap = code.1.cap ∧ P p) E := by
  induction values with
  | nil => intro code _ _; exact .pure fun p hp => ⟨rfl, hp⟩
  | cons value rest ih =>
    intro code hcap hroom
    rw [List.length_cons] at hroom
    refine .bind (emit_ends hcap (by omega)) fun code1 => .of_fact ?_
    rintro ⟨hcap1, hidx1⟩
    refine .bind (emit_ends (by omega) (by omega)) fun code2 => .of_fact ?_
    rintro ⟨hcap2, hidx2⟩
    refine .bind (emit_ends (by omega) (by omega)) fun code3 => .of_fact ?_
    rintro ⟨hcap3, hidx3⟩
    refine (ih (by omega) (by omega)).after ?_
    rintro code4 p ⟨hcap4, hp⟩
    exact ⟨by omega, hp⟩

theorem emit_comparison_ends (fail_label : ℕ) (cond : FilterCondition)
    {code : Table Instruction × ℕ} (hcap : code.1.cap < 2 ^ 32) (hroom : code.2 + 2 ≤ code.1.cap) :
    Triple P (emit_comparison fail_label cond code)
      (fun code' p => code'.1.cap = code.1.cap ∧ P p) E := by
  refine .bind (emit_ends hcap (by omega)) fun code1 => .of_fact ?_
  rintro ⟨hcap1, hidx1⟩
  refine (emit_ends (by omega) (by omega)).after ?_
  rintro code2 p ⟨⟨hcap2, -⟩, hp⟩
  exact ⟨by omega, hp⟩

/-- A condition takes the place that the first pass counted for it. -/
theorem emit_condition_ends {field : Field} {cond : FilterCondition} {start next_start fail_label : ℕ}
    {bytecode : Table Instruction} (hcond : HasOperands cond) (hcap : bytecode.cap < 2 ^ 32)
    (hroom : start + block_size cond ≤ bytecode.cap) :
    Triple P (emit_condition field cond start next_start fail_label bytecode)
      (fun bytecode' p => bytecode'.cap = bytecode.cap ∧ P p) E := by
  have hlist (h : cond.op = .IN ∨ cond.op = .NOT_IN) : 0 < cond.value_list.length :=
    List.length_pos_iff.mpr (hcond h)
  have hplace : start < bytecode.cap ∧
      (cond.op = .IN → start + 3 * cond.value_list.length ≤ bytecode.cap) ∧
      (cond.op = .NOT_IN → start + 1 + 3 * cond.value_list.length ≤ bytecode.cap) ∧
      (cond.op ≠ .IN → cond.op ≠ .NOT_IN → start + 3 ≤ bytecode.cap) := by
    rw [block_size] at hroom
    cases hop : cond.op <;> simp only [hop] at hroom hlist ⊢
    case IN =>
      have hpos := hlist (.inl trivial)
      exact ⟨by omega, fun _ => by omega, (absurd · (by decide)), fun h => absurd rfl h⟩
    case NOT_IN => exact ⟨by omega, (absurd · (by decide)), fun _ => by omega, fun _ h => absurd rfl h⟩
    all_goals exact ⟨by omega, (absurd · (by decide)), (absurd · (by decide)), fun _ _ => by omega⟩
  obtain ⟨hfirst, hin, hnot_in, hplain⟩ := hplace
  have hload : Triple P (emit (load_instruction field) (bytecode, start))
      (fun code p => (code.1.cap = bytecode.cap ∧ code.2 = start + 1) ∧ P p) E :=
    emit_ends hcap hfirst
  refine .bind hload fun code => .of_fact ?_
  rintro ⟨hcap2, hidx2⟩
  have hend {x : ParseM (Table Instruction × ℕ)}
      (hx : Triple P x (fun code' p => code'.1.cap = code.1.cap ∧ P p) E) :
      Triple P (x >>= fun code' => pure code'.1) (fun t p => t.cap = bytecode.cap ∧ P p) E := by
    refine .bind hx fun code' => .pure fun p hp => ?_
    exact ⟨by rw [hp.1, hcap2], hp.2⟩
  cases hop : cond.op
  case IN =>
    have h := hin hop
    exact hend (emit_in_ends _ _ _ (by omega) (by omega))
  case NOT_IN =>
    have h := hnot_in hop
    exact hend (emit_not_in_ends _ _ _ (by omega) (by omega))
  all_goals
    have h := hplain (by rw [hop]; decide) (by rw [hop]; decide)
    exact hend (emit_comparison_ends _ _ (by omega) (by omega))

theorem require_field_ends (hE : ∀ e p h, E e p → E e { p with heap := h }) {s : StructDef}
    {scratch : Scratch} {bytecode : Table Instruction} {path : CStr}
    (hwrong : ¬ HasField s path → ∀ text p, P p → E (.error (.message text)) p) :
    Triple P (require_field s scratch bytecode path) (fun _ => P) E := by
  unfold require_field
  unfold HasField at hwrong
  cases hfind : find_field_by_path s path with
  | some field => exact .pure fun p hp => hp
  | none =>
    have herror {text : String} : Triple P (parser_error text : ParseM Field) (fun _ => P) E :=
      .throw (hwrong (by rw [hfind]; exact Bool.false_ne_true) text)
    exact or_free_ends hE _ (or_free_ends hE _ (or_free_ends hE _ herror))

theorem emit_conditions_ends (hE : ∀ e p h, E e p → E e { p with heap := h }) (s : StructDef)
    (scratch : Scratch) (success_label fail_label : ℕ) (conds : List FilterCondition) :
    ∀ {start : ℕ} {bytecode : Table Instruction}, (∀ c ∈ conds, HasOperands c) →
      bytecode.cap < 2 ^ 32 → start + (conds.map block_size).sum ≤ bytecode.cap →
      (∀ c ∈ conds, ¬ HasField s c.field_name → ∀ text p, P p → E (.error (.message text)) p) →
      Triple P (emit_conditions s scratch success_label fail_label conds
        (cond_starts start (conds.map fun c => u32 (block_size c))) bytecode)
        (fun _ => P) E := by
  induction conds with
  | nil => intro start bytecode _ _ _ _; exact .pure fun p hp => hp
  | cons cond rest ih =>
    intro start bytecode hops hcap hroom hwrong
    rw [List.map_cons, List.sum_cons] at hroom
    have hsize : u32 (start + u32 (block_size cond)) = start + block_size cond := by
      rw [u32_of_lt (n := block_size cond) (by omega), u32_of_lt (by omega)]
    rw [List.map_cons, cond_starts, hsize]
    refine .bind (require_field_ends hE (hwrong cond List.mem_cons_self)) fun field => ?_
    refine .bind (emit_condition_ends (hops cond List.mem_cons_self) hcap (by omega)) fun code =>
      .of_fact fun hcode => ?_
    exact ih (fun c hc => hops c (List.mem_cons_of_mem _ hc)) (by omega) (by omega)
      fun c hc => hwrong c (List.mem_cons_of_mem _ hc)

theorem cond_size_none {cond : FilterCondition} (h : cond_size cond = none) : ¬ HasOperands cond := by
  unfold cond_size at h
  unfold HasOperands
  cases hop : cond.op <;> simp only [hop, reduceCtorEq] at h ⊢
  all_goals
    split at h
    · rename_i hz
      exact fun hne => hne (by simp) (List.length_eq_zero_iff.mp hz)
    · cases h

theorem size_conditions_ends (hE : ∀ e p h, E e p → E e { p with heap := h }) (rule_name : CStr)
    (ptr : ℕ) (conds : List FilterCondition) : ∀ (sizes : List ℕ) (total : ℕ),
    (∀ c ∈ conds, ¬ HasOperands c → ∀ text p, P p → E (.error (.message text)) p) →
    Triple P (size_conditions rule_name ptr conds sizes total) (fun _ => P) E := by
  induction conds with
  | nil => intro sizes total _; exact .pure fun p hp => hp
  | cons cond rest ih =>
    intro sizes total hwrong
    unfold size_conditions
    cases hsize : cond_size cond with
    | none => exact or_free_ends hE _ (.throw (hwrong cond List.mem_cons_self (cond_size_none hsize) _))
    | some size => exact ih _ _ fun c hc => hwrong c (List.mem_cons_of_mem _ hc)

/-- **A filter over a struct that has its fields is compiled**: the two passes
agree on the places, and where the compiler stops the filter is at fault. -/
theorem compile_filter_rule_ends (hheap : HeapFree P)
    (hE : ∀ e p h, E e p → E e { p with heap := h }) {structs : List StructDef}
    (hstructs : ∀ p, P p → p.temp_structs.elems = structs) {temp_rule : TempFilterRule}
    (hsmall : program_size temp_rule < 2 ^ 32)
    (hwrong : ¬ (Targeted structs temp_rule ∧ ∀ c ∈ temp_rule.conditions.elems, HasOperands c) →
      ∀ text p, P p → E (.error (.message text)) p) :
    Triple P (compile_filter_rule temp_rule) (fun _ => P) E := by
  have hconsult {f : Parser → ℕ} {x : ParseM FilterRule} (hx : Triple P x (fun _ => P) E) :
      Triple P (get >>= fun p => consult (f p) >>= fun _ => x) (fun _ => P) E := by
    refine .get_bind fun p hp => .bind (Q := fun _ => P) ?_ fun _ => hx
    rintro _ rfl
    exact hheap _ _ hp
  refine hconsult (.bind (hheap.consult _) fun _ => hconsult (.get_bind fun p hp => ?_))
  refine .before (T := P) (fun q hq => hq ▸ hp) ?_
  rw [hstructs p hp]
  cases htarget : target_struct structs temp_rule with
  | none =>
    refine .throw (hwrong ?_ _)
    rintro ⟨⟨s, hs, -⟩, -⟩
    rw [htarget] at hs
    cases hs
  | some s =>
    refine .bind (hheap.consult _) fun _ => .bind hheap.malloc fun sizes_ptr => ?_
    refine .of_each fun q hq => ?_
    have hsized := (size_conditions_ends hE temp_rule.name sizes_ptr temp_rule.conditions.elems [] 2
      fun c hc hnot => hwrong fun h => hnot (h.2 c hc)).before (P := (· = q)) (fun r hr => hr ▸ hq)
    refine .bind hsized.returning fun sized => ?_
    rintro r ⟨hreturned, hr⟩
    obtain ⟨cond_sizes, total_size⟩ := sized
    obtain ⟨-, hops, hsizes, htotal⟩ := size_conditions_ok _ hreturned
    rw [program_size] at hsmall
    have hsum : total_size = 2 + (temp_rule.conditions.elems.map block_size).sum := by
      rw [htotal (by omega), u32_of_lt (by omega)]
    rw [List.nil_append] at hsizes
    subst hsizes
    have hfields : ∀ c ∈ temp_rule.conditions.elems, ¬ HasField s c.field_name → ∀ text p, P p →
        E (.error (.message text)) p := fun c hc hnot => hwrong <| by
      rintro ⟨⟨s', hs', hcovers⟩, -⟩
      rw [htarget, Option.some.injEq] at hs'
      exact hnot (hs' ▸ hcovers c hc)
    have hrest : Triple P (calloc_code total_size >>= fun bytecode => malloc >>= fun starts_ptr =>
        emit_conditions s { cond_sizes := sizes_ptr, cond_starts := starts_ptr } (total_size - 2)
          (total_size - 1) temp_rule.conditions.elems
          (cond_starts 0 (temp_rule.conditions.elems.map fun c => u32 (block_size c))) bytecode >>=
        fun bytecode => calloc_code total_size >>= fun bytecode_le => free sizes_ptr >>= fun _ =>
        free starts_ptr >>= fun _ => pure
          (let bytecode := emit_returns total_size (total_size - 2) (total_size - 1) bytecode
          { name := cstr 64 temp_rule.name
            struct_name := s.name
            bytecode := bytecode
            bytecode_be := bytecode
            bytecode_le := { bytecode_le with elems := bytecode.elems.map swap_endian }
            min_packet_size := s.min_size
            sliding_window := temp_rule.sliding_window
            sliding_max_offset := temp_rule.sliding_max_offset : FilterRule })) (fun _ => P) E := by
      have hcode (n : ℕ) : Triple P (calloc_code n) (fun t p => t.cap = n ∧ P p) E :=
        .bind hheap.malloc fun _ => .pure fun p hp => ⟨rfl, hp⟩
      refine .bind (hcode _) fun bytecode => .of_fact fun hcap => .bind hheap.malloc fun starts_ptr => ?_
      refine .bind (emit_conditions_ends hE _ _ _ _ _ hops (by omega) (by omega) hfields)
        fun bytecode' => ?_
      refine .bind (hcode _) fun bytecode_le => .of_fact fun _ => ?_
      exact .bind (hheap.free _) fun _ => .bind (hheap.free _) fun _ => .pure fun p hp => hp
    exact hrest r hr

end Compile

/-! ## Which filters are compiled -/

/-- All conditions are about fields of one struct. -/
def Common (structs : List StructDef) (temp_rule : TempFilterRule) : Prop :=
  ∃ s ∈ structs, Covers s temp_rule

/-- The filter is accepted, and compiled against a struct with all its fields. -/
def CompilesOver (p : Parser) (temp_rule : TempFilterRule) : Prop :=
  ∃ rule q s bs, compile_filter_rule temp_rule p = .ok rule q ∧ s ∈ p.temp_structs.elems ∧
    Covers s temp_rule ∧ CompiledTo p.temp_structs.elems temp_rule s bs rule

theorem WellFormed.operands {cond : FilterCondition} (h : WellFormed cond) : HasOperands cond :=
  fun hop => h.nonempty (h.list_op.mpr hop)

theorem target_mem {structs : List StructDef} {temp_rule : TempFilterRule} {s : StructDef}
    (h : target_struct structs temp_rule = some s) : s ∈ structs := by
  unfold target_struct at h
  split at h
  · cases h
  · exact List.mem_of_find?_eq_some h

theorem CompiledTo.program_size {structs : List StructDef} {temp_rule : TempFilterRule}
    {s : StructDef} {bs : List Bound} {rule : FilterRule}
    (h : CompiledTo structs temp_rule s bs rule) : program_size temp_rule < 2 ^ 32 := by
  have hsum : blocks_size bs = (temp_rule.conditions.elems.map block_size).sum := by
    rw [← bind_conditions_map_snd h.bound, List.map_map]
    rfl
  have hfits := h.fits
  rw [program_length h.operands, hsum] at hfits
  rw [Pdef.program_size]
  omega

/-- A filter whose first struct has all fields is compiled over it. -/
theorem Targeted.compiles {p : Parser} {temp_rule : TempFilterRule}
    (h : Targeted p.temp_structs.elems temp_rule)
    (hops : ∀ c ∈ temp_rule.conditions.elems, HasOperands c)
    (hsmall : program_size temp_rule < 2 ^ 32) : CompilesOver p temp_rule := by
  have hends : Triple (fun q => q.temp_structs.elems = p.temp_structs.elems)
      (compile_filter_rule temp_rule) (fun _ q => q.temp_structs.elems = p.temp_structs.elems)
      (fun _ _ => False) :=
    compile_filter_rule_ends (fun _ _ hq => hq) (fun _ _ _ he => he) (fun _ hq => hq) hsmall
      fun hnot => absurd ⟨h, hops⟩ hnot
  have hrun := hends p rfl
  cases hcase : compile_filter_rule temp_rule p with
  | error e q =>
    rw [hcase] at hrun
    exact hrun.elim
  | ok rule q =>
    obtain ⟨s, bs, hcompiled, -⟩ := compile_filter_rule_ok hcase
    obtain ⟨s', htarget, hcovers⟩ := h
    obtain rfl := Option.some.inj (htarget.symm.trans hcompiled.target)
    exact ⟨rule, q, s', bs, hcase, target_mem htarget, hcovers, hcompiled⟩

/-- **When a filter over one struct is compiled**: exactly if the first struct
that has the field of its first condition has all its fields, and the program
has less than `2 ^ 32` instructions. -/
theorem compiles_iff {p : Parser} {temp_rule : TempFilterRule}
    (hconds : ∀ c ∈ temp_rule.conditions.elems, WellFormed c) :
    (Common p.temp_structs.elems temp_rule → CompilesOver p temp_rule) ↔
      (Common p.temp_structs.elems temp_rule →
        Targeted p.temp_structs.elems temp_rule ∧ program_size temp_rule < 2 ^ 32) := by
  constructor
  · intro h hcommon
    obtain ⟨rule, q, s, bs, -, -, hcovers, hcompiled⟩ := h hcommon
    exact ⟨⟨s, hcompiled.target, hcovers⟩, hcompiled.program_size⟩
  · intro h hcommon
    obtain ⟨htargeted, hsmall⟩ := h hcommon
    exact htargeted.compiles (fun c hc => (hconds c hc).operands) hsmall

def struct_of (name : CStr) (fields : List Field) : StructDef :=
  { name := name, fields := { ptr := 0, cap := 16, elems := fields }, min_size := fields.length }

/-- A state in which `short` with the field `x` is declared before `long` with
`x` and `y`. -/
def short_first : Parser :=
  { parser_init [] with temp_structs :=
      { ptr := 0, cap := 16, elems := [struct_of "short".toList [{ name := "x".toList }],
        struct_of "long".toList [{ name := "x".toList }, { name := "y".toList, offset := 1 }]] } }

def equals_one (field_name : CStr) : FilterCondition :=
  { field_name := field_name, op := .EQ, value := 1 }

def filter_on (fields : List CStr) : TempFilterRule :=
  { name := "F".toList, conditions := { ptr := 0, cap := 8, elems := fields.map equals_one } }

theorem filter_on_wellFormed (fields : List CStr) :
    ∀ c ∈ (filter_on fields).conditions.elems, WellFormed c := by
  intro c hc
  obtain ⟨field_name, -, rfl⟩ := List.mem_map.mp hc
  exact ⟨by simp [equals_one], nofun⟩

/-- Started with `y`, the filter is compiled over `long`. -/
theorem y_first_compiles : CompilesOver short_first (filter_on ["y".toList, "x".toList]) := by
  have hcommon : Common short_first.temp_structs.elems (filter_on ["y".toList, "x".toList]) := by
    refine ⟨_, List.mem_cons_of_mem _ List.mem_cons_self, ?_⟩
    unfold Covers HasField
    decide
  refine (compiles_iff (filter_on_wellFormed _)).mpr (fun _ => ⟨⟨_, rfl, ?_⟩, by decide⟩) hcommon
  unfold Covers HasField
  decide

/-- Started with `x`, it is not. -/
theorem x_first_rejected : ∃ p temp_rule, (∀ c ∈ temp_rule.conditions.elems, WellFormed c) ∧
    Common p.temp_structs.elems temp_rule ∧ ¬ CompilesOver p temp_rule := by
  refine ⟨short_first, filter_on ["x".toList, "y".toList], filter_on_wellFormed _, ?_, ?_⟩
  · refine ⟨_, List.mem_cons_of_mem _ List.mem_cons_self, ?_⟩
    unfold Covers HasField
    decide
  · rintro ⟨rule, q, s, bs, -, -, hcovers, hcompiled⟩
    have htarget : target_struct short_first.temp_structs.elems (filter_on ["x".toList, "y".toList])
        = some (struct_of "short".toList [{ name := "x".toList }]) := by decide
    obtain rfl := Option.some.inj (htarget.symm.trans hcompiled.target)
    have hy : HasField (struct_of "short".toList [{ name := "x".toList }]) "y".toList :=
      hcovers (equals_one "y".toList) (by simp [filter_on])
    revert hy
    unfold HasField
    decide

end RxNetCap.Pdef
