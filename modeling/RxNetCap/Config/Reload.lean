/-
Reloading the strategy file while it is edited: `reload_mgr` of
`src/core/legacy_core.h` over two objects of `CRxStrategyConfigManager`, from
`src/rxstrategyconfig.cpp`.

A load reads the text and asks for the modification time only afterwards, so an
edit between the two is recorded as loaded though its text was not read
(`edit_missed`). As long as no edit falls there and the time is known and
positive, an answer that no reload is needed means that the current settings are
those of the text in the file (`reload_keeps_up`). A load that fails changes
nothing, with or without that.

The fields of an object are copied from the temporary object in one event, and a
call of `load` or `reload` ends before the next one starts, as one thread makes
them.
-/
import RxNetCap.Config.Strategy
import RxNetCap.Lib.Sides
import RxNetCap.Lib.Trace

set_option autoImplicit false

namespace RxNetCap.Config

open RxNetCap.JsonText RxNetCap.Pdef RxNetCap.Sides RxNetCap.Trace

/-! ## Objects, file and calls -/

structure CRxStrategyConfigManager where
  strategy : Strategy := {}
  config_path : CStr
  last_load_time : ℤ := 0

structure reload_mgr where
  objects : Fin 2 → CRxStrategyConfigManager
  curr : Fin 2 := 0

def reload_mgr.current (mgr : reload_mgr) : CRxStrategyConfigManager := mgr.objects mgr.curr

structure StrategyFile where
  content : CStr
  mtime : ℤ
  deriving DecidableEq, Repr

/-- A call of `load` or `reload` that has read and parsed the text: the object
that it is for, and the temporary one, the time of which is asked last. -/
structure LoadCall where
  reload : Bool
  strategy : Strategy
  last_load_time : Option ℤ := none

structure Reloading where
  file : StrategyFile
  mgr : reload_mgr
  call : Option LoadCall := none

inductive ReloadEvent where
  /-- the file gets another text -/
  | edit (content : CStr) (mtime : ℤ)
  /-- `load` or `reload` reads and parses the text, where the file can be opened -/
  | read (reload opened : Bool)
  /-- it asks for the modification time -/
  | query_mod_time (found : Bool)
  /-- it copies the settings; `reload` makes the object that gets them the current one -/
  | switch
  | need_reload (found answer : Bool)
  deriving DecidableEq

/-- -1 when the file is not found. -/
def query_mod_time (file : StrategyFile) (found : Bool) : ℤ := if found then file.mtime else -1

def CRxStrategyConfigManager.need_reload (cfg : CRxStrategyConfigManager) (file : StrategyFile)
    (found : Bool) : Bool :=
  if cfg.config_path = [] then false
  else query_mod_time file found > 0 && query_mod_time file found != cfg.last_load_time

/-- The object of a call gets its settings. -/
def reload_mgr.finish (mgr : reload_mgr) (call : LoadCall) (last_load_time : ℤ) : reload_mgr :=
  let i := if call.reload then 1 - mgr.curr else mgr.curr
  { objects := Function.update mgr.objects i
      { mgr.objects i with strategy := call.strategy, last_load_time }
    curr := i }

section Step

variable (parse : CStr → Option Json) (server_config : Option CRxServerConfig)

def Reloading.step (s : Reloading) : ReloadEvent → Option Reloading
  | .edit content mtime =>
    if s.file.mtime < mtime then some { s with file := { content, mtime } } else none
  | .read reload opened =>
    match s.call with
    | none =>
      if s.mgr.current.config_path = [] ∨ opened = false then some s
      else
        match strategy_of parse server_config s.file.content with
        | some strategy => some { s with call := some { reload, strategy } }
        | none => some s
    | some _ => none
  | .query_mod_time found =>
    match s.call with
    | some call =>
      match call.last_load_time with
      | none => some { s with
          call := some { call with last_load_time := some (query_mod_time s.file found) } }
      | some _ => none
    | none => none
  | .switch =>
    match s.call with
    | some call =>
      match call.last_load_time with
      | some last_load_time => some { s with mgr := s.mgr.finish call last_load_time, call := none }
      | none => none
    | none => none
  | .need_reload found answer =>
    if s.mgr.current.need_reload s.file found = answer then some s else none

/-- Two new objects for the file. -/
def Reloading.init (config_path : CStr) (file : StrategyFile) : Reloading where
  file
  mgr := { objects := fun _ => { config_path } }

/-- The state after a history. -/
def Reloading.run (config_path : CStr) (file : StrategyFile) (events : List ReloadEvent) :
    Option Reloading :=
  Trace.run (Reloading.step parse server_config) (Reloading.init config_path file) events

end Step

/-! ## Edits at the right time -/

/-- No edit comes between reading the text and asking for its time, and an answer
on reloading is given from a positive time of the file. -/
def Reloading.InTime (s : Reloading) : ReloadEvent → Prop
  | .edit _ _ => ∀ call ∈ s.call, call.last_load_time ≠ none
  | .need_reload found _ => found = true ∧ 0 < s.file.mtime
  | _ => True

instance (s : Reloading) : (e : ReloadEvent) → Decidable (s.InTime e)
  | .edit _ _ => inferInstanceAs (Decidable (∀ call ∈ s.call, call.last_load_time ≠ none))
  | .read _ _ => isTrue trivial
  | .query_mod_time _ => isTrue trivial
  | .switch => isTrue trivial
  | .need_reload found _ => inferInstanceAs (Decidable (found = true ∧ 0 < s.file.mtime))

section Invariant

variable {parse : CStr → Option Json} {server_config : Option CRxServerConfig}
variable {s s' : Reloading} {e : ReloadEvent}

/-- If a time is that of the file, the settings are those of its text. -/
structure Covers (parse : CStr → Option Json) (server_config : Option CRxServerConfig)
    (file : StrategyFile) (strategy : Strategy) (time : ℤ) : Prop where
  past : 0 < time → time ≤ file.mtime
  same : 0 < time → time = file.mtime → strategy_of parse server_config file.content = some strategy

/-- What is kept: the current object, and the temporary one of a call, have the
settings of the text that was there at the time that they record. -/
structure UpToDate (parse : CStr → Option Json) (server_config : Option CRxServerConfig)
    (s : Reloading) : Prop where
  current : Covers parse server_config s.file s.mgr.current.strategy s.mgr.current.last_load_time
  reading : ∀ call, s.call = some call → call.last_load_time = none →
    strategy_of parse server_config s.file.content = some call.strategy
  stamped : ∀ call time, s.call = some call → call.last_load_time = some time →
    Covers parse server_config s.file call.strategy time

/-- An edit comes later than all times that are recorded. -/
theorem Covers.edit {file : StrategyFile} {strategy : Strategy} {time : ℤ}
    (h : Covers parse server_config file strategy time) {content : CStr} {mtime : ℤ}
    (hlater : file.mtime < mtime) : Covers parse server_config { content, mtime } strategy time := by
  refine ⟨fun hpos => (h.past hpos).trans hlater.le, fun hpos hsame => ?_⟩
  have hpast := h.past hpos
  change time = mtime at hsame
  omega

theorem query_mod_time_le {file : StrategyFile} {found : Bool} (h : 0 < query_mod_time file found) :
    query_mod_time file found ≤ file.mtime := by
  cases found with
  | true => exact le_rfl
  | false =>
    rw [query_mod_time, if_neg Bool.false_ne_true] at h
    omega

theorem finish_current (mgr : reload_mgr) (call : LoadCall) (time : ℤ) :
    (mgr.finish call time).current.strategy = call.strategy ∧
      (mgr.finish call time).current.last_load_time = time := by
  simp [reload_mgr.finish, reload_mgr.current]

theorem finish_path (mgr : reload_mgr) (call : LoadCall) (time : ℤ) (i : Fin 2) :
    ((mgr.finish call time).objects i).config_path = (mgr.objects i).config_path := by
  by_cases hi : i = if call.reload then 1 - mgr.curr else mgr.curr
  · simp [reload_mgr.finish, ← hi]
  · simp [reload_mgr.finish, hi]

/-- What reading the text can do. -/
theorem step_read {reload opened : Bool} (h : s.step parse server_config (.read reload opened) = some s') :
    s.call = none ∧ (s' = s ∨ ∃ strategy, opened = true ∧
      strategy_of parse server_config s.file.content = some strategy ∧
      s' = { s with call := some { reload, strategy } }) := by
  simp only [Reloading.step] at h
  split at h
  · next hcall =>
    refine ⟨hcall, ?_⟩
    split at h
    · exact .inl (Option.some.inj h).symm
    · next hopened =>
      split at h
      · next strategy hstrategy =>
        exact .inr ⟨strategy, by simpa using (not_or.mp hopened).2, hstrategy, (Option.some.inj h).symm⟩
      · exact .inl (Option.some.inj h).symm
  · cases h

/-- A read that fails changes nothing. -/
theorem failed_read {reload opened : Bool} (h : s.step parse server_config (.read reload opened) = some s')
    (hfails : opened = false ∨ strategy_of parse server_config s.file.content = none) : s' = s := by
  rcases (step_read h).2 with hsame | ⟨strategy, hopened, hstrategy, -⟩
  · exact hsame
  · rcases hfails with hclosed | hnone
    · rw [hopened] at hclosed
      cases hclosed
    · rw [hstrategy] at hnone
      cases hnone

theorem step_query {found : Bool} (h : s.step parse server_config (.query_mod_time found) = some s') :
    ∃ call, s.call = some call ∧ call.last_load_time = none ∧
      s' = { s with call := some { call with last_load_time := some (query_mod_time s.file found) } } := by
  simp only [Reloading.step] at h
  split at h
  · next call hcall =>
    split at h
    · next hnone => exact ⟨call, hcall, hnone, (Option.some.inj h).symm⟩
    · cases h
  · cases h

theorem step_switch (h : s.step parse server_config .switch = some s') :
    ∃ call time, s.call = some call ∧ call.last_load_time = some time ∧
      s' = { s with mgr := s.mgr.finish call time, call := none } := by
  simp only [Reloading.step] at h
  split at h
  · next call hcall =>
    split at h
    · next time htime => exact ⟨call, time, hcall, htime, (Option.some.inj h).symm⟩
    · cases h
  · cases h

/-- Only the switch changes the objects. -/
theorem step_mgr (h : s.step parse server_config e = some s') (hswitch : e ≠ .switch) : s'.mgr = s.mgr := by
  cases e with
  | edit content mtime =>
    obtain ⟨-, hs'⟩ := Option.ite_none_right_eq_some.mp h
    cases hs'
    rfl
  | read reload opened =>
    rcases (step_read h).2 with rfl | ⟨_, -, -, rfl⟩ <;> rfl
  | query_mod_time found =>
    obtain ⟨_, -, -, rfl⟩ := step_query h
    rfl
  | switch => exact absurd rfl hswitch
  | need_reload found answer =>
    obtain ⟨-, hs'⟩ := Option.ite_none_right_eq_some.mp h
    cases hs'
    rfl

theorem UpToDate.init (config_path : CStr) (file : StrategyFile) :
    UpToDate parse server_config (Reloading.init config_path file) := by
  have htime : (Reloading.init config_path file).mgr.current.last_load_time = 0 := rfl
  have hcall : (Reloading.init config_path file).call = none := rfl
  refine ⟨⟨fun hpos => ?_, fun hpos => ?_⟩, fun call hsome => ?_, fun call time hsome => ?_⟩
  · rw [htime] at hpos
    exact absurd hpos (lt_irrefl 0)
  · rw [htime] at hpos
    exact absurd hpos (lt_irrefl 0)
  · rw [hcall] at hsome
    cases hsome
  · rw [hcall] at hsome
    cases hsome

theorem UpToDate.step (hs : UpToDate parse server_config s) (hin : s.InTime e)
    (h : s.step parse server_config e = some s') : UpToDate parse server_config s' := by
  cases e with
  | edit content mtime =>
    obtain ⟨hlater, hs'⟩ := Option.ite_none_right_eq_some.mp h
    cases hs'
    exact {
      current := hs.current.edit hlater
      reading := fun call hcall hnone => absurd hnone (hin call hcall)
      stamped := fun call time hcall htime => (hs.stamped call time hcall htime).edit hlater }
  | read reload opened =>
    obtain ⟨-, rfl | ⟨strategy, -, hstrategy, rfl⟩⟩ := step_read h
    · exact hs
    · refine ⟨hs.current, fun call hcall _ => ?_, fun call time hcall htime => ?_⟩
      · obtain rfl := Option.some.inj hcall
        exact hstrategy
      · obtain rfl := Option.some.inj hcall
        cases htime
  | query_mod_time found =>
    obtain ⟨call, hcall, hnone, rfl⟩ := step_query h
    have hread := hs.reading call hcall hnone
    refine ⟨hs.current, fun call' hcall' hnone' => ?_, fun call' time hcall' htime => ?_⟩
    · obtain rfl := Option.some.inj hcall'
      cases hnone'
    · obtain rfl := Option.some.inj hcall'
      obtain rfl := Option.some.inj htime
      exact ⟨fun hpos => query_mod_time_le hpos, fun _ _ => hread⟩
  | switch =>
    obtain ⟨call, time, hcall, htime, rfl⟩ := step_switch h
    obtain ⟨hstrategy, hlast⟩ := finish_current s.mgr call time
    refine ⟨?_, fun call' hnone => ?_, fun call' time' hnone => ?_⟩
    · rw [hstrategy, hlast]
      exact hs.stamped call time hcall htime
    · cases hnone
    · cases hnone
  | need_reload found answer =>
    obtain ⟨-, hs'⟩ := Option.ite_none_right_eq_some.mp h
    cases hs'
    exact hs

/-- An answer that no reload is needed, given in time. -/
theorem UpToDate.answer (hs : UpToDate parse server_config s) (hpath : s.mgr.current.config_path ≠ [])
    (htime : 0 < s.file.mtime) (h : s.step parse server_config (.need_reload true false) = some s') :
    strategy_of parse server_config s.file.content = some s.mgr.current.strategy := by
  obtain ⟨hanswer, -⟩ := Option.ite_none_right_eq_some.mp h
  rw [CRxStrategyConfigManager.need_reload, if_neg hpath, query_mod_time, if_pos rfl] at hanswer
  have hlast : s.file.mtime = s.mgr.current.last_load_time := by simpa [htime] using hanswer
  exact hs.current.same (hlast ▸ htime) hlast.symm

end Invariant

section Run

variable {parse : CStr → Option Json} {server_config : Option CRxServerConfig}
variable {config_path : CStr} {file : StrategyFile} {events : List ReloadEvent} {s : Reloading}

/-- The objects keep the path that they were made with. -/
theorem run_path (h : Reloading.run parse server_config config_path file events = some s) :
    ∀ i, (s.mgr.objects i).config_path = config_path := by
  refine run_induction (P := fun _ s => ∀ i, (s.mgr.objects i).config_path = config_path)
    (fun _ => rfl) ?_ h
  intro events s e s' _ hs hstep i
  by_cases hswitch : e = .switch
  · subst hswitch
    obtain ⟨call, time, -, -, rfl⟩ := step_switch hstep
    exact (finish_path s.mgr call time i).trans (hs i)
  · rw [step_mgr hstep hswitch]
    exact hs i

/-- **Reloading keeps up with the edits** that come in time: whenever the answer is
that no reload is needed, the settings are those of the text in the file. A read
that fails changes nothing, and nothing but the switch changes the objects. -/
theorem reload_keeps_up (h : Reloading.run parse server_config config_path file events = some s)
    (hpath : config_path ≠ [])
    (hin : Along (Reloading.step parse server_config) Reloading.InTime
      (Reloading.init config_path file) events) :
    (∀ before found after s1, events = before ++ .need_reload found false :: after →
      Reloading.run parse server_config config_path file before = some s1 →
      strategy_of parse server_config s1.file.content = some s1.mgr.current.strategy) ∧
    (∀ before reload opened after s1 s2, events = before ++ .read reload opened :: after →
      Reloading.run parse server_config config_path file before = some s1 →
      Reloading.run parse server_config config_path file (before ++ [.read reload opened]) = some s2 →
      (opened = false ∨ strategy_of parse server_config s1.file.content = none) → s2 = s1) ∧
    (∀ before e after s1 s2, events = before ++ e :: after → e ≠ .switch →
      Reloading.run parse server_config config_path file before = some s1 →
      Reloading.run parse server_config config_path file (before ++ [e]) = some s2 → s2.mgr = s1.mgr) := by
  refine ⟨?_, ?_, ?_⟩
  · rintro before found after s1 rfl h1
    obtain ⟨hbefore, hafter⟩ := along_append.mp hin
    have hs1 : UpToDate parse server_config s1 :=
      run_along (I := fun _ s => UpToDate parse server_config s) (UpToDate.init config_path file)
        (fun _ _ _ _ hs he hstep => hs.step he hstep) hbefore h1
    obtain ⟨⟨rfl, htime⟩, -⟩ := hafter s1 h1
    obtain ⟨s1', h1', hrest⟩ := run_front h
    obtain rfl := Option.some.inj (h1.symm.trans h1')
    obtain ⟨s2, hstep, -⟩ := run_cons.mp hrest
    refine hs1.answer ?_ htime hstep
    rw [reload_mgr.current, run_path h1]
    exact hpath
  · rintro before reload opened after s1 s2 rfl h1 h2 hfails
    obtain ⟨s1', h1', hstep⟩ := run_concat.mp h2
    obtain rfl := Option.some.inj (h1.symm.trans h1')
    exact failed_read hstep hfails
  · rintro before e after s1 s2 rfl hswitch h1 h2
    obtain ⟨s1', h1', hstep⟩ := run_concat.mp h2
    obtain rfl := Option.some.inj (h1.symm.trans h1')
    exact step_mgr hstep hswitch

end Run

/-! ## An edit at the wrong time -/

/-- An object without members. -/
def empty_text : CStr := "\x7b\x7d".toList

/-- A text that sets a threshold. -/
def cpu_text : CStr := "\x7b\"sample\":\x7b\"cpu_pct_gt\":50\x7d\x7d".toList

/-- The two texts as they are parsed. -/
def parse_texts (text : CStr) : Option Json :=
  if text = empty_text then some (.object [])
  else if text = cpu_text then
    some (.object [("sample".toList, .object [("cpu_pct_gt".toList, .number "50".toList)])])
  else none

/-- The file is edited while it is loaded for the first time. -/
def edited_while_loading : List ReloadEvent :=
  [.read false true, .edit cpu_text 6, .query_mod_time true, .switch]

theorem edited_while_loading_runs :
    (Reloading.run parse_texts none "strategy.json".toList { content := empty_text, mtime := 5 }
        edited_while_loading).map
      (fun s => (s.file, s.mgr.current.need_reload s.file true, s.mgr.current.strategy.thresholds))
      = some ({ content := cpu_text, mtime := 6 }, false, {}) := by
  decide +kernel

theorem cpu_text_thresholds : (strategy_of parse_texts none cpu_text).map Strategy.thresholds
    = some { cpu_pct_gt := 50 } := by
  decide +kernel

/-- **An edit is missed.** No reload is needed then, though the settings are those
of the text before the edit. -/
theorem edit_missed : ∃ s, Reloading.run parse_texts none "strategy.json".toList
      { content := empty_text, mtime := 5 } edited_while_loading = some s ∧
    s.step parse_texts none (.need_reload true false) = some s ∧
    strategy_of parse_texts none s.file.content ≠ some s.mgr.current.strategy := by
  obtain ⟨s, hrun, hs⟩ := Option.map_eq_some_iff.mp edited_while_loading_runs
  obtain ⟨hfile, hs⟩ := Prod.mk.inj hs
  obtain ⟨hanswer, hthresholds⟩ := Prod.mk.inj hs
  refine ⟨s, hrun, if_pos hanswer, fun hsame => ?_⟩
  have hcpu := cpu_text_thresholds
  rw [hfile] at hsame
  rw [hsame, Option.map_some, hthresholds] at hcpu
  exact absurd hcpu (by decide)

/-- The same edit after the load, and another load. -/
def edited_after_loading : List ReloadEvent :=
  [.read false true, .query_mod_time true, .switch, .edit cpu_text 6, .need_reload true true,
    .read true true, .query_mod_time true, .switch, .need_reload true false]

/-- Then the settings are those of the text after the edit. -/
theorem edit_kept : ∃ s, Reloading.run parse_texts none "strategy.json".toList
      { content := empty_text, mtime := 5 } edited_after_loading = some s ∧
    ∀ before found after s1, edited_after_loading = before ++ .need_reload found false :: after →
      Reloading.run parse_texts none "strategy.json".toList { content := empty_text, mtime := 5 } before
        = some s1 →
      strategy_of parse_texts none s1.file.content = some s1.mgr.current.strategy := by
  have hruns : (Reloading.run parse_texts none "strategy.json".toList { content := empty_text, mtime := 5 }
      edited_after_loading).isSome := by decide +kernel
  obtain ⟨s, hrun⟩ := Option.isSome_iff_exists.mp hruns
  exact ⟨s, hrun, (reload_keeps_up hrun (by decide) (by decide +kernel)).1⟩

end RxNetCap.Config
