/-
The objects of a thread: `common_obj_container` and `common_epoll::epoll_wait` of
`src/core/legacy_core_net.cpp`.

A round of `obj_process` has three parts: the objects of `_obj_net_map`, those
with events on their sockets, and those whose timers are due. At the end of each
part the objects whose handlers have thrown are destroyed and taken out, the
last part by their id.

The watch on a channel is a timer for `OBJ_ID_DOMAIN`, an id that no object has
(`watch_unheard`), so `_obj_net_map` stays empty, and an object is destroyed once,
when it leaves (`destroyed_once`). An id goes to one object at a time and comes
again only when all others have been given, so a message does not reach another
object than the one it is for (`reaches_its_object`).

The source keeps no numbers of objects; here an object is the number of its
`insert`.
-/
import RxNetCap.Lib.Rotation
import RxNetCap.Lib.Tally
import RxNetCap.Core.Timer

set_option autoImplicit false

namespace RxNetCap.Core

open RxNetCap.Trace RxNetCap.Tally

/-! ## Ids -/

def OBJ_ID_THREAD : ℕ := 1

def OBJ_ID_DOMAIN : ℕ := 2

def OBJ_ID_BEGIN : ℕ := 1000

def NONE_CHANNEL_EVENT_TIMER_TYPE : ℕ := 7

def MAX_CHANNEL_EVENT_TIMEOUT : ℕ := 1000

/-- One turn of the loop of `gen_id_str`; the id is a `uint32_t`. -/
def next_id (id : ℕ) : ℕ := ((if id ≤ OBJ_ID_BEGIN then OBJ_ID_BEGIN else id) + 1) % 2 ^ 32

/-- The timer that `channel_data_process::add_event_timer` adds. -/
def event_timer (time_out : ℕ) : timer_msg where
  obj_id := OBJ_ID_DOMAIN
  timer_type := NONE_CHANNEL_EVENT_TIMER_TYPE
  time_length := max 20 (min (100 * MAX_CHANNEL_EVENT_TIMEOUT) time_out)

/-! ## The container -/

structure Container where
  _id : ℕ := OBJ_ID_BEGIN
  _obj_map : Store ℕ ℕ := ∅
  _obj_net_map : Store ℕ ℕ := ∅

namespace Container

variable (c : Container)

def find (obj_id : ℕ) : Option ℕ := c._obj_map.lookup obj_id

/-- The loop of `gen_id_str` may take as many turns as there are ids. -/
def gen_id_str : Option ℕ := Rotation.pick next_id (fun id => (c.find id).isSome) (2 ^ 32) c._id

def insert (p_obj : ℕ) : Option Container :=
  c.gen_id_str.map fun id => { c with _id := id, _obj_map := c._obj_map.insert id p_obj }

def erase (obj_id : ℕ) : Container :=
  { c with _obj_net_map := c._obj_net_map.erase obj_id, _obj_map := c._obj_map.erase obj_id }

/-- Who handles what is for an id; the thread itself is no object. -/
def receiver (obj_id : ℕ) : Option ℕ := if obj_id = OBJ_ID_THREAD then none else c.find obj_id

/-- `push_real_net` leaves an object that is there. -/
def push_real_net (obj_id p_obj : ℕ) : Container :=
  if (c._obj_net_map.lookup obj_id).isSome then c
  else { c with _obj_net_map := c._obj_net_map.insert obj_id p_obj }

def remove_real_net (obj_id : ℕ) : Container := { c with _obj_net_map := c._obj_net_map.erase obj_id }

end Container

/-! ## Rounds -/

/-- Where a round of `obj_process` is, with the objects that it keeps: those that
have thrown, with their ids. -/
inductive Phase where
  | idle
  /-- the objects of `_obj_net_map` -/
  | passing (exception_vec : List (ℕ × ℕ))
  /-- those with events; the ones that threw before are still there -/
  | polling (held exp_list remove_list : List (ℕ × ℕ))
  /-- those with timers, of which only the ids are kept -/
  | checking (exp_vec : List ℕ)
  deriving DecidableEq

structure Net where
  container : Container := {}
  phase : Phase := .idle
  /-- the id of each object -/
  ids : List ℕ := []
  /-- the objects on which `destroy` was called -/
  destroyed : List ℕ := []

inductive NetEvent where
  /-- `set_net_container` -/
  | insert (id : ℕ)
  | process
  /-- `real_net_process` of an object -/
  | real_net (obj_id : ℕ) (throws still : Bool)
  | poll
  /-- `event_process` of an object -/
  | ready (obj_id p_obj : ℕ) (throws : Bool)
  | check
  /-- a timer is due; `real` when a channel finds its messages waiting -/
  | timeout (t_msg : timer_msg) (handler : Option ℕ) (throws real : Bool)
  | done
  | message (obj_id : ℕ) (handler : Option ℕ)
  deriving DecidableEq

/-- An object is destroyed and erased. -/
def Net.destroy (s : Net) (obj : ℕ × ℕ) : Net :=
  { s with container := s.container.erase obj.1, destroyed := s.destroyed ++ [obj.2] }

/-- An object is destroyed and erased if it is still found. -/
def Net.destroy_id (s : Net) (obj_id : ℕ) : Net :=
  match s.container.find obj_id with
  | some p_obj => s.destroy (obj_id, p_obj)
  | none => s

/-- A `map` keeps the first of two with one id. -/
def add_first (obj : ℕ × ℕ) (list : List (ℕ × ℕ)) : List (ℕ × ℕ) :=
  if list.any fun o => o.1 = obj.1 then list else list ++ [obj]

/-- A timer for the watch is one that `add_event_timer` has added. -/
def Watched (t_msg : timer_msg) : Prop :=
  t_msg.timer_type = NONE_CHANNEL_EVENT_TIMER_TYPE → t_msg.obj_id = OBJ_ID_DOMAIN

instance Watched.decidable (t_msg : timer_msg) : Decidable (Watched t_msg) := by
  unfold Watched
  infer_instance

/-- A channel that hears its watch, and finds its messages waiting, takes its
object into `_obj_net_map`. -/
def Container.timed_out (c : Container) (t_msg : timer_msg) (handler : Option ℕ) (real : Bool) : Container :=
  match handler with
  | some p_obj =>
    if t_msg.timer_type = NONE_CHANNEL_EVENT_TIMER_TYPE ∧ real then c.push_real_net t_msg.obj_id p_obj else c
  | none => c

def Net.step (s : Net) : NetEvent → Option Net
  | .insert id =>
    match s.container.insert s.ids.length with
    | some container => if container._id = id then some { s with container, ids := s.ids ++ [id] } else none
    | none => none
  | .process => if s.phase = .idle then some { s with phase := .passing [] } else none
  | .real_net obj_id throws still =>
    match s.phase, s.container._obj_net_map.lookup obj_id with
    | .passing exception_vec, some p_obj =>
      if throws then some { s with phase := .passing (exception_vec ++ [(obj_id, p_obj)]) }
      else if still then some s
      else some { s with container := s.container.remove_real_net obj_id }
    | _, _ => none
  | .poll =>
    match s.phase with
    | .passing exception_vec =>
      some { exception_vec.foldl Net.destroy s with phase := .polling exception_vec [] [] }
    | _ => none
  | .ready obj_id p_obj throws =>
    match s.phase with
    | .polling held exp_list remove_list =>
      -- an object has events while anybody keeps it
      if s.container.find obj_id = some p_obj ∨ (obj_id, p_obj) ∈ held then
        if throws then some { s with phase := .polling held (add_first (obj_id, p_obj) exp_list) remove_list }
        else if (s.container._obj_net_map.lookup obj_id).isSome then
          some { s with phase := .polling held exp_list (add_first (obj_id, p_obj) remove_list) }
        else some s
      else none
    | _ => none
  | .check =>
    match s.phase with
    | .polling _ exp_list remove_list =>
      let s := exp_list.foldl Net.destroy s
      some { s with
        container := remove_list.foldl (fun container obj => container.remove_real_net obj.1) s.container
        phase := .checking [] }
    | _ => none
  | .timeout t_msg handler throws real =>
    match s.phase with
    | .checking exp_vec =>
      if Watched t_msg ∧ s.container.receiver t_msg.obj_id = handler then
        some { s with
          phase := if throws then .checking (exp_vec ++ [t_msg.obj_id]) else s.phase
          container := s.container.timed_out t_msg handler real }
      else none
    | _ => none
  | .done =>
    match s.phase with
    | .checking exp_vec => some { exp_vec.foldl Net.destroy_id s with phase := .idle }
    | _ => none
  | .message obj_id handler => if s.container.receiver obj_id = handler then some s else none

/-- The objects after a history. -/
def Net.run (events : List NetEvent) : Option Net := Trace.run Net.step {} events

/-! ## What an object is known by -/

/-- The objects, their ids and where they are. -/
structure Net.Sound (s : Net) : Prop where
  found : ∀ id o, s.container.find id = some o → s.ids[o]? = some id ∧ o ∉ s.destroyed
  alive : ∀ o id, s.ids[o]? = some id → o ∉ s.destroyed → s.container.find id = some o
  once : s.destroyed.Nodup
  known : ∀ o ∈ s.destroyed, o < s.ids.length
  named : ∀ id ∈ s.ids, id = 0 ∨ OBJ_ID_BEGIN < id
  unheard : s.container._obj_net_map = ∅
  counter : s.container._id < 2 ^ 32

section Destroy

variable {s : Net}

theorem find_erase (c : Container) (id id' : ℕ) :
    (c.erase id).find id' = if id' = id then none else c.find id' := by
  unfold Container.find Container.erase
  by_cases h : id' = id
  · rw [if_pos h, h]
    exact AList.lookup_erase id _
  · rw [if_neg h]
    exact AList.lookup_erase_ne h

/-- **An object that is found** is destroyed and found no more. -/
theorem Net.Sound.destroy (h : s.Sound) {id o : ℕ} (hfind : s.container.find id = some o) :
    (s.destroy (id, o)).Sound := by
  obtain ⟨hid, hnew⟩ := h.found id o hfind
  apply Net.Sound.mk
  · intro id' o' hfound
    show s.ids[o']? = some id' ∧ o' ∉ s.destroyed ++ [o]
    have herase : (s.container.erase id).find id' = some o' := hfound
    rw [find_erase] at herase
    by_cases hsame : id' = id
    · rw [if_pos hsame] at herase
      cases herase
    · rw [if_neg hsame] at herase
      obtain ⟨hid', hnot⟩ := h.found id' o' herase
      refine ⟨hid', ?_⟩
      rw [List.mem_append, List.mem_singleton, not_or]
      refine ⟨hnot, ?_⟩
      -- an object has one id
      rintro rfl
      apply hsame
      rw [hid'] at hid
      exact Option.some.inj hid
  · intro o' id' hid' hnot
    rw [Net.destroy, List.mem_append, List.mem_singleton, not_or] at hnot
    have hfound := h.alive o' id' hid' hnot.1
    show (s.container.erase id).find id' = some o'
    rw [find_erase, if_neg]
    · exact hfound
    · rintro rfl
      rw [hfind] at hfound
      exact hnot.2 (Option.some.inj hfound).symm
  · show (s.destroyed ++ [o]).Nodup
    rw [List.nodup_append]
    simp only [List.nodup_singleton, true_and, List.mem_singleton]
    refine ⟨h.once, ?_⟩
    rintro o' hmem o'' rfl rfl
    exact hnew hmem
  · intro o' hmem
    rcases List.mem_append.mp hmem with hmem | hmem
    · exact h.known o' hmem
    · rw [List.mem_singleton.mp hmem]
      exact (List.getElem?_eq_some_iff.mp hid).1
  · exact h.named
  · show s.container._obj_net_map.erase id = ∅
    rw [h.unheard]
    rfl
  · exact h.counter

theorem Net.Sound.destroy_id (h : s.Sound) (id : ℕ) : (s.destroy_id id).Sound := by
  unfold Net.destroy_id
  cases hfind : s.container.find id with
  | none => exact h
  | some o => exact h.destroy hfind

theorem Net.Sound.destroy_ids (h : s.Sound) (exp_vec : List ℕ) : (exp_vec.foldl Net.destroy_id s).Sound := by
  induction exp_vec generalizing s with
  | nil => exact h
  | cons id exp_vec ih => exact ih (h.destroy_id id)

/-- Objects with different ids, one after another. -/
theorem Net.Sound.destroy_all (h : s.Sound) (exp_list : List (ℕ × ℕ)) (hnodup : (exp_list.map Prod.fst).Nodup)
    (hfound : ∀ obj ∈ exp_list, s.container.find obj.1 = some obj.2) : (exp_list.foldl Net.destroy s).Sound := by
  induction exp_list generalizing s with
  | nil => exact h
  | cons obj exp_list ih =>
    rw [List.map_cons, List.nodup_cons] at hnodup
    apply ih (h.destroy (hfound obj List.mem_cons_self)) hnodup.2
    intro obj' hobj'
    show (s.container.erase obj.1).find obj'.1 = some obj'.2
    rw [find_erase, if_neg]
    · exact hfound obj' (List.mem_cons_of_mem obj hobj')
    · intro hsame
      exact hnodup.1 (hsame ▸ List.mem_map_of_mem hobj')

end Destroy

/-- The values of a `uint32_t`. -/
def id_values : Set ℕ := { id | id < 2 ^ 32 }

theorem next_id_lt (id : ℕ) : next_id id < 2 ^ 32 := Nat.mod_lt _ (by decide)

theorem next_id_named {id : ℕ} (h : id < 2 ^ 32) : next_id id = 0 ∨ OBJ_ID_BEGIN < next_id id := by
  unfold next_id OBJ_ID_BEGIN
  split_ifs <;> omega

section Insert

variable {s : Net} {c : Container}

/-- The id of a new object is one that no other has. -/
theorem insert_spec {o : ℕ} (hlt : s.container._id < 2 ^ 32) (h : s.container.insert o = some c) :
    s.container.find c._id = none ∧ (c._id = 0 ∨ OBJ_ID_BEGIN < c._id) ∧ c._id < 2 ^ 32 ∧
      c._obj_net_map = s.container._obj_net_map ∧
      ∀ id, c.find id = if id = c._id then some o else s.container.find id := by
  obtain ⟨id, hid, rfl⟩ := Option.map_eq_some_iff.mp h
  obtain ⟨hfree, before, hbefore, rfl⟩ := @Rotation.pick_spec _ next_id id_values _ _ _ _
    (fun c _ => next_id_lt c) hlt hid
  refine ⟨?_, next_id_named hbefore, next_id_lt before, rfl, ?_⟩
  · cases hfind : s.container.find (next_id before) with
    | none => rfl
    | some o' =>
      rw [hfind] at hfree
      cases hfree
  · intro id
    unfold Container.find
    by_cases hsame : id = next_id before
    · rw [if_pos hsame, hsame]
      exact AList.lookup_insert _
    · rw [if_neg hsame]
      exact AList.lookup_insert_ne hsame

theorem Net.Sound.insert (h : s.Sound) (hinsert : s.container.insert s.ids.length = some c) :
    ({ s with container := c, ids := s.ids ++ [c._id] } : Net).Sound := by
  obtain ⟨hfree, hnamed, hlt, hnet, hfind⟩ := insert_spec h.counter hinsert
  apply Net.Sound.mk
  · intro id o hfound
    show (s.ids ++ [c._id])[o]? = some id ∧ o ∉ s.destroyed
    rw [show c.find id = _ from hfind id] at hfound
    split_ifs at hfound with hsame
    · cases hfound
      rw [hsame]
      refine ⟨List.getElem?_concat_length, ?_⟩
      intro hmem
      exact Nat.lt_irrefl _ (h.known _ hmem)
    · obtain ⟨hid, hnot⟩ := h.found id o hfound
      refine ⟨?_, hnot⟩
      rw [List.getElem?_append_left (List.getElem?_eq_some_iff.mp hid).1]
      exact hid
  · intro o id hid hnot
    show c.find id = some o
    change (s.ids ++ [c._id])[o]? = some id at hid
    rw [hfind]
    by_cases hold : o < s.ids.length
    · rw [List.getElem?_append_left hold] at hid
      have hfound := h.alive o id hid hnot
      rw [if_neg, hfound]
      rintro rfl
      rw [hfree] at hfound
      cases hfound
    · -- it is the new one
      have hlast : o = s.ids.length := by
        have hlt := (List.getElem?_eq_some_iff.mp hid).1
        rw [List.length_append, List.length_singleton] at hlt
        omega
      rw [hlast, List.getElem?_concat_length] at hid
      rw [if_pos (Option.some.inj hid).symm, hlast]
  · exact h.once
  · intro o hmem
    have hlt := h.known o hmem
    show o < (s.ids ++ [c._id]).length
    rw [List.length_append]
    omega
  · intro id hid
    rcases List.mem_append.mp hid with hid | hid
    · exact h.named id hid
    · rw [List.mem_singleton.mp hid]
      exact hnamed
  · exact hnet.trans h.unheard
  · exact hlt

end Insert

/-! ## Rounds -/

/-- What a round keeps is in the container, and nothing has thrown in the first
part. -/
def Phase.Fits (c : Container) : Phase → Prop
  | .idle => True
  | .passing exception_vec => exception_vec = []
  | .polling held exp_list remove_list => held = [] ∧ remove_list = [] ∧
      (exp_list.map Prod.fst).Nodup ∧ ∀ obj ∈ exp_list, c.find obj.1 = some obj.2
  | .checking _ => True

/-- Of a watch nobody hears. -/
def NetEvent.Unheard : NetEvent → Prop
  | .timeout t_msg handler _ _ => t_msg.timer_type = NONE_CHANNEL_EVENT_TIMER_TYPE → handler = none
  | .real_net _ _ _ => False
  | _ => True

section Step

variable {s s' : Net} {e : NetEvent}

theorem Net.Sound.not_domain (h : s.Sound) : s.container.find OBJ_ID_DOMAIN = none := by
  cases hfind : s.container.find OBJ_ID_DOMAIN with
  | none => rfl
  | some o =>
    obtain ⟨hid, -⟩ := h.found _ o hfind
    rcases h.named _ (List.mem_of_getElem? hid) with hzero | habove
    · exact absurd hzero (by decide)
    · exact absurd habove (by decide)

theorem foldl_destroy_empty {exp_list : List (ℕ × ℕ)} (h : exp_list = []) : exp_list.foldl Net.destroy s = s := by
  rw [h]
  rfl

/-- **One step.** -/
theorem Net.step_sound (h : s.Sound) (hfits : s.phase.Fits s.container) (hstep : s.step e = some s') :
    s'.Sound ∧ s'.phase.Fits s'.container ∧ e.Unheard := by
  have hsame : ∀ phase : Phase, ({ s with phase := phase } : Net).Sound := fun phase =>
    ⟨h.found, h.alive, h.once, h.known, h.named, h.unheard, h.counter⟩
  cases e with
  | insert id =>
    rw [Net.step] at hstep
    cases hinsert : s.container.insert s.ids.length with
    | none =>
      rw [hinsert] at hstep
      cases hstep
    | some c =>
      rw [hinsert] at hstep
      dsimp only at hstep
      split_ifs at hstep with hid
      cases hstep
      subst hid
      obtain ⟨hfree, -, -, -, hfind⟩ := insert_spec h.counter hinsert
      refine ⟨h.insert hinsert, ?_, trivial⟩
      -- what a round keeps has other ids
      show s.phase.Fits c
      cases hphase : s.phase with
      | idle => trivial
      | passing exception_vec =>
        rw [hphase] at hfits
        exact hfits
      | polling held exp_list remove_list =>
        rw [hphase] at hfits
        obtain ⟨hheld, hremove, hnodup, hfound⟩ := hfits
        refine ⟨hheld, hremove, hnodup, fun obj hobj => ?_⟩
        rw [hfind, if_neg]
        · exact hfound obj hobj
        · intro hobj'
          have hthere := hfound obj hobj
          rw [hobj', hfree] at hthere
          cases hthere
      | checking exp_vec => trivial
  | process =>
    rw [Net.step] at hstep
    split_ifs at hstep
    cases hstep
    exact ⟨hsame _, rfl, trivial⟩
  | real_net obj_id throws still =>
    rw [Net.step, h.unheard] at hstep
    have hnone : (∅ : Store ℕ ℕ).lookup obj_id = none := rfl
    rw [hnone] at hstep
    cases hphase : s.phase <;>
    · rw [hphase] at hstep
      cases hstep
  | poll =>
    rw [Net.step] at hstep
    cases hphase : s.phase with
    | passing exception_vec =>
      rw [hphase] at hstep hfits
      cases hstep
      rw [foldl_destroy_empty hfits]
      exact ⟨hsame _, ⟨hfits, rfl, List.nodup_nil, fun obj hobj => absurd hobj List.not_mem_nil⟩, trivial⟩
    | _ =>
      rw [hphase] at hstep
      cases hstep
  | ready obj_id p_obj throws =>
    rw [Net.step] at hstep
    cases hphase : s.phase with
    | polling held exp_list remove_list =>
      rw [hphase] at hstep hfits
      obtain ⟨hheld, hremove, hnodup, hfound⟩ := hfits
      have hnone : s.container._obj_net_map.lookup obj_id = none := by
        rw [h.unheard]
        rfl
      dsimp only at hstep
      rw [hnone] at hstep
      split_ifs at hstep with hthere hthrows
      · cases hstep
        have hobj : s.container.find obj_id = some p_obj := by
          rcases hthere with hthere | hkept
          · exact hthere
          · rw [hheld] at hkept
            exact absurd hkept List.not_mem_nil
        refine ⟨hsame _, ⟨hheld, hremove, ?_, ?_⟩, trivial⟩
        · unfold add_first
          split_ifs with hany
          · exact hnodup
          · rw [List.map_append, List.nodup_append]
            refine ⟨hnodup, List.nodup_singleton _, ?_⟩
            rintro id hid id' hid' rfl
            apply hany
            obtain ⟨obj, hobj, hfst⟩ := List.mem_map.mp hid
            rw [List.map_cons, List.map_nil, List.mem_singleton] at hid'
            exact List.any_eq_true.mpr ⟨obj, hobj, decide_eq_true (hfst.trans hid')⟩
        · intro obj hmem
          unfold add_first at hmem
          split_ifs at hmem
          · exact hfound obj hmem
          · rcases List.mem_append.mp hmem with hmem | hmem
            · exact hfound obj hmem
            · rw [List.mem_singleton.mp hmem]
              exact hobj
      · rename_i hsome
        cases hsome
      · cases hstep
        refine ⟨h, ?_, trivial⟩
        rw [hphase]
        exact ⟨hheld, hremove, hnodup, hfound⟩
    | _ =>
      rw [hphase] at hstep
      cases hstep
  | check =>
    rw [Net.step] at hstep
    cases hphase : s.phase with
    | polling held exp_list remove_list =>
      rw [hphase] at hstep hfits
      obtain ⟨-, hremove, hnodup, hfound⟩ := hfits
      have hafter := h.destroy_all exp_list hnodup hfound
      cases hstep
      rw [hremove]
      refine ⟨?_, trivial, trivial⟩
      exact ⟨hafter.found, hafter.alive, hafter.once, hafter.known, hafter.named, hafter.unheard, hafter.counter⟩
    | _ =>
      rw [hphase] at hstep
      cases hstep
  | timeout t_msg handler throws real =>
    rw [Net.step] at hstep
    cases hphase : s.phase with
    | checking exp_vec =>
      rw [hphase] at hstep
      dsimp only at hstep
      by_cases hguard : Watched t_msg ∧ s.container.receiver t_msg.obj_id = handler
      swap
      · rw [if_neg hguard] at hstep
        cases hstep
      rw [if_pos hguard] at hstep
      obtain ⟨hwatched, hhandler⟩ := hguard
      -- nobody has the id of a watch
      have hunheard : t_msg.timer_type = NONE_CHANNEL_EVENT_TIMER_TYPE → handler = none := by
        intro hwatch
        rw [← hhandler, hwatched hwatch]
        exact h.not_domain
      have hcontainer : s.container.timed_out t_msg handler real = s.container := by
        unfold Container.timed_out
        cases handler with
        | none => rfl
        | some p_obj =>
          apply if_neg
          rintro ⟨hwatch, -⟩
          cases hunheard hwatch
      rw [hcontainer] at hstep
      cases hstep
      refine ⟨hsame _, ?_, hunheard⟩
      dsimp only
      split_ifs <;> exact trivial
    | _ =>
      rw [hphase] at hstep
      cases hstep
  | done =>
    rw [Net.step] at hstep
    cases hphase : s.phase with
    | checking exp_vec =>
      rw [hphase] at hstep
      cases hstep
      have hafter := h.destroy_ids exp_vec
      refine ⟨?_, trivial, trivial⟩
      exact ⟨hafter.found, hafter.alive, hafter.once, hafter.known, hafter.named, hafter.unheard, hafter.counter⟩
    | _ =>
      rw [hphase] at hstep
      cases hstep
  | message obj_id handler =>
    change (if s.container.receiver obj_id = handler then some s else none) = some s' at hstep
    split_ifs at hstep
    cases hstep
    exact ⟨h, hfits, trivial⟩

end Step

/-- An object throws, and another one comes. -/
def leaving : List NetEvent := [.process, .poll, .ready 1002 1 true, .check, .done, .insert 1003]

section Run

variable {events : List NetEvent} {s : Net}

theorem Net.Sound.init : ({} : Net).Sound where
  found := by
    intro id o h
    cases h
  alive := by
    intro o id h
    cases h
  once := List.nodup_nil
  known := fun o h => absurd h List.not_mem_nil
  named := fun id h => absurd h List.not_mem_nil
  unheard := rfl
  counter := by decide

theorem Net.run_sound (h : Net.run events = some s) :
    (s.Sound ∧ s.phase.Fits s.container) ∧ ∀ e ∈ events, e.Unheard := by
  refine run_induction (P := fun events s => (s.Sound ∧ s.phase.Fits s.container) ∧ ∀ e ∈ events, NetEvent.Unheard e)
    ?_ ?_ h
  · exact ⟨⟨Net.Sound.init, trivial⟩, fun e he => absurd he List.not_mem_nil⟩
  · rintro events s e s' - ⟨⟨hsound, hfits⟩, hunheard⟩ hstep
    obtain ⟨hsound', hfits', hlast⟩ := Net.step_sound hsound hfits hstep
    refine ⟨⟨hsound', hfits'⟩, fun e' he' => ?_⟩
    rcases List.mem_append.mp he' with he' | he'
    · exact hunheard e' he'
    · rw [List.mem_singleton.mp he']
      exact hlast

/-- **The watch on a channel is never heard**: its timers are for an id that no
object has, so no object is ever taken into `_obj_net_map`. -/
theorem watch_unheard (h : Net.run events = some s) :
    s.container._obj_net_map = ∅ ∧ (∀ obj_id throws still, NetEvent.real_net obj_id throws still ∉ events) ∧
      ∀ t_msg handler throws real, NetEvent.timeout t_msg handler throws real ∈ events →
        t_msg.timer_type = NONE_CHANNEL_EVENT_TIMER_TYPE → handler = none := by
  obtain ⟨⟨hsound, -⟩, hunheard⟩ := Net.run_sound h
  refine ⟨hsound.unheard, ?_, ?_⟩
  · intro obj_id throws still hmem
    exact hunheard _ hmem
  · intro t_msg handler throws real hmem
    exact hunheard _ hmem

/-- The watch of the first channel is due. -/
theorem watch_of_one_channel : ∃ s,
    Net.run [.insert 1001, .process, .poll, .check, .timeout (event_timer 1000) none false true] = some s ∧
      s.container._obj_net_map = ∅ :=
  ⟨_, rfl, (@watch_unheard [.insert 1001, .process, .poll, .check, .timeout (event_timer 1000) none false true]
    _ rfl).1⟩

end Run

/-! ## Messages -/

section Messages

variable {events : List NetEvent} {s s' : Net} {e : NetEvent}

/-- A step takes objects out, if it does not take one in. -/
def Net.Shrinks (s s' : Net) : Prop :=
  s'.ids = s.ids ∧ s'.container._id = s.container._id ∧
    ∀ id o, s'.container.find id = some o → s.container.find id = some o

theorem Net.Shrinks.refl (s : Net) : s.Shrinks s := ⟨rfl, rfl, fun _ _ h => h⟩

theorem Net.Shrinks.trans {s'' : Net} (h : s.Shrinks s') (h' : s'.Shrinks s'') : s.Shrinks s'' :=
  ⟨h'.1.trans h.1, h'.2.1.trans h.2.1, fun id o hfound => h.2.2 id o (h'.2.2 id o hfound)⟩

theorem Net.destroy_shrinks (s : Net) (obj : ℕ × ℕ) : s.Shrinks (s.destroy obj) := by
  refine ⟨rfl, rfl, fun id o hfound => ?_⟩
  change (s.container.erase obj.1).find id = some o at hfound
  rw [find_erase] at hfound
  split_ifs at hfound
  exact hfound

theorem Net.destroy_id_shrinks (s : Net) (id : ℕ) : s.Shrinks (s.destroy_id id) := by
  unfold Net.destroy_id
  split
  · exact s.destroy_shrinks _
  · exact .refl s

theorem foldl_shrinks {β : Type} {f : Net → β → Net} (hf : ∀ s b, Net.Shrinks s (f s b)) (l : List β) (s : Net) :
    s.Shrinks (l.foldl f s) := by
  induction l generalizing s with
  | nil => exact .refl s
  | cons b l ih => exact (hf s b).trans (ih (f s b))

theorem remove_all_find (list : List (ℕ × ℕ)) (c : Container) :
    (list.foldl (fun container obj => container.remove_real_net obj.1) c)._obj_map = c._obj_map ∧
      (list.foldl (fun container obj => container.remove_real_net obj.1) c)._id = c._id := by
  induction list generalizing c with
  | nil => exact ⟨rfl, rfl⟩
  | cons obj list ih => exact ih (c.remove_real_net obj.1)

/-- **What a step does to the ids.** -/
theorem Net.step_cases (hstep : s.step e = some s') :
    (∃ c, s.container.insert s.ids.length = some c ∧
      s' = { s with container := c, ids := s.ids ++ [c._id] }) ∨ s.Shrinks s' := by
  have hphase : ∀ phase : Phase, s.Shrinks { s with phase := phase } := fun _ => ⟨rfl, rfl, fun _ _ h => h⟩
  cases e with
  | insert id =>
    rw [Net.step] at hstep
    cases hinsert : s.container.insert s.ids.length with
    | none =>
      rw [hinsert] at hstep
      cases hstep
    | some c =>
      rw [hinsert] at hstep
      dsimp only at hstep
      split_ifs at hstep with hid
      cases hstep
      subst hid
      exact .inl ⟨c, rfl, rfl⟩
  | process =>
    rw [Net.step] at hstep
    split_ifs at hstep
    cases hstep
    exact .inr (hphase _)
  | real_net obj_id throws still =>
    rw [Net.step] at hstep
    split at hstep
    · split_ifs at hstep
      · cases hstep
        exact .inr (hphase _)
      · cases hstep
        exact .inr (.refl s)
      · cases hstep
        exact .inr ⟨rfl, rfl, fun _ _ h => h⟩
    · cases hstep
  | poll =>
    rw [Net.step] at hstep
    split at hstep
    · cases hstep
      next exception_vec _ =>
      have hfold := foldl_shrinks Net.destroy_shrinks exception_vec s
      exact .inr ⟨hfold.1, hfold.2.1, hfold.2.2⟩
    · cases hstep
  | ready obj_id p_obj throws =>
    rw [Net.step] at hstep
    split at hstep
    · split_ifs at hstep
      · cases hstep
        exact .inr (hphase _)
      · cases hstep
        exact .inr (hphase _)
      · cases hstep
        exact .inr (.refl s)
    · cases hstep
  | check =>
    rw [Net.step] at hstep
    split at hstep
    · cases hstep
      next exp_list remove_list _ =>
      have hfold := foldl_shrinks Net.destroy_shrinks exp_list s
      obtain ⟨hmap, hid⟩ := remove_all_find remove_list (exp_list.foldl Net.destroy s).container
      refine .inr (hfold.trans ⟨rfl, hid, fun id o hfound => ?_⟩)
      unfold Container.find at hfound ⊢
      rw [← hmap]
      exact hfound
    · cases hstep
  | timeout t_msg handler throws real =>
    rw [Net.step] at hstep
    split at hstep
    · by_cases hguard : Watched t_msg ∧ s.container.receiver t_msg.obj_id = handler
      · rw [if_pos hguard] at hstep
        cases hstep
        have hmap : (s.container.timed_out t_msg handler real)._obj_map = s.container._obj_map ∧
            (s.container.timed_out t_msg handler real)._id = s.container._id := by
          unfold Container.timed_out Container.push_real_net
          split
          · split_ifs <;> exact ⟨rfl, rfl⟩
          · exact ⟨rfl, rfl⟩
        refine .inr ⟨rfl, hmap.2, fun id o hfound => ?_⟩
        unfold Container.find at hfound ⊢
        rw [← hmap.1]
        exact hfound
      · rw [if_neg hguard] at hstep
        cases hstep
    · cases hstep
  | done =>
    rw [Net.step] at hstep
    split at hstep
    · cases hstep
      next exp_vec _ =>
      have hfold := foldl_shrinks Net.destroy_id_shrinks exp_vec s
      exact .inr ⟨hfold.1, hfold.2.1, hfold.2.2⟩
    · cases hstep
  | message obj_id handler =>
    change (if s.container.receiver obj_id = handler then some s else none) = some s' at hstep
    split_ifs at hstep
    cases hstep
    exact .inr (.refl s)

/-! ### Ids go around -/

/-- The number of ids: 0, and those above `OBJ_ID_BEGIN`. -/
def id_count : ℕ := 2 ^ 32 - OBJ_ID_BEGIN

/-- The place of an id in its turn. -/
def id_rank (id : ℕ) : ℕ := if id ≤ OBJ_ID_BEGIN then id_count - 1 else id - (OBJ_ID_BEGIN + 1)

theorem id_cycle : Rotation.Cycle next_id id_values id_rank id_count where
  closed := fun id _ => next_id_lt id
  next := by
    intro id hid
    change id < 2 ^ 32 at hid
    unfold id_rank next_id id_count OBJ_ID_BEGIN
    split_ifs <;> omega
  lt := by
    intro id hid
    change id < 2 ^ 32 at hid
    unfold id_rank id_count OBJ_ID_BEGIN
    split_ifs <;> omega

/-- Since an object was given its id, nothing else is found by it. -/
structure Net.Since (o id : ℕ) (old : Finset ℕ) (s : Net) : Prop where
  later : o < s.ids.length
  turns : s.ids.length - o + old.card < id_count → ∃ turns young passed,
    Rotation.Since id_values id_rank id_count id old turns (s.ids.length - (o + 1)) young passed s.container._id ∧
      ∀ id' o', s.container.find id' = some o' → id' ∈ old ∨ id' = id ∨ id' ∈ young
  found : s.ids.length - o + old.card < id_count → ∀ o', s.container.find id = some o' → o' = o

theorem Net.Since.step {o id : ℕ} {old : Finset ℕ} (h : s.Since o id old) (hsound : s.Sound) (hid : id < 2 ^ 32)
    (hstep : s.step e = some s') : s'.Since o id old := by
  have hlater := h.later
  rcases Net.step_cases hstep with ⟨c, hinsert, rfl⟩ | ⟨hids, hcounter, hshrinks⟩
  · have hlength : (s.ids ++ [c._id]).length = s.ids.length + 1 := by
      rw [List.length_append, List.length_singleton]
    obtain ⟨-, -, -, -, hfind⟩ := insert_spec hsound.counter hinsert
    -- while there is room, the new id is another one
    have hnew : s.ids.length + 1 - o + old.card < id_count → c._id ≠ id ∧ ∃ turns young passed,
        Rotation.Since id_values id_rank id_count id old turns (s.ids.length - (o + 1) + 1)
          (Insert.insert c._id young) passed c._id ∧
        ∀ id' o', s.container.find id' = some o' → id' ∈ old ∨ id' = id ∨ id' ∈ young := by
      intro hroom
      obtain ⟨turns, young, passed, hsince, hold⟩ := h.turns (by omega)
      obtain ⟨b, hpick, hb⟩ := Option.map_eq_some_iff.mp hinsert
      have hc : c._id = b := by rw [← hb]
      rw [hc]
      obtain ⟨hne, turns', passed', hsince'⟩ := hsince.pick id_cycle hid
        (fun a ha => by
          obtain ⟨o', ho'⟩ := Option.isSome_iff_exists.mp ha
          exact hold a o' ho') (by omega) hpick
      exact ⟨hne, turns', young, passed', hsince', hold⟩
    apply Net.Since.mk
    · show o < (s.ids ++ [c._id]).length
      omega
    · intro hroom
      change (s.ids ++ [c._id]).length - o + old.card < id_count at hroom
      rw [hlength] at hroom
      obtain ⟨-, turns, young, passed, hsince, hold⟩ := hnew hroom
      refine ⟨turns, Insert.insert c._id young, passed, ?_, ?_⟩
      · show Rotation.Since _ _ _ _ _ _ ((s.ids ++ [c._id]).length - (o + 1)) _ _ c._id
        rw [hlength, show s.ids.length + 1 - (o + 1) = s.ids.length - (o + 1) + 1 by omega]
        exact hsince
      · intro id' o' hfound
        change c.find id' = some o' at hfound
        rw [hfind] at hfound
        rw [Finset.mem_insert]
        split_ifs at hfound with hsame
        · exact .inr (.inr (.inl hsame))
        · have hwhere := hold id' o' hfound
          tauto
    · intro hroom o' hfound
      change (s.ids ++ [c._id]).length - o + old.card < id_count at hroom
      change c.find id = some o' at hfound
      rw [hlength] at hroom
      rw [hfind, if_neg fun hsame => (hnew hroom).1 hsame.symm] at hfound
      exact h.found (by omega) o' hfound
  · apply Net.Since.mk
    · rw [hids]
      exact hlater
    · rw [hids, hcounter]
      intro hroom
      obtain ⟨turns, young, passed, hsince, hold⟩ := h.turns hroom
      exact ⟨turns, young, passed, hsince, fun id' o' hfound => hold id' o' (hshrinks id' o' hfound)⟩
    · rw [hids]
      intro hroom o' hfound
      exact h.found hroom o' (hshrinks id o' hfound)

/-- When it is given its id. -/
theorem Net.Since.given {id : ℕ} (hsound : s.Sound) (hstep : s.step (.insert id) = some s') :
    s'.Since s.ids.length id s.container._obj_map.keys.toFinset ∧ id < 2 ^ 32 := by
  rw [Net.step] at hstep
  cases hinsert : s.container.insert s.ids.length with
  | none =>
    rw [hinsert] at hstep
    cases hstep
  | some c =>
    rw [hinsert] at hstep
    dsimp only at hstep
    split_ifs at hstep with hid
    cases hstep
    subst hid
    obtain ⟨-, -, hlt, -, hfind⟩ := insert_spec hsound.counter hinsert
    have hlength : (s.ids ++ [c._id]).length = s.ids.length + 1 := by
      rw [List.length_append, List.length_singleton]
    refine ⟨⟨?_, ?_, ?_⟩, hlt⟩
    · show s.ids.length < (s.ids ++ [c._id]).length
      omega
    · intro _
      refine ⟨0, ∅, ∅, ?_, ?_⟩
      · show Rotation.Since _ _ _ _ _ _ ((s.ids ++ [c._id]).length - (s.ids.length + 1)) _ _ c._id
        rw [hlength, Nat.sub_self]
        exact .init id_rank id_count _ hlt (id_cycle.lt _ hlt)
      · intro id' o' hfound
        change c.find id' = some o' at hfound
        rw [hfind] at hfound
        split_ifs at hfound with hsame
        · exact .inr (.inl hsame)
        · -- it was there before
          left
          rw [List.mem_toFinset]
          apply AList.mem_keys.mp
          apply AList.lookup_isSome.mp
          unfold Container.find at hfound
          rw [hfound]
          rfl
    · intro _ o' hfound
      change c.find c._id = some o' at hfound
      rw [hfind, if_pos rfl] at hfound
      exact (Option.some.inj hfound).symm

/-- **A message does not reach another object** than the one that was given the
id, as long as the ids have not gone around: they are enough for the objects that
have come since and those that were there. -/
theorem reaches_its_object {before after : List NetEvent} {s₁ : Net} {id : ℕ} {handler : Option ℕ}
    (h₁ : Net.run before = some s₁)
    (h : Net.run (before ++ [.insert id] ++ after ++ [.message id handler]) = some s)
    (room : s.ids.length - s₁.ids.length + s₁.container._obj_map.keys.length < id_count) :
    handler = none ∨ handler = some s₁.ids.length := by
  obtain ⟨s₂, h₂, hmessage⟩ := run_concat.mp h
  change (if s₂.container.receiver id = handler then some s₂ else none) = some s at hmessage
  split_ifs at hmessage with hhandler
  cases hmessage
  obtain ⟨⟨hsound₁, -⟩, -⟩ := Net.run_sound h₁
  have hsince : s.Since s₁.ids.length id s₁.container._obj_map.keys.toFinset ∧ id < 2 ^ 32 := by
    refine run_from (P := fun _ s => s.Since s₁.ids.length id s₁.container._obj_map.keys.toFinset ∧ id < 2 ^ 32)
      ?_ ?_ h₂
    · intro s₀ h₀
      obtain ⟨s₁', h₁', hstep⟩ := run_concat.mp h₀
      have hsame : s₁' = s₁ := Option.some.inj (h₁'.symm.trans h₁)
      subst hsame
      exact Net.Since.given hsound₁ hstep
    · rintro events s e s' - - hrun ⟨hsince, hid⟩ hstep
      obtain ⟨⟨hsound, -⟩, -⟩ := Net.run_sound hrun
      exact ⟨hsince.step hsound hid hstep, hid⟩
  have hcard : s₁.container._obj_map.keys.toFinset.card ≤ s₁.container._obj_map.keys.length :=
    List.toFinset_card_le _
  rw [← hhandler]
  unfold Container.receiver
  split_ifs
  · exact .inl rfl
  · cases hfind : s.container.find id with
    | none => exact .inl rfl
    | some o => exact .inr (congrArg some (hsince.1.found (by omega) o hfind))

/-- The answer for an object that has left. -/
theorem late_answer_unheard : ∃ s,
    Net.run ([.insert 1001] ++ [.insert 1002] ++ leaving ++ [.message 1002 none]) = some s ∧
      ((none : Option ℕ) = none ∨ (none : Option ℕ) = some 1) :=
  ⟨_, rfl, @reaches_its_object _ [.insert 1001] leaving _ 1002 none rfl rfl (by decide)⟩

end Messages

end RxNetCap.Core
