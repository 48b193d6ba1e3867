/-
The timers of a thread: `base_timer` of `src/core/legacy_core_net.cpp`.

Timers are kept in two tables ordered by due time. A check takes the table that
was filled last, makes the other one the table that is filled, delivers what is
due, and removes it at its end; handlers that run meanwhile add to the other
table. So each accepted timer is delivered at most once and never early, and of
two checks one after the other at or past its due time one delivers it
(`delivered_in_time`).

The ids of delivered timers leave `_timerid_set` only at the end of the check,
so while a check runs the set has the ids of what it has delivered besides those
of the timers that wait (`ids_of_waiting`, `delivered_id_held`).

Each call of `add_timer` gets a new `timer_msg`, as all callers pass one. The
source keeps no number `seq`; it tells accepted timers apart when ids come again.
-/
import Mathlib.Algebra.Order.Ring.Int
import RxNetCap.Lib.Sides
import RxNetCap.Lib.Trace
import Mathlib.Data.Finset.Card
import Mathlib.Data.Finset.Range

set_option autoImplicit false

namespace RxNetCap.Core

open RxNetCap.Sides RxNetCap.Trace

/-! ## Timers and ids -/

def TIMER_ID_BEGIN : ℕ := 1000

structure timer_msg where
  timer_id : ℕ := 0
  timer_type : ℕ := 0
  obj_id : ℕ := 0
  time_length : ℕ := 0
  deriving DecidableEq, Repr

/-- A timer in a table. -/
structure TimerEntry where
  reach_time : ℕ
  t_msg : timer_msg
  seq : ℕ
  deriving DecidableEq, Repr

/-- When a timer that is added at `clock` is due; the sum is a `uint64_t`. -/
def due_time (clock : ℕ) (t_msg : timer_msg) : ℕ := (clock + t_msg.time_length) % 2 ^ 64

/-- A `multimap` puts a new entry behind those with its key. -/
def insert_entry (e : TimerEntry) : List TimerEntry → List TimerEntry
  | [] => [e]
  | f :: l => if f.reach_time ≤ e.reach_time then f :: insert_entry e l else e :: f :: l

structure base_timer where
  timer_list : Fin 2 → List TimerEntry := fun _ => []
  timerid_set : Finset ℕ := ∅
  timerid : ℕ := TIMER_ID_BEGIN
  current : Fin 2 := 0

/-- The next id in turn; the counter is a `uint32_t`. -/
def next_timerid (timerid : ℕ) : ℕ :=
  if (timerid + 1) % 2 ^ 32 < TIMER_ID_BEGIN then TIMER_ID_BEGIN else (timerid + 1) % 2 ^ 32

/-- At most `n` turns of the loop of `gen_timerid`. -/
def gen_timerid (timerid_set : Finset ℕ) : ℕ → ℕ → Option ℕ
  | 0, _ => none
  | n + 1, timerid =>
    if next_timerid timerid ∈ timerid_set then gen_timerid timerid_set n (next_timerid timerid)
    else some (next_timerid timerid)

/-- The entry that is added, if the timer is accepted; the source returns its id,
or 0. The loop of `gen_timerid` may take as many turns as there are ids. -/
def base_timer.add_timer (clock : ℕ) (t_msg : timer_msg) (seq : ℕ) (t : base_timer) :
    Option (Option TimerEntry × base_timer) :=
  if t_msg.time_length ≤ 0 ∨ t_msg.obj_id ≤ 0 then some (none, t)
  else do
    let timer_id ← gen_timerid t.timerid_set (2 ^ 32) t.timerid
    let e := { reach_time := due_time clock t_msg, t_msg := { t_msg with timer_id }, seq }
    return (some e,
      { t with
        timer_list := Function.update t.timer_list t.current (insert_entry e (t.timer_list t.current))
        timerid_set := insert timer_id t.timerid_set
        timerid := timer_id })

/-- One key of `tmp_vec` at the end of `check_timer`. -/
def base_timer.erase_key (i : Fin 2) (t : base_timer) (key : ℕ) : base_timer :=
  { t with
    timerid_set := ((t.timer_list i).filter (·.reach_time = key)).foldl
      (fun set e => set.erase e.t_msg.timer_id) t.timerid_set
    timer_list := Function.update t.timer_list i ((t.timer_list i).filter (·.reach_time ≠ key)) }

/-! ## Calls in any order -/

/-- A call of `check_timer` that runs: the entries it has passed, whose keys are
in `tmp_vec`, and those from its iterator on. -/
structure CheckCall where
  now : ℕ
  timer_list : Fin 2
  passed : List TimerEntry := []
  it : List TimerEntry
  expect_list : List ℕ := []

structure Timers where
  timer : base_timer := {}
  call : Option CheckCall := none
  count : ℕ := 0

inductive TimerEvent where
  /-- a timer is added, by a handler or between checks, and accepted or not -/
  | add (clock : ℕ) (t_msg : timer_msg) (accepted : Option TimerEntry)
  /-- a check starts -/
  | check (now : ℕ)
  /-- it delivers a timer, whose handler may throw -/
  | deliver (now : ℕ) (e : TimerEntry) (throws : Bool)
  /-- it ends, with the objects whose handlers have thrown -/
  | done (expect_list : List ℕ)
  deriving DecidableEq

def Timers.step (s : Timers) : TimerEvent → Option Timers
  | .add clock t_msg accepted =>
    match s.timer.add_timer clock t_msg s.count with
    | some (entry, timer) =>
      if entry = accepted then some { s with timer, count := s.count + entry.toList.length } else none
    | none => none
  | .check now =>
    match s.call with
    | none =>
      let i := s.timer.current
      some { s with
        timer := { s.timer with current := 1 - i }
        call := some { now, timer_list := i, it := s.timer.timer_list i } }
    | some _ => none
  | .deliver now e throws =>
    match s.call with
    | some call =>
      match call.it with
      | first :: rest =>
        if first = e ∧ call.now = now ∧ first.reach_time ≤ now then
          some { s with call := some { call with
            passed := call.passed ++ [first]
            it := rest
            expect_list := if throws then call.expect_list ++ [first.t_msg.obj_id] else call.expect_list } }
        else none
      | [] => none
    | none => none
  | .done expect_list =>
    match s.call with
    | some call =>
      if (∀ first ∈ call.it.head?, call.now < first.reach_time) ∧ expect_list = call.expect_list then
        some { s with
          timer := (call.passed.map TimerEntry.reach_time).foldl (base_timer.erase_key call.timer_list) s.timer
          call := none }
      else none
    | none => none

/-- The timers after a history. -/
def Timers.run (events : List TimerEvent) : Option Timers := Trace.run Timers.step {} events

def TimerEvent.accept? : TimerEvent → Option TimerEntry
  | .add _ _ accepted => accepted
  | _ => none

def TimerEvent.deliver? : TimerEvent → Option TimerEntry
  | .deliver _ e _ => some e
  | _ => none

def TimerEvent.is_check : TimerEvent → Bool
  | .check _ => true
  | _ => false

def TimerEvent.is_done : TimerEvent → Bool
  | .done _ => true
  | _ => false

/-- The timers that were accepted, in their order. -/
def accepted (events : List TimerEvent) : List TimerEntry := events.filterMap TimerEvent.accept?

/-- The timers that were delivered, in their order. -/
def delivered (events : List TimerEvent) : List TimerEntry := events.filterMap TimerEvent.deliver?

/-- The table that is filled. -/
def Timers.filling (s : Timers) : List TimerEntry := s.timer.timer_list s.timer.current

/-- The table that a check goes through. -/
def Timers.checking (s : Timers) : List TimerEntry := s.timer.timer_list (1 - s.timer.current)

/-- What the check that runs has delivered. -/
def Timers.passed (s : Timers) : List TimerEntry := s.call.elim [] CheckCall.passed

/-- The timers that wait to be delivered. -/
def Timers.waiting (s : Timers) : List TimerEntry :=
  s.call.elim s.checking CheckCall.it ++ s.filling

def TimerEntry.id (e : TimerEntry) : ℕ := e.t_msg.timer_id

/-! ## Tables in order -/

/-- Ordered by due time. -/
def Ordered (l : List TimerEntry) : Prop := l.Pairwise fun e f => e.reach_time ≤ f.reach_time

theorem insert_entry_perm (e : TimerEntry) (l : List TimerEntry) : (insert_entry e l).Perm (e :: l) := by
  induction l with
  | nil => exact .refl _
  | cons f l ih =>
    rw [insert_entry]
    split
    · exact (ih.cons f).trans (.swap e f l)
    · exact .refl _

theorem Ordered.insert_entry {l : List TimerEntry} (h : Ordered l) (e : TimerEntry) :
    Ordered (insert_entry e l) := by
  induction l with
  | nil => exact List.pairwise_singleton _ _
  | cons f l ih =>
    obtain ⟨hf, hl⟩ := List.pairwise_cons.mp h
    rw [Core.insert_entry]
    split
    · next hle =>
      refine List.pairwise_cons.mpr ⟨fun g hg => ?_, ih hl⟩
      rcases List.mem_cons.mp ((insert_entry_perm e l).mem_iff.mp hg) with rfl | hg
      · exact hle
      · exact hf g hg
    · next hlt =>
      refine List.pairwise_cons.mpr ⟨fun g hg => ?_, h⟩
      rcases List.mem_cons.mp hg with rfl | hg
      · exact (not_le.mp hlt).le
      · exact (not_le.mp hlt).le.trans (hf g hg)

/-- Where the first of an ordered table is not due, none is. -/
theorem Ordered.not_due {l : List TimerEntry} (h : Ordered l) {now : ℕ}
    (hfirst : ∀ first ∈ l.head?, now < first.reach_time) : ∀ e ∈ l, now < e.reach_time := by
  cases l with
  | nil => simp
  | cons first l =>
    have hlt := hfirst first rfl
    intro e he
    rcases List.mem_cons.mp he with rfl | he
    · exact hlt
    · exact hlt.trans_le ((List.pairwise_cons.mp h).1 e he)

/-! ## Ids -/

/-- `gen_timerid` returns an id that is not in use. -/
theorem gen_timerid_fresh {set : Finset ℕ} {n timerid id : ℕ}
    (h : gen_timerid set n timerid = some id) : id ∉ set := by
  induction n generalizing timerid with
  | zero => cases h
  | succ n ih =>
    rw [gen_timerid] at h
    split at h
    · exact ih h
    · next hfresh =>
      cases h
      exact hfresh

/-- The id after `k` turns. -/
theorem next_timerid_iterate {timerid : ℕ} (hlow : TIMER_ID_BEGIN ≤ timerid) (hhigh : timerid < 2 ^ 32)
    (k : ℕ) : next_timerid^[k] timerid
      = TIMER_ID_BEGIN + (timerid - TIMER_ID_BEGIN + k) % (2 ^ 32 - TIMER_ID_BEGIN) := by
  unfold TIMER_ID_BEGIN at *
  induction k with
  | zero =>
    rw [Function.iterate_zero_apply, Nat.add_zero, Nat.mod_eq_of_lt (by omega)]
    omega
  | succ k ih =>
    rw [Function.iterate_succ_apply', ih, next_timerid, TIMER_ID_BEGIN]
    split <;> omega

/-- Turns that find no id have met ids in use only. -/
theorem mem_of_gen_timerid_none {set : Finset ℕ} {n timerid : ℕ}
    (h : gen_timerid set n timerid = none) : ∀ k < n, next_timerid^[k + 1] timerid ∈ set := by
  induction n generalizing timerid with
  | zero => intro k hk; omega
  | succ n ih =>
    rw [gen_timerid] at h
    split at h
    · next hused =>
      intro k hk
      cases k with
      | zero => exact hused
      | succ k => exact ih h k (by omega)
    · cases h

/-- **The loop ends.** There is an id as long as not all are in use. -/
theorem gen_timerid_returns {set : Finset ℕ} {timerid : ℕ} (hlow : TIMER_ID_BEGIN ≤ timerid)
    (hhigh : timerid < 2 ^ 32) (hroom : set.card < 2 ^ 32 - TIMER_ID_BEGIN) :
    ∃ id, gen_timerid set (2 ^ 32) timerid = some id := by
  cases hgen : gen_timerid set (2 ^ 32) timerid with
  | some id => exact ⟨id, rfl⟩
  | none =>
    have hall := mem_of_gen_timerid_none hgen
    have hcard : (Finset.range (2 ^ 32 - TIMER_ID_BEGIN)).card ≤ set.card := by
      refine Finset.card_le_card_of_injOn (fun k => next_timerid^[k + 1] timerid) ?_ ?_
      · intro k hk
        have hk' := Finset.mem_range.mp hk
        exact hall k (by unfold TIMER_ID_BEGIN at hk'; omega)
      · intro j hj k hk hjk
        have hj' := Finset.mem_range.mp hj
        have hk' := Finset.mem_range.mp hk
        simp only [next_timerid_iterate hlow hhigh] at hjk
        unfold TIMER_ID_BEGIN at *
        omega
    rw [Finset.card_range] at hcard
    omega

/-! ## Erasing -/

theorem mem_foldl_erase {l : List TimerEntry} {set : Finset ℕ} {id : ℕ} :
    id ∈ l.foldl (fun set e => set.erase e.t_msg.timer_id) set ↔ id ∈ set ∧ id ∉ l.map TimerEntry.id := by
  induction l generalizing set with
  | nil => simp
  | cons e l ih =>
    rw [List.foldl_cons, ih, Finset.mem_erase, List.map_cons, List.mem_cons, not_or]
    constructor
    · rintro ⟨⟨hne, hset⟩, hl⟩
      exact ⟨hset, hne, hl⟩
    · rintro ⟨hset, hne, hl⟩
      exact ⟨⟨hne, hset⟩, hl⟩

/-- What the loop over `tmp_vec` does. -/
structure Erased (i : Fin 2) (keys : List ℕ) (t t' : base_timer) : Prop where
  kept : t'.timer_list i = (t.timer_list i).filter fun e => e.reach_time ∉ keys
  other : ∀ j ≠ i, t'.timer_list j = t.timer_list j
  ids : ∀ id, id ∈ t'.timerid_set ↔
    id ∈ t.timerid_set ∧ id ∉ ((t.timer_list i).filter fun e => e.reach_time ∈ keys).map TimerEntry.id
  same : t'.timerid = t.timerid ∧ t'.current = t.current

theorem erase_keys_erased (i : Fin 2) (keys : List ℕ) (t : base_timer) :
    Erased i keys t (keys.foldl (base_timer.erase_key i) t) := by
  induction keys generalizing t with
  | nil => exact ⟨by simp, fun _ _ => rfl, by simp, rfl, rfl⟩
  | cons key keys ih =>
    obtain ⟨hkept, hother, hids, hsame⟩ := ih (t.erase_key i key)
    have hlist : (t.erase_key i key).timer_list i = (t.timer_list i).filter (·.reach_time ≠ key) :=
      Function.update_self ..
    rw [hlist] at hkept hids
    refine ⟨?_, fun j hj => ?_, fun id => ?_, hsame⟩
    · rw [List.foldl_cons, hkept, List.filter_filter]
      refine List.filter_congr fun e _ => ?_
      simp [Bool.and_comm]
    · rw [List.foldl_cons, hother j hj]
      exact Function.update_of_ne hj ..
    · have hset : id ∈ (t.erase_key i key).timerid_set ↔
          id ∈ t.timerid_set ∧ id ∉ ((t.timer_list i).filter (·.reach_time = key)).map TimerEntry.id :=
        mem_foldl_erase
      rw [List.foldl_cons, hids, hset, and_assoc]
      refine and_congr_right fun _ => ?_
      simp only [List.mem_map, List.mem_filter, List.mem_cons, decide_eq_true_iff, not_exists, not_and]
      constructor
      · rintro ⟨hkey, hkeys⟩ e ⟨he, hreach⟩
        by_cases h : e.reach_time = key
        · exact hkey e ⟨he, h⟩
        · exact hkeys e ⟨⟨he, h⟩, hreach.resolve_left h⟩
      · intro h
        exact ⟨fun e he => h e ⟨he.1, .inl he.2⟩, fun e he => h e ⟨he.1.1, .inr he.2⟩⟩

/-! ## What one event does -/

section Step

variable {s s' : Timers}

/-- The timers after an entry is accepted. -/
def Timers.with_entry (s : Timers) (e : TimerEntry) : Timers :=
  { s with
    timer := { s.timer with
      timer_list := Function.update s.timer.timer_list s.timer.current (insert_entry e s.filling)
      timerid_set := insert e.id s.timer.timerid_set
      timerid := e.id }
    count := s.count + 1 }

theorem with_entry_filling (e : TimerEntry) : (s.with_entry e).filling = insert_entry e s.filling :=
  update_same ..

theorem with_entry_checking (e : TimerEntry) : (s.with_entry e).checking = s.checking :=
  update_other ..

theorem step_add {clock : ℕ} {t_msg : timer_msg} {accepted : Option TimerEntry} :
    s.step (.add clock t_msg accepted) = some s' ↔
      (accepted = none ∧ (t_msg.time_length ≤ 0 ∨ t_msg.obj_id ≤ 0) ∧ s' = s) ∨
      ∃ id e, accepted = some e ∧ ¬ (t_msg.time_length ≤ 0 ∨ t_msg.obj_id ≤ 0) ∧
        gen_timerid s.timer.timerid_set (2 ^ 32) s.timer.timerid = some id ∧
        e = { reach_time := due_time clock t_msg, t_msg := { t_msg with timer_id := id }, seq := s.count } ∧
        s' = s.with_entry e := by
  simp only [Timers.step, base_timer.add_timer]
  by_cases hrejected : t_msg.time_length ≤ 0 ∨ t_msg.obj_id ≤ 0
  · rw [if_pos hrejected]
    simp only [Option.ite_none_right_eq_some, Option.some.injEq, hrejected]
    constructor
    · rintro ⟨rfl, rfl⟩
      exact .inl ⟨rfl, trivial, rfl⟩
    · rintro (⟨rfl, -, rfl⟩ | ⟨_, _, _, hfalse, _⟩)
      · exact ⟨rfl, rfl⟩
      · exact absurd trivial hfalse
  · rw [if_neg hrejected]
    cases hgen : gen_timerid s.timer.timerid_set (2 ^ 32) s.timer.timerid with
    | none =>
      constructor
      · intro h
        cases h
      · rintro (⟨-, h, -⟩ | ⟨_, _, _, _, h, _⟩)
        · exact absurd h hrejected
        · cases h
    | some id =>
      simp only [Option.bind_eq_bind, Option.bind_some, Option.pure_def, Option.ite_none_right_eq_some,
        Option.some.injEq, hrejected]
      constructor
      · rintro ⟨rfl, rfl⟩
        exact .inr ⟨id, _, rfl, not_false, rfl, rfl, rfl⟩
      · rintro (⟨_, hfalse, _⟩ | ⟨_, e, rfl, -, rfl, rfl, rfl⟩)
        · exact hfalse.elim
        · exact ⟨rfl, rfl⟩

theorem step_check {now : ℕ} : s.step (.check now) = some s' ↔ s.call = none ∧
    s' = { s with
      timer := { s.timer with current := 1 - s.timer.current }
      call := some { now, timer_list := s.timer.current, it := s.filling } } := by
  unfold Timers.filling
  simp only [Timers.step]
  cases s.call with
  | none => simp [eq_comm]
  | some call => simp

theorem step_deliver {now : ℕ} {e : TimerEntry} {throws : Bool} :
    s.step (.deliver now e throws) = some s' ↔ ∃ call rest, s.call = some call ∧ call.it = e :: rest ∧
      call.now = now ∧ e.reach_time ≤ now ∧
      s' = { s with call := some { call with
        passed := call.passed ++ [e]
        it := rest
        expect_list := if throws then call.expect_list ++ [e.t_msg.obj_id] else call.expect_list } } := by
  simp only [Timers.step]
  constructor
  · intro h
    split at h
    · next call hcall =>
      split at h
      · next first rest hit =>
        obtain ⟨⟨rfl, hnow, hdue⟩, hs⟩ := Option.ite_none_right_eq_some.mp h
        exact ⟨call, rest, hcall, hit, hnow, hdue, (Option.some.inj hs).symm⟩
      · cases h
    · cases h
  · rintro ⟨call, rest, hcall, hit, rfl, hdue, rfl⟩
    simp [hcall, hit, hdue]

theorem step_done {expect_list : List ℕ} : s.step (.done expect_list) = some s' ↔ ∃ call,
    s.call = some call ∧ (∀ first ∈ call.it.head?, call.now < first.reach_time) ∧
      expect_list = call.expect_list ∧
      s' = { s with
        timer := (call.passed.map TimerEntry.reach_time).foldl (base_timer.erase_key call.timer_list) s.timer
        call := none } := by
  simp only [Timers.step]
  constructor
  · intro h
    split at h
    · next call hcall =>
      obtain ⟨⟨hfirst, hlist⟩, hs⟩ := Option.ite_none_right_eq_some.mp h
      exact ⟨call, hcall, hfirst, hlist, (Option.some.inj hs).symm⟩
    · cases h
  · rintro ⟨call, hcall, hfirst, rfl, rfl⟩
    simp only [hcall]
    rw [if_pos ⟨hfirst, trivial⟩]

end Step

/-! ## The invariant -/

/-- The two tables are in order, the ids in them are distinct and are those in
the set, and a check that runs goes through the table that is not filled. -/
structure Sound (s : Timers) : Prop where
  filling : Ordered s.filling
  checking : Ordered s.checking
  ids_nodup : ((s.checking ++ s.filling).map TimerEntry.id).Nodup
  ids : ∀ id, id ∈ s.timer.timerid_set ↔ id ∈ (s.checking ++ s.filling).map TimerEntry.id
  call : ∀ call, s.call = some call → call.timer_list = 1 - s.timer.current ∧
    s.checking = call.passed ++ call.it ∧ ∀ e ∈ call.passed, e.reach_time ≤ call.now

/-- What has been accepted is delivered or waits, and each timer has its number. -/
structure Accounted (events : List TimerEvent) (s : Timers) : Prop where
  perm : (delivered events ++ s.waiting).Perm (accepted events)
  seqs : (accepted events).map TimerEntry.seq = List.range s.count

section Invariant

variable {s s' : Timers} {e : TimerEvent} {events : List TimerEvent}

theorem accepted_concat (events : List TimerEvent) (e : TimerEvent) :
    accepted (events ++ [e]) = accepted events ++ e.accept?.toList := by
  rw [accepted, List.filterMap_append]
  cases h : e.accept? <;> simp [accepted, h]

theorem delivered_concat (events : List TimerEvent) (e : TimerEvent) :
    delivered (events ++ [e]) = delivered events ++ e.deliver?.toList := by
  rw [delivered, List.filterMap_append]
  cases h : e.deliver? <;> simp [delivered, h]

/-- At the end of a check exactly what it has delivered is removed. -/
theorem done_tables (hs : Sound s) {call : CheckCall} (hcall : s.call = some call)
    (hfirst : ∀ first ∈ call.it.head?, call.now < first.reach_time) {t : base_timer}
    (ht : Erased call.timer_list (call.passed.map TimerEntry.reach_time) s.timer t) :
    t.current = s.timer.current ∧ t.timer_list (1 - s.timer.current) = call.it ∧
      t.timer_list s.timer.current = s.filling ∧
      ∀ id, id ∈ t.timerid_set ↔ id ∈ (call.it ++ s.filling).map TimerEntry.id := by
  obtain ⟨hside, hsplit, hpassed⟩ := hs.call call hcall
  obtain ⟨hkept, hother, hids, -, hcurrent⟩ := ht
  have horder : Ordered call.it := by
    have h := hs.checking
    rw [hsplit] at h
    exact (List.pairwise_append.mp h).2.1
  have hlate := horder.not_due hfirst
  -- what was passed was due, what is left is not
  have hout : ∀ e ∈ call.it, e.reach_time ∉ call.passed.map TimerEntry.reach_time := by
    intro e he hmem
    obtain ⟨f, hf, hreach⟩ := List.mem_map.mp hmem
    have hdue := hpassed f hf
    have hnot := hlate e he
    omega
  have hin : ∀ e ∈ call.passed, e.reach_time ∈ call.passed.map TimerEntry.reach_time :=
    fun e he => List.mem_map_of_mem he
  have hchecking : s.timer.timer_list call.timer_list = call.passed ++ call.it := hside ▸ hsplit
  rw [hchecking, List.filter_append] at hkept hids
  rw [List.filter_eq_nil_iff.mpr (by simpa using hin), List.nil_append,
    List.filter_eq_self.mpr (by simpa using hout)] at hkept
  rw [List.filter_eq_self.mpr (by simpa using hin),
    List.filter_eq_nil_iff.mpr (by simpa using hout), List.append_nil] at hids
  refine ⟨hcurrent, hside ▸ hkept, hother _ (hside ▸ (other_ne _).symm), fun id => ?_⟩
  have hnodup := hs.ids_nodup
  rw [hids, hs.ids, hsplit, List.append_assoc, List.map_append, List.mem_append]
  rw [hsplit, List.append_assoc, List.map_append] at hnodup
  constructor
  · rintro ⟨hmem, hnot⟩
    exact hmem.resolve_left hnot
  · intro hmem
    exact ⟨.inr hmem, fun hpassed => List.disjoint_of_nodup_append hnodup hpassed hmem⟩

theorem Sound.init : Sound {} where
  filling := .nil
  checking := .nil
  ids_nodup := .nil
  ids id := by simp [Timers.checking, Timers.filling]
  call := nofun

theorem Sound.step (hs : Sound s) (h : s.step e = some s') : Sound s' := by
  cases e with
  | add clock t_msg acc =>
    rcases step_add.mp h with ⟨-, -, rfl⟩ | ⟨id, entry, -, -, hgen, hentry, rfl⟩
    · exact hs
    · have hfresh : id ∉ (s.checking ++ s.filling).map TimerEntry.id :=
        fun hmem => gen_timerid_fresh hgen ((hs.ids id).mpr hmem)
      have hid : entry.id = id := by rw [hentry]; rfl
      have hperm : (((s.with_entry entry).checking ++ (s.with_entry entry).filling).map TimerEntry.id).Perm
          (id :: (s.checking ++ s.filling).map TimerEntry.id) := by
        rw [with_entry_checking, with_entry_filling, ← hid, ← List.map_cons]
        exact (((insert_entry_perm entry s.filling).append_left _).trans List.perm_middle).map _
      exact {
        filling := by
          rw [with_entry_filling]
          exact hs.filling.insert_entry entry
        checking := by
          rw [with_entry_checking]
          exact hs.checking
        ids_nodup := hperm.nodup_iff.mpr (List.nodup_cons.mpr ⟨hfresh, hs.ids_nodup⟩)
        ids := fun id' => by
          rw [hperm.mem_iff, List.mem_cons, ← hs.ids, ← hid]
          exact Finset.mem_insert
        call := fun call hcall => by
          rw [with_entry_checking]
          exact hs.call call hcall }
  | check now =>
    obtain ⟨hcall, rfl⟩ := step_check.mp h
    have hchecking : s.timer.timer_list (1 - (1 - s.timer.current)) = s.filling := by
      rw [other_other]
      rfl
    exact {
      filling := hs.checking
      checking := by
        rw [Timers.checking, hchecking]
        exact hs.filling
      ids_nodup := by
        rw [Timers.checking, hchecking]
        exact (List.perm_append_comm.map _).nodup_iff.mp hs.ids_nodup
      ids := fun id => by
        rw [Timers.checking, hchecking]
        exact (hs.ids id).trans (List.perm_append_comm.map _).mem_iff
      call := by
        rintro _ ⟨⟩
        rw [Timers.checking, hchecking]
        exact ⟨(other_other _).symm, rfl, by simp⟩ }
  | deliver now entry throws =>
    obtain ⟨call, rest, hcall, hit, hnow, hdue, rfl⟩ := step_deliver.mp h
    obtain ⟨hside, hsplit, hpassed⟩ := hs.call call hcall
    refine ⟨hs.filling, hs.checking, hs.ids_nodup, hs.ids, ?_⟩
    rintro _ ⟨⟩
    refine ⟨hside, ?_, fun f hf => ?_⟩
    · rw [List.append_assoc, List.singleton_append, ← hit]
      exact hsplit
    · rcases List.mem_append.mp hf with hf | hf
      · exact hpassed f hf
      · rw [List.mem_singleton.mp hf, hnow]
        exact hdue
  | done expect_list =>
    obtain ⟨call, hcall, hfirst, -, rfl⟩ := step_done.mp h
    obtain ⟨hcurrent, hchecking, hfilling, hids⟩ := done_tables hs hcall hfirst (erase_keys_erased _ _ _)
    obtain ⟨-, hsplit, -⟩ := hs.call call hcall
    have hsub : (call.it ++ s.filling).Sublist (s.checking ++ s.filling) := by
      rw [hsplit]
      exact (List.sublist_append_right _ _).append_right _
    exact {
      filling := by
        rw [Timers.filling, hcurrent, hfilling]
        exact hs.filling
      checking := by
        rw [Timers.checking, hcurrent, hchecking]
        exact List.Pairwise.sublist (by rw [hsplit]; exact List.sublist_append_right _ _) hs.checking
      ids_nodup := by
        rw [Timers.checking, Timers.filling, hcurrent, hchecking, hfilling]
        exact (hsub.map _).nodup hs.ids_nodup
      ids := fun id => by
        rw [Timers.checking, Timers.filling, hcurrent, hchecking, hfilling]
        exact hids id
      call := nofun }

theorem run_sound (h : Timers.run events = some s) : Sound s :=
  run_induction (P := fun _ s => Sound s) Sound.init (fun _ _ _ _ _ hs hstep => hs.step hstep) h

theorem with_entry_waiting (s : Timers) (entry : TimerEntry) :
    (s.with_entry entry).waiting.Perm (entry :: s.waiting) := by
  have hchecking : (s.with_entry entry).call.elim (s.with_entry entry).checking CheckCall.it
      = s.call.elim s.checking CheckCall.it := by
    rw [with_entry_checking]
    rfl
  rw [Timers.waiting, hchecking, with_entry_filling]
  exact ((insert_entry_perm entry s.filling).append_left _).trans List.perm_middle

/-- What one event does to the timers that wait. -/
theorem waiting_step (hs : Sound s) (h : s.step e = some s') :
    (e.deliver?.toList ++ s'.waiting).Perm (s.waiting ++ e.accept?.toList) := by
  cases e with
  | add clock t_msg acc =>
    rcases step_add.mp h with ⟨rfl, -, rfl⟩ | ⟨id, entry, rfl, -, -, -, rfl⟩
    · rw [TimerEvent.accept?, Option.toList_none, List.append_nil]
      exact .refl _
    · exact (with_entry_waiting s entry).trans (List.perm_append_singleton entry s.waiting).symm
  | check now =>
    obtain ⟨hcall, rfl⟩ := step_check.mp h
    have hwaiting : s.waiting = s.checking ++ s.filling := by
      rw [Timers.waiting, hcall]
      rfl
    change (s.filling ++ s.checking).Perm (s.waiting ++ [])
    rw [hwaiting, List.append_nil]
    exact List.perm_append_comm
  | deliver now entry throws =>
    obtain ⟨call, rest, hcall, hit, -, -, rfl⟩ := step_deliver.mp h
    have hwaiting : s.waiting = entry :: rest ++ s.filling := by
      rw [Timers.waiting, hcall, ← hit]
      rfl
    change ([entry] ++ (rest ++ s.filling)).Perm (s.waiting ++ [])
    rw [hwaiting, List.append_nil]
    exact .refl _
  | done expect_list =>
    obtain ⟨call, hcall, hfirst, -, rfl⟩ := step_done.mp h
    obtain ⟨hcurrent, hchecking, hfilling, -⟩ := done_tables hs hcall hfirst (erase_keys_erased _ _ _)
    have hwaiting : s.waiting = call.it ++ s.filling := by
      rw [Timers.waiting, hcall]
      rfl
    change (Timers.waiting _).Perm (s.waiting ++ [])
    rw [hwaiting, List.append_nil, Timers.waiting, Timers.checking, Timers.filling, hcurrent, hchecking,
      hfilling]
    exact .refl _

/-- The count goes up with each timer that is accepted, which takes its number. -/
theorem count_step (h : s.step e = some s') :
    e.accept?.toList.map TimerEntry.seq = List.range' s.count e.accept?.toList.length ∧
      s'.count = s.count + e.accept?.toList.length := by
  cases e with
  | add clock t_msg acc =>
    rcases step_add.mp h with ⟨rfl, -, rfl⟩ | ⟨id, entry, rfl, -, -, rfl, rfl⟩
    · exact ⟨rfl, rfl⟩
    · exact ⟨rfl, rfl⟩
  | check now =>
    obtain ⟨-, rfl⟩ := step_check.mp h
    exact ⟨rfl, rfl⟩
  | deliver now entry throws =>
    obtain ⟨_, _, -, -, -, -, rfl⟩ := step_deliver.mp h
    exact ⟨rfl, rfl⟩
  | done expect_list =>
    obtain ⟨call, -, -, -, rfl⟩ := step_done.mp h
    exact ⟨rfl, rfl⟩

theorem Accounted.step (hs : Sound s) (ha : Accounted events s) (h : s.step e = some s') :
    Accounted (events ++ [e]) s' := by
  obtain ⟨hseq, hcount⟩ := count_step h
  refine ⟨?_, ?_⟩
  · rw [delivered_concat, accepted_concat, List.append_assoc]
    have hwaiting := (waiting_step hs h).append_left (delivered events)
    rw [← List.append_assoc (delivered events) s.waiting] at hwaiting
    exact hwaiting.trans (ha.perm.append_right _)
  · rw [accepted_concat, List.map_append, ha.seqs, hseq, hcount, List.range_eq_range', List.range_eq_range',
      ← List.range'_append_1, Nat.zero_add]

/-- **Accounted.** Every timer that was accepted was delivered once or waits. -/
theorem run_accounted (h : Timers.run events = some s) : Accounted events s := by
  refine (run_induction (P := fun events s => Sound s ∧ Accounted events s) ⟨Sound.init, .refl _, rfl⟩
    (fun _ _ _ _ _ hs hstep => ⟨hs.1.step hstep, hs.2.step hs.1 hstep⟩) h).2

/-- What a running check has delivered was delivered last. -/
theorem run_passed (h : Timers.run events = some s) : s.passed <:+ delivered events := by
  refine run_induction (P := fun events s => s.passed <:+ delivered events) (List.suffix_refl _) ?_ h
  intro events s e s' _ hs hstep
  rw [delivered_concat]
  cases e with
  | add clock t_msg acc =>
    have hsame : s'.passed = s.passed := by
      rcases step_add.mp hstep with ⟨-, -, rfl⟩ | ⟨id, entry, -, -, -, -, rfl⟩ <;> rfl
    change s'.passed <:+ delivered events ++ []
    rw [hsame, List.append_nil]
    exact hs
  | check now =>
    obtain ⟨-, rfl⟩ := step_check.mp hstep
    exact List.nil_suffix
  | deliver now entry throws =>
    obtain ⟨call, rest, hcall, -, -, -, rfl⟩ := step_deliver.mp hstep
    rw [Timers.passed, hcall] at hs
    obtain ⟨before, hbefore⟩ := hs
    exact ⟨before, by rw [← hbefore, List.append_assoc]; rfl⟩
  | done expect_list =>
    obtain ⟨call, -, -, -, rfl⟩ := step_done.mp hstep
    exact List.nil_suffix

/-- The tables hold what waits and what the running check has delivered. -/
theorem Sound.tables_perm (hs : Sound s) : (s.checking ++ s.filling).Perm (s.waiting ++ s.passed) := by
  cases hcall : s.call with
  | none =>
    rw [Timers.waiting, Timers.passed, hcall, Option.elim_none, Option.elim_none, List.append_nil]
  | some call =>
    obtain ⟨-, hsplit, -⟩ := hs.call call hcall
    rw [hsplit, Timers.waiting, Timers.passed, hcall, Option.elim_some, Option.elim_some, List.append_assoc]
    exact List.perm_append_comm

/-- The events of `check_timer` come in its order: what is delivered is due at the
check that runs. -/
theorem run_call (h : Timers.run events = some s) : ∀ call, s.call = some call →
    ∃ before after, events = before ++ .check call.now :: after ∧ ∀ e ∈ after, e.is_check = false ∧ e.is_done = false := by
  refine run_induction (P := fun events s => ∀ call, s.call = some call → ∃ before after,
    events = before ++ .check call.now :: after ∧ ∀ e ∈ after, e.is_check = false ∧ e.is_done = false) nofun ?_ h
  intro events s e s' _ hs hstep call' hcall'
  -- an event that leaves the check running comes behind those of it so far
  have hbehind : ∀ call, s.call = some call → call.now = call'.now → e.is_check = false → e.is_done = false →
      ∃ before after, events ++ [e] = before ++ .check call'.now :: after ∧
        ∀ e ∈ after, e.is_check = false ∧ e.is_done = false := by
    intro call hcall hnow hcheck hdone
    obtain ⟨before, after, rfl, hafter⟩ := hs call hcall
    refine ⟨before, after ++ [e], by rw [hnow, List.append_assoc, List.cons_append], fun f hf => ?_⟩
    rcases List.mem_append.mp hf with hf | hf
    · exact hafter f hf
    · rw [List.mem_singleton.mp hf]
      exact ⟨hcheck, hdone⟩
  cases e with
  | add clock t_msg acc =>
    have hcall : s.call = some call' := by
      rcases step_add.mp hstep with ⟨-, -, rfl⟩ | ⟨id, entry, -, -, -, -, rfl⟩ <;> exact hcall'
    exact hbehind call' hcall rfl rfl rfl
  | check now =>
    obtain ⟨-, rfl⟩ := step_check.mp hstep
    cases hcall'
    exact ⟨events, [], rfl, by simp⟩
  | deliver now entry throws =>
    obtain ⟨call, rest, hcall, -, -, -, rfl⟩ := step_deliver.mp hstep
    cases hcall'
    exact hbehind call hcall rfl rfl rfl
  | done expect_list =>
    obtain ⟨call, -, -, -, rfl⟩ := step_done.mp hstep
    cases hcall'

end Invariant

/-! ## Two checks in a row -/

/-- The check that runs is going to deliver the timer. -/
def Timers.Pending (s : Timers) (e : TimerEntry) : Prop :=
  ∃ call, s.call = some call ∧ e ∈ call.it ∧ e.reach_time ≤ call.now

section InTime

variable {s s' : Timers} {e : TimerEvent} {events : List TimerEvent} {entry : TimerEntry}

theorem mem_delivered_concat : entry ∈ delivered (events ++ [e]) ↔
    entry ∈ delivered events ∨ e.deliver? = some entry := by
  rw [delivered_concat, List.mem_append, Option.mem_toList]

/-- A timer that is going to be delivered still is, or has been; then the check
has not ended. -/
theorem pending_step (hs : Sound s) (hpending : s.Pending entry) (h : s.step e = some s') :
    (e.deliver? = some entry ∨ s'.Pending entry) ∧ e.is_done = false := by
  obtain ⟨call, hcall, hmem, hdue⟩ := hpending
  cases e with
  | add clock t_msg acc =>
    rcases step_add.mp h with ⟨-, -, rfl⟩ | ⟨id, added, -, -, -, -, rfl⟩
    · exact ⟨.inr ⟨call, hcall, hmem, hdue⟩, rfl⟩
    · exact ⟨.inr ⟨call, hcall, hmem, hdue⟩, rfl⟩
  | check now =>
    obtain ⟨hnone, -⟩ := step_check.mp h
    rw [hcall] at hnone
    cases hnone
  | deliver now first throws =>
    obtain ⟨call', rest, hcall', hit, -, -, rfl⟩ := step_deliver.mp h
    obtain rfl := Option.some.inj (hcall.symm.trans hcall')
    rw [hit] at hmem
    rcases List.mem_cons.mp hmem with rfl | hmem
    · exact ⟨.inl rfl, rfl⟩
    · exact ⟨.inr ⟨_, rfl, hmem, hdue⟩, rfl⟩
  | done expect_list =>
    obtain ⟨call', hcall', hfirst, -, rfl⟩ := step_done.mp h
    obtain rfl := Option.some.inj (hcall.symm.trans hcall')
    obtain ⟨-, hsplit, -⟩ := hs.call call hcall
    have horder : Ordered call.it := by
      have hchecking := hs.checking
      rw [hsplit] at hchecking
      exact (List.pairwise_append.mp hchecking).2.1
    have hlate := horder.not_due hfirst entry hmem
    omega

/-- Between two checks the table that is filled keeps its timers. -/
theorem filling_step (hs : Sound s) (hmem : entry ∈ s.filling) (hcheck : e.is_check = false)
    (h : s.step e = some s') : entry ∈ s'.filling := by
  cases e with
  | add clock t_msg acc =>
    rcases step_add.mp h with ⟨-, -, rfl⟩ | ⟨id, added, -, -, -, -, rfl⟩
    · exact hmem
    · rw [with_entry_filling]
      exact (insert_entry_perm added s.filling).mem_iff.mpr (List.mem_cons_of_mem _ hmem)
  | check now => cases hcheck
  | deliver now first throws =>
    obtain ⟨_, _, -, -, -, -, rfl⟩ := step_deliver.mp h
    exact hmem
  | done expect_list =>
    obtain ⟨call, hcall, hfirst, -, rfl⟩ := step_done.mp h
    obtain ⟨hcurrent, -, hfilling, -⟩ := done_tables hs hcall hfirst (erase_keys_erased _ _ _)
    rw [Timers.filling, hcurrent, hfilling]
    exact hmem

/-- The first of two checks delivers what is due, or it is in the other table. -/
theorem first_check {before between : List TimerEvent} {now : ℕ} (hmem : entry ∈ accepted before)
    (hdue : entry.reach_time ≤ now) (hbetween : ∀ e ∈ between, e.is_check = false)
    (h : Timers.run (before ++ [.check now] ++ between) = some s) :
    entry ∈ delivered (before ++ [.check now] ++ between) ∨ s.Pending entry ∨ entry ∈ s.filling := by
  refine run_from (P := fun events s => entry ∈ delivered events ∨ s.Pending entry ∨ entry ∈ s.filling)
    ?_ ?_ h
  · intro s1 h1
    obtain ⟨s0, h0, hcheck⟩ := run_concat.mp h1
    obtain ⟨hcall, rfl⟩ := step_check.mp hcheck
    have hwhere : entry ∈ delivered before ++ s0.waiting := (run_accounted h0).perm.mem_iff.mpr hmem
    rw [Timers.waiting, hcall] at hwhere
    rcases List.mem_append.mp hwhere with hgone | hwaiting
    · exact .inl (mem_delivered_concat.mpr (.inl hgone))
    · rcases List.mem_append.mp hwaiting with hother | hcurrent
      · exact .inr (.inr hother)
      · exact .inr (.inl ⟨_, rfl, hcurrent, hdue⟩)
  · intro events s1 e s2 he _ h1 hP hstep
    have hs := run_sound h1
    rcases hP with hgone | hpending | hfilling
    · exact .inl (mem_delivered_concat.mpr (.inl hgone))
    · rcases (pending_step hs hpending hstep).1 with hnow | hpending
      · exact .inl (mem_delivered_concat.mpr (.inr hnow))
      · exact .inr (.inl hpending)
    · exact .inr (.inr (filling_step hs hfilling (hbetween e he) hstep))

/-- What a check goes through is delivered when it ends. -/
theorem second_check {before after : List TimerEvent} (hbefore : ∀ s1, Timers.run before = some s1 →
      entry ∈ delivered before ∨ s1.Pending entry)
    (h : Timers.run (before ++ after) = some s) :
    entry ∈ delivered (before ++ after) ∨ s.Pending entry ∧ ∀ e ∈ after, e.is_done = false := by
  induction after using List.reverseRecOn generalizing s with
  | nil =>
    rw [List.append_nil] at h ⊢
    exact (hbefore s h).imp_right fun hpending => ⟨hpending, by simp⟩
  | append_singleton after e ih =>
    rw [← List.append_assoc] at h ⊢
    obtain ⟨s1, h1, hstep⟩ := run_concat.mp h
    rcases ih h1 with hgone | ⟨hpending, hdone⟩
    · exact .inl (mem_delivered_concat.mpr (.inl hgone))
    · obtain ⟨hnext, hend⟩ := pending_step (run_sound h1) hpending hstep
      rcases hnext with hnow | hpending
      · exact .inl (mem_delivered_concat.mpr (.inr hnow))
      · refine .inr ⟨hpending, fun f hf => ?_⟩
        rcases List.mem_append.mp hf with hf | hf
        · exact hdone f hf
        · rw [List.mem_singleton.mp hf]
          exact hend

/-- **In time.** Of two checks in a row at or past its due time, one delivers the
timer. -/
theorem delivered_by_two_checks {before between after : List TimerEvent} {now now' : ℕ}
    (hmem : entry ∈ accepted before) (hdue : entry.reach_time ≤ now) (hdue' : entry.reach_time ≤ now')
    (hbetween : ∀ e ∈ between, e.is_check = false) (hend : ∃ e ∈ after, e.is_done = true)
    (h : Timers.run (before ++ [.check now] ++ between ++ [.check now'] ++ after) = some s) :
    entry ∈ delivered (before ++ [.check now] ++ between ++ [.check now'] ++ after) := by
  have hopen : ∀ s2, Timers.run (before ++ [.check now] ++ between ++ [.check now']) = some s2 →
      entry ∈ delivered (before ++ [.check now] ++ between ++ [.check now']) ∨ s2.Pending entry := by
    intro s2 h2
    obtain ⟨s1, h1, hcheck⟩ := run_concat.mp h2
    obtain ⟨hcall, rfl⟩ := step_check.mp hcheck
    rcases first_check hmem hdue hbetween h1 with hgone | ⟨call, hsome, -⟩ | hfilling
    · exact .inl (mem_delivered_concat.mpr (.inl hgone))
    · rw [hcall] at hsome
      cases hsome
    · exact .inr ⟨_, rfl, hfilling, hdue'⟩
  rcases second_check hopen h with hgone | ⟨-, hafter⟩
  · exact hgone
  · obtain ⟨e, he, hdone⟩ := hend
    rw [hafter e he] at hdone
    cases hdone

/-- **A check ends**: it goes on to its end, whatever its handlers do. -/
theorem check_ends (throws : TimerEntry → Bool) {call : CheckCall} (hcall : s.call = some call) :
    ∃ events s', Trace.run Timers.step s events = some s' ∧ s'.call = none := by
  have hdone : ∀ {s : Timers} {call : CheckCall}, s.call = some call →
      (∀ first ∈ call.it.head?, call.now < first.reach_time) →
      ∃ events s', Trace.run Timers.step s events = some s' ∧ s'.call = none := by
    intro s call hcall hfirst
    obtain ⟨s', hs', hnone⟩ : ∃ s', s.step (.done call.expect_list) = some s' ∧ s'.call = none :=
      ⟨_, step_done.mpr ⟨call, hcall, hfirst, rfl, rfl⟩, rfl⟩
    exact ⟨[.done call.expect_list], s', run_cons.mpr ⟨s', hs', rfl⟩, hnone⟩
  generalize hit : call.it = it
  induction it generalizing s call with
  | nil => exact hdone hcall (by simp [hit])
  | cons first rest ih =>
    by_cases hdue : first.reach_time ≤ call.now
    · obtain ⟨s1, hstep, call1, hcall1, hit1⟩ : ∃ s1, s.step (.deliver call.now first (throws first)) = some s1 ∧
          ∃ call1, s1.call = some call1 ∧ call1.it = rest :=
        ⟨_, step_deliver.mpr ⟨call, rest, hcall, hit, rfl, hdue, rfl⟩, _, rfl, rfl⟩
      obtain ⟨events, s', hrun, hnone⟩ := ih hcall1 hit1
      exact ⟨.deliver call.now first (throws first) :: events, s', run_cons.mpr ⟨s1, hstep, hrun⟩, hnone⟩
    · exact hdone hcall (by simpa [hit] using hdue)

end InTime

section Run

variable {events : List TimerEvent} {s : Timers}

/-- A timer that is delivered was accepted before, and is due at the check that
runs. -/
theorem delivered_when_due {before after : List TimerEvent} {now : ℕ} {e : TimerEntry} {throws : Bool}
    (h : Timers.run (before ++ .deliver now e throws :: after) = some s) :
    e ∈ accepted before ∧ e.reach_time ≤ now ∧ ∃ front between, before = front ++ .check now :: between ∧
      ∀ f ∈ between, f.is_check = false ∧ f.is_done = false := by
  rw [List.append_cons] at h
  obtain ⟨s2, h2, -⟩ := run_front h
  obtain ⟨s1, h1, hstep⟩ := run_concat.mp h2
  obtain ⟨call, rest, hcall, hit, rfl, hdue, -⟩ := step_deliver.mp hstep
  have hwaiting : e ∈ s1.waiting := by
    rw [Timers.waiting, hcall, Option.elim_some, hit]
    exact List.mem_append_left _ List.mem_cons_self
  exact ⟨(run_accounted h1).perm.mem_iff.mp (List.mem_append_right _ hwaiting), hdue, run_call h1 call hcall⟩

theorem accepted_due {clock : ℕ} {t_msg : timer_msg} {e : TimerEntry}
    (h : Timers.run events = some s) (hmem : .add clock t_msg (some e) ∈ events) :
    e.reach_time = due_time clock t_msg := by
  obtain ⟨before, after, rfl⟩ := List.append_of_mem hmem
  rw [List.append_cons] at h
  obtain ⟨s2, h2, -⟩ := run_front h
  obtain ⟨s1, -, hstep⟩ := run_concat.mp h2
  rcases step_add.mp hstep with ⟨hnone, -, -⟩ | ⟨id, e', hsome, -, -, rfl, -⟩
  · cases hnone
  · cases hsome
    rfl

/-- The ids in use are those of the timers that wait and of those that the
running check has delivered, all of them different. -/
theorem ids_of_waiting (h : Timers.run events = some s) :
    ((s.waiting ++ s.passed).map TimerEntry.id).Nodup ∧
      ∀ id, id ∈ s.timer.timerid_set ↔ id ∈ (s.waiting ++ s.passed).map TimerEntry.id := by
  have hs := run_sound h
  have hperm := hs.tables_perm.map TimerEntry.id
  exact ⟨hperm.nodup_iff.mp hs.ids_nodup, fun id => (hs.ids id).trans hperm.mem_iff⟩

/-- **Each timer is delivered once and in time.** While a check runs, the ids in
use have those of the timers that it has delivered besides those of the timers
that wait. -/
theorem delivered_in_time (h : Timers.run events = some s) :
    (∀ clock t_msg e, .add clock t_msg (some e) ∈ events → e.reach_time = due_time clock t_msg) ∧
    ((accepted events).map TimerEntry.seq).Nodup ∧
    (delivered events ++ s.waiting).Perm (accepted events) ∧
    (∀ before now e throws after, events = before ++ .deliver now e throws :: after →
      e ∈ accepted before ∧ e.reach_time ≤ now ∧ ∃ front between,
        before = front ++ .check now :: between ∧ ∀ f ∈ between, f.is_check = false ∧ f.is_done = false) ∧
    (∀ before now between now' after e,
      events = before ++ [.check now] ++ between ++ [.check now'] ++ after →
      (∀ f ∈ between, f.is_check = false) → (∃ f ∈ after, f.is_done = true) →
      e ∈ accepted before → e.reach_time ≤ now → e.reach_time ≤ now' → e ∈ delivered events) ∧
    ((s.waiting ++ s.passed).map TimerEntry.id).Nodup ∧
    (∀ id, id ∈ s.timer.timerid_set ↔ id ∈ (s.waiting ++ s.passed).map TimerEntry.id) ∧
    s.passed <:+ delivered events ∧ (s.call = none → s.passed = []) := by
  obtain ⟨hnodup, hids⟩ := ids_of_waiting h
  obtain ⟨hperm, hseqs⟩ := run_accounted h
  refine ⟨fun _ _ _ => accepted_due h, ?_, hperm, ?_, ?_, hnodup, hids, run_passed h, ?_⟩
  · rw [hseqs]
    exact List.nodup_range
  · rintro before now e throws after rfl
    exact delivered_when_due h
  · rintro before now between now' after e rfl hbetween hend hmem hdue hdue'
    exact delivered_by_two_checks hmem hdue hdue' hbetween hend h
  · intro hnone
    rw [Timers.passed, hnone]
    rfl

end Run

/-! ## Two timers that are due together -/

/-- A timer of the object 5 that is due at 1. -/
def first_timer : TimerEntry :=
  { reach_time := 1, t_msg := { timer_id := 1001, timer_type := 1, obj_id := 5, time_length := 1 }, seq := 0 }

/-- Another one. -/
def second_timer : TimerEntry :=
  { reach_time := 1, t_msg := { timer_id := 1002, timer_type := 2, obj_id := 5, time_length := 1 }, seq := 1 }

/-- Both are added at 0 and delivered by the check at 1, which has not ended. -/
def due_together : List TimerEvent :=
  [.add 0 { timer_type := 1, obj_id := 5, time_length := 1 } (some first_timer),
   .add 0 { timer_type := 2, obj_id := 5, time_length := 1 } (some second_timer),
   .check 1, .deliver 1 first_timer false, .deliver 1 second_timer true]

theorem due_together_runs : (Timers.run due_together).map (fun s => (s.timer.timerid_set, s.waiting))
    = some ({1001, 1002}, []) := by
  decide +kernel

/-- Their ids are still in use then, though none of them waits. -/
theorem delivered_id_held : ∃ s, Timers.run due_together = some s ∧
    ¬ ∀ id, id ∈ s.timer.timerid_set ↔ id ∈ s.waiting.map TimerEntry.id := by
  obtain ⟨s, hrun, hs⟩ := Option.map_eq_some_iff.mp due_together_runs
  obtain ⟨hset, hwaiting⟩ := Prod.mk.inj hs
  refine ⟨s, hrun, fun h => ?_⟩
  have hmem := (h 1001).mp (by rw [hset]; decide)
  rw [hwaiting] at hmem
  cases hmem

/-- The check that delivers both keeps the times. -/
theorem due_together_in_time : ∃ s, Timers.run due_together = some s ∧
    (delivered due_together ++ s.waiting).Perm (accepted due_together) := by
  obtain ⟨s, hrun, -⟩ := Option.map_eq_some_iff.mp due_together_runs
  exact ⟨s, hrun, (delivered_in_time hrun).2.2.1⟩

end RxNetCap.Core
