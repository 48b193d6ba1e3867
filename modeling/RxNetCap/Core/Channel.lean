/-
The mailbox of a thread: `channel_data_process` of `src/core/legacy_core_net.cpp`.

Any thread may put a message; the thread that owns the mailbox takes all that
wait in one locked section and then dispatches them one by one without the
lock, so that handlers and other threads put messages meanwhile. Two queues
take turns: senders append to one, the owner empties the other, and only the
owner changes which is which.

A handler that throws ends the call, and what is left of the batch goes with
it; the channel stays in the epoll set, and the next call takes what was put
since. So messages keep their order and come at most once whatever happens
(`dispatched_sublist`), and none is lost as long as no handler throws in front of
messages of its batch (`dispatched_in_order`).

When a call is made is left out (the tag on the socket, and the event timer that
does without it): any call may come at any time. It is the connection itself
that makes it, so the pointer to it is never null there.
-/
import RxNetCap.Lib.Sides
import RxNetCap.Lib.Trace

set_option autoImplicit false

namespace RxNetCap.Core

open RxNetCap.Sides RxNetCap.Trace

variable {M : Type}

/-! ## The two queues -/

structure normal_obj_msg (M : Type) where
  obj_id : ℕ
  p_msg : M
  deriving DecidableEq, Repr

structure channel_data_process (M : Type) where
  queue : Fin 2 → List (normal_obj_msg M) := fun _ => []
  current : Fin 2 := 0

def channel_data_process.put_msg (obj_id : ℕ) (p_msg : M) (c : channel_data_process M) :
    channel_data_process M :=
  let idle := 1 - c.current
  { c with queue := Function.update c.queue idle (c.queue idle ++ [{ obj_id, p_msg }]) }

/-- The locked section of `process_recv_buf`: the batch, and what it leaves. -/
def channel_data_process.take_batch (c : channel_data_process M) :
    List (normal_obj_msg M) × channel_data_process M :=
  let current := if c.queue c.current = [] then 1 - c.current else c.current
  (c.queue current, { queue := Function.update c.queue current [], current })

section Queues

variable {c : channel_data_process M}

theorem put_msg_current (obj_id : ℕ) (p_msg : M) :
    (c.put_msg obj_id p_msg).queue c.current = c.queue c.current :=
  update_side ..

theorem put_msg_idle (obj_id : ℕ) (p_msg : M) :
    (c.put_msg obj_id p_msg).queue (1 - c.current)
      = c.queue (1 - c.current) ++ [⟨obj_id, p_msg⟩] :=
  update_same ..

/-- From a mailbox that is drained, a call takes all that wait. -/
theorem take_batch_eq (h : c.queue c.current = []) :
    c.take_batch.1 = c.queue (1 - c.current) ∧ c.take_batch.2.current = 1 - c.current ∧
      c.take_batch.2.queue (1 - c.current) = [] ∧ c.take_batch.2.queue c.current = [] := by
  unfold channel_data_process.take_batch
  rw [if_pos h]
  refine ⟨rfl, rfl, update_same .., ?_⟩
  rw [← h]
  exact update_side ..

end Queues

/-- `sizeof(CHANNEL_MSG_TAG)`. -/
def CHANNEL_MSG_TAG_SIZE : ℕ := 2

/-! ## Calls in any order -/

/-- A call of `process_recv_buf` behind its locked section: how many messages it
has dispatched, and those to come. -/
structure RecvCall (M : Type) where
  i : ℕ := 0
  rest : List (normal_obj_msg M)

structure Mailbox (M : Type) where
  channel : channel_data_process M := {}
  call : Option (RecvCall M) := none

/-- What happens at a mailbox. -/
inductive MailEvent (M : Type) where
  /-- some sender puts a message -/
  | put (msg : normal_obj_msg M)
  /-- the owner starts a call, with its locked section -/
  | start
  /-- the call hands a message to the container -/
  | dispatch (msg : normal_obj_msg M)
  /-- a handler throws: the call ends with `rest` not dispatched -/
  | leave (rest : List (normal_obj_msg M))
  /-- the call returns the number of bytes it has used up -/
  | finish (k : ℕ)
  deriving DecidableEq

def MailEvent.put? : MailEvent M → Option (normal_obj_msg M)
  | .put msg => some msg
  | _ => none

def MailEvent.dispatch? : MailEvent M → Option (normal_obj_msg M)
  | .dispatch msg => some msg
  | _ => none

/-- The messages put, in the order of the lock. -/
def puts (events : List (MailEvent M)) : List (normal_obj_msg M) := events.filterMap MailEvent.put?

/-- The messages dispatched, in their order. -/
def dispatches (events : List (MailEvent M)) : List (normal_obj_msg M) :=
  events.filterMap MailEvent.dispatch?

/-- The end of a call. -/
def MailEvent.ends_call : MailEvent M → Bool
  | .leave _ | .finish _ => true
  | _ => false

/-- No handler throws in front of messages of its batch. -/
def Calm (events : List (MailEvent M)) : Prop := ∀ rest, .leave rest ∈ events → rest = []

/-- What a handler that throws takes with it. -/
def MailEvent.lost : MailEvent M → List (normal_obj_msg M)
  | .leave rest => rest
  | _ => []

section Histories

variable {events : List (MailEvent M)}

theorem puts_concat (events : List (MailEvent M)) (e : MailEvent M) :
    puts (events ++ [e]) = puts events ++ e.put?.toList := by
  rw [puts, List.filterMap_append]
  cases h : e.put? <;> simp [puts, h]

theorem dispatches_concat (events : List (MailEvent M)) (e : MailEvent M) :
    dispatches (events ++ [e]) = dispatches events ++ e.dispatch?.toList := by
  rw [dispatches, List.filterMap_append]
  cases h : e.dispatch? <;> simp [dispatches, h]

theorem Calm.prefix {events' : List (MailEvent M)} (h : Calm (events ++ events')) : Calm events :=
  fun rest hrest => h rest (List.mem_append_left _ hrest)

theorem Calm.last {e : MailEvent M} (h : Calm (events ++ [e])) : e.lost = [] := by
  cases e with
  | leave rest => exact h rest (by simp)
  | _ => rfl

end Histories

/-! ## What one event does -/

variable [DecidableEq M]

def Mailbox.step (b : Mailbox M) : MailEvent M → Option (Mailbox M)
  | .put msg => some { b with channel := b.channel.put_msg msg.obj_id msg.p_msg }
  | .start =>
    match b.call with
    | none => some { channel := b.channel.take_batch.2, call := some { rest := b.channel.take_batch.1 } }
    | some _ => none
  | .dispatch msg =>
    match b.call with
    | some ⟨i, first :: rest⟩ =>
      if first = msg then some { b with call := some { i := i + 1, rest } } else none
    | _ => none
  | .leave rest =>
    match b.call with
    | some call => if call.rest = rest then some { b with call := none } else none
    | none => none
  | .finish k =>
    match b.call with
    | some ⟨i, []⟩ => if k = i * CHANNEL_MSG_TAG_SIZE then some { b with call := none } else none
    | _ => none

/-- The mailbox after a history. -/
def Mailbox.run (events : List (MailEvent M)) : Option (Mailbox M) :=
  Trace.run Mailbox.step {} events

/-- What waits to be dispatched, in the order it was put. -/
def Mailbox.waiting (b : Mailbox M) : List (normal_obj_msg M) :=
  (b.call.elim [] RecvCall.rest) ++ b.channel.queue (1 - b.channel.current)

/-- The queue that the owner empties next is empty but in the locked section. -/
def Mailbox.Drained (b : Mailbox M) : Prop := b.channel.queue b.channel.current = []

section Step

variable {b b' : Mailbox M} {e : MailEvent M}

theorem step_dispatch {msg : normal_obj_msg M} : b.step (.dispatch msg) = some b' ↔ ∃ i rest,
    b.call = some ⟨i, msg :: rest⟩ ∧ b' = { b with call := some { i := i + 1, rest } } := by
  simp only [Mailbox.step]
  constructor
  · intro h
    split at h
    · next i first rest hcall =>
      obtain ⟨rfl, hnext⟩ := Option.ite_none_right_eq_some.mp h
      exact ⟨i, rest, hcall, (Option.some.inj hnext).symm⟩
    · cases h
  · rintro ⟨i, rest, hcall, rfl⟩
    simp [hcall]

theorem step_leave {rest : List (normal_obj_msg M)} : b.step (.leave rest) = some b' ↔ ∃ i,
    b.call = some ⟨i, rest⟩ ∧ b' = { b with call := none } := by
  simp only [Mailbox.step]
  constructor
  · intro h
    split at h
    · next call hcall =>
      obtain ⟨rfl, hnext⟩ := Option.ite_none_right_eq_some.mp h
      exact ⟨call.i, hcall, (Option.some.inj hnext).symm⟩
    · cases h
  · rintro ⟨i, hcall, rfl⟩
    simp [hcall]

theorem step_finish {k : ℕ} : b.step (.finish k) = some b' ↔ ∃ i,
    b.call = some ⟨i, []⟩ ∧ k = i * CHANNEL_MSG_TAG_SIZE ∧ b' = { b with call := none } := by
  simp only [Mailbox.step]
  constructor
  · intro h
    split at h
    · next i hcall =>
      obtain ⟨hk, h⟩ := Option.ite_none_right_eq_some.mp h
      exact ⟨i, hcall, hk, (Option.some.inj h).symm⟩
    · cases h
  · rintro ⟨i, hcall, hk, rfl⟩
    simp [hcall, hk]

theorem step_start : b.step .start = some b' ↔ b.call = none ∧
    b' = { channel := b.channel.take_batch.2, call := some { rest := b.channel.take_batch.1 } } := by
  simp only [Mailbox.step]
  cases hcall : b.call with
  | none => simp [eq_comm]
  | some call => simp

/-- **One event.** Messages leave what waits at the front only, dispatched or
lost, and join it at the end. -/
theorem step_moves (hdrained : b.Drained) (h : b.step e = some b') : b'.Drained ∧
    b.waiting ++ e.put?.toList = e.dispatch?.toList ++ e.lost ++ b'.waiting := by
  cases e with
  | put msg =>
    cases Option.some.inj h
    refine ⟨(put_msg_current ..).trans hdrained, ?_⟩
    show b.waiting ++ [msg] = b.call.elim [] RecvCall.rest ++
      (b.channel.put_msg msg.obj_id msg.p_msg).queue (1 - b.channel.current)
    rw [put_msg_idle, ← List.append_assoc]
    rfl
  | start =>
    obtain ⟨hcall, rfl⟩ := step_start.mp h
    obtain ⟨hbatch, hcurrent, hempty, hidle⟩ := take_batch_eq hdrained
    constructor
    · rw [Mailbox.Drained, hcurrent, hempty]
    · simp [Mailbox.waiting, hcall, MailEvent.put?, MailEvent.dispatch?, MailEvent.lost, hbatch, hcurrent,
        other_other, hidle]
  | dispatch msg =>
    obtain ⟨i, rest, hcall, rfl⟩ := step_dispatch.mp h
    exact ⟨hdrained, by simp [Mailbox.waiting, hcall, MailEvent.put?, MailEvent.dispatch?, MailEvent.lost]⟩
  | leave rest =>
    obtain ⟨i, hcall, rfl⟩ := step_leave.mp h
    exact ⟨hdrained, by simp [Mailbox.waiting, hcall, MailEvent.put?, MailEvent.dispatch?, MailEvent.lost]⟩
  | finish k =>
    obtain ⟨i, hcall, -, rfl⟩ := step_finish.mp h
    exact ⟨hdrained, by simp [Mailbox.waiting, hcall, MailEvent.put?, MailEvent.dispatch?, MailEvent.lost]⟩

end Step

/-! ## Whole histories -/

section Runs

variable {events before after : List (MailEvent M)} {b : Mailbox M}

theorem run_drained (h : Mailbox.run events = some b) : b.Drained :=
  run_induction (P := fun _ b => b.Drained) rfl
    (fun _ _ _ _ _ hdrained hstep => (step_moves hdrained hstep).1) h

/-- Whatever the handlers do, messages come at most once and in their order. -/
theorem dispatched_sublist (h : Mailbox.run events = some b) :
    (dispatches events ++ b.waiting).Sublist (puts events) := by
  refine run_induction (P := fun events b => (dispatches events ++ b.waiting).Sublist (puts events))
    List.Sublist.slnil ?_ h
  intro events b1 e b2 hrun ih hstep
  have hmoves := (step_moves (run_drained hrun) hstep).2
  have hkept : (e.dispatch?.toList ++ b2.waiting).Sublist (b1.waiting ++ e.put?.toList) := by
    rw [hmoves, List.append_assoc]
    exact List.Sublist.append_left (List.sublist_append_right _ _) _
  have hall : (dispatches events ++ (b1.waiting ++ e.put?.toList)).Sublist (puts events ++ e.put?.toList) := by
    rw [← List.append_assoc]
    exact ih.append_right e.put?.toList
  rw [puts_concat, dispatches_concat, List.append_assoc]
  exact (hkept.append_left (dispatches events)).trans hall

/-- As long as no message is left behind, what is not dispatched waits. -/
theorem dispatched_waiting (hcalm : Calm events) (h : Mailbox.run events = some b) :
    dispatches events ++ b.waiting = puts events := by
  refine run_induction (P := fun events b => Calm events → dispatches events ++ b.waiting = puts events)
    (fun _ => rfl) ?_ h hcalm
  intro events b1 e b2 hrun ih hstep hcalm
  have hmoves := (step_moves (run_drained hrun) hstep).2
  rw [hcalm.last, List.append_nil] at hmoves
  rw [puts_concat, dispatches_concat, List.append_assoc, ← hmoves, ← List.append_assoc, ih hcalm.prefix]

/-- What had been put before a call is dispatched, or the call is still running
and has all of it left. -/
def DispatchedOrRunning (earlier : List (normal_obj_msg M)) (events : List (MailEvent M)) (b : Mailbox M) :
    Prop :=
  earlier <+: dispatches events ∨
    ∃ call, b.call = some call ∧ earlier = dispatches events ++ call.rest

theorem dispatched_or_running_step {earlier : List (normal_obj_msg M)} {e : MailEvent M} {b' : Mailbox M}
    (hcalm : Calm (events ++ [e])) (h : DispatchedOrRunning earlier events b) (hstep : b.step e = some b') :
    DispatchedOrRunning earlier (events ++ [e]) b' := by
  unfold DispatchedOrRunning
  rw [dispatches_concat]
  rcases h with hdone | ⟨call, hcall, howed⟩
  · exact .inl (hdone.trans (List.prefix_append _ _))
  · cases e with
    | put msg =>
      cases Option.some.inj hstep
      exact .inr ⟨call, hcall, by simpa [MailEvent.dispatch?] using howed⟩
    | start =>
      rw [(step_start.mp hstep).1] at hcall
      cases hcall
    | dispatch msg =>
      obtain ⟨i, rest, hcall', rfl⟩ := step_dispatch.mp hstep
      rw [hcall'] at hcall
      cases hcall
      exact .inr ⟨_, rfl, by simpa [MailEvent.dispatch?] using howed⟩
    | leave rest =>
      obtain ⟨i, hcall', rfl⟩ := step_leave.mp hstep
      have hrest : rest = [] := hcalm.last
      rw [hcall', hrest] at hcall
      cases hcall
      exact .inl (by simp [howed, MailEvent.dispatch?])
    | finish k =>
      obtain ⟨i, hcall', -, rfl⟩ := step_finish.mp hstep
      rw [hcall'] at hcall
      cases hcall
      exact .inl (by simp [howed, MailEvent.dispatch?])

theorem dispatched_or_running (hcalm : Calm (before ++ .start :: after))
    (h : Mailbox.run (before ++ .start :: after) = some b) :
    DispatchedOrRunning (puts before) (before ++ .start :: after) b := by
  rw [List.append_cons] at h hcalm ⊢
  refine run_from (P := fun events b => Calm events → DispatchedOrRunning (puts before) events b)
    ?_ ?_ h hcalm
  · intro b2 h2 hcalm2
    obtain ⟨b1, h1, hstep⟩ := run_concat.mp h2
    obtain ⟨hcall, rfl⟩ := step_start.mp hstep
    refine .inr ⟨_, rfl, ?_⟩
    have hwaiting := dispatched_waiting hcalm2.prefix h1
    rw [Mailbox.waiting, hcall] at hwaiting
    rw [dispatches_concat, (take_batch_eq (run_drained h1)).1, ← hwaiting]
    simp [MailEvent.dispatch?]
  · intro events b1 e b2 _ _ _ ih hstep hcalm2
    exact dispatched_or_running_step hcalm2 (ih hcalm2.prefix) hstep

/-- A call that ends has nothing left. -/
theorem rest_of_ends {e : MailEvent M} {b' : Mailbox M} {call : RecvCall M} (hcalm : Calm (events ++ [e]))
    (hstep : b.step e = some b') (hends : e.ends_call = true) (hcall : b.call = some call) :
    call.rest = [] := by
  cases e with
  | leave rest =>
    obtain ⟨i, hcall', -⟩ := step_leave.mp hstep
    rw [hcall'] at hcall
    cases hcall
    exact hcalm.last
  | finish k =>
    obtain ⟨i, hcall', -⟩ := step_finish.mp hstep
    rw [hcall'] at hcall
    cases hcall
    rfl
  | _ => cases hends

/-- Once a call has ended, all that had been put before it is dispatched. -/
theorem dispatched_by_the_end (hcalm : Calm (before ++ .start :: after))
    (h : Mailbox.run (before ++ .start :: after) = some b) {e : MailEvent M} (he : e ∈ after)
    (hends : e.ends_call = true) : puts before <+: dispatches (before ++ .start :: after) := by
  obtain ⟨during, later, rfl⟩ := List.append_of_mem he
  have hsplit : before ++ .start :: (during ++ e :: later)
      = before ++ .start :: during ++ [e] ++ later := by
    simp
  rw [hsplit] at h hcalm ⊢
  obtain ⟨b2, h2, -⟩ := run_front h
  obtain ⟨b1, h1, hstep⟩ := run_concat.mp h2
  have hdone : puts before <+: dispatches (before ++ .start :: during) := by
    rcases dispatched_or_running hcalm.prefix.prefix h1 with hdone | ⟨call, hcall, howed⟩
    · exact hdone
    · rw [rest_of_ends hcalm.prefix hstep hends hcall, List.append_nil] at howed
      exact howed ▸ List.prefix_rfl
  rw [List.append_assoc]
  unfold dispatches at hdone ⊢
  rw [List.filterMap_append]
  exact hdone.trans (List.prefix_append _ _)

end Runs

/-- **Exactly once and in order.** In every history in which no handler throws in
front of messages of its batch, what has been dispatched is a prefix of what has
been put, and what had been put when a call started is dispatched when it ends. -/
theorem dispatched_in_order {events : List (MailEvent M)} {b : Mailbox M}
    (h : Mailbox.run events = some b) (hcalm : Calm events) :
    dispatches events <+: puts events ∧
      ∀ before after, events = before ++ .start :: after → (∃ e ∈ after, e.ends_call = true) →
        puts before <+: dispatches events := by
  constructor
  · rw [← dispatched_waiting hcalm h]
    exact List.prefix_append _ _
  · rintro before after rfl ⟨e, he, hends⟩
    exact dispatched_by_the_end hcalm h he hends

/-- Three messages, the second and the third put while the first is handled. -/
def busy_history : List (MailEvent ℕ) :=
  [.put ⟨1, 10⟩, .start, .put ⟨1, 20⟩, .dispatch ⟨1, 10⟩, .put ⟨2, 30⟩, .finish 2, .start,
    .dispatch ⟨1, 20⟩, .dispatch ⟨2, 30⟩, .leave []]

theorem busy_history_in_order : dispatches busy_history <+: puts busy_history ∧
    puts (busy_history.take 1) <+: dispatches busy_history := by
  obtain ⟨b, hb⟩ : ∃ b, Mailbox.run busy_history = some b := Option.isSome_iff_exists.mp (by decide)
  obtain ⟨horder, hends⟩ := dispatched_in_order hb (by
    intro rest hrest
    simpa [busy_history] using hrest)
  exact ⟨horder, hends _ (busy_history.drop 2) rfl ⟨.finish 2, by decide, rfl⟩⟩

/-- The handler of the first of two messages throws. -/
def escaped_history : List (MailEvent ℕ) :=
  [.put ⟨1001, 10⟩, .put ⟨1002, 20⟩, .start, .dispatch ⟨1001, 10⟩, .leave [⟨1002, 20⟩],
    .put ⟨1003, 30⟩, .start, .dispatch ⟨1003, 30⟩, .finish 2]

theorem message_lost : (Mailbox.run escaped_history).isSome ∧
    ¬ dispatches escaped_history <+: puts escaped_history := by
  decide

end RxNetCap.Core
