/-
When the owner of a mailbox calls it: the socket pair of `channel_data_process`
in `src/core/legacy_core_net.cpp`, and `base_connect::real_recv` around it.

Who puts a message sends a tag on the socket, in the same locked section. The
owner receives some tags, takes the lock and then all messages that wait, and at
the end of the call drops as many bytes as it has dispatched messages for. The
tags that it has received need not be those of the messages that it takes.

That is enough for the messages: one that waits has bytes on the socket, or a
call on its way that takes it (`no_lost_wakeup`), also when the socket was too
full for its own tag. It is not enough for the bytes: what was received for
messages of an earlier call, or for a call that a handler left by throwing, is
never dropped for good (`stale_stays`), and when there is more of it than
`_recv_buf` takes, the socket is never empty again (`never_idle_again`).

The other end of the pair is never closed, so receiving does not fail.
-/
import RxNetCap.Core.Channel

set_option autoImplicit false

namespace RxNetCap.Core

open RxNetCap.Sides RxNetCap.Trace

variable {M : Type}

/-! ## The socket and the call -/

/-- `MAX_RECV_SIZE`, the room of `_recv_buf`. -/
def MAX_RECV_SIZE : ℕ := 1024 * 20

/-- The connection of a channel: its mailbox, the bytes on the socket, those in
`_recv_buf`, and whether `real_recv` has received and not yet taken the lock. -/
structure Wired (M : Type) where
  mailbox : Mailbox M := {}
  unread : ℕ := 0
  recv_buf : ℕ := 0
  reading : Bool := false

/-- What happens at the connection. -/
inductive WireEvent (M : Type) where
  /-- some sender puts a message, and `send` accepts `ret` bytes of the tag -/
  | put (msg : normal_obj_msg M) (ret : ℕ)
  /-- the owner is in `real_recv(flag)`, and `recv` returns `ret` bytes -/
  | recv (ret : ℕ) (flag : Bool)
  /-- the locked section of `process_recv_buf` -/
  | start
  | dispatch (msg : normal_obj_msg M)
  /-- a handler throws, and `real_recv` with it -/
  | leave (rest : List (normal_obj_msg M))
  /-- the call returns, and `real_recv` drops bytes -/
  | finish (k : ℕ)
  deriving DecidableEq

/-- The event of the mailbox in it. -/
def WireEvent.mail? : WireEvent M → Option (MailEvent M)
  | .put msg _ => some (.put msg)
  | .recv _ _ => none
  | .start => some .start
  | .dispatch msg => some (.dispatch msg)
  | .leave rest => some (.leave rest)
  | .finish k => some (.finish k)

/-- A tag that is accepted whole. -/
def WireEvent.whole : WireEvent M → Bool
  | .put _ ret => ret = CHANNEL_MSG_TAG_SIZE
  | _ => true

/-- `send` accepts less than the tag only when the socket is full, and then there
is something on it. -/
def Wired.Sends (s : Wired M) (ret : ℕ) : Prop := ret ≤ CHANNEL_MSG_TAG_SIZE ∧ 0 < s.unread + ret

/-- `recv` is called when `_recv_buf` has room, and returns nothing only when
there is nothing. -/
def Wired.Receives (s : Wired M) (ret : ℕ) : Prop :=
  if s.recv_buf < MAX_RECV_SIZE then
    ret ≤ MAX_RECV_SIZE - s.recv_buf ∧ ret ≤ s.unread ∧ (ret = 0 → s.unread = 0)
  else ret = 0

instance Wired.decidableSends (s : Wired M) (ret : ℕ) : Decidable (s.Sends ret) := by
  unfold Wired.Sends
  infer_instance

instance Wired.decidableReceives (s : Wired M) (ret : ℕ) : Decidable (s.Receives ret) := by
  unfold Wired.Receives
  infer_instance

variable [DecidableEq M]

def Wired.step (s : Wired M) : WireEvent M → Option (Wired M)
  | .put msg ret =>
    if s.Sends ret then
      (s.mailbox.step (.put msg)).map fun b => { s with mailbox := b, unread := s.unread + ret }
    else none
  | .recv ret flag =>
    if s.mailbox.call.isNone ∧ s.reading = false ∧ s.Receives ret then
      some { s with unread := s.unread - ret, recv_buf := s.recv_buf + ret
                    reading := decide (0 < s.recv_buf + ret) || flag }
    else none
  | .start =>
    if s.reading = true then
      (s.mailbox.step .start).map fun b => { s with mailbox := b, reading := false }
    else none
  | .dispatch msg => (s.mailbox.step (.dispatch msg)).map fun b => { s with mailbox := b }
  | .leave rest => (s.mailbox.step (.leave rest)).map fun b => { s with mailbox := b }
  | .finish k =>
    (s.mailbox.step (.finish k)).map fun b => { s with mailbox := b, recv_buf := s.recv_buf - k }

/-- The connection after a history. -/
def Wired.run (events : List (WireEvent M)) : Option (Wired M) := Trace.run Wired.step {} events

/-- What waits in the queues. -/
def Wired.queued (s : Wired M) : List (normal_obj_msg M) :=
  s.mailbox.channel.queue (1 - s.mailbox.channel.current)

section Step

variable {s s' : Wired M} {e : WireEvent M}

theorem wire_put {msg : normal_obj_msg M} {ret : ℕ} : s.step (.put msg ret) = some s' ↔
    s.Sends ret ∧ ∃ b, s.mailbox.step (.put msg) = some b ∧
      s' = { s with mailbox := b, unread := s.unread + ret } := by
  simp only [Wired.step, Option.ite_none_right_eq_some, Option.map_eq_some_iff, eq_comm (a := s')]

theorem wire_recv {ret : ℕ} {flag : Bool} : s.step (.recv ret flag) = some s' ↔
    s.mailbox.call = none ∧ s.reading = false ∧ s.Receives ret ∧
      s' = { s with unread := s.unread - ret, recv_buf := s.recv_buf + ret
                    reading := decide (0 < s.recv_buf + ret) || flag } := by
  simp only [Wired.step, Option.ite_none_right_eq_some, Option.some.injEq, Option.isNone_iff_eq_none,
    and_assoc, eq_comm (a := s')]

theorem wire_start : s.step .start = some s' ↔ s.reading = true ∧
    ∃ b, s.mailbox.step .start = some b ∧ s' = { s with mailbox := b, reading := false } := by
  simp only [Wired.step, Option.ite_none_right_eq_some, Option.map_eq_some_iff, eq_comm (a := s')]

theorem wire_dispatch {msg : normal_obj_msg M} : s.step (.dispatch msg) = some s' ↔
    ∃ b, s.mailbox.step (.dispatch msg) = some b ∧ s' = { s with mailbox := b } := by
  simp only [Wired.step, Option.map_eq_some_iff, eq_comm (a := s')]

theorem wire_leave {rest : List (normal_obj_msg M)} : s.step (.leave rest) = some s' ↔
    ∃ b, s.mailbox.step (.leave rest) = some b ∧ s' = { s with mailbox := b } := by
  simp only [Wired.step, Option.map_eq_some_iff, eq_comm (a := s')]

theorem wire_finish {k : ℕ} : s.step (.finish k) = some s' ↔
    ∃ b, s.mailbox.step (.finish k) = some b ∧ s' = { s with mailbox := b, recv_buf := s.recv_buf - k } := by
  simp only [Wired.step, Option.map_eq_some_iff, eq_comm (a := s')]

/-- The mailbox takes its part of the event. -/
theorem wire_mailbox (h : s.step e = some s') :
    Trace.run Mailbox.step s.mailbox e.mail?.toList = some s'.mailbox := by
  cases e with
  | put msg ret =>
    obtain ⟨-, b, hb, rfl⟩ := wire_put.mp h
    exact run_cons.mpr ⟨b, hb, rfl⟩
  | recv ret flag =>
    obtain ⟨-, -, -, rfl⟩ := wire_recv.mp h
    rfl
  | start =>
    obtain ⟨-, b, hb, rfl⟩ := wire_start.mp h
    exact run_cons.mpr ⟨b, hb, rfl⟩
  | dispatch msg =>
    obtain ⟨b, hb, rfl⟩ := wire_dispatch.mp h
    exact run_cons.mpr ⟨b, hb, rfl⟩
  | leave rest =>
    obtain ⟨b, hb, rfl⟩ := wire_leave.mp h
    exact run_cons.mpr ⟨b, hb, rfl⟩
  | finish k =>
    obtain ⟨b, hb, rfl⟩ := wire_finish.mp h
    exact run_cons.mpr ⟨b, hb, rfl⟩

end Step

section Runs

variable {events : List (WireEvent M)} {s : Wired M}

/-- **A history of the connection is one of its mailbox**, so messages are
dispatched as they are there. -/
theorem run_mailbox (h : Wired.run events = some s) :
    Mailbox.run (events.filterMap WireEvent.mail?) = some s.mailbox := by
  refine run_induction (P := fun events s =>
    Mailbox.run (events.filterMap WireEvent.mail?) = some s.mailbox) rfl ?_ h
  intro events s e s' _ ih hstep
  have hevent : [e].filterMap WireEvent.mail? = e.mail?.toList := by
    cases e <;> rfl
  rw [Mailbox.run, List.filterMap_append, run_append]
  rw [Mailbox.run] at ih
  rw [ih, Option.bind_some, hevent]
  exact wire_mailbox hstep

theorem wired_drained (h : Wired.run events = some s) : s.mailbox.Drained := run_drained (run_mailbox h)

end Runs

/-! ## No message is forgotten -/

/-- What waits in the queues has bytes on the socket, or the locked section that
takes it is on its way. -/
def Wired.Woken (s : Wired M) : Prop := s.queued = [] ∨ s.reading = true ∨ 0 < s.unread

section Woken

variable {s s' : Wired M} {e : WireEvent M}

/-- The locked section takes all that waits. -/
theorem start_takes (hdrained : s.mailbox.Drained) (h : s.step .start = some s') :
    s'.mailbox.call = some { rest := s.queued } ∧ s'.queued = [] := by
  obtain ⟨-, b, hb, rfl⟩ := wire_start.mp h
  obtain ⟨-, rfl⟩ := step_start.mp hb
  obtain ⟨hbatch, hcurrent, -, hidle⟩ := take_batch_eq hdrained
  constructor
  · show some (RecvCall.mk 0 s.mailbox.channel.take_batch.1) = _
    rw [hbatch]
    rfl
  · show s.mailbox.channel.take_batch.2.queue (1 - s.mailbox.channel.take_batch.2.current) = []
    rw [hcurrent, other_other, hidle]

/-- Dispatching and the end of a call leave the queues as they are. -/
theorem channel_kept (h : s.step e = some s') (hput : ∀ msg ret, e ≠ .put msg ret) (hstart : e ≠ .start) :
    s'.mailbox.channel = s.mailbox.channel := by
  cases e with
  | put msg ret => exact absurd rfl (hput msg ret)
  | start => exact absurd rfl hstart
  | recv ret flag =>
    obtain ⟨-, -, -, rfl⟩ := wire_recv.mp h
    rfl
  | dispatch msg =>
    obtain ⟨b, hb, rfl⟩ := wire_dispatch.mp h
    obtain ⟨i, rest, -, rfl⟩ := step_dispatch.mp hb
    rfl
  | leave rest =>
    obtain ⟨b, hb, rfl⟩ := wire_leave.mp h
    obtain ⟨i, -, rfl⟩ := step_leave.mp hb
    rfl
  | finish k =>
    obtain ⟨b, hb, rfl⟩ := wire_finish.mp h
    obtain ⟨i, -, -, rfl⟩ := step_finish.mp hb
    rfl

theorem Wired.Woken.step (hs : s.Woken) (hdrained : s.mailbox.Drained) (h : s.step e = some s') :
    s'.Woken := by
  have hqueued (hput : ∀ msg ret, e ≠ .put msg ret) (hstart : e ≠ .start) : s'.queued = s.queued := by
    unfold Wired.queued
    rw [channel_kept h hput hstart]
  cases e with
  | put msg ret =>
    -- with or without its own tag: a socket that is full has others
    obtain ⟨⟨-, hsends⟩, b, -, rfl⟩ := wire_put.mp h
    exact .inr (.inr hsends)
  | recv ret flag =>
    have hsame := hqueued nofun nofun
    obtain ⟨-, hreading, -, rfl⟩ := wire_recv.mp h
    rcases hs with hempty | hread | hunread
    · exact .inl (hsame.trans hempty)
    · rw [hreading] at hread
      cases hread
    · by_cases hleft : ret < s.unread
      · exact .inr (.inr (Nat.sub_pos_of_lt hleft))
      · -- all of it was received, so `_recv_buf` is not empty
        refine .inr (.inl ?_)
        show (decide (0 < s.recv_buf + ret) || flag) = true
        rw [decide_eq_true (by omega), Bool.true_or]
  | start => exact .inl (start_takes hdrained h).2
  | dispatch msg =>
    have hsame := hqueued nofun nofun
    obtain ⟨b, -, rfl⟩ := wire_dispatch.mp h
    exact hs.imp_left hsame.trans
  | leave rest =>
    have hsame := hqueued nofun nofun
    obtain ⟨b, -, rfl⟩ := wire_leave.mp h
    exact hs.imp_left hsame.trans
  | finish k =>
    have hsame := hqueued nofun nofun
    obtain ⟨b, -, rfl⟩ := wire_finish.mp h
    exact hs.imp_left hsame.trans

theorem run_woken {events : List (WireEvent M)} (h : Wired.run events = some s) : s.Woken :=
  run_induction (P := fun _ s => s.Woken) (.inl rfl)
    (fun _ _ _ _ hrun hs hstep => hs.step (wired_drained hrun) hstep) h

omit [DecidableEq M] in
theorem recv_possible (s : Wired M) : ∃ ret, s.Receives ret := by
  unfold Wired.Receives
  by_cases hroom : s.recv_buf < MAX_RECV_SIZE
  · refine ⟨min (MAX_RECV_SIZE - s.recv_buf) s.unread, ?_⟩
    rw [if_pos hroom]
    omega
  · exact ⟨0, by rw [if_neg hroom]⟩

end Woken

/-- **No lost wakeup.** Whatever senders, handlers and the socket do: when the
owner is not in a call and a message waits, the socket is readable or the locked
section comes next. The owner can go on; when it receives, the locked section
comes next, and that takes all that waits. -/
theorem no_lost_wakeup {events : List (WireEvent M)} {s : Wired M} (h : Wired.run events = some s)
    (hcall : s.mailbox.call = none) (hwaits : s.mailbox.waiting ≠ []) :
    (s.reading = true ∨ 0 < s.unread) ∧
    (∃ e s', (e = .start ∨ ∃ ret, e = .recv ret false) ∧ s.step e = some s') ∧
    (∀ ret flag s', s.step (.recv ret flag) = some s' → s'.reading = true ∧ s'.mailbox = s.mailbox) ∧
    ∀ s', s.step .start = some s' → s'.mailbox.call = some { rest := s.mailbox.waiting } := by
  have hwaiting : s.mailbox.waiting = s.queued := by
    rw [Mailbox.waiting, hcall]
    rfl
  rw [hwaiting] at hwaits ⊢
  have hwoken : s.reading = true ∨ 0 < s.unread := (run_woken h).resolve_left hwaits
  refine ⟨hwoken, ?_, ?_, fun s' hstep => (start_takes (wired_drained h) hstep).1⟩
  · by_cases hreading : s.reading = true
    · exact ⟨.start, _, .inl rfl, wire_start.mpr ⟨hreading, _, step_start.mpr ⟨hcall, rfl⟩, rfl⟩⟩
    · obtain ⟨ret, hret⟩ := recv_possible s
      exact ⟨.recv ret false, _, .inr ⟨ret, rfl⟩,
        wire_recv.mpr ⟨hcall, Bool.eq_false_iff.mpr hreading, hret, rfl⟩⟩
  · intro ret flag s' hstep
    have hwoken' := (run_woken h).step (wired_drained h) hstep
    obtain ⟨-, hreading, hret, rfl⟩ := wire_recv.mp hstep
    have hunread : 0 < s.unread := hwoken.resolve_left (by rw [hreading]; exact Bool.false_ne_true)
    refine ⟨?_, rfl⟩
    show (decide (0 < s.recv_buf + ret) || flag) = true
    unfold Wired.Receives at hret
    -- something is received, or `_recv_buf` is full
    by_cases hroom : s.recv_buf < MAX_RECV_SIZE
    · rw [if_pos hroom] at hret
      rw [decide_eq_true (by omega), Bool.true_or]
    · have hfull : 0 < s.recv_buf := by
        unfold MAX_RECV_SIZE at hroom
        omega
      rw [decide_eq_true (by omega), Bool.true_or]

/-- The second message comes between receiving and the lock, and the third when
the socket takes no tag. -/
def late_wire : List (WireEvent ℕ) :=
  [.put ⟨1, 5⟩ 2, .recv 2 false, .put ⟨1, 6⟩ 2, .start, .dispatch ⟨1, 5⟩, .dispatch ⟨1, 6⟩, .finish 4,
    .put ⟨1, 7⟩ 0]

theorem late_wire_woken : ∃ s, Wired.run late_wire = some s ∧ (s.reading = true ∨ 0 < s.unread) :=
  ⟨_, rfl, (@no_lost_wakeup ℕ _ late_wire _ rfl rfl (by decide)).1⟩

/-! ## Bytes without a message -/

/-- The messages that bytes are still to be dropped for. -/
def Wired.owed (s : Wired M) : ℕ :=
  (s.mailbox.call.elim 0 fun call => call.i + call.rest.length) + s.queued.length

/-- The bytes that no message accounts for. -/
def Wired.stale (s : Wired M) : ℤ := s.unread + s.recv_buf - CHANNEL_MSG_TAG_SIZE * s.owed

section Stale

variable {s s' : Wired M} {e : WireEvent M}

theorem recv_buf_step (hs : s.recv_buf ≤ MAX_RECV_SIZE) (h : s.step e = some s') :
    s'.recv_buf ≤ MAX_RECV_SIZE := by
  cases e with
  | put msg ret =>
    obtain ⟨-, b, -, rfl⟩ := wire_put.mp h
    exact hs
  | recv ret flag =>
    obtain ⟨-, -, hret, rfl⟩ := wire_recv.mp h
    unfold Wired.Receives at hret
    show s.recv_buf + ret ≤ MAX_RECV_SIZE
    by_cases hroom : s.recv_buf < MAX_RECV_SIZE
    · rw [if_pos hroom] at hret
      omega
    · rw [if_neg hroom] at hret
      omega
  | start =>
    obtain ⟨-, b, -, rfl⟩ := wire_start.mp h
    exact hs
  | dispatch msg =>
    obtain ⟨b, -, rfl⟩ := wire_dispatch.mp h
    exact hs
  | leave rest =>
    obtain ⟨b, -, rfl⟩ := wire_leave.mp h
    exact hs
  | finish k =>
    obtain ⟨b, -, rfl⟩ := wire_finish.mp h
    exact (Nat.sub_le _ _).trans hs

theorem run_recv_buf {events : List (WireEvent M)} (h : Wired.run events = some s) :
    s.recv_buf ≤ MAX_RECV_SIZE :=
  run_induction (P := fun _ s => s.recv_buf ≤ MAX_RECV_SIZE) (Nat.zero_le _)
    (fun _ _ _ _ _ hs hstep => recv_buf_step hs hstep) h

omit [DecidableEq M] in
theorem stale_le (h : s.unread + s.recv_buf + 2 * s'.owed ≤ s'.unread + s'.recv_buf + 2 * s.owed) :
    s.stale ≤ s'.stale := by
  unfold Wired.stale CHANNEL_MSG_TAG_SIZE
  omega

/-- Whole tags come with their messages, and a call drops at most what its
messages account for. -/
theorem stale_step (hdrained : s.mailbox.Drained) (hwhole : e.whole = true) (h : s.step e = some s') :
    s.stale ≤ s'.stale := by
  apply stale_le
  cases e with
  | put msg ret =>
    obtain ⟨-, b, hb, rfl⟩ := wire_put.mp h
    cases Option.some.inj hb
    have hret : ret = 2 := of_decide_eq_true hwhole
    have howed : Wired.owed { s with
        mailbox := { s.mailbox with channel := s.mailbox.channel.put_msg msg.obj_id msg.p_msg }
        unread := s.unread + ret } = s.owed + 1 := by
      unfold Wired.owed Wired.queued
      show _ + ((s.mailbox.channel.put_msg msg.obj_id msg.p_msg).queue
        (1 - s.mailbox.channel.current)).length = _
      rw [put_msg_idle, List.length_append]
      rfl
    rw [howed, hret]
    show s.unread + s.recv_buf + 2 * (s.owed + 1) ≤ s.unread + 2 + s.recv_buf + 2 * s.owed
    omega
  | recv ret flag =>
    obtain ⟨-, -, hret, rfl⟩ := wire_recv.mp h
    have hle : ret ≤ s.unread := by
      unfold Wired.Receives at hret
      by_cases hroom : s.recv_buf < MAX_RECV_SIZE
      · rw [if_pos hroom] at hret
        exact hret.2.1
      · rw [if_neg hroom] at hret
        exact hret ▸ Nat.zero_le _
    show s.unread + s.recv_buf + 2 * s.owed ≤ s.unread - ret + (s.recv_buf + ret) + 2 * s.owed
    omega
  | start =>
    have htakes := start_takes hdrained h
    obtain ⟨-, b, hb, rfl⟩ := wire_start.mp h
    have hnone : s.mailbox.call = none := (step_start.mp hb).1
    have howed : Wired.owed { s with mailbox := b, reading := false } = s.owed := by
      unfold Wired.owed
      rw [htakes.1, htakes.2, hnone]
      simp
    rw [howed]
  | dispatch msg =>
    obtain ⟨b, hb, rfl⟩ := wire_dispatch.mp h
    obtain ⟨i, rest, hcall, rfl⟩ := step_dispatch.mp hb
    have howed : Wired.owed { s with
        mailbox := { s.mailbox with call := some { i := i + 1, rest } } } = s.owed := by
      unfold Wired.owed
      rw [hcall]
      simp only [Option.elim_some, List.length_cons]
      rw [Nat.add_right_comm i 1]
      rfl
    rw [howed]
  | leave rest =>
    obtain ⟨b, hb, rfl⟩ := wire_leave.mp h
    obtain ⟨i, hcall, rfl⟩ := step_leave.mp hb
    have howed : Wired.owed { s with mailbox := { s.mailbox with call := none } } ≤ s.owed := by
      unfold Wired.owed
      rw [hcall]
      exact Nat.add_le_add_right (Nat.zero_le _) _
    exact Nat.add_le_add_left (Nat.mul_le_mul_left 2 howed) _
  | finish k =>
    obtain ⟨b, hb, hs'⟩ := wire_finish.mp h
    obtain ⟨i, hcall, hk, hb'⟩ := step_finish.mp hb
    have howed : s.owed = i + s'.owed := by
      unfold Wired.owed Wired.queued
      rw [hs', hb', hcall]
      simp
    have hunread : s'.unread = s.unread := by rw [hs']
    -- less is dropped only when `_recv_buf` has less
    have hdrop : s'.recv_buf = s.recv_buf - i * 2 := by
      rw [hs', hk]
      rfl
    omega

end Stale

/-- **Stale bytes stay.** As long as tags are accepted whole, the bytes that no
message accounts for never become fewer, and those that `_recv_buf` has no room
for stay on the socket. -/
theorem stale_stays {before after : List (WireEvent M)} {s s' : Wired M}
    (hbefore : Wired.run before = some s) (h : Wired.run (before ++ after) = some s')
    (hwhole : ∀ e ∈ after, e.whole = true) : s.stale ≤ s'.stale ∧ s.stale ≤ s'.unread + MAX_RECV_SIZE := by
  have hstale : s.stale ≤ s'.stale := by
    refine run_from (P := fun _ s' => s.stale ≤ s'.stale) ?_ ?_ h
    · intro s1 h1
      have hsame : s = s1 := Option.some.inj (hbefore.symm.trans h1)
      rw [hsame]
    · intro events s1 e s2 he _ hrun ih hstep
      exact ih.trans (stale_step (wired_drained hrun) (hwhole e he) hstep)
  refine ⟨hstale, hstale.trans ?_⟩
  have hbuf := run_recv_buf h
  unfold Wired.stale CHANNEL_MSG_TAG_SIZE
  omega

theorem late_wire_stale : ∃ s s', Wired.run (late_wire.take 7) = some s ∧
    Wired.run (late_wire.take 7 ++ [.recv 2 false, .start, .finish 0]) = some s' ∧ s.stale ≤ s'.stale :=
  ⟨_, _, rfl, rfl, (@stale_stays ℕ _ (late_wire.take 7) [.recv 2 false, .start, .finish 0] _ _
    rfl rfl (by decide)).1⟩

/-! ## A socket that is never empty again -/

section Spinning

variable (msg : normal_obj_msg M)

/-- A message whose handler throws. -/
def thrown (ret : ℕ) : List (WireEvent M) :=
  [.put msg CHANNEL_MSG_TAG_SIZE, .recv ret false, .start, .dispatch msg, .leave []]

/-- Between two calls, with nothing that waits. -/
structure Wired.Quiet (unread recv_buf : ℕ) (s : Wired M) : Prop where
  drained : s.mailbox.Drained
  call : s.mailbox.call = none
  reading : s.reading = false
  queued : s.queued = []
  unread_eq : s.unread = unread
  recv_buf_eq : s.recv_buf = recv_buf

/-- The bytes of its tag stay. -/
theorem Wired.Quiet.thrown {s : Wired M} {n ret : ℕ} (h : s.Quiet 0 n)
    (hret : Wired.Receives ({ unread := 2, recv_buf := n } : Wired M) ret) (hsome : 0 < n + ret) :
    ∃ s', Trace.run Wired.step s (thrown msg ret) = some s' ∧ s'.Quiet (2 - ret) (n + ret) := by
  have hsends : s.Sends 2 := ⟨le_rfl, Nat.succ_pos _⟩
  obtain ⟨s1, hs1⟩ : ∃ s1, s1 = { s with
      mailbox := { s.mailbox with channel := s.mailbox.channel.put_msg msg.obj_id msg.p_msg }
      unread := s.unread + 2 } := ⟨_, rfl⟩
  have h1 : s.step (.put msg 2) = some s1 := wire_put.mpr ⟨hsends, _, rfl, hs1⟩
  have hqueued1 : s1.queued = [msg] := by
    rw [hs1]
    show (s.mailbox.channel.put_msg msg.obj_id msg.p_msg).queue (1 - s.mailbox.channel.current) = [msg]
    rw [put_msg_idle]
    exact congrArg (· ++ [msg]) h.queued
  have hdrained1 : s1.mailbox.Drained := by
    rw [hs1]
    exact (put_msg_current ..).trans h.drained
  have hcall1 : s1.mailbox.call = none := by
    rw [hs1]
    exact h.call
  have hunread1 : s1.unread = 2 := by
    rw [hs1]
    show s.unread + 2 = 2
    rw [h.unread_eq]
  have hbuf1 : s1.recv_buf = n := by
    rw [hs1]
    exact h.recv_buf_eq
  obtain ⟨s2, hs2⟩ : ∃ s2, s2 = { s1 with
      unread := s1.unread - ret, recv_buf := s1.recv_buf + ret
      reading := decide (0 < s1.recv_buf + ret) || false } := ⟨_, rfl⟩
  have hret1 : s1.Receives ret := by
    unfold Wired.Receives at hret ⊢
    rw [hunread1, hbuf1]
    exact hret
  have h2 : s1.step (.recv ret false) = some s2 :=
    wire_recv.mpr ⟨hcall1, by rw [hs1]; exact h.reading, hret1, hs2⟩
  have hreading2 : s2.reading = true := by
    rw [hs2]
    show (decide (0 < s1.recv_buf + ret) || false) = true
    rw [hbuf1, decide_eq_true hsome, Bool.true_or]
  have hmailbox2 : s2.mailbox = s1.mailbox := by rw [hs2]
  have hdrained2 : s2.mailbox.Drained := hmailbox2 ▸ hdrained1
  obtain ⟨b3, hb3⟩ : ∃ b3, s2.mailbox.step .start = some b3 :=
    ⟨_, step_start.mpr ⟨hmailbox2 ▸ hcall1, rfl⟩⟩
  obtain ⟨s3, hs3⟩ : ∃ s3, s3 = { s2 with mailbox := b3, reading := false } := ⟨_, rfl⟩
  have h3 : s2.step .start = some s3 := wire_start.mpr ⟨hreading2, b3, hb3, hs3⟩
  obtain ⟨hcall3, hqueued3⟩ := start_takes hdrained2 h3
  have hmsg : s2.queued = [msg] := by
    unfold Wired.queued at hqueued1 ⊢
    rw [hmailbox2, hqueued1]
  rw [hmsg] at hcall3
  have hdrained3 : s3.mailbox.Drained := by
    rw [hs3]
    exact (step_moves hdrained2 hb3).1
  -- the handler throws, and `real_recv` drops nothing
  obtain ⟨s4, hs4⟩ : ∃ s4, s4 = { s3 with
      mailbox := { s3.mailbox with call := some { i := 1, rest := [] } } } := ⟨_, rfl⟩
  have h4 : s3.step (.dispatch msg) = some s4 :=
    wire_dispatch.mpr ⟨_, step_dispatch.mpr ⟨0, [], hcall3, rfl⟩, hs4⟩
  have hcall4 : s4.mailbox.call = some { i := 1, rest := [] } := by rw [hs4]
  have h5 := wire_leave.mpr ⟨_, step_leave.mpr ⟨1, hcall4, rfl⟩, rfl⟩
  refine ⟨_, run_cons.mpr ⟨s1, h1, run_cons.mpr ⟨s2, h2, run_cons.mpr ⟨s3, h3, run_cons.mpr
    ⟨s4, h4, run_cons.mpr ⟨_, h5, run_nil⟩⟩⟩⟩⟩, ?_⟩
  exact {
    drained := by
      rw [hs4]
      exact hdrained3
    call := rfl
    reading := by rw [hs4, hs3]
    queued := by
      rw [hs4]
      exact hqueued3
    unread_eq := by rw [hs4, hs3, hs2, ← hunread1]
    recv_buf_eq := by rw [hs4, hs3, hs2, ← hbuf1] }

/-- Handlers that throw fill `_recv_buf`. -/
theorem thrown_fills (msg : normal_obj_msg M) (n : ℕ) (hroom : 2 * n ≤ MAX_RECV_SIZE) :
    ∃ events s, Wired.run events = some s ∧ s.Quiet 0 (2 * n) ∧ ∀ e : WireEvent M, e ∈ events → e.whole = true := by
  induction n with
  | zero => exact ⟨[], {}, rfl, ⟨rfl, rfl, rfl, rfl, rfl, rfl⟩, nofun⟩
  | succ n ih =>
    obtain ⟨events, s, hrun, hquiet, hwhole⟩ := ih (by omega)
    have hret : Wired.Receives ({ unread := 2, recv_buf := 2 * n } : Wired M) 2 := by
      unfold Wired.Receives
      rw [if_pos (by show 2 * n < MAX_RECV_SIZE; omega)]
      show 2 ≤ MAX_RECV_SIZE - 2 * n ∧ 2 ≤ 2 ∧ (2 = 0 → 2 = 0)
      omega
    obtain ⟨s', hrun', hquiet'⟩ := hquiet.thrown msg hret (Nat.succ_pos _)
    refine ⟨events ++ thrown msg 2, s', ?_, hquiet', ?_⟩
    · rw [Wired.run] at hrun ⊢
      rw [run_append, hrun]
      exact hrun'
    · intro e he
      rcases List.mem_append.mp he with he | he
      · exact hwhole e he
      · simp only [thrown, List.mem_cons, List.not_mem_nil, or_false] at he
        rcases he with rfl | rfl | rfl | rfl | rfl <;> rfl

end Spinning

/-- **A channel can spin.** When enough handlers have thrown, the socket is never
empty again, although nothing waits. -/
theorem never_idle_again (msg : normal_obj_msg M) : ∃ before s, Wired.run before = some s ∧
    s.mailbox.waiting = [] ∧ ∀ after s', Wired.run (before ++ after) = some s' →
      (∀ e : WireEvent M, e ∈ after → e.whole = true) → 0 < s'.unread := by
  obtain ⟨events, s, hrun, hquiet, -⟩ := thrown_fills msg (1024 * 10) (by decide)
  have hret : Wired.Receives ({ unread := 2, recv_buf := 2 * (1024 * 10) } : Wired M) 0 := by
    unfold Wired.Receives
    rw [if_neg (show ¬ 2 * (1024 * 10) < MAX_RECV_SIZE by decide)]
  obtain ⟨s1, hrun1, hquiet1⟩ := hquiet.thrown msg hret (by decide)
  have hbefore : Wired.run (events ++ thrown msg 0) = some s1 := by
    rw [Wired.run] at hrun ⊢
    rw [run_append, hrun]
    exact hrun1
  refine ⟨_, s1, hbefore, ?_, fun after s' hafter hwhole => ?_⟩
  · rw [Mailbox.waiting, hquiet1.call]
    exact hquiet1.queued
  · have hstays := (stale_stays hbefore hafter hwhole).2
    unfold Wired.stale Wired.owed CHANNEL_MSG_TAG_SIZE MAX_RECV_SIZE at hstays
    rw [hquiet1.call, hquiet1.queued, hquiet1.unread_eq, hquiet1.recv_buf_eq] at hstays
    simp only [Option.elim_none, List.length_nil] at hstays
    omega

end RxNetCap.Core
