/-
What can be seen of a connection on which bytes come in, cut into chunks.

The handler is invoked only when bytes come (`invocations_real_send`), and an
invocation is never undone (`step_invocations`). A head that is in the buffer is
found where it ends, and not before (`find_append`, `find_take`).
-/
import Mathlib.Data.List.Induction
import Mathlib.Data.List.Infix
import RxNetCap.Http.Connection

set_option autoImplicit false

namespace RxNetCap.Http

open RxNetCap.Capture RxNetCap.Pdef

/-! ## First occurrences -/

section Find

variable {pat s t : CStr} {n m : ℕ}

theorem find_le (h : find pat s = some n) : n + pat.length ≤ s.length := by
  induction s generalizing n with
  | nil =>
    rw [find] at h
    split at h
    · next hpat =>
      rw [← Option.some.inj h, hpat]
      exact Nat.le_refl 0
    · cases h
  | cons c s ih =>
    rw [find] at h
    split at h
    · next hprefix =>
      rw [← Option.some.inj h, Nat.zero_add]
      exact hprefix.length_le
    · obtain ⟨k, hk, rfl⟩ := Option.map_eq_some_iff.mp h
      have hle := ih hk
      rw [List.length_cons]
      omega

/-- What follows does not matter. -/
theorem find_append (h : find pat s = some n) (t : CStr) : find pat (s ++ t) = some n := by
  induction s generalizing n with
  | nil =>
    rw [find] at h
    split at h
    · next hpat =>
      subst hpat
      cases t with
      | nil => exact h
      | cons c t =>
        rw [List.nil_append, find, if_pos List.nil_prefix]
        exact h
    · cases h
  | cons c s ih =>
    rw [find] at h
    rw [List.cons_append, find]
    split at h
    · next hprefix =>
      have hlonger : pat <+: c :: (s ++ t) := hprefix.trans (List.prefix_append (c :: s) t)
      rw [if_pos hlonger]
      exact h
    · next hprefix =>
      obtain ⟨k, hk, rfl⟩ := Option.map_eq_some_iff.mp h
      have hlater : ¬ pat <+: c :: (s ++ t) := by
        intro hfirst
        -- it would fit in `c :: s`, where there is room for it
        have hroom := find_le hk
        refine hprefix (List.prefix_of_prefix_length_le hfirst (List.prefix_append (c :: s) t) ?_)
        rw [List.length_cons]
        omega
      rw [if_neg hlater, ih hk]
      rfl

/-- A text that ends too early does not have it. -/
theorem find_take (h : find pat s = some n) (hshort : m < n + pat.length) :
    find pat (s.take m) = none := by
  cases hfound : find pat (s.take m) with
  | none => rfl
  | some k =>
    have hwhole := find_append hfound (s.drop m)
    rw [List.take_append_drop, h] at hwhole
    have hle := find_le hfound
    have hlength := List.length_take_le m s
    rw [Option.some.inj hwhole] at hshort
    omega

theorem c_str_append (h : '\x00' ∉ s) (t : CStr) : c_str (s ++ t) = s ++ c_str t := by
  refine List.takeWhile_append_of_pos fun c hc => decide_eq_true ?_
  rintro rfl
  exact h hc

end Find

/-! ## Invocations -/

/-- The bytes received before an invocation, and its body. -/
def Output.invocation? : Output → Option (ℕ × CStr)
  | .invoked received _ body => some (received, body)
  | .head _ => none

/-- The invocations of the handler. -/
def Conn.invocations (c : Conn) : List (ℕ × CStr) := c.outputs.filterMap Output.invocation?

section Sending

variable {c : Conn}

theorem get_send_buf_invocations : c.get_send_buf.2.invocations = c.invocations := by
  unfold Conn.get_send_buf
  split
  · rfl
  · rfl
  · split
    · rfl
    · simp only [Conn.invocations, List.filterMap_append]
      exact List.append_nil _
  · rfl

theorem send_buf_invocations : c.send_buf.2.invocations = c.invocations := by
  unfold Conn.send_buf
  split
  · rfl
  · exact get_send_buf_invocations

/-- **Sending** invokes no handler. -/
theorem invocations_real_send (accepts : List ℕ) (c : Conn) :
    (real_send accepts c).invocations = c.invocations := by
  induction accepts generalizing c with
  | nil =>
    have hbuf := send_buf_invocations (c := c)
    rw [real_send]
    split
    · next hnext => rw [hnext] at hbuf; exact hbuf
    · next hnext => rw [hnext] at hbuf; exact hbuf
  | cons accepted rest ih =>
    have hbuf := send_buf_invocations (c := c)
    rw [real_send]
    split
    · next hnext => rw [hnext] at hbuf; exact hbuf
    · next buf c' hnext =>
      rw [hnext] at hbuf
      dsimp only
      split
      · exact hbuf
      · split
        · rw [ih]
          exact hbuf
        · rw [ih]
          exact hbuf

theorem invocations_send_head (accepts : List ℕ) (c : Conn) :
    (send_head accepts c).invocations = c.invocations := invocations_real_send _ _

/-- The handler is invoked once with a request. -/
theorem invocations_recv_finish (world : RecvWorld) (c : Conn) :
    (recv_finish world c).invocations = c.invocations ++ [(c.received, c.recv_body_)] := by
  have hinvoked : (msg_recv_finish world c).invocations
      = c.invocations ++ [(c.received, c.recv_body_)] := by
    unfold msg_recv_finish
    split
    · rw [invocations_send_head]
      exact List.filterMap_append
    · exact List.filterMap_append
  unfold recv_finish
  dsimp only
  split
  · exact hinvoked
  · rw [invocations_send_head, hinvoked]

end Sending

section Receiving

variable {c c' : Conn} {world : RecvWorld} {buf : CStr} {result : Bool}

/-- What process_recv_body leaves alone. -/
theorem process_recv_body_outputs (h : c.process_recv_body buf = some (c', result)) :
    c'.outputs = c.outputs ∧ c'.received = c.received := by
  have hhead : ∀ {c c' : Conn}, c.boundary_head buf = some (c', result) →
      c'.outputs = c.outputs ∧ c'.received = c.received := by
    intro c c' h
    unfold Conn.boundary_head at h
    dsimp only at h
    split at h
    · split at h
      · cases h
      · rw [← (Prod.mk.inj (Option.some.inj h)).1]
        exact ⟨rfl, rfl⟩
    · split_ifs at h <;> (rw [← (Prod.mk.inj (Option.some.inj h)).1]; exact ⟨rfl, rfl⟩)
  have hbody : ∀ {c c' : Conn}, c.boundary_body buf = some (c', result) →
      c'.outputs = c.outputs ∧ c'.received = c.received := by
    intro c c' h
    unfold Conn.boundary_body at h
    dsimp only at h
    split_ifs at h <;> (rw [← (Prod.mk.inj (Option.some.inj h)).1]; exact ⟨rfl, rfl⟩)
  unfold Conn.process_recv_body at h
  split at h
  · rw [← (Prod.mk.inj (Option.some.inj h)).1]
    exact ⟨rfl, rfl⟩
  · split at h
    · rw [← (Prod.mk.inj (Option.some.inj h)).1]
      exact ⟨rfl, rfl⟩
    · unfold Conn.get_boundary at h
      split at h
      · cases h
      · dsimp only at h
        split at h
        · have hsame := hhead h
          exact hsame
        · have hsame := hbody h
          exact hsame
        · rw [← (Prod.mk.inj (Option.some.inj h)).1]
          exact ⟨rfl, rfl⟩

/-- Neither does reading a head. -/
theorem body_part_outputs {part : CStr} (h : c.body_part buf = some (part, c')) :
    c'.outputs = c.outputs ∧ c'.received = c.received := by
  unfold Conn.body_part at h
  split at h
  · unfold Conn.check_head_finish at h
    split at h
    · split at h
      · cases h
      · rw [← (Prod.mk.inj (Option.some.inj h)).2]
        exact ⟨rfl, rfl⟩
    · obtain ⟨head, -, heq⟩ := Option.map_eq_some_iff.mp h
      rw [← (Prod.mk.inj heq).2]
      exact ⟨rfl, rfl⟩
  · rw [← (Prod.mk.inj (Option.some.inj h)).2]
    exact ⟨rfl, rfl⟩

theorem process_recv_buf_invocations {p_ret : ℕ}
    (h : process_recv_buf world buf c = some (c', p_ret)) :
    c.invocations <+: c'.invocations := by
  unfold process_recv_buf at h
  split at h
  · cases h
  · obtain ⟨⟨part, c₁⟩, hpart, h⟩ := Option.bind_eq_some_iff.mp h
    have hsame : c₁.invocations = c.invocations :=
      congrArg (List.filterMap Output.invocation?) (body_part_outputs hpart).1
    dsimp only at h
    split at h
    · obtain ⟨⟨c₂, result⟩, hbody, h⟩ := Option.bind_eq_some_iff.mp h
      have hbefore : c₂.invocations = c.invocations :=
        (congrArg (List.filterMap Output.invocation?) (process_recv_body_outputs hbody).1).trans hsame
      rw [← (Prod.mk.inj (Option.some.inj h)).1, ← hbefore]
      dsimp only
      split
      · rw [invocations_recv_finish]
        exact List.prefix_append _ _
      · exact List.prefix_refl _
    · rw [← (Prod.mk.inj (Option.some.inj h)).1, hsame]

/-- **An invocation** is never undone. -/
theorem step_invocations (c : Conn) (event : Event) :
    c.invocations <+: (step c event).invocations := by
  unfold step
  split
  · exact List.prefix_refl _
  · cases event with
    | recv chunk world =>
      unfold real_recv
      dsimp only
      split
      · split
        · exact List.prefix_refl _
        · next c' p_ret hprocess =>
          have hkept := process_recv_buf_invocations hprocess
          exact hkept
      · exact List.prefix_refl _
    | writable accepts =>
      dsimp only
      rw [invocations_real_send]
    | reply answer accepts =>
      have hsame : (send_async_response answer accepts c).invocations = c.invocations :=
        invocations_send_head _ _
      dsimp only
      rw [hsame]

/-- Nor is a handler invoked unless bytes come. -/
theorem step_other_invocations {event : Event} (hevent : ∀ chunk world, event ≠ .recv chunk world) :
    (step c event).invocations = c.invocations := by
  unfold step
  split
  · rfl
  · cases event with
    | recv chunk world => exact absurd rfl (hevent chunk world)
    | writable accepts => exact invocations_real_send accepts c
    | reply answer accepts => exact invocations_send_head _ _

end Receiving

/-! ## What has come in -/

/-- The bytes that an event brings. -/
def Event.chunk : Event → CStr
  | .recv chunk _ => chunk
  | .writable _ | .reply _ _ => []

/-- The bytes that events bring together. -/
def arrived (events : List Event) : CStr := events.flatMap Event.chunk

/-- Where the bytes are cut, the end included, behind the first `n`. -/
def cuts_from : ℕ → List Event → List ℕ
  | _, [] => []
  | n, .recv chunk _ :: rest => (n + chunk.length) :: cuts_from (n + chunk.length) rest
  | n, _ :: rest => cuts_from n rest

def cuts (events : List Event) : List ℕ := cuts_from 0 events

section Cuts

variable {events : List Event} {event : Event}

theorem arrived_append (events more : List Event) :
    arrived (events ++ more) = arrived events ++ arrived more := List.flatMap_append

theorem arrived_snoc (events : List Event) (event : Event) :
    arrived (events ++ [event]) = arrived events ++ event.chunk := by
  rw [arrived_append]
  simp [arrived]

theorem cuts_from_append (n : ℕ) (events more : List Event) :
    cuts_from n (events ++ more)
      = cuts_from n events ++ cuts_from (n + (arrived events).length) more := by
  induction events generalizing n with
  | nil => rfl
  | cons event events ih =>
    have hlength : n + event.chunk.length + (arrived events).length
        = n + (arrived (event :: events)).length := by
      rw [arrived, arrived, List.flatMap_cons, List.length_append, Nat.add_assoc]
    rw [← hlength]
    cases event with
    | recv chunk world => rw [List.cons_append, cuts_from, cuts_from, ih, List.cons_append]; rfl
    | writable accepts => exact ih n
    | reply answer accepts => exact ih n

theorem cuts_recv (events : List Event) (chunk : CStr) (world : RecvWorld) :
    cuts (events ++ [.recv chunk world])
      = cuts events ++ [(arrived (events ++ [.recv chunk world])).length] := by
  rw [cuts, cuts_from_append, arrived_snoc, List.length_append, Nat.zero_add]
  rfl

theorem cuts_other (hevent : ∀ chunk world, event ≠ .recv chunk world) :
    cuts (events ++ [event]) = cuts events := by
  rw [cuts, cuts_from_append]
  cases event with
  | recv chunk world => exact absurd rfl (hevent chunk world)
  | writable accepts => exact List.append_nil _
  | reply answer accepts => exact List.append_nil _

theorem cut_le {cut : ℕ} (h : cut ∈ cuts events) : cut ≤ (arrived events).length := by
  induction events using List.reverseRecOn with
  | nil => cases h
  | append_singleton events event ih =>
    rw [arrived_snoc, List.length_append]
    cases event with
    | recv chunk world =>
      rw [cuts_recv, List.mem_append, List.mem_singleton, arrived_snoc, List.length_append] at h
      rcases h with h | h
      · exact (ih h).trans (Nat.le_add_right _ _)
      · exact h.le
    | writable accepts =>
      rw [cuts_other (fun _ _ => Event.noConfusion)] at h
      exact (ih h).trans (Nat.le_add_right _ _)
    | reply answer accepts =>
      rw [cuts_other (fun _ _ => Event.noConfusion)] at h
      exact (ih h).trans (Nat.le_add_right _ _)

end Cuts

/-! ## The first invocation -/

/-- The handler was first invoked when `r` bytes had come in, with this body,
and all cuts before are quiet. -/
structure FirstInvoked (quiet : ℕ → Prop) (events : List Event) (c : Conn) (r : ℕ)
    (body : CStr) : Prop where
  cut : r ∈ cuts events
  later : ∀ cut ∈ cuts events, quiet cut ∨ r ≤ cut
  first : ∃ more, c.invocations = (r, body) :: more ∧ (r = (arrived events).length → more = [])

section FirstInvoked

variable {quiet : ℕ → Prop} {events : List Event} {c : Conn} {r : ℕ} {body : CStr}

/-- Whatever comes then, it stays the first. -/
theorem FirstInvoked.step (h : FirstInvoked quiet events c r body) {event : Event}
    (hpossible : Possible c event) :
    FirstInvoked quiet (events ++ [event]) (Http.step c event) r body := by
  obtain ⟨more, hmore, honly⟩ := h.first
  have hother : (∀ chunk world, event ≠ .recv chunk world) →
      FirstInvoked quiet (events ++ [event]) (Http.step c event) r body := by
    intro hevent
    have hcuts : cuts (events ++ [event]) = cuts events := cuts_other hevent
    have hchunk : event.chunk = [] := by
      cases event with
      | recv chunk world => exact absurd rfl (hevent chunk world)
      | writable accepts => rfl
      | reply answer accepts => rfl
    refine ⟨hcuts ▸ h.cut, hcuts ▸ h.later, more, ?_, ?_⟩
    · rw [step_other_invocations hevent, hmore]
    · rw [arrived_snoc, hchunk, List.append_nil]
      exact honly
  cases event with
  | recv chunk world =>
    have hle := cut_le h.cut
    refine ⟨?_, ?_, ?_⟩
    · rw [cuts_recv]
      exact List.mem_append_left _ h.cut
    · intro cut hcut
      rw [cuts_recv, List.mem_append, List.mem_singleton] at hcut
      rcases hcut with hcut | rfl
      · exact h.later cut hcut
      · rw [arrived_snoc, List.length_append]
        exact Or.inr (hle.trans (Nat.le_add_right _ _))
    · obtain ⟨new, hnew⟩ := step_invocations c (.recv chunk world)
      refine ⟨more ++ new, ?_, fun hr => ?_⟩
      · rw [← hnew, hmore, List.cons_append]
      · -- more bytes have come in since
        have hgrown := List.length_pos_of_ne_nil hpossible.1
        rw [arrived_snoc, List.length_append] at hr
        simp only [Event.chunk] at hr
        omega
  | writable accepts => exact hother fun _ _ => Event.noConfusion
  | reply answer accepts => exact hother fun _ _ => Event.noConfusion

/-- A chunk with which the handler is invoked for the first time. -/
theorem FirstInvoked.begin {chunk : CStr} {world : RecvWorld}
    (hquiet : ∀ cut ∈ cuts events, quiet cut)
    (h : (Http.step c (.recv chunk world)).invocations
      = [((arrived (events ++ [.recv chunk world])).length, body)]) :
    FirstInvoked quiet (events ++ [.recv chunk world]) (Http.step c (.recv chunk world))
      (arrived (events ++ [.recv chunk world])).length body := by
  have hcuts := cuts_recv events chunk world
  refine ⟨?_, ?_, [], h, fun _ => rfl⟩
  · rw [hcuts]
    exact List.mem_append_right _ (List.mem_singleton_self _)
  · intro cut hcut
    rw [hcuts, List.mem_append, List.mem_singleton] at hcut
    rcases hcut with hcut | rfl
    · exact Or.inl (hquiet cut hcut)
    · exact Or.inr (Nat.le_refl _)

/-- It is the only one, with this body, exactly when it is with the last byte
and that is the body. -/
theorem FirstInvoked.only_iff (h : FirstInvoked quiet events c r body) (b : CStr) :
    c.invocations = [((arrived events).length, b)]
      ↔ r = (arrived events).length ∧ body = b := by
  obtain ⟨more, hmore, honly⟩ := h.first
  rw [hmore]
  constructor
  · intro hone
    have hfirst := (List.cons.inj hone).1
    exact ⟨(Prod.mk.inj hfirst).1, (Prod.mk.inj hfirst).2⟩
  · rintro ⟨hr, rfl⟩
    rw [honly hr, hr]

/-- No cut but the last is at fault when it is with the last byte. -/
theorem FirstInvoked.last_iff (h : FirstInvoked quiet events c r body) (hr : ¬ quiet r) :
    r = (arrived events).length
      ↔ ∀ cut ∈ cuts events, quiet cut ∨ cut = (arrived events).length := by
  constructor
  · rintro rfl cut hcut
    exact (h.later cut hcut).imp_right fun hle => le_antisymm (cut_le hcut) hle
  · intro hall
    exact (hall r h.cut).resolve_left hr

end FirstInvoked

end RxNetCap.Http
