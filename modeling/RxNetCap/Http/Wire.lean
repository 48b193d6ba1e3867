/-
What a connection puts on its socket: `real_send` of `base_connect` in
`src/core/legacy_core_net.h`, seen from the other end.

A loop of `real_send` takes bytes from the front of what is to be sent and
leaves the rest, however little the socket takes (`sent_unsent`). So when every
answer comes later, as those of the capture manager do, the bytes are those of
the responses one after another, each head in front of its own body
(`replies_framed`).

An answer that is ready is begun a second time, with an empty head and an empty
body, and an empty buffer is never done with. After the first such response that
the socket takes at once, only this head comes (`one_ready_response`).
-/
import RxNetCap.Http.Exchanges

set_option autoImplicit false

namespace RxNetCap.Http

open RxNetCap.Pdef RxNetCap.Capture

/-! ## Bytes -/

/-- What `real_send` puts on the socket. -/
def sent : List ℕ → Conn → CStr
  | [], _ => []
  | accepted :: rest, c =>
    match c.send_buf with
    | (none, _) => []
    | (some buf, c) =>
      let n := min accepted buf.length
      if n = 0 then []
      else if n < buf.length then buf.take n ++ sent rest { c with _p_send_buf := some (buf.drop n) }
      else buf ++ sent rest { c with _p_send_buf := none }

/-- What `send_head` puts on it. -/
def head_sent (accepts : List ℕ) (c : Conn) : CStr := sent accepts { c with _http_status := .SEND_HEAD }

/-- The connection with an answer that is ready. -/
def Conn.with_answer (answer : Answer) (c : Conn) : Conn :=
  { c with
    _async_response_pending := false
    outputs := c.outputs ++ [Output.invoked c.received c._req_head_para c.recv_body_]
    _res_head_para := { c._res_head_para with
      _response_code := answer.status
      _response_str := answer.reason
      _headers := answer.headers }
    send_body_ := answer.body }

/-- What `recv_finish` puts on it: a response that is ready is begun twice. -/
def finish_sent (world : RecvWorld) (c : Conn) : CStr :=
  match world.answer with
  | some answer =>
    head_sent world.accepts (c.with_answer answer)
      ++ head_sent world.accepts_again (send_head world.accepts (c.with_answer answer))
  | none => []

/-- What `process_recv_buf` puts on it. -/
def process_sent (world : RecvWorld) (buf : CStr) (c : Conn) : CStr :=
  if c._http_status = .SEND_HEAD ∨ c._http_status = .SEND_BODY then []
  else
    match c.body_part buf with
    | some (part, c) =>
      if c._http_status = .RECV_BODY then
        match c.process_recv_body part with
        | some (c, true) => finish_sent world c
        | _ => []
      else []
    | none => []

/-- A connection with an answer that has come later. -/
def Conn.with_reply (answer : Answer) (c : Conn) : Conn :=
  { c with
    send_body_ := answer.body
    _res_head_para := fill_response_headers answer c._res_head_para
    _async_response_pending := false }

/-- What an event puts on the socket. -/
def step_sent (c : Conn) (event : Event) : CStr :=
  if c.closed then []
  else
    match event with
    | .recv chunk world =>
      if (c._recv_buf ++ chunk).length > 0 then
        process_sent world (c._recv_buf ++ chunk)
          { c with _recv_buf := c._recv_buf ++ chunk, received := c.received + chunk.length }
      else []
    | .writable accepts => sent accepts c
    | .reply answer accepts => head_sent accepts (c.with_reply answer)

/-- What comes out of a connection while events happen. -/
def wire : Conn → List Event → CStr
  | _, [] => []
  | c, event :: events => step_sent c event ++ wire (step c event) events

theorem wire_append (c : Conn) (before after : List Event) :
    wire c (before ++ after) = wire c before ++ wire (before.foldl step c) after := by
  induction before generalizing c with
  | nil => rfl
  | cons event before ih =>
    rw [List.cons_append, wire, ih, wire, List.append_assoc]
    rfl

/-! ## What is to be sent -/

/-- The rest of the buffer, and what `get_send_buf` gives after it. -/
def Conn.unsent (c : Conn) : CStr :=
  c._p_send_buf.getD [] ++
    match c._http_status with
    | .SEND_HEAD => if c._async_response_pending then [] else c._res_head_para.to_head_str ++ c.send_body_
    | .SEND_BODY => c.send_body_
    | _ => []

section Unsent

variable {c c' : Conn} {buf : CStr}

theorem send_buf_none (h : c.send_buf = (none, c')) : c' = c ∧ c._p_send_buf = none ∧ c.unsent = [] := by
  unfold Conn.send_buf at h
  split at h
  · cases h
  · next hbuf =>
    unfold Conn.get_send_buf at h
    unfold Conn.unsent
    rw [hbuf]
    split at h
    · next hstatus =>
      cases h
      exact ⟨rfl, rfl, by rw [hstatus]; rfl⟩
    · next hstatus =>
      cases h
      exact ⟨rfl, rfl, by rw [hstatus]; rfl⟩
    · next hstatus =>
      split at h
      · next hpending =>
        cases h
        refine ⟨rfl, rfl, ?_⟩
        rw [hstatus]
        show ([] : CStr) ++ (if c._async_response_pending then _ else _) = []
        rw [if_pos hpending]
        rfl
      · cases h
    · cases h

/-- A buffer comes off the front. -/
theorem send_buf_some (h : c.send_buf = (some buf, c')) :
    c.unsent = buf ++ { c' with _p_send_buf := none }.unsent := by
  unfold Conn.send_buf at h
  unfold Conn.unsent
  split at h
  · next p hbuf =>
    cases h
    rw [hbuf]
    rfl
  · next hbuf =>
    unfold Conn.get_send_buf at h
    rw [hbuf]
    split at h
    · cases h
    · cases h
    · next hstatus =>
      split at h
      · cases h
      · next hpending =>
        cases h
        rw [hstatus]
        show ([] : CStr) ++ (if c._async_response_pending then [] else c._res_head_para.to_head_str ++ c.send_body_)
          = c._res_head_para.to_head_str ++ ([] ++ c.send_body_)
        rw [if_neg hpending]
        rfl
    · next hstatus =>
      cases h
      rw [hstatus]
      exact (List.append_nil _).symm

/-- What is put back in front of it. -/
theorem unsent_put_back (c : Conn) (buf : CStr) :
    { c with _p_send_buf := some buf }.unsent = buf ++ { c with _p_send_buf := none }.unsent := rfl

end Unsent

/-- **Nothing is lost and nothing comes twice** when the socket takes as little as
it likes. -/
theorem sent_unsent (accepts : List ℕ) (c : Conn) :
    sent accepts c ++ (real_send accepts c).unsent = c.unsent := by
  induction accepts generalizing c with
  | nil =>
    rw [sent, real_send, List.nil_append]
    split
    · next c' heq => rw [(send_buf_none heq).1]
    · next buf c' heq => rw [unsent_put_back, send_buf_some heq]
  | cons accepted rest ih =>
    rw [sent, real_send]
    cases heq : c.send_buf with
    | mk first c' =>
      cases first with
      | none =>
        show [] ++ c'.unsent = c.unsent
        rw [(send_buf_none heq).1]
        rfl
      | some buf =>
        rw [send_buf_some heq]
        dsimp only
        by_cases hzero : min accepted buf.length = 0
        · rw [if_pos hzero, if_pos hzero]
          rfl
        · rw [if_neg hzero, if_neg hzero]
          by_cases hpart : min accepted buf.length < buf.length
          · rw [if_pos hpart, if_pos hpart, List.append_assoc, ih, unsent_put_back, ← List.append_assoc,
              List.take_append_drop]
          · rw [if_neg hpart, if_neg hpart, List.append_assoc, ih]

/-! ## Receiving leaves it alone -/

/-- The two are the same for who sends. -/
structure Conn.Same (c c' : Conn) : Prop where
  buf : c'._p_send_buf = c._p_send_buf
  pending : c'._async_response_pending = c._async_response_pending
  body : c'.send_body_ = c.send_body_
  head : c'._res_head_para = c._res_head_para
  closed : c'.closed = c.closed

section Receiving

variable {c c' : Conn} {buf part : CStr} {result : Bool}

theorem Conn.Same.refl (c : Conn) : c.Same c := ⟨rfl, rfl, rfl, rfl, rfl⟩

theorem boundary_head_same (h : c.boundary_head buf = some (c', result)) :
    c.Same c' ∧ c'._http_status = c._http_status := by
  unfold Conn.boundary_head at h
  dsimp only at h
  split at h
  · split at h
    · cases h
    · cases h
      exact ⟨⟨rfl, rfl, rfl, rfl, rfl⟩, rfl⟩
  · split_ifs at h <;> (cases h; exact ⟨⟨rfl, rfl, rfl, rfl, rfl⟩, rfl⟩)

theorem boundary_body_same (h : c.boundary_body buf = some (c', result)) :
    c.Same c' ∧ c'._http_status = c._http_status := by
  unfold Conn.boundary_body at h
  dsimp only at h
  split_ifs at h <;> (cases h; exact ⟨⟨rfl, rfl, rfl, rfl, rfl⟩, rfl⟩)

theorem process_recv_body_same (h : c.process_recv_body buf = some (c', result)) :
    c.Same c' ∧ c'._http_status = c._http_status := by
  unfold Conn.process_recv_body at h
  split at h
  · cases h
    exact ⟨.refl c, rfl⟩
  · split at h
    · cases h
      exact ⟨⟨rfl, rfl, rfl, rfl, rfl⟩, rfl⟩
    · unfold Conn.get_boundary at h
      split at h
      · cases h
      · dsimp only at h
        split at h
        · obtain ⟨hsame, hstatus⟩ := boundary_head_same h
          exact ⟨⟨hsame.buf, hsame.pending, hsame.body, hsame.head, hsame.closed⟩, hstatus⟩
        · obtain ⟨hsame, hstatus⟩ := boundary_body_same h
          exact ⟨⟨hsame.buf, hsame.pending, hsame.body, hsame.head, hsame.closed⟩, hstatus⟩
        · cases h
          exact ⟨⟨rfl, rfl, rfl, rfl, rfl⟩, rfl⟩

theorem body_part_same (h : c.body_part buf = some (part, c')) :
    c.Same c' ∧ (c'._http_status = c._http_status ∨ c._http_status = .RECV_HEAD ∧ c'._http_status = .RECV_BODY) := by
  unfold Conn.body_part at h
  split at h
  · next hhead =>
    unfold Conn.check_head_finish at h
    split at h
    · split at h
      · cases h
      · cases h
        exact ⟨.refl c, .inl rfl⟩
    · obtain ⟨head, -, heq⟩ := Option.map_eq_some_iff.mp h
      cases heq
      exact ⟨⟨rfl, rfl, rfl, rfl, rfl⟩, .inr ⟨hhead.1, rfl⟩⟩
  · cases h
    exact ⟨.refl c, .inl rfl⟩

end Receiving

/-- `msg_recv_finish` with an answer that is ready begins to send it. -/
theorem msg_recv_finish_ready {world : RecvWorld} {answer : Answer} (h : world.answer = some answer) (c : Conn) :
    msg_recv_finish world c = send_head world.accepts (c.with_answer answer) := by
  unfold msg_recv_finish
  rw [h]
  rfl

/-- The four things that a call of `process_recv_buf` can come to. -/
inductive Processed (world : RecvWorld) (c : Conn) : Option (Conn × ℕ) → CStr → Prop where
  | throws : Processed world c none []
  /-- no request is complete -/
  | waits {c' : Conn} {p_ret : ℕ} (same : c.Same c')
      (status : c'._http_status = c._http_status ∨ c._http_status = .RECV_HEAD ∧ c'._http_status = .RECV_BODY)
      (receiving : c._http_status = .RECV_HEAD ∨ c._http_status = .RECV_BODY) :
      Processed world c (some (c', p_ret)) []
  /-- a request is complete, and the answer comes later -/
  | asks {c' : Conn} {p_ret : ℕ} (noanswer : world.answer = none) (same : c.Same c')
      (status : c'._http_status = .RECV_BODY)
      (receiving : c._http_status = .RECV_HEAD ∨ c._http_status = .RECV_BODY) :
      Processed world c (some (msg_recv_finish world c', p_ret)) []
  /-- a request is complete, and the answer is ready -/
  | answers {c' : Conn} {p_ret : ℕ} {answer : Answer} (answered : world.answer = some answer) (same : c.Same c')
      (status : c'._http_status = .RECV_BODY)
      (receiving : c._http_status = .RECV_HEAD ∨ c._http_status = .RECV_BODY) :
      Processed world c (some (recv_finish world c', p_ret)) (finish_sent world c')

/-- **One call** of `process_recv_buf`, and what it puts on the socket. -/
theorem process_recv_buf_processed (world : RecvWorld) (buf : CStr) (c : Conn) :
    Processed world c (process_recv_buf world buf c) (process_sent world buf c) := by
  unfold process_recv_buf process_sent
  by_cases hsending : c._http_status = .SEND_HEAD ∨ c._http_status = .SEND_BODY
  · rw [if_pos hsending, if_pos hsending]
    exact .throws
  rw [if_neg hsending, if_neg hsending]
  have hreceiving : c._http_status = .RECV_HEAD ∨ c._http_status = .RECV_BODY := by
    cases hstatus : c._http_status with
    | RECV_HEAD => exact .inl rfl
    | RECV_BODY => exact .inr rfl
    | SEND_HEAD => exact absurd (.inl hstatus) hsending
    | SEND_BODY => exact absurd (.inr hstatus) hsending
  cases hpart : c.body_part buf with
  | none => exact .throws
  | some taken =>
    obtain ⟨part, c₁⟩ := taken
    obtain ⟨hsame₁, hstatus₁⟩ := body_part_same hpart
    simp only [Option.bind_eq_bind, Option.bind_some]
    by_cases hbody : c₁._http_status = .RECV_BODY
    · rw [if_pos hbody, if_pos hbody]
      cases hprocess : c₁.process_recv_body part with
      | none => exact .throws
      | some received =>
        obtain ⟨c₂, result⟩ := received
        obtain ⟨hsame₂, hstatus₂⟩ := process_recv_body_same hprocess
        have hsame : c.Same c₂ :=
          ⟨hsame₂.buf.trans hsame₁.buf, hsame₂.pending.trans hsame₁.pending, hsame₂.body.trans hsame₁.body,
            hsame₂.head.trans hsame₁.head, hsame₂.closed.trans hsame₁.closed⟩
        cases result with
        | false =>
          show Processed world c (some (c₂, buf.length)) []
          exact .waits hsame (hstatus₂ ▸ hstatus₁) hreceiving
        | true =>
          cases hanswer : world.answer with
          | some answer =>
            show Processed world c (some (recv_finish world c₂, buf.length)) (finish_sent world c₂)
            exact .answers hanswer hsame (hstatus₂.trans hbody) hreceiving
          | none =>
            have hfinish : recv_finish world c₂ = msg_recv_finish world c₂ := by
              unfold recv_finish msg_recv_finish
              rw [hanswer]
              rfl
            have hsent : finish_sent world c₂ = [] := by
              unfold finish_sent
              rw [hanswer]
            show Processed world c (some (recv_finish world c₂, buf.length)) (finish_sent world c₂)
            rw [hfinish, hsent]
            exact .asks hanswer hsame (hstatus₂.trans hbody) hreceiving
    · rw [if_neg hbody, if_neg hbody]
      exact .waits hsame₁ hstatus₁ hreceiving

/-! ## Answers that come later -/

/-- A connection that receives has nothing to send but the rest of a buffer. -/
theorem unsent_receiving {c : Conn} (h : c._http_status = .RECV_HEAD ∨ c._http_status = .RECV_BODY) :
    c.unsent = c._p_send_buf.getD [] := by
  unfold Conn.unsent
  rcases h with h | h <;> (rw [h]; exact List.append_nil _)

section Step

variable {c : Conn} {chunk : CStr}

/-- A connection with a chunk behind what it has received. -/
def Conn.with_chunk (chunk : CStr) (c : Conn) : Conn :=
  { c with _recv_buf := c._recv_buf ++ chunk, received := c.received + chunk.length }

/-- What is left after a call of `process_recv_buf`. -/
def Conn.after_call (c : Conn) : Option (Conn × ℕ) → Conn
  | none => { c with closed := true }
  | some (c', p_ret) => { c' with _recv_buf := c._recv_buf.drop p_ret }

theorem step_recv (world : RecvWorld) (hopen : c.closed = false) (hchunk : chunk ≠ []) : ∃ called bytes,
    Processed world (c.with_chunk chunk) called bytes ∧ step_sent c (.recv chunk world) = bytes ∧
      step c (.recv chunk world) = (c.with_chunk chunk).after_call called := by
  have hlength : (c._recv_buf ++ chunk).length > 0 := by
    rw [List.length_append]
    exact Nat.add_pos_right _ (List.length_pos_of_ne_nil hchunk)
  have hnot : ¬ c.closed = true := by
    rw [hopen]
    exact Bool.false_ne_true
  refine ⟨_, _, process_recv_buf_processed world (c._recv_buf ++ chunk) (c.with_chunk chunk), ?_, ?_⟩
  · unfold step_sent
    rw [if_neg hnot]
    exact if_pos hlength
  · unfold step
    rw [if_neg hnot]
    show real_recv world chunk c = _
    unfold real_recv
    dsimp only
    rw [if_pos hlength]
    unfold Conn.after_call Conn.with_chunk
    cases process_recv_buf world (c._recv_buf ++ chunk)
      { c with _recv_buf := c._recv_buf ++ chunk, received := c.received + chunk.length } <;> rfl

end Step

theorem send_buf_flags {c c' : Conn} {buf : Option CStr} (h : c.send_buf = (buf, c')) :
    c'._async_response_pending = c._async_response_pending ∧ c'.closed = c.closed := by
  unfold Conn.send_buf at h
  split at h
  · cases h
    exact ⟨rfl, rfl⟩
  · unfold Conn.get_send_buf at h
    split at h
    · cases h
      exact ⟨rfl, rfl⟩
    · cases h
      exact ⟨rfl, rfl⟩
    · split at h <;> (cases h; exact ⟨rfl, rfl⟩)
    · cases h
      exact ⟨rfl, rfl⟩

/-- Sending changes neither. -/
theorem real_send_flags (accepts : List ℕ) (c : Conn) :
    (real_send accepts c)._async_response_pending = c._async_response_pending ∧
      (real_send accepts c).closed = c.closed := by
  induction accepts generalizing c with
  | nil =>
    rw [real_send]
    split
    · next heq => exact send_buf_flags heq
    · next buf c' heq =>
      obtain ⟨hpending, hclosed⟩ := send_buf_flags heq
      exact ⟨hpending, hclosed⟩
  | cons accepted rest ih =>
    rw [real_send]
    split
    · next heq => exact send_buf_flags heq
    · next buf c' heq =>
      obtain ⟨hpending, hclosed⟩ := send_buf_flags heq
      dsimp only
      split_ifs
      · exact ⟨hpending, hclosed⟩
      · obtain ⟨h1, h2⟩ := ih { c' with _p_send_buf := some (buf.drop (min accepted buf.length)) }
        exact ⟨h1.trans hpending, h2.trans hclosed⟩
      · obtain ⟨h1, h2⟩ := ih { c' with _p_send_buf := none }
        exact ⟨h1.trans hpending, h2.trans hclosed⟩

theorem send_buf_receiving {c : Conn} (h : c._http_status = .RECV_HEAD ∨ c._http_status = .RECV_BODY) :
    c.send_buf = (c._p_send_buf, c) := by
  unfold Conn.send_buf
  split
  · next buf hbuf => rw [hbuf]
  · next hbuf =>
    unfold Conn.get_send_buf
    rcases h with h | h <;> rw [h, hbuf]

/-- A connection that receives goes on receiving while the rest of a buffer is
sent. -/
theorem real_send_receiving (accepts : List ℕ) {c : Conn}
    (h : c._http_status = .RECV_HEAD ∨ c._http_status = .RECV_BODY) :
    (real_send accepts c)._http_status = c._http_status := by
  induction accepts generalizing c with
  | nil =>
    rw [real_send, send_buf_receiving h]
    cases c._p_send_buf <;> rfl
  | cons accepted rest ih =>
    rw [real_send, send_buf_receiving h]
    cases c._p_send_buf with
    | none => rfl
    | some buf =>
      dsimp only
      split_ifs
      · rfl
      · exact ih h
      · exact ih h

/-- No handler has its answer at once. -/
def Event.later : Event → Bool
  | .recv _ world => world.answer.isNone
  | _ => true

/-- The response that an event begins: its head and its body. -/
def response (c : Conn) : Event → List (http_res_head_para × CStr)
  | .reply answer _ => if c.closed then [] else [(fill_response_headers answer c._res_head_para, answer.body)]
  | _ => []

/-- The responses to the events, in their order. -/
def responses : Conn → List Event → List (http_res_head_para × CStr)
  | _, [] => []
  | c, event :: events => response c event ++ responses (step c event) events

/-- The bytes of a response. -/
def framed (response : http_res_head_para × CStr) : CStr := response.1.to_head_str ++ response.2

/-- An answer is waited for only while the body is received. -/
def Conn.Waiting (c : Conn) : Prop :=
  c.closed = false → c._async_response_pending = true → c._http_status = .RECV_BODY

section Later

variable {c : Conn} {event : Event}

/-- **One event** puts on the socket what comes off the front of what is to be
sent, with the response that it begins at the end of it. -/
theorem later_step (hwaiting : c.Waiting) (hpossible : Possible c event) (hlater : event.later = true) :
    (step c event).Waiting ∧
      step_sent c event ++ (step c event).unsent = c.unsent ++ (response c event).flatMap framed := by
  by_cases hclosed : c.closed = true
  · have hstep : step c event = c := by
      unfold step
      rw [if_pos hclosed]
    have hsent : step_sent c event = [] := by
      unfold step_sent
      rw [if_pos hclosed]
    have hnone : response c event = [] := by
      cases event with
      | reply answer accepts => exact if_pos hclosed
      | _ => rfl
    rw [hstep, hsent, hnone]
    exact ⟨hwaiting, (List.append_nil _).symm⟩
  have hopen : c.closed = false := Bool.eq_false_iff.mpr hclosed
  cases event with
  | recv chunk world =>
    obtain ⟨called, bytes, hprocessed, hsent, hstep⟩ := step_recv world hopen hpossible.1
    rw [hsent, hstep]
    show _ ∧ _ = c.unsent ++ ([] : CStr)
    rw [List.append_nil]
    cases hprocessed with
    | throws =>
      refine ⟨?_, rfl⟩
      intro hstill
      cases hstill
    | waits same status receiving =>
      rename_i c' p_ret
      have hreceiving : c'._http_status = .RECV_HEAD ∨ c'._http_status = .RECV_BODY := by
        rcases status with hstatus | ⟨-, hstatus⟩
        · rw [hstatus]
          exact receiving
        · exact .inr hstatus
      constructor
      · intro _ hpending
        have hbefore : c._http_status = .RECV_BODY := hwaiting hopen (same.pending.symm.trans hpending)
        rcases status with hstatus | ⟨-, hstatus⟩
        · exact hstatus.trans hbefore
        · exact hstatus
      · show ([] : CStr) ++ Conn.unsent { c' with _recv_buf := _ } = c.unsent
        have hunsent : Conn.unsent { c' with _recv_buf := (c.with_chunk chunk)._recv_buf.drop p_ret } = c'.unsent := rfl
        have hbefore : c.unsent = c._p_send_buf.getD [] := unsent_receiving receiving
        rw [hunsent, unsent_receiving hreceiving, hbefore, same.buf]
        rfl
    | asks noanswer same status receiving =>
      rename_i c' p_ret
      have hasked : msg_recv_finish world c' = { c' with
          _async_response_pending := true
          outputs := c'.outputs ++ [Output.invoked c'.received c'._req_head_para c'.recv_body_] } := by
        unfold msg_recv_finish
        rw [noanswer]
      constructor
      · intro _ _
        show (msg_recv_finish world c')._http_status = .RECV_BODY
        rw [hasked]
        exact status
      · have hbefore : c.unsent = c._p_send_buf.getD [] := unsent_receiving receiving
        have hafter : Conn.unsent { msg_recv_finish world c' with
            _recv_buf := (c.with_chunk chunk)._recv_buf.drop p_ret } = c'._p_send_buf.getD [] := by
          rw [hasked]
          exact unsent_receiving (.inr status)
        show ([] : CStr) ++ Conn.unsent { msg_recv_finish world c' with _recv_buf := _ } = c.unsent
        rw [hafter, hbefore, same.buf]
        rfl
    | answers answered =>
      have hnone : world.answer = none := Option.isNone_iff_eq_none.mp hlater
      rw [hnone] at answered
      cases answered
  | writable accepts =>
    have hstep : step c (.writable accepts) = real_send accepts c := by
      unfold step
      rw [if_neg hclosed]
    have hsent : step_sent c (.writable accepts) = sent accepts c := by
      unfold step_sent
      rw [if_neg hclosed]
    rw [hstep, hsent]
    obtain ⟨hpending, -⟩ := real_send_flags accepts c
    constructor
    · intro _ hstill
      have hbody := hwaiting hopen (hpending.symm.trans hstill)
      exact (real_send_receiving accepts (.inr hbody)).trans hbody
    · show _ = c.unsent ++ ([] : CStr)
      rw [List.append_nil]
      exact sent_unsent accepts c
  | reply answer accepts =>
    have hbody : c._http_status = .RECV_BODY := hwaiting hopen hpossible
    have hstep : step c (.reply answer accepts)
        = real_send accepts { c.with_reply answer with _http_status := .SEND_HEAD } := by
      unfold step
      rw [if_neg hclosed]
      rfl
    have hsent : step_sent c (.reply answer accepts)
        = sent accepts { c.with_reply answer with _http_status := .SEND_HEAD } := by
      unfold step_sent
      rw [if_neg hclosed]
      rfl
    rw [hstep, hsent]
    obtain ⟨hpending, -⟩ := real_send_flags accepts { c.with_reply answer with _http_status := .SEND_HEAD }
    constructor
    · intro _ hstill
      cases hpending.symm.trans hstill
    · rw [sent_unsent, unsent_receiving (.inr hbody)]
      have hresponse : response c (.reply answer accepts)
          = [(fill_response_headers answer c._res_head_para, answer.body)] := if_neg hclosed
      rw [hresponse, List.flatMap_singleton]
      rfl

end Later

theorem responses_append (c : Conn) (before after : List Event) :
    responses c (before ++ after) = responses c before ++ responses (before.foldl step c) after := by
  induction before generalizing c with
  | nil => rfl
  | cons event before ih =>
    rw [List.cons_append, responses, ih, responses, List.append_assoc]
    rfl

theorem later_run {events : List Event} {c : Conn} (run : Run {} events c)
    (later : ∀ event ∈ events, event.later = true) :
    c.Waiting ∧ wire {} events ++ c.unsent = (responses {} events).flatMap framed := by
  induction run with
  | start => exact ⟨fun _ hpending => absurd hpending (by decide), rfl⟩
  | @step c events event run possible ih =>
    obtain ⟨hwaiting, hwire⟩ := ih (fun e he => later e (List.mem_append_left _ he))
    have hlater : event.later = true := later event (List.mem_append_right _ (List.mem_singleton_self event))
    obtain ⟨hstill, hevent⟩ := later_step hwaiting possible hlater
    refine ⟨hstill, ?_⟩
    rw [wire_append, responses_append, ← run_foldl run, List.flatMap_append, ← hwire]
    show (wire {} events ++ (step_sent c event ++ [])) ++ (step c event).unsent
      = (wire {} events ++ c.unsent) ++ (response c event ++ []).flatMap framed
    rw [List.append_nil, List.append_nil, List.append_assoc, hevent, List.append_assoc]

/-- **The responses come whole and in their order** when every answer comes later:
what is on the socket, with what is still to be sent, is one after another the
head and the body of each. -/
theorem replies_framed {events : List Event} {c : Conn} (run : Run {} events c)
    (later : ∀ event ∈ events, event.later = true) :
    wire {} events ++ c.unsent = (responses {} events).flatMap framed :=
  (later_run run later).2

/-- The socket takes ten bytes, and then all there is. -/
theorem small_reply_framed :
    let events : List Event :=
      [.recv small_post.bytes {}, .reply { body := "ok".toList } [10], .writable [1000, 1000]]
    wire {} events ++ (events.foldl step {}).unsent = (responses {} events).flatMap framed :=
  replies_framed
    ((((Run.start {}).step (by decide +kernel)).step (by decide +kernel)).step (by decide +kernel))
    (by decide +kernel)

/-! ## An answer that is ready -/

section Begun

variable {c c' : Conn} {buf : Option CStr}

/-- A response has been begun, and with its body the connection is reset. -/
def Conn.Begun (c : Conn) : Prop :=
  c._async_response_pending = false ∧
    (c._http_status = .SEND_HEAD ∨ c._http_status = .SEND_BODY
      ∨ c._http_status = .RECV_HEAD ∧ c.send_body_ = [] ∧ c._res_head_para = .blank)

theorem send_buf_begun (hbegun : c.Begun) (h : c.send_buf = (buf, c')) : c'.Begun := by
  obtain ⟨hpending, hstatus⟩ := hbegun
  unfold Conn.send_buf at h
  split at h
  · cases h
    exact ⟨hpending, hstatus⟩
  unfold Conn.get_send_buf at h
  split at h
  · cases h
    exact ⟨hpending, hstatus⟩
  · cases h
    exact ⟨hpending, hstatus⟩
  · split at h
    · cases h
      exact ⟨hpending, hstatus⟩
    · cases h
      exact ⟨hpending, .inr (.inl rfl)⟩
  · cases h
    exact ⟨hpending, .inr (.inr ⟨rfl, rfl, rfl⟩)⟩

theorem real_send_begun (accepts : List ℕ) (hbegun : c.Begun) : (real_send accepts c).Begun := by
  induction accepts generalizing c with
  | nil =>
    rw [real_send]
    split
    · next heq => exact send_buf_begun hbegun heq
    · next buf c' heq =>
      have hnext : c'.Begun := send_buf_begun hbegun heq
      exact hnext
  | cons accepted rest ih =>
    rw [real_send]
    split
    · next heq => exact send_buf_begun hbegun heq
    · next buf c' heq =>
      have hnext : c'.Begun := send_buf_begun hbegun heq
      dsimp only
      split_ifs
      · exact hnext
      · exact ih (c := { c' with _p_send_buf := _ }) hnext
      · exact ih (c := { c' with _p_send_buf := none }) hnext

/-- A loop of `real_send` that leaves no buffer has found none. -/
theorem real_send_all (accepts : List ℕ) (h : (real_send accepts c)._p_send_buf = none) :
    (real_send accepts c).send_buf = (none, real_send accepts c) := by
  induction accepts generalizing c with
  | nil =>
    rw [real_send] at h ⊢
    cases heq : c.send_buf with
    | mk first c' =>
      rw [heq] at h
      cases first with
      | none =>
        rw [← (send_buf_none heq).1] at heq
        exact heq
      | some buf => cases h
  | cons accepted rest ih =>
    rw [real_send] at h ⊢
    cases heq : c.send_buf with
    | mk first c' =>
      rw [heq] at h
      cases first with
      | none =>
        rw [← (send_buf_none heq).1] at heq
        exact heq
      | some buf =>
        dsimp only at h ⊢
        split_ifs at h ⊢
        · exact ih h
        · exact ih h

end Begun

/-- The socket takes nothing more than the rest of the buffer. -/
def Conn.Mute (c : Conn) : Prop :=
  c._p_send_buf = some [] ∨
    c._http_status = .SEND_BODY ∧ c.send_body_ = [] ∧ c._async_response_pending = false

section Mute

variable {c : Conn}

/-- An empty buffer stays. -/
theorem real_send_empty (accepts : List ℕ) (h : c._p_send_buf = some []) :
    real_send accepts c = c ∧ sent accepts c = [] := by
  have hbuf : c.send_buf = (some [], c) := by
    unfold Conn.send_buf
    rw [h]
  have hsame : { c with _p_send_buf := some [] } = c := by rw [← h]
  cases accepts with
  | nil =>
    rw [real_send, sent, hbuf]
    exact ⟨hsame, rfl⟩
  | cons accepted rest =>
    rw [real_send, sent, hbuf]
    dsimp only
    rw [List.length_nil, Nat.min_zero, if_pos rfl, if_pos rfl]
    exact ⟨hsame, rfl⟩

theorem real_send_mute (accepts : List ℕ) (h : c.Mute) : (real_send accepts c).Mute ∧
    sent accepts c ++ (real_send accepts c)._p_send_buf.getD [] = c._p_send_buf.getD [] := by
  induction accepts generalizing c with
  | nil =>
    rcases h with hempty | ⟨hstatus, hbody, hpending⟩
    · rw [(real_send_empty [] hempty).1]
      exact ⟨.inl hempty, rfl⟩
    · rw [real_send, sent]
      unfold Conn.send_buf Conn.get_send_buf
      cases hbuf : c._p_send_buf with
      | none =>
        rw [hstatus, hbody]
        exact ⟨.inl rfl, rfl⟩
      | some buf => exact ⟨.inr ⟨hstatus, hbody, hpending⟩, rfl⟩
  | cons accepted rest ih =>
    rcases h with hempty | ⟨hstatus, hbody, hpending⟩
    · rw [(real_send_empty (accepted :: rest) hempty).1, (real_send_empty (accepted :: rest) hempty).2]
      exact ⟨.inl hempty, rfl⟩
    · rw [real_send, sent]
      unfold Conn.send_buf Conn.get_send_buf
      cases hbuf : c._p_send_buf with
      | none =>
        rw [hstatus, hbody]
        dsimp only
        rw [List.length_nil, Nat.min_zero, if_pos rfl, if_pos rfl]
        exact ⟨.inl rfl, rfl⟩
      | some buf =>
        dsimp only
        split_ifs with hzero hpart
        · exact ⟨.inr ⟨hstatus, hbody, hpending⟩, rfl⟩
        · obtain ⟨hmute, hsent⟩ := ih (c := { c with _p_send_buf := some (buf.drop (min accepted buf.length)) })
            (.inr ⟨hstatus, hbody, hpending⟩)
          refine ⟨hmute, ?_⟩
          rw [List.append_assoc, hsent]
          exact List.take_append_drop _ _
        · obtain ⟨hmute, hsent⟩ := ih (c := { c with _p_send_buf := none }) (.inr ⟨hstatus, hbody, hpending⟩)
          refine ⟨hmute, ?_⟩
          rw [List.append_assoc, hsent]
          exact List.append_nil _

/-- A response that is begun with an empty buffer. -/
theorem send_head_empty (accepts : List ℕ) (h : c._p_send_buf = some []) :
    (send_head accepts c)._p_send_buf = some [] ∧ head_sent accepts c = [] := by
  have hbegun : { c with _http_status := HTTP_STATUS.SEND_HEAD }._p_send_buf = some [] := h
  unfold send_head head_sent
  rw [(real_send_empty accepts hbegun).1]
  exact ⟨h, (real_send_empty accepts hbegun).2⟩

theorem finish_empty (world : RecvWorld) (h : c._p_send_buf = some []) :
    (recv_finish world c)._p_send_buf = some [] ∧ finish_sent world c = [] := by
  unfold recv_finish finish_sent
  cases hanswer : world.answer with
  | none =>
    unfold msg_recv_finish
    rw [hanswer]
    exact ⟨h, rfl⟩
  | some answer =>
    have hfirst : (c.with_answer answer)._p_send_buf = some [] := h
    obtain ⟨hmiddle, hsent⟩ := send_head_empty world.accepts hfirst
    obtain ⟨hlast, hagain⟩ := send_head_empty world.accepts_again hmiddle
    rw [msg_recv_finish_ready hanswer]
    dsimp only
    rw [hsent, hagain]
    split_ifs
    · exact ⟨hmiddle, rfl⟩
    · exact ⟨hlast, rfl⟩

/-- A call of `process_recv_buf` while the buffer is empty. -/
theorem processed_empty {world : RecvWorld} {called : Option (Conn × ℕ)} {bytes : CStr}
    (h : c._p_send_buf = some []) (processed : Processed world c called bytes) :
    (c.after_call called)._p_send_buf = some [] ∧ bytes = [] := by
  cases processed with
  | throws => exact ⟨h, rfl⟩
  | waits same => exact ⟨same.buf.trans h, rfl⟩
  | @asks c' p_ret noanswer same =>
    have hfinish : (msg_recv_finish world c')._p_send_buf = c'._p_send_buf := by
      unfold msg_recv_finish
      rw [noanswer]
    exact ⟨hfinish.trans (same.buf.trans h), rfl⟩
  | answers answered same => exact finish_empty world (same.buf.trans h)

/-- **One event** on a connection that is mute. -/
theorem mute_step {event : Event} (hmute : c.Mute) (hpossible : Possible c event) : (step c event).Mute ∧
    step_sent c event ++ (step c event)._p_send_buf.getD [] = c._p_send_buf.getD [] := by
  by_cases hclosed : c.closed = true
  · unfold step step_sent
    rw [if_pos hclosed, if_pos hclosed]
    exact ⟨hmute, rfl⟩
  cases event with
  | recv chunk world =>
    obtain ⟨called, bytes, hprocessed, hsent, hstep⟩ :=
      step_recv world (Bool.eq_false_iff.mpr hclosed) hpossible.1
    rw [hsent, hstep]
    rcases hmute with hempty | ⟨hstatus, hbody, hpending⟩
    · have hchunk : (c.with_chunk chunk)._p_send_buf = some [] := hempty
      obtain ⟨hbuf, hnone⟩ := processed_empty hchunk hprocessed
      rw [hnone, hbuf, hempty]
      exact ⟨.inl hbuf, rfl⟩
    · -- a request that comes now closes the connection
      have hsending : ¬ (c._http_status = .RECV_HEAD ∨ c._http_status = .RECV_BODY) := by
        rw [hstatus]
        decide
      cases hprocessed with
      | throws => exact ⟨.inr ⟨hstatus, hbody, hpending⟩, rfl⟩
      | waits same status receiving => exact absurd receiving hsending
      | asks noanswer same status receiving => exact absurd receiving hsending
      | answers answered same status receiving => exact absurd receiving hsending
  | writable accepts =>
    unfold step step_sent
    rw [if_neg hclosed, if_neg hclosed]
    exact real_send_mute accepts hmute
  | reply answer accepts =>
    rcases hmute with hempty | ⟨-, -, hpending⟩
    · have hreply : (c.with_reply answer)._p_send_buf = some [] := hempty
      obtain ⟨hbuf, hsent⟩ := send_head_empty accepts hreply
      unfold step step_sent
      rw [if_neg hclosed, if_neg hclosed]
      refine ⟨.inl hbuf, ?_⟩
      show head_sent accepts (c.with_reply answer) ++ (send_head accepts (c.with_reply answer))._p_send_buf.getD [] = _
      rw [hsent, hbuf, hempty]
      rfl
    · exact absurd hpossible (by
        show ¬ c._async_response_pending = true
        rw [hpending]
        exact Bool.false_ne_true)

/-- **A run** puts nothing on the socket but the rest of the buffer. -/
theorem mute_run {events : List Event} {c' : Conn} (hmute : c.Mute) (run : Run c events c') :
    c'.Mute ∧ wire c events ++ c'._p_send_buf.getD [] = c._p_send_buf.getD [] := by
  induction run with
  | start => exact ⟨hmute, rfl⟩
  | @step c₁ events event run possible ih =>
    obtain ⟨hmute₁, hwire⟩ := ih
    obtain ⟨hmute₂, hevent⟩ := mute_step hmute₁ possible
    refine ⟨hmute₂, ?_⟩
    rw [wire_append, ← run_foldl run, ← hwire, ← hevent]
    show (wire c events ++ (step_sent c₁ event ++ [])) ++ _ = _
    rw [List.append_nil, List.append_assoc]

end Mute

/-- The response that is begun a second time. -/
theorem begun_again {c : Conn} (accepts : List ℕ) (hbuf : c._p_send_buf = none)
    (hpending : c._async_response_pending = false) (hbody : c.send_body_ = []) :
    (send_head accepts c).Mute ∧
      head_sent accepts c ++ (send_head accepts c)._p_send_buf.getD [] = c._res_head_para.to_head_str := by
  obtain ⟨loaded, hloaded⟩ : ∃ loaded : Conn, loaded = { c with
      _p_send_buf := some c._res_head_para.to_head_str
      _http_status := .SEND_BODY
      outputs := c.outputs ++ [Output.head c._res_head_para] } := ⟨_, rfl⟩
  have hbuffer : loaded._p_send_buf = some c._res_head_para.to_head_str := by rw [hloaded]
  have hmute : loaded.Mute := .inr (by rw [hloaded]; exact ⟨rfl, hbody, hpending⟩)
  have hfirst : { c with _http_status := HTTP_STATUS.SEND_HEAD }.send_buf
      = (some c._res_head_para.to_head_str, { loaded with _p_send_buf := none }) := by
    unfold Conn.send_buf Conn.get_send_buf
    rw [hloaded, hbuf, hpending]
    rfl
  have hsecond : loaded.send_buf = (some c._res_head_para.to_head_str, loaded) := by
    unfold Conn.send_buf
    rw [hbuffer]
  -- from the first buffer on, the loop is that of the connection with the head in its buffer
  have hsame : send_head accepts c = real_send accepts loaded ∧ head_sent accepts c = sent accepts loaded := by
    unfold send_head head_sent
    cases accepts with
    | nil =>
      rw [real_send, real_send, sent, sent, hfirst, hsecond]
      exact ⟨rfl, rfl⟩
    | cons accepted rest =>
      rw [real_send, real_send, sent, sent, hfirst, hsecond]
      exact ⟨rfl, rfl⟩
  obtain ⟨hafter, hsent⟩ := real_send_mute accepts hmute
  rw [hsame.1, hsame.2, hsent, hbuffer]
  exact ⟨hafter, rfl⟩

/-- **A response that is ready silences the connection.** When the socket has
taken one, what comes on it, whatever is asked and answered, is a head without a
version or a length, and nothing after it. -/
theorem one_ready_response (world : RecvWorld) (c : Conn) (rest : CStr) {c' : Conn} {after : List Event}
    (ready : world.answer.isSome) (taken : (msg_recv_finish world c)._p_send_buf = none)
    (run : Run { recv_finish world c with _recv_buf := rest } after c') :
    head_sent world.accepts_again (msg_recv_finish world c)
        ++ wire { recv_finish world c with _recv_buf := rest } after ++ c'._p_send_buf.getD []
      = http_res_head_para.blank.to_head_str := by
  obtain ⟨answer, hanswer⟩ := Option.isSome_iff_exists.mp ready
  have hready := msg_recv_finish_ready hanswer c
  have hbegun : (msg_recv_finish world c).Begun := by
    rw [hready]
    exact real_send_begun world.accepts ⟨rfl, .inl rfl⟩
  have hall : (msg_recv_finish world c).send_buf = (none, msg_recv_finish world c) := by
    rw [hready] at taken ⊢
    exact real_send_all world.accepts taken
  obtain ⟨hpending, hstatus⟩ := hbegun
  have hreset : (msg_recv_finish world c).send_body_ = [] ∧ (msg_recv_finish world c)._res_head_para = .blank := by
    unfold Conn.send_buf at hall
    rw [taken] at hall
    unfold Conn.get_send_buf at hall
    rw [hpending] at hall
    rcases hstatus with hstatus | hstatus | ⟨-, hreset⟩
    · rw [hstatus] at hall
      cases hall
    · rw [hstatus] at hall
      cases hall
    · exact hreset
  obtain ⟨hmute, hagain⟩ := begun_again world.accepts_again taken hpending hreset.1
  have hfinish : recv_finish world c = send_head world.accepts_again (msg_recv_finish world c) := by
    unfold recv_finish
    dsimp only
    rw [hpending, if_neg Bool.false_ne_true]
  have hstart : Conn.Mute { recv_finish world c with _recv_buf := rest } := by
    rw [hfinish]
    exact hmute
  rw [List.append_assoc, (mute_run hstart run).2, ← hreset.2, ← hagain, hfinish]

/-- The socket takes all of the answer, and three bytes of what comes next. -/
def small_world : RecvWorld where
  answer := some { body := "ok".toList }
  accepts := [1000, 1000]
  accepts_again := [3]

/-- A small request is answered at once, and comes again. -/
theorem small_request_again :
    let c := step {} (.recv small_post.head {})
    let start : Conn := { recv_finish small_world c with _recv_buf := [] }
    let after : List Event := [.writable [1000, 1000], .recv small_post.bytes small_world]
    head_sent [3] (msg_recv_finish small_world c) ++ wire start after ++ (after.foldl step start)._p_send_buf.getD []
      = http_res_head_para.blank.to_head_str :=
  one_ready_response small_world (step {} (.recv small_post.head {})) [] (by decide) (by decide +kernel)
    (.step (.step (.start _) (show Possible _ (.writable [1000, 1000]) from trivial))
      (show Possible _ (.recv small_post.bytes small_world) from by decide +kernel))

end RxNetCap.Http
