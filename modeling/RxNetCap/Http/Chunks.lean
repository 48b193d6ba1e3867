/-
A request with a plain body, however its bytes are cut into chunks.

Up to the end of the head the connection keeps what has come (`Waiting`). The
data process calls every part of a body complete, so the chunk that brings the
end of the head invokes the handler with what it brings of the body. That is the
whole body exactly when no chunk ends between the end of the head and the end of
the request (`invoked_once_iff`).
-/
import RxNetCap.Http.Cuts

set_option autoImplicit false

namespace RxNetCap.Http

open RxNetCap.Capture RxNetCap.Pdef

/-! ## Requests -/

/-- A well-formed POST request with the length of its body in the head. -/
structure Post where
  head : CStr
  req_head : http_req_head_para
  body : CStr
  ends : find CRLF2 head = some (head.length - 4)
  text : '\x00' ∉ head
  parsed : parse_head head {} = some req_head
  method : req_head._method = "POST".toList
  length : req_head.content_length = body.length

/-- One without a multipart boundary. -/
structure PlainPost extends Post where
  no_boundary : head_boundary req_head [] = []

namespace Post

variable (q : Post)

def bytes : CStr := q.head ++ q.body

theorem head_length : 4 ≤ q.head.length := by
  have hle := find_le q.ends
  rw [show CRLF2.length = 4 from rfl] at hle
  omega

/-- A part of the head is not taken for all of it. -/
theorem strstr_part {n : ℕ} (h : n < q.head.length) : strstr (q.bytes.take n) CRLF2 = none := by
  have htext : '\x00' ∉ q.head.take n := fun hmem => q.text (List.mem_of_mem_take hmem)
  have hpart : q.bytes.take n = q.head.take n := List.take_append_of_le_length h.le
  have hwhole : c_str (q.head.take n) = q.head.take n := by
    have hsplit := c_str_append htext []
    rw [List.append_nil] at hsplit
    exact hsplit.trans (List.append_nil _)
  rw [strstr, hpart, hwhole]
  refine find_take q.ends ?_
  have hlength := q.head_length
  rw [show CRLF2.length = 4 from rfl]
  omega

theorem strstr_head (rest : CStr) : (strstr (q.head ++ rest) CRLF2).isSome = true := by
  rw [strstr, c_str_append q.text, find_append q.ends]
  rfl

end Post

/-! ## The head -/

/-- A connection on which this much of a head has come. -/
def Waiting (part : CStr) : Conn := { _recv_buf := part, received := part.length }

/-- With the head read, and none of the body. -/
def HeadRead (q : Post) (n : ℕ) : Conn :=
  { _recv_buf := q.bytes.take n
    _http_status := .RECV_BODY
    _req_head_para := q.req_head
    _boundary_str := head_boundary q.req_head []
    received := n }

section Head

variable {q : Post} {chunk : CStr} {world : RecvWorld}

theorem waiting_sends (part : CStr) (accepts : List ℕ) :
    step (Waiting part) (.writable accepts) = Waiting part := by
  cases accepts with
  | nil => rfl
  | cons accepted rest => rfl

theorem waiting_reply (part : CStr) (answer : Answer) (accepts : List ℕ) :
    ¬ Possible (Waiting part) (.reply answer accepts) := Bool.false_ne_true

/-- A chunk that does not bring the end of the head is kept. -/
theorem waiting_recv {part : CStr} (hpart : part ++ chunk = q.bytes.take (part ++ chunk).length)
    (hshort : (part ++ chunk).length < q.head.length) :
    step (Waiting part) (.recv chunk world) = Waiting (part ++ chunk) := by
  have hnone := q.strstr_part hshort
  rw [← hpart] at hnone
  have hprocess : ∀ c : Conn, c._http_status = .RECV_HEAD →
      process_recv_buf world (part ++ chunk) c = some (c, 0) := by
    intro c hstatus
    have hbody : c.body_part (part ++ chunk) = some (part ++ chunk, c) := by
      rw [Conn.body_part, hnone]
      exact if_neg fun hboth => Bool.false_ne_true hboth.2
    rw [process_recv_buf, hstatus, hbody]
    rw [if_neg (by decide)]
    exact if_neg (by rw [hstatus]; decide)
  rw [step, if_neg (by exact Bool.false_ne_true)]
  simp only [real_recv]
  have hbuf : (Waiting part)._recv_buf ++ chunk = part ++ chunk := rfl
  rw [hbuf]
  split
  · rw [hprocess _ rfl]
    simp only [Waiting, List.drop_zero, List.length_append]
  · simp only [Waiting, List.length_append]

/-- The chunk that brings its end has it read, and hands over what follows. -/
theorem waiting_done {part : CStr} (hpart : part ++ chunk = q.bytes.take (part ++ chunk).length)
    (hlong : q.head.length ≤ (part ++ chunk).length) :
    step (Waiting part) (.recv chunk world) =
      match (HeadRead q (part ++ chunk).length).process_recv_body
        ((part ++ chunk).drop q.head.length) with
      | none => { Waiting (part ++ chunk) with closed := true }
      | some (c, result) =>
        { (if result then recv_finish world c else c) with _recv_buf := [] } := by
  have hsplit : part ++ chunk = q.head ++ (part ++ chunk).drop q.head.length := by
    have htake : (part ++ chunk).take q.head.length = q.head := by
      rw [hpart, List.take_take, min_eq_left hlong, Post.bytes, List.take_left]
    conv_lhs => rw [← List.take_append_drop q.head.length (part ++ chunk), htake]
  have hbody : (Waiting (part ++ chunk)).body_part (part ++ chunk)
      = some ((part ++ chunk).drop q.head.length, HeadRead q (part ++ chunk).length) := by
    have hfound : find CRLF2 (part ++ chunk) = some (q.head.length - 4) := by
      rw [hsplit]
      exact find_append q.ends _
    have hstrstr : (strstr (part ++ chunk) CRLF2).isSome = true := by
      rw [hsplit]
      exact q.strstr_head _
    have hlength : q.head.length - 4 + 4 = q.head.length := by
      have hle := q.head_length
      omega
    have htake : (part ++ chunk).take q.head.length = q.head := by
      rw [hsplit, List.take_left]
    rw [Conn.body_part, if_pos ⟨rfl, hstrstr⟩, Conn.check_head_finish, hfound]
    simp only [hlength, htake]
    rw [show (Waiting (part ++ chunk))._req_head_para = {} from rfl, q.parsed]
    simp only [Waiting, HeadRead, Option.map_some, ← hpart]
  have hprocess : process_recv_buf world (part ++ chunk) (Waiting (part ++ chunk))
      = ((HeadRead q (part ++ chunk).length).process_recv_body
          ((part ++ chunk).drop q.head.length)).map fun taken =>
        (if taken.2 then recv_finish world taken.1 else taken.1, (part ++ chunk).length) := by
    rw [process_recv_buf, if_neg (by rintro (h | h) <;> cases h), hbody]
    simp only [Option.bind_eq_bind, Option.bind_some]
    rw [if_pos (by rfl)]
    cases (HeadRead q (part ++ chunk).length).process_recv_body
      ((part ++ chunk).drop q.head.length) <;> rfl
  have hnonempty : (part ++ chunk).length > 0 := by
    have hle := q.head_length
    omega
  have hwaiting : { Waiting part with
      _recv_buf := (Waiting part)._recv_buf ++ chunk
      received := (Waiting part).received + chunk.length } = Waiting (part ++ chunk) := by
    simp only [Waiting, List.length_append]
  rw [step, if_neg (by exact Bool.false_ne_true)]
  simp only [real_recv]
  have hbuf : (Waiting part)._recv_buf ++ chunk = part ++ chunk := rfl
  rw [hwaiting, hbuf, if_pos hnonempty, hprocess]
  cases (HeadRead q (part ++ chunk).length).process_recv_body
    ((part ++ chunk).drop q.head.length) with
  | none => simp only [Option.map_none, Waiting, List.length_append]
  | some taken => simp only [Option.map_some, List.drop_length]

end Head

/-- Bytes of the request that have come, and more. -/
theorem arrived_take {events : List Event} {event : Event} {bytes : CStr}
    (h : arrived (events ++ [event]) <+: bytes) :
    arrived events <+: bytes
      ∧ arrived events ++ event.chunk = bytes.take (arrived events ++ event.chunk).length := by
  rw [arrived_snoc] at h
  exact ⟨(List.prefix_append _ _).trans h, List.prefix_iff_eq_take.mp h⟩

/-! ## A plain body -/

/-- The cuts in the head. -/
def Post.InHead (q : Post) (cut : ℕ) : Prop := cut < q.head.length

/-- The handler is invoked with the chunk that brings the end of the head. -/
theorem plain_done (q : PlainPost) {part chunk : CStr} {world : RecvWorld}
    (hpart : part ++ chunk = q.bytes.take (part ++ chunk).length)
    (hlong : q.head.length ≤ (part ++ chunk).length) :
    (step (Waiting part) (.recv chunk world)).invocations
      = [((part ++ chunk).length, (part ++ chunk).drop q.head.length)] := by
  have hmethod : (HeadRead q.toPost (part ++ chunk).length)._req_head_para._method
      = "POST".toList := q.method
  have hboundary : (HeadRead q.toPost (part ++ chunk).length)._boundary_str = [] := q.no_boundary
  have hbody : ∀ buf, (HeadRead q.toPost (part ++ chunk).length).process_recv_body buf
      = some ({ (HeadRead q.toPost (part ++ chunk).length).append_body buf with
          _recv_body_length :=
            ((HeadRead q.toPost (part ++ chunk).length)._recv_body_length + buf.length) % 2 ^ 32 },
        true) := by
    intro buf
    rw [Conn.process_recv_body, hmethod, if_neg (by decide), if_pos hboundary]
  rw [waiting_done hpart hlong, hbody]
  simp only [if_true]
  have hinvoked := invocations_recv_finish world
    { (HeadRead q.toPost (part ++ chunk).length).append_body
        ((part ++ chunk).drop q.head.length) with
      _recv_body_length := ((HeadRead q.toPost (part ++ chunk).length)._recv_body_length
        + ((part ++ chunk).drop q.head.length).length) % 2 ^ 32 }
  exact hinvoked

/-- Either the head is not complete, or the handler was invoked with what the
chunk with its end brought. -/
theorem plain_progress (q : PlainPost) {events : List Event} {c : Conn} (run : Run {} events c)
    (hbytes : arrived events <+: q.bytes) :
    (c = Waiting (arrived events) ∧ (arrived events).length < q.head.length)
      ∨ ∃ r, q.head.length ≤ r ∧
        FirstInvoked q.InHead events c r ((q.bytes.take r).drop q.head.length) := by
  induction run with
  | start => exact Or.inl ⟨rfl, lt_of_lt_of_le (by decide) q.head_length⟩
  | @step c events event run hpossible ih =>
    obtain ⟨hbefore, hpart⟩ := arrived_take hbytes
    rcases ih hbefore with ⟨rfl, hshort⟩ | ⟨r, hr, hfirst⟩
    · cases event with
      | recv chunk world =>
        have hsnoc : arrived (events ++ [.recv chunk world]) = arrived events ++ chunk :=
          arrived_snoc events _
        change arrived events ++ chunk = q.bytes.take (arrived events ++ chunk).length at hpart
        rcases lt_or_ge (arrived events ++ chunk).length q.head.length with hless | hmore
        · refine Or.inl ⟨?_, ?_⟩
          · rw [hsnoc]
            exact waiting_recv hpart hless
          · rw [hsnoc]
            exact hless
        · right
          refine ⟨(arrived events ++ chunk).length, hmore, ?_⟩
          have hinvoked := @plain_done q _ _ world hpart hmore
          rw [← hpart]
          have hbegin : FirstInvoked q.InHead (events ++ [.recv chunk world]) _ _ _ :=
            FirstInvoked.begin (fun cut hcut => (cut_le hcut).trans_lt hshort)
              (by rw [hsnoc]; exact hinvoked)
          rw [hsnoc] at hbegin
          exact hbegin
      | writable accepts =>
        left
        rw [waiting_sends, arrived_snoc]
        simp only [Event.chunk, List.append_nil]
        exact ⟨trivial, hshort⟩
      | reply answer accepts => exact absurd hpossible (waiting_reply _ _ _)
    · exact Or.inr ⟨r, hr, hfirst.step hpossible⟩

/-- **One request, one invocation**, after the last byte and with the whole
body, exactly when no chunk ends between the end of the head and the last
byte. -/
theorem invoked_once_iff (q : PlainPost) {events : List Event} {c : Conn} (run : Run {} events c)
    (bytes : arrived events = q.bytes) :
    c.invocations = [(q.bytes.length, q.body)]
      ↔ ∀ cut ∈ cuts events, cut < q.head.length ∨ cut = q.bytes.length := by
  rcases plain_progress q run (bytes ▸ List.prefix_refl _) with ⟨-, hshort⟩ | ⟨r, hr, hfirst⟩
  · -- all of the request has come
    rw [bytes, Post.bytes, List.length_append] at hshort
    omega
  · have honly := hfirst.only_iff q.body
    have hlast := hfirst.last_iff (Nat.not_lt.mpr hr)
    rw [bytes] at honly hlast
    have hbody : r = q.bytes.length → (q.bytes.take r).drop q.head.length = q.body := by
      rintro rfl
      rw [List.take_length, Post.bytes, List.drop_left]
    rw [honly]
    constructor
    · rintro ⟨hr, -⟩
      exact hlast.mp hr
    · intro hcuts
      have hr := hlast.mpr hcuts
      exact ⟨hr, hbody hr⟩

/-- A request with a body of three bytes. -/
def small_post : PlainPost where
  head := "POST /x HTTP/1.1\r\nContent-Length: 3\r\n\r\n".toList
  req_head :=
    { _method := "POST".toList
      _url_path := "/x".toList
      _headers := [("Content-Length".toList, " 3".toList)] }
  body := "abc".toList
  ends := by decide +kernel
  text := by decide +kernel
  parsed := by decide +kernel
  method := by decide +kernel
  length := by decide +kernel
  no_boundary := by decide +kernel

/-- In one chunk. -/
theorem invoked_once_iff_small :
    (step {} (.recv small_post.bytes {})).invocations
        = [(small_post.bytes.length, small_post.body)]
      ↔ ∀ cut ∈ cuts [.recv small_post.bytes {}],
        cut < small_post.head.length ∨ cut = small_post.bytes.length :=
  invoked_once_iff small_post ((Run.start {}).step (by decide +kernel)) (List.append_nil _)

/-- The head in one chunk, the body in the next: the handler is invoked with an
empty body, and then again. -/
theorem body_missed : ∃ (q : PlainPost) (events : List Event) (c : Conn),
    Run {} events c ∧ arrived events = q.bytes
      ∧ c.invocations = [(q.head.length, []), (q.bytes.length, q.body)]
      ∧ c.invocations ≠ [(q.bytes.length, q.body)] :=
  ⟨small_post, [.recv small_post.head {}, .recv small_post.body {}], _,
    ((Run.start {}).step (by decide +kernel)).step (by decide +kernel),
    by decide +kernel, by decide +kernel, by decide +kernel⟩

end RxNetCap.Http
