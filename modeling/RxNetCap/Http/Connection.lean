/-
A connection of the HTTP server: `base_connect` of `src/core/legacy_core_net.h`,
`http_base_process` and `http_res_process` of `src/core/legacy_core_net.cpp`,
and `CRxHttpResDataProcess` of `src/rxhttpresdataprocess.cpp`.

`/default` is always registered, so every request has a handler. What a handler
does is an `Answer` that is ready or comes later. Sending goes on as long as the
socket accepts something. The log and the timers are left out.
-/
import RxNetCap.Http.Head

set_option autoImplicit false

namespace RxNetCap.Http

open RxNetCap.Capture RxNetCap.Pdef

/-! ## State -/

inductive HTTP_STATUS where
  | RECV_HEAD
  | RECV_BODY
  | SEND_HEAD
  | SEND_BODY
  deriving DecidableEq, Repr

inductive BOUNDARY_STATUS where
  | BOUNDARY_RECV_HEAD
  | BOUNDARY_RECV_BODY
  | BOUNDARY_RECV_TAIL
  deriving DecidableEq, Repr

def MAX_RECV_SIZE : ℕ := 1024 * 20

def MAX_HTTP_HEAD_LEN : ℕ := 100 * 1024

def BOUNDARY_EXTRA_LEN : ℕ := 8

/-- What can be seen of a connection: a handler is invoked with a body, when so
many bytes have come in all, or the head of a response is begun. -/
inductive Output where
  | invoked (received : ℕ) (req_head : http_req_head_para) (body : CStr)
  | head (res_head : http_res_head_para)
  deriving DecidableEq, Repr

/-- The connection with its process and the data process. `_p_send_buf` is what
is left of the buffer, and `closed` holds after an exception. `received` and
`outputs` are no part of the state of the program. -/
structure Conn where
  _recv_buf : CStr := []
  _p_send_buf : Option CStr := none
  _http_status : HTTP_STATUS := .RECV_HEAD
  _req_head_para : http_req_head_para := {}
  _res_head_para : http_res_head_para := {}
  _boundary_str : CStr := []
  _boundary_content_length : ℕ := 2 ^ 32 - 1
  _recv_body_length : ℕ := 0
  _recv_boundary_status : BOUNDARY_STATUS := .BOUNDARY_RECV_HEAD
  _recv_boundary_head : CStr := []
  recv_body_ : CStr := []
  send_body_ : CStr := []
  _async_response_pending : Bool := false
  closed : Bool := false
  received : ℕ := 0
  outputs : List Output := []
  deriving DecidableEq, Repr

/-- What a handler answers. -/
structure Answer where
  status : ℤ := 200
  reason : CStr := "OK".toList
  headers : Headers := []
  body : CStr
  deriving DecidableEq, Repr

namespace Conn

variable (c : Conn)

/-- `http_res_process::reset` -/
def reset : Conn :=
  { c with
    _req_head_para := .blank
    _res_head_para := .blank
    _http_status := .RECV_HEAD
    _boundary_str := []
    _boundary_content_length := 2 ^ 32 - 1
    _recv_body_length := 0
    _recv_boundary_status := .BOUNDARY_RECV_HEAD }

/-! ## Sending -/

/-- The next buffer to be sent. The head is followed by the body, and with the
body the connection is reset. -/
def get_send_buf : Option CStr × Conn :=
  match c._http_status with
  | .RECV_HEAD | .RECV_BODY => (none, c)
  | .SEND_HEAD =>
    if c._async_response_pending then (none, c)
    else (some c._res_head_para.to_head_str,
      { c with
        _http_status := .SEND_BODY
        outputs := c.outputs ++ [Output.head c._res_head_para] })
  | .SEND_BODY => (some c.send_body_, { c with send_body_ := [] }.reset)

/-- The buffer that is being sent, or else the next one. -/
def send_buf : Option CStr × Conn :=
  match c._p_send_buf with
  | some buf => (some buf, c)
  | none => c.get_send_buf

end Conn

/-- The loop of `real_send`; `accepts` is how much the socket takes each time.
An empty buffer ends the loop like a socket that takes nothing. -/
def real_send : List ℕ → Conn → Conn
  | [], c =>
    match c.send_buf with
    | (none, c) => c
    | (some buf, c) => { c with _p_send_buf := some buf }
  | accepted :: rest, c =>
    match c.send_buf with
    | (none, c) => c
    | (some buf, c) =>
      let sent := min accepted buf.length
      if sent = 0 then { c with _p_send_buf := some buf }
      else if sent < buf.length then real_send rest { c with _p_send_buf := some (buf.drop sent) }
      else real_send rest { c with _p_send_buf := none }

/-- `change_http_status(SEND_HEAD)`, which begins to send. -/
def send_head (accepts : List ℕ) (c : Conn) : Conn :=
  real_send accepts { c with _http_status := .SEND_HEAD }

/-- `fill_response_headers` -/
def fill_response_headers (answer : Answer) (head : http_res_head_para) : http_res_head_para :=
  let headers := answer.headers.foldl (fun headers header => Headers.insert header.1 header.2 headers) []
  { head with
    _response_code := answer.status
    _response_str := answer.reason
    _headers := (Headers.set "Content-Length".toList (decimal answer.body.length) headers).set
      "Connection".toList "close".toList }

/-- An answer that comes later. -/
def send_async_response (answer : Answer) (accepts : List ℕ) (c : Conn) : Conn :=
  send_head accepts { c with
    send_body_ := answer.body
    _res_head_para := fill_response_headers answer c._res_head_para
    _async_response_pending := false }

/-! ## Receiving -/

/-- What the handler answers, if it is invoked and has the answer at once, and
what the socket takes of the response. -/
structure RecvWorld where
  answer : Option Answer := none
  accepts : List ℕ := []
  accepts_again : List ℕ := []

def msg_recv_finish (world : RecvWorld) (c : Conn) : Conn :=
  let c := { c with
    _async_response_pending := false
    outputs := c.outputs ++ [Output.invoked c.received c._req_head_para c.recv_body_] }
  match world.answer with
  | some answer =>
    send_head world.accepts { c with
      _res_head_para := { c._res_head_para with
        _response_code := answer.status
        _response_str := answer.reason
        _headers := answer.headers }
      send_body_ := answer.body }
  | none => { c with _async_response_pending := true }

/-- A response that is ready is begun a second time. -/
def recv_finish (world : RecvWorld) (c : Conn) : Conn :=
  let c := msg_recv_finish world c
  if c._async_response_pending then c else send_head world.accepts_again c

/-- `CRxHttpResDataProcess::process_recv_body`; its `result` is always 1. -/
def Conn.append_body (buf : CStr) (c : Conn) : Conn := { c with recv_body_ := c.recv_body_ ++ buf }

/-- The difference of two `uint64_t`. -/
def sub64 (a b : ℕ) : ℕ := (a + (2 ^ 64 - b % 2 ^ 64)) % 2 ^ 64

namespace Conn

variable (c : Conn)

def content_length : ℕ := c._req_head_para.content_length

/-- The length of the closing boundary. -/
def closing_length : ℕ := c._boundary_str.length + BOUNDARY_EXTRA_LEN

/-- Where the closing boundary begins in the body. -/
def content_end : ℕ := sub64 c.content_length c.closing_length

/-- `get_boundary` in the head of the part. -/
def boundary_head (buf : CStr) : Option (Conn × Bool) :=
  let c := { c with _recv_boundary_head := c._recv_boundary_head ++ buf }
  match find CRLF2 c._recv_boundary_head with
  | none => if c._recv_boundary_head.length ≥ MAX_HTTP_HEAD_LEN then none else some (c, false)
  | some pos =>
    let c := { c with _boundary_content_length := sub64 c.content_end (pos + 4) % 2 ^ 32 }
    let rest := c._recv_boundary_head.drop (pos + 4)
    let (left_str, c) :=
      if c._recv_body_length = c.content_length then (rest.take c._boundary_content_length, c)
      else if c._recv_body_length ≥ c.content_end then
        (rest.take c._boundary_content_length,
          { c with _recv_boundary_status := .BOUNDARY_RECV_TAIL })
      else (rest, { c with _recv_boundary_status := .BOUNDARY_RECV_BODY })
    some (if left_str.length > 0 then (c.append_body left_str, true) else (c, false))

/-- In the content of the part. A negative length is too long for a string. -/
def boundary_body (buf : CStr) : Option (Conn × Bool) :=
  let (tmp_len, c) :=
    if c._recv_body_length = c.content_length then
      ((buf.length : ℤ) - (c.closing_length : ℤ), c)
    else if c._recv_body_length ≥ c.content_end then
      ((buf.length : ℤ) - ((c._recv_body_length : ℤ) - (c.content_end : ℤ)),
        { c with _recv_boundary_status := .BOUNDARY_RECV_TAIL })
    else ((buf.length : ℤ), c)
  if tmp_len < 0 then none else some (c.append_body (buf.take tmp_len.toNat), true)

/-- All of the buffer is taken. The result says whether the request is
complete. -/
def get_boundary (buf : CStr) : Option (Conn × Bool) :=
  if c.content_length = 0 then none
  else
    let c := { c with _recv_body_length := (c._recv_body_length + buf.length) % 2 ^ 32 }
    match c._recv_boundary_status with
    | .BOUNDARY_RECV_HEAD => c.boundary_head buf
    | .BOUNDARY_RECV_BODY => c.boundary_body buf
    | .BOUNDARY_RECV_TAIL => some (c, c._recv_body_length = c.content_length)

/-- `http_res_process::process_recv_body`; all of the buffer is taken. -/
def process_recv_body (buf : CStr) : Option (Conn × Bool) :=
  if same_case c._req_head_para._method "GET".toList
      ∨ same_case c._req_head_para._method "HEAD".toList then some (c, true)
  else if c._boundary_str = [] then
    some ({ c.append_body buf with
      _recv_body_length := (c._recv_body_length + buf.length) % 2 ^ 32 }, true)
  else c.get_boundary buf

/-- `check_head_finish` and `parse_header`, with what follows the head. -/
def check_head_finish (buf : CStr) : Option (CStr × Conn) :=
  match find CRLF2 buf with
  | none => if buf.length > MAX_HTTP_HEAD_LEN then none else some ([], c)
  | some pos =>
    (parse_head (buf.take (pos + 4)) c._req_head_para).map fun head =>
      (buf.drop (pos + 4),
        { c with
          _http_status := .RECV_BODY
          _req_head_para := head
          _boundary_str := head_boundary head c._boundary_str })

/-- What a body is received from: what follows a head that is complete, or all
of the buffer. -/
def body_part (buf : CStr) : Option (CStr × Conn) :=
  if c._http_status = .RECV_HEAD ∧ (strstr buf CRLF2).isSome then c.check_head_finish buf
  else some (buf, c)

end Conn

/-- The connection and how much of the buffer is taken; `none` when there is an
exception. -/
def process_recv_buf (world : RecvWorld) (buf : CStr) (c : Conn) : Option (Conn × ℕ) :=
  if c._http_status = .SEND_HEAD ∨ c._http_status = .SEND_BODY then none
  else do
    let (part, c) ← c.body_part buf
    if c._http_status = .RECV_BODY then
      let (c, result) ← c.process_recv_body part
      return (if result then recv_finish world c else c, buf.length)
    else return (c, 0)

/-- With a chunk that `RECV` has read. -/
def real_recv (world : RecvWorld) (chunk : CStr) (c : Conn) : Conn :=
  let c := { c with _recv_buf := c._recv_buf ++ chunk, received := c.received + chunk.length }
  if c._recv_buf.length > 0 then
    match process_recv_buf world c._recv_buf c with
    | none => { c with closed := true }
    | some (c', p_ret) => { c' with _recv_buf := c._recv_buf.drop p_ret }
  else c

/-! ## Events -/

inductive Event where
  | recv (chunk : CStr) (world : RecvWorld)
  | writable (accepts : List ℕ)
  | reply (answer : Answer) (accepts : List ℕ)

/-- Nothing happens to a connection that is closed. -/
def step (c : Conn) (event : Event) : Conn :=
  if c.closed then c
  else
    match event with
    | .recv chunk world => real_recv world chunk c
    | .writable accepts => real_send accepts c
    | .reply answer accepts => send_async_response answer accepts c

/-- A chunk fits in the buffer and is not empty, and a reply is an answer that
is waited for. -/
def Possible (c : Conn) : Event → Prop
  | .recv chunk _ => chunk ≠ [] ∧ chunk.length ≤ min (MAX_RECV_SIZE - c._recv_buf.length) 32768
  | .writable _ => True
  | .reply _ _ => c._async_response_pending = true

instance (c : Conn) (event : Event) : Decidable (Possible c event) := by
  cases event <;> unfold Possible <;> infer_instance

/-- What events lead to from a connection, if they are possible. -/
inductive Run : Conn → List Event → Conn → Prop where
  | start (c : Conn) : Run c [] c
  | step {c c' : Conn} {events : List Event} {event : Event} (run : Run c events c')
      (possible : Possible c' event) : Run c (events ++ [event]) (step c' event)

end RxNetCap.Http
