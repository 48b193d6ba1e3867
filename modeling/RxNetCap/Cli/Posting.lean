/-
What the command-line client posts: the first half of `send_http_post` of
`tools/rxcli_main.cpp`, and what the server makes of it.

The request is a head of five lines and the payload, and the server reads the
method, the path and the length from it (`posted_parsed`), if the path has no
blank. When no chunk of it ends in the payload, the handler is given the payload
once, and the answer that comes later is the one that the client reads
(`post_round_trip`).
-/
import RxNetCap.Cli.Reading

set_option autoImplicit false

namespace RxNetCap.Cli

open RxNetCap.Capture RxNetCap.Http RxNetCap.Pdef RxNetCap.JsonText

/-! ## The request -/

def normalized_path (path : CStr) : CStr :=
  if path = [] then "/".toList
  else if path.head? ≠ some '/' then '/' :: path
  else path

/-- The lines of the head. -/
def request_lines (host : CStr) (port : ℤ) (path payload : CStr) : List CStr :=
  ["POST ".toList ++ normalized_path path ++ " HTTP/1.1".toList,
    "Host: ".toList ++ host ++ ":".toList ++ Capture.decimal port,
    "Content-Type: application/json".toList,
    "Connection: close".toList,
    "Content-Length: ".toList ++ Capture.decimal payload.length]

def request_head (host : CStr) (port : ℤ) (path payload : CStr) : CStr :=
  lines_text (request_lines host port path payload) ++ CRLF

def post_request (host : CStr) (port : ℤ) (path payload : CStr) : CStr :=
  request_head host port path payload ++ payload

/-- The arguments of a request that the server understands. -/
structure Posting where
  host : CStr
  port : ℤ
  path : CStr
  payload : CStr
  host_text : '\r' ∉ host ∧ '\x00' ∉ host
  path_text : '\r' ∉ path ∧ '\x00' ∉ path
  no_blank : ' ' ∉ path
  size : payload.length < 2 ^ 63

/-! ## Splitting -/

section Splitting

variable {delim part rest : CStr}

theorem split_part (hfound : Http.find delim (part ++ (delim ++ rest)) = some part.length) (fuel : ℕ) :
    split_rounds delim false (fuel + 1) (part ++ (delim ++ rest))
      = (part :: (split_rounds delim false fuel rest).1, (split_rounds delim false fuel rest).2) := by
  have hdrop : (part ++ (delim ++ rest)).drop (part.length + delim.length) = rest := by
    rw [← List.drop_drop, List.drop_left, List.drop_left]
  rw [split_rounds, hfound]
  dsimp only
  rw [if_neg Bool.false_ne_true, List.take_left, hdrop]

theorem split_end (hnone : Http.find delim rest = none) (fuel : ℕ) :
    split_rounds delim false fuel rest = ([], rest) := by
  cases fuel with
  | zero => rfl
  | succ fuel => rw [split_rounds, hnone]

/-- The lines of a head, and the empty one at its end. -/
theorem split_lines (lines : List CStr) (hlines : ∀ l ∈ lines, '\r' ∉ l) (fuel : ℕ)
    (hfuel : lines.length < fuel) :
    split_rounds CRLF false fuel (lines_text lines ++ CRLF) = (lines ++ [[]], []) := by
  induction lines generalizing fuel with
  | nil =>
    obtain ⟨fuel, rfl⟩ : ∃ n, fuel = n + 1 := ⟨fuel - 1, by omega⟩
    have hlast := @split_part CRLF [] [] rfl fuel
    rw [split_end (show Http.find CRLF [] = none from rfl)] at hlast
    exact hlast
  | cons line lines ih =>
    obtain ⟨fuel, rfl⟩ : ∃ n, fuel = n + 1 := ⟨fuel - 1, by omega⟩
    have hfound := find_line_end (hlines line List.mem_cons_self) (lines_text lines ++ CRLF)
    rw [List.append_assoc] at hfound
    have htext : lines_text (line :: lines) ++ CRLF = line ++ (CRLF ++ (lines_text lines ++ CRLF)) := by
      rw [lines_text_cons]
      simp only [List.append_assoc]
    have hrest := ih (fun l hl => hlines l (List.mem_cons_of_mem line hl)) fuel
      (by rw [List.length_cons] at hfuel; omega)
    rw [htext, split_part hfound, hrest]
    rfl

theorem lines_text_length (lines : List CStr) : lines.length ≤ (lines_text lines).length := by
  induction lines with
  | nil => exact Nat.le_refl 0
  | cons line lines ih =>
    rw [lines_text_cons, List.length_append, List.length_append, List.length_cons, show CRLF.length = 2 from rfl]
    omega

theorem SplitString_lines {lines : List CStr} (hlines : ∀ l ∈ lines, '\r' ∉ l)
    (htext : '\x00' ∉ lines_text lines ++ CRLF) :
    SplitString (lines_text lines ++ CRLF) CRLF false = lines ++ [[]] := by
  unfold SplitString
  rw [c_str_whole htext, split_lines lines hlines]
  · exact if_neg fun h => h.1 rfl
  · have hle := lines_text_length lines
    rw [List.length_append, show CRLF.length = 2 from rfl]
    omega

/-- A name and a value, split at the first colon. -/
theorem SplitString_header {name value : CStr} (hname : ':' ∉ name) (hvalue : value ≠ [])
    (htext : '\x00' ∉ name ++ ':' :: value) :
    SplitString (name ++ ':' :: value) ":".toList true = [name, value] := by
  have hhere : Http.find ":".toList (':' :: value) = some 0 := if_pos (List.prefix_append [':'] value)
  have hfound : Http.find ":".toList (name ++ ':' :: value) = some name.length := by
    rw [find_behind_line rfl hname, hhere, Option.map_some, Nat.zero_add]
  have hdrop : (name ++ ':' :: value).drop (name.length + 1) = value := by
    rw [← List.drop_drop, List.drop_left]
    rfl
  obtain ⟨fuel, hfuel⟩ : ∃ n, (name ++ ':' :: value).length = n + 1 := by
    rw [List.length_append, List.length_cons]
    exact ⟨_, (Nat.add_assoc _ _ _).symm⟩
  unfold SplitString
  rw [c_str_whole htext, hfuel, split_rounds, hfound]
  dsimp only
  rw [if_pos rfl, List.take_left, show (":".toList).length = 1 from rfl, hdrop]
  dsimp only
  rw [if_pos ⟨hvalue, List.cons_ne_nil _ _⟩]
  rfl

/-- The three parts of a first line. -/
theorem SplitString_first {method path version : CStr} (hmethod : ' ' ∉ method) (hpath : ' ' ∉ path)
    (hversion : ' ' ∉ version) (hsome : version ≠ [])
    (htext : '\x00' ∉ method ++ (' ' :: (path ++ ' ' :: version))) :
    SplitString (method ++ (' ' :: (path ++ ' ' :: version))) " ".toList false = [method, path, version] := by
  have hhere : ∀ w : CStr, Http.find " ".toList (' ' :: w) = some 0 := fun w => if_pos (List.prefix_append [' '] w)
  have hfound : ∀ u w : CStr, ' ' ∉ u → Http.find " ".toList (u ++ (" ".toList ++ w)) = some u.length := by
    intro u w hu
    rw [find_behind_line rfl hu]
    show (Http.find " ".toList (' ' :: w)).map _ = _
    rw [hhere, Option.map_some, Nat.zero_add]
  have hnone : Http.find " ".toList version = none := by
    have happend := @find_behind_line " ".toList version ' ' rfl hversion []
    rwa [List.append_nil] at happend
  obtain ⟨fuel, hfuel⟩ : ∃ n, (method ++ (' ' :: (path ++ ' ' :: version))).length = n + 2 := by
    refine ⟨method.length + path.length + version.length, ?_⟩
    simp only [List.length_append, List.length_cons]
    omega
  unfold SplitString
  rw [c_str_whole htext, hfuel]
  have hfirst := split_part (hfound method (path ++ ' ' :: version) hmethod) (fuel + 1)
  have hsecond := split_part (hfound path version hpath) fuel
  rw [split_end hnone] at hsecond
  change split_rounds " ".toList false (fuel + 1) (path ++ ' ' :: version) = _ at hsecond
  rw [hsecond] at hfirst
  change split_rounds " ".toList false (fuel + 2) (method ++ (' ' :: (path ++ ' ' :: version))) = _ at hfirst
  rw [hfirst]
  dsimp only
  rw [if_pos ⟨hsome, List.cons_ne_nil _ _⟩]
  rfl

end Splitting

/-! ## What the server reads -/

/-- The head as the server has it, with the blanks that it leaves in front of the
values. -/
def posted_head (host : CStr) (port : ℤ) (path payload : CStr) : http_req_head_para where
  _method := "POST".toList
  _url_path := normalized_path path
  _version := "HTTP/1.1".toList
  _headers :=
    [("Connection".toList, " close".toList),
      ("Content-Length".toList, ' ' :: Capture.decimal payload.length),
      ("Content-Type".toList, " application/json".toList),
      ("Host".toList, ' ' :: (host ++ ':' :: Capture.decimal port))]

section Posted

variable {host path payload : CStr} {port : ℤ}

theorem normalized_path_mem {c : Char} (h : c ∈ normalized_path path) : c = '/' ∨ c ∈ path := by
  unfold normalized_path at h
  split_ifs at h
  · exact .inl (List.mem_singleton.mp h)
  · exact List.mem_cons.mp h
  · exact .inr h

theorem parse_header_field {name value : CStr} {head : http_req_head_para} (hname : ':' ∉ name)
    (hvalue : value ≠ []) (htext : '\x00' ∉ name ++ ':' :: value) :
    parse_header_line head (name ++ ':' :: value)
      = { head with _headers := Headers.insert name value head._headers } := by
  unfold parse_header_line
  rw [SplitString_header hname hvalue htext]

/-- A character that neither the texts nor the arguments have is in no line. -/
theorem not_in_request_lines {c : Char} (hhost : c ∉ host) (hpath : c ∉ path) (hslash : c ≠ '/')
    (hdigit : c.isDigit = false) (hminus : c ≠ '-')
    (htexts : ["POST ", " HTTP/1.1", "Host: ", ":", "Content-Type: application/json", "Connection: close",
      "Content-Length: "].all (fun text => ¬ text.toList.elem c)) :
    ∀ l ∈ request_lines host port path payload, c ∉ l := by
  have hdecimal : ∀ n, c ∉ Capture.decimal n := fun n => not_in_decimal hdigit hminus
  have hnormal : c ∉ normalized_path path := by
    intro hmem
    apply (normalized_path_mem hmem).elim hslash hpath
  simp only [List.all_cons, List.all_nil, Bool.and_true, Bool.and_eq_true, decide_eq_true_eq, List.elem_eq_mem]
    at htexts
  intro l hl
  simp only [request_lines, List.mem_cons, List.not_mem_nil, or_false] at hl
  rcases hl with rfl | rfl | rfl | rfl | rfl <;>
    simp only [List.mem_append, not_or, hnormal, hhost, hdecimal, htexts, not_false_eq_true, and_self]

theorem request_head_text (hhost : '\x00' ∉ host) (hpath : '\x00' ∉ path) :
    '\x00' ∉ request_head host port path payload := by
  have hnul : ∀ l ∈ request_lines host port path payload, '\x00' ∉ l :=
    not_in_request_lines hhost hpath (by decide) (by decide) (by decide) (by decide)
  intro hmem
  rcases List.mem_append.mp hmem with hmem | hmem
  · obtain ⟨l, hl, hin⟩ := List.mem_flatMap.mp hmem
    rcases List.mem_append.mp hin with hin | hin
    · exact hnul l hl hin
    · revert hin
      decide
  · revert hmem
    decide

/-- **The server reads** the method, the path and the length. -/
theorem posted_parsed (hhost : '\r' ∉ host ∧ '\x00' ∉ host) (hpath : '\r' ∉ path ∧ '\x00' ∉ path)
    (hblank : ' ' ∉ path) :
    parse_head (request_head host port path payload) {} = some (posted_head host port path payload) := by
  have hreturn : ∀ l ∈ request_lines host port path payload, '\r' ∉ l :=
    not_in_request_lines hhost.1 hpath.1 (by decide) (by decide) (by decide) (by decide)
  have hnul : ∀ l ∈ request_lines host port path payload, '\x00' ∉ l :=
    not_in_request_lines hhost.2 hpath.2 (by decide) (by decide) (by decide) (by decide)
  have htext := @request_head_text host path payload port hhost.2 hpath.2
  have hline : ∀ l ∈ request_lines host port path payload, ∀ name value : CStr, l = name ++ ':' :: value →
      ':' ∉ name → value ≠ [] → ∀ head, parse_header_line head l
        = { head with _headers := Headers.insert name value head._headers } := by
    intro l hl name value hsplit hname hvalue head
    rw [hsplit]
    apply parse_header_field hname hvalue
    rw [← hsplit]
    exact hnul l hl
  unfold parse_head request_head
  rw [SplitString_lines hreturn htext]
  -- the first line
  have hfirst : parse_first_line ("POST ".toList ++ normalized_path path ++ " HTTP/1.1".toList) {}
      = some { _method := "POST".toList, _url_path := normalized_path path, _version := "HTTP/1.1".toList } := by
    have hnormal : ' ' ∉ normalized_path path := by
      intro hmem
      apply (normalized_path_mem hmem).elim (by decide) hblank
    have hsplit : "POST ".toList ++ normalized_path path ++ " HTTP/1.1".toList
        = "POST".toList ++ (' ' :: (normalized_path path ++ ' ' :: "HTTP/1.1".toList)) := by
      simp only [String.reduceToList, List.cons_append, List.nil_append]
    have hchars := hnul _ List.mem_cons_self
    rw [hsplit] at hchars ⊢
    unfold parse_first_line
    rw [SplitString_first (by decide) hnormal (by decide) (by decide) hchars]
  -- the other lines, and the empty one
  have hhostline := hline ("Host: ".toList ++ host ++ ":".toList ++ Capture.decimal port) (by simp [request_lines])
    "Host".toList (' ' :: (host ++ ':' :: Capture.decimal port)) (by simp) (by decide) (List.cons_ne_nil _ _)
  have htype := hline "Content-Type: application/json".toList (by simp [request_lines])
    "Content-Type".toList " application/json".toList rfl (by decide) (by decide)
  have hclose := hline "Connection: close".toList (by simp [request_lines])
    "Connection".toList " close".toList rfl (by decide) (by decide)
  have hlength := hline ("Content-Length: ".toList ++ Capture.decimal payload.length) (by simp [request_lines])
    "Content-Length".toList (' ' :: Capture.decimal payload.length) (by simp) (by decide) (List.cons_ne_nil _ _)
  have hempty : ∀ head, parse_header_line head [] = head := fun head => rfl
  show (parse_first_line _ _).map (fun head => List.foldl parse_header_line head [_, _, _, _, []]) = _
  rw [hfirst, Option.map_some]
  simp only [List.foldl_cons, List.foldl_nil, hhostline, htype, hclose, hlength, hempty]
  rfl

theorem request_head_ends (hhost : '\r' ∉ host) (hpath : '\r' ∉ path) :
    Ends (request_head host port path payload) := by
  have hreturn : ∀ l ∈ request_lines host port path payload, '\r' ∉ l :=
    not_in_request_lines hhost hpath (by decide) (by decide) (by decide) (by decide)
  have hlines : ∀ l ∈ request_lines host port path payload, IsLine l := by
    intro l hl
    apply IsLine.mk _ (hreturn l hl)
    simp only [request_lines, List.mem_cons, List.not_mem_nil, or_false] at hl
    rcases hl with rfl | rfl | rfl | rfl | rfl <;> simp
  have hend := find_head_end _ _ hlines []
  rw [List.append_nil] at hend
  unfold Ends request_head
  rw [List.length_append, show CRLF.length = 2 from rfl]
  exact hend

/-- The length that the head announces is read back. -/
theorem strtoull_decimal {n : ℕ} (h : n < 2 ^ 64) : Http.strtoull (' ' :: Capture.decimal n) = n := by
  have hdecimal : Capture.decimal n = Nat.toDigits 10 n := by
    unfold Capture.decimal
    rw [if_neg (by omega), Int.natAbs_natCast]
  obtain ⟨x, digits, hdigits⟩ := List.exists_cons_of_ne_nil (decimal_ne_nil n)
  have hblank : ∀ c : Char, c.isDigit = false → c ≠ '-' → x ≠ c := by
    intro c hdigit hminus heq
    apply not_in_decimal hdigit hminus
    rw [hdigits, heq]
    exact List.mem_cons_self
  have hspace : Http.is_space x = false := by
    unfold Http.is_space
    apply decide_eq_false
    simp only [String.reduceToList, List.mem_cons, List.not_mem_nil, or_false, not_or]
    refine ⟨?_, ?_, ?_, ?_, ?_, ?_⟩ <;> exact hblank _ (by decide) (by decide)
  have hminus : x ≠ '-' := by
    have hdash := dash_not_mem n
    rw [← hdecimal, hdigits] at hdash
    exact fun heq => hdash (heq ▸ List.mem_cons_self)
  have hdrop : (' ' :: Capture.decimal n).dropWhile Http.is_space = Capture.decimal n := by
    rw [List.dropWhile_cons_of_pos (by decide), hdigits, List.dropWhile_cons_of_neg (by rw [hspace]; decide)]
  have hhead : ∀ c, x ≠ c → (Capture.decimal n).head? ≠ some c := by
    intro c hc hsome
    rw [hdigits, List.head?_cons, Option.some.injEq] at hsome
    exact hc hsome
  unfold Http.strtoull
  rw [hdrop]
  dsimp only
  rw [if_neg (not_or.mpr ⟨hhead '-' hminus, hhead '+' (hblank '+' (by decide) (by decide))⟩),
    if_neg (hhead '-' hminus), hdecimal, List.takeWhile_eq_self_iff.mpr (toDigits_digits n),
    Nat.ofDigitChars_ten_toDigits, if_neg (by omega)]

theorem posted_length (hsize : payload.length < 2 ^ 63) :
    (posted_head host port path payload).content_length = payload.length := by
  have hfound : get_header (posted_head host port path payload)._headers "Content-Length".toList
      = some (' ' :: Capture.decimal payload.length) := by
    have hfirst : ¬ (strcasestr "Connection".toList "Content-Length".toList).isSome = true := by decide
    have hsecond : (strcasestr "Content-Length".toList "Content-Length".toList).isSome = true := by decide
    unfold get_header posted_head
    simp only [List.find?_cons, hfirst, hsecond, Option.map_some]
  unfold http_req_head_para.content_length
  rw [hfound]
  apply strtoull_decimal
  omega

theorem posted_no_boundary : head_boundary (posted_head host port path payload) [] = [] := by
  have hfound : get_header (posted_head host port path payload)._headers "Content-Type".toList
      = some " application/json".toList := by
    have hfirst : ¬ (strcasestr "Connection".toList "Content-Type".toList).isSome = true := by decide
    have hsecond : ¬ (strcasestr "Content-Length".toList "Content-Type".toList).isSome = true := by decide
    have hthird : (strcasestr "Content-Type".toList "Content-Type".toList).isSome = true := by decide
    unfold get_header posted_head
    simp only [List.find?_cons, hfirst, hsecond, hthird, Option.map_some]
  unfold head_boundary
  rw [hfound, if_pos (.inl rfl)]
  exact if_neg (by decide)

end Posted

/-- The request of the client is one that the server understands. -/
def Posting.request (t : Posting) : PlainPost where
  head := request_head t.host t.port t.path t.payload
  req_head := posted_head t.host t.port t.path t.payload
  body := t.payload
  ends := request_head_ends t.host_text.1 t.path_text.1
  text := request_head_text t.host_text.2 t.path_text.2
  parsed := posted_parsed t.host_text t.path_text t.no_blank
  method := rfl
  length := posted_length t.size
  no_boundary := posted_no_boundary

/-! ## There and back -/

section Requests

variable {c c' : Conn} {buf : Option CStr}

theorem send_buf_requests (h : c.send_buf = (buf, c')) : c'.requests = c.requests := by
  unfold Conn.send_buf at h
  split at h
  · cases h
    rfl
  · unfold Conn.get_send_buf at h
    split at h
    · cases h
      rfl
    · cases h
      rfl
    · split at h
      · cases h
        rfl
      · cases h
        simp only [Conn.requests, List.filterMap_append, List.filterMap_cons, Output.request?, List.filterMap_nil,
          List.append_nil]
    · cases h
      rfl

/-- Sending invokes no handler. -/
theorem real_send_requests (accepts : List ℕ) (c : Conn) : (real_send accepts c).requests = c.requests := by
  induction accepts generalizing c with
  | nil =>
    rw [real_send]
    split
    · next heq => exact send_buf_requests heq
    · next buf c' heq =>
      rw [← send_buf_requests heq]
      rfl
  | cons accepted rest ih =>
    rw [real_send]
    split
    · next heq => exact send_buf_requests heq
    · next buf c' heq =>
      rw [← send_buf_requests heq]
      dsimp only
      split_ifs
      · rfl
      · exact ih { c' with _p_send_buf := some (buf.drop (min accepted buf.length)) }
      · exact ih { c' with _p_send_buf := none }

end Requests

/-- A request has come whole, and was handed over once. -/
structure HandedOver (q : PlainPost) (events : List Event) (c : Conn) : Prop where
  requests : c.requests = [(q.req_head, q.body)]
  /-- the answer is waited for, or it was the only one -/
  answered : responses {} events = [] ∧ c._async_response_pending = true ∨
    (responses {} events).length ≤ 1 ∧ c._async_response_pending = false

section Progress

variable {q : PlainPost} {events : List Event} {c : Conn}

/-- The chunk that brings all of the rest hands the request over. -/
theorem last_chunk {part chunk : CStr} {world : RecvWorld} (hwhole : part ++ chunk = q.bytes)
    (hlater : world.answer = none) :
    (step (Waiting part) (.recv chunk world)).requests = [(q.req_head, q.body)] ∧
      (step (Waiting part) (.recv chunk world))._async_response_pending = true := by
  have hlength : part ++ chunk = q.bytes.take (part ++ chunk).length := by rw [hwhole, List.take_length]
  have hlong : q.head.length ≤ (part ++ chunk).length := by
    rw [hwhole]
    unfold Post.bytes
    rw [List.length_append]
    omega
  have hbody : ∀ buf, (HeadRead q.toPost (part ++ chunk).length).process_recv_body buf
      = some ({ (HeadRead q.toPost (part ++ chunk).length).append_body buf with
          _recv_body_length :=
            ((HeadRead q.toPost (part ++ chunk).length)._recv_body_length + buf.length) % 2 ^ 32 },
        true) := by
    intro buf
    have hmethod : (HeadRead q.toPost (part ++ chunk).length)._req_head_para._method = "POST".toList := q.method
    have hboundary : (HeadRead q.toPost (part ++ chunk).length)._boundary_str = [] := q.no_boundary
    rw [Conn.process_recv_body, hmethod, if_neg (by decide), if_pos hboundary]
  have hrest : (part ++ chunk).drop q.head.length = q.body := by
    rw [hwhole]
    exact List.drop_left
  rw [waiting_done hlength hlong, hbody, hrest]
  dsimp only
  rw [if_pos rfl]
  unfold recv_finish msg_recv_finish
  rw [hlater]
  exact ⟨rfl, rfl⟩

theorem response_snoc (run : Run {} events c) (event : Event) :
    responses {} (events ++ [event]) = responses {} events ++ response c event := by
  rw [responses_append, ← run_foldl run]
  show _ ++ (response c event ++ []) = _
  rw [List.append_nil]

/-- What comes after the request is an answer or a socket that is ready. -/
theorem HandedOver.step {event : Event} (h : HandedOver q events c) (run : Run {} events c)
    (possible : Possible c event) (hnone : event.chunk = []) : HandedOver q (events ++ [event]) (step c event) := by
  by_cases hclosed : c.closed = true
  · have hsame : Http.step c event = c := by
      unfold Http.step
      rw [if_pos hclosed]
    have hsilent : response c event = [] := by
      cases event with
      | reply answer accepts => exact if_pos hclosed
      | recv chunk world => rfl
      | writable accepts => rfl
    apply HandedOver.mk
    · rw [hsame]
      exact h.requests
    · rw [hsame, response_snoc run, hsilent, List.append_nil]
      exact h.answered
  cases event with
  | recv chunk world => exact absurd hnone possible.1
  | writable accepts =>
    have hstep : Http.step c (.writable accepts) = real_send accepts c := by
      unfold Http.step
      rw [if_neg hclosed]
    apply HandedOver.mk
    · rw [hstep, real_send_requests]
      exact h.requests
    · rw [hstep, (real_send_flags accepts c).1, response_snoc run]
      show responses {} events ++ [] = [] ∧ _ ∨ (responses {} events ++ []).length ≤ 1 ∧ _
      rw [List.append_nil]
      exact h.answered
  | reply answer accepts =>
    -- it is waited for, so it is the first
    have hpending : c._async_response_pending = true := possible
    have hfirst : responses {} events = [] := by
      rcases h.answered with ⟨hfirst, -⟩ | ⟨-, hdone⟩
      · exact hfirst
      · rw [hpending] at hdone
        cases hdone
    have hstep : Http.step c (.reply answer accepts)
        = real_send accepts { c.with_reply answer with _http_status := .SEND_HEAD } := by
      unfold Http.step
      rw [if_neg hclosed]
      rfl
    apply HandedOver.mk
    · rw [hstep, real_send_requests]
      exact h.requests
    · right
      rw [hstep, (real_send_flags _ _).1, response_snoc run, hfirst]
      constructor
      · show (if c.closed = true then [] else [_]).length ≤ 1
        rw [if_neg hclosed]
        exact Nat.le_refl 1
      · rfl

/-- **A request that is cut in its head only** is handed over once, when all of it
has come. -/
theorem posted_progress (run : Run {} events c) (later : ∀ event ∈ events, event.later = true)
    (bytes : arrived events <+: q.bytes)
    (whole : ∀ cut ∈ cuts events, cut < q.head.length ∨ cut = q.bytes.length) :
    (c = Waiting (arrived events) ∧ (arrived events).length < q.head.length ∧ responses {} events = []) ∨
      arrived events = q.bytes ∧ HandedOver q events c := by
  induction run with
  | start =>
    left
    refine ⟨rfl, ?_, rfl⟩
    have hlong := q.head_length
    show 0 < q.head.length
    omega
  | @step c events event run possible ih =>
    obtain ⟨hbefore, hpart⟩ := arrived_take bytes
    have hlater : event.later = true := later event (List.mem_append_right _ (List.mem_singleton_self event))
    have hcuts : ∀ cut ∈ cuts events, cut < q.head.length ∨ cut = q.bytes.length := by
      intro cut hcut
      apply whole
      cases event with
      | recv chunk world =>
        rw [cuts_recv]
        exact List.mem_append_left _ hcut
      | writable accepts =>
        rw [cuts_other fun _ _ => Event.noConfusion]
        exact hcut
      | reply answer accepts =>
        rw [cuts_other fun _ _ => Event.noConfusion]
        exact hcut
    rcases ih (fun e he => later e (List.mem_append_left _ he)) hbefore hcuts with
      ⟨rfl, hshort, hnone⟩ | ⟨hall, hover⟩
    · cases event with
      | recv chunk world =>
        change arrived events ++ chunk = q.bytes.take (arrived events ++ chunk).length at hpart
        have hsnoc : arrived (events ++ [.recv chunk world]) = arrived events ++ chunk := arrived_snoc events _
        have hresponses : responses {} (events ++ [.recv chunk world]) = [] := by
          rw [response_snoc run, hnone]
          rfl
        by_cases hless : (arrived events ++ chunk).length < q.head.length
        · left
          rw [hsnoc]
          exact ⟨waiting_recv hpart hless, hless, hresponses⟩
        · -- the end of the head comes with this chunk, so all of the request does
          right
          have hcut := whole (arrived (events ++ [.recv chunk world])).length (by
            rw [cuts_recv]
            exact List.mem_append_right _ (List.mem_singleton_self _))
          rw [hsnoc] at hcut ⊢
          have hwhole : arrived events ++ chunk = q.bytes := by
            rw [hpart, hcut.resolve_left hless, List.take_length]
          obtain ⟨hrequests, hpending⟩ := last_chunk hwhole (Option.isNone_iff_eq_none.mp hlater)
          exact ⟨hwhole, hrequests, .inl ⟨hresponses, hpending⟩⟩
      | writable accepts =>
        left
        rw [waiting_sends, arrived_snoc, response_snoc run, hnone]
        simp only [Event.chunk, List.append_nil]
        exact ⟨trivial, hshort, rfl⟩
      | reply answer accepts => exact absurd possible (waiting_reply _ _ _)
    · right
      have hchunk : event.chunk = [] := by
        have hle := bytes.length_le
        rw [arrived_snoc, List.length_append, hall] at hle
        exact List.eq_nil_of_length_eq_zero (by omega)
      rw [arrived_snoc, hchunk, List.append_nil]
      exact ⟨hall, hover.step run possible hchunk⟩

end Progress

/-- **There and back.** When no chunk of the request ends in the payload, one
handler is given the payload, and the client reads the answer to it, with its last
byte and not before. -/
theorem post_round_trip (t : Posting) {events : List Event} {c : Conn} (run : Run {} events c)
    (later : ∀ event ∈ events, event.later = true)
    (posted : arrived events = post_request t.host t.port t.path t.payload)
    (whole : ∀ cut ∈ cuts events, cut < (request_head t.host t.port t.path t.payload).length ∨
      cut = (post_request t.host t.port t.path t.payload).length)
    (answered : responses {} events ≠ [])
    (sendable : ∀ answer accepts, Event.reply answer accepts ∈ events →
      (∀ header ∈ answer.headers, Plain header) ∧ -2 ^ 31 ≤ answer.status ∧ answer.status < 2 ^ 31 ∧
        answer.body.length < 2 ^ 63)
    {received : List Received} (going : ∀ r ∈ received, r.going = true)
    (bytes : received.flatMap Received.bytes <+: wire {} events) :
    c.requests = [(posted_head t.host t.port t.path t.payload, t.payload)] ∧
    ∃ answer accepts, Event.reply answer accepts ∈ events ∧
      recv_all {} received = (if c.unsent = [] ∧ received.flatMap Received.bytes = wire {} events
        then some (true, wire {} events) else none) ∧
      (c.unsent = [] → parse_response (wire {} events) = .ok (answer.status, answer.body)) := by
  have hposted : arrived events = t.request.bytes := posted
  have hprefix : arrived events <+: t.request.bytes := hposted ▸ List.prefix_refl _
  rcases posted_progress run later hprefix whole with ⟨-, -, hnone⟩ | ⟨-, hover⟩
  · exact absurd hnone answered
  · refine ⟨hover.requests, client_reads_answer run later ?_ sendable going bytes⟩
    have hsome := List.length_pos_of_ne_nil answered
    rcases hover.answered with ⟨hnone, -⟩ | ⟨hone, -⟩
    · exact absurd hnone answered
    · omega

/-- All of the events are possible, one after another. -/
def all_possible : Conn → List Event → Bool
  | _, [] => true
  | c, event :: events => decide (Possible c event) && all_possible (step c event) events

theorem run_of_possible {events more : List Event} {c : Conn} (run : Run {} events c)
    (possible : all_possible c more = true) : Run {} (events ++ more) (more.foldl step c) := by
  induction more generalizing events c with
  | nil =>
    rw [List.append_nil]
    exact run
  | cons event more ih =>
    rw [all_possible, Bool.and_eq_true, decide_eq_true_eq] at possible
    have hnext := ih (run.step possible.1) possible.2
    rw [List.append_assoc] at hnext
    exact hnext

/-- A task for the server on this machine. -/
def small_posting : Posting where
  host := "127.0.0.1".toList
  port := 8080
  path := "/api/capture/start".toList
  payload := "[1]".toList
  host_text := by decide
  path_text := by decide
  no_blank := by decide
  size := by decide

/-- The request comes in two chunks, the first of ten bytes, and the client reads
the answer as far as it has come. -/
theorem small_round_trip :
    let request := post_request small_posting.host small_posting.port small_posting.path small_posting.payload
    let events : List Event :=
      [.recv (request.take 10) {}, .recv (request.drop 10) {}, .reply small_answer [10], .writable [1000, 1000]]
    let received : List Received := [.data ((wire {} events).take 50), .interrupted]
    (events.foldl step {}).requests
        = [(posted_head small_posting.host small_posting.port small_posting.path small_posting.payload,
            small_posting.payload)] ∧
    ∃ answer accepts, Event.reply answer accepts ∈ events ∧
      recv_all {} received = (if (events.foldl step {}).unsent = []
          ∧ received.flatMap Received.bytes = wire {} events
        then some (true, wire {} events) else none) ∧
      ((events.foldl step {}).unsent = [] → parse_response (wire {} events) = .ok (answer.status, answer.body)) := by
  intro request events received
  have hrun : Run {} events (events.foldl step {}) := run_of_possible (.start {}) (by decide +kernel)
  apply post_round_trip small_posting hrun
  · decide +kernel
  · decide +kernel
  · decide +kernel
  · decide +kernel
  · intro answer accepts hreply
    have hanswer : answer = small_answer := by
      simp only [events, List.mem_cons, List.not_mem_nil, or_false, reduceCtorEq, false_or, Event.reply.injEq] at hreply
      exact hreply.1
    rw [hanswer]
    exact ⟨small_answer_plain, by decide, by decide, by decide⟩
  · decide +kernel
  · decide +kernel

end RxNetCap.Cli
