/-
A multipart upload with one part, however its bytes are cut into chunks.

The connection finds the content by counting: it begins behind the head of the
part (`part_length`), and ends where the closing boundary would begin if it had
the length of the boundary that the head of the request announces
(`content_end`). But the handler is invoked as soon as some of the content has
come, and, when there is no content, only with a chunk that comes after the head
of the part (`delivered_iff`).
-/
import RxNetCap.Http.Chunks

set_option autoImplicit false

namespace RxNetCap.Http

open RxNetCap.Capture RxNetCap.Pdef

/-! ## Lengths in a head -/

section Lengths

variable {s delim : CStr}

theorem split_rounds_length (one : Bool) (fuel : ℕ) (s : CStr) :
    (∀ part ∈ (split_rounds delim one fuel s).1, part.length ≤ s.length)
      ∧ (split_rounds delim one fuel s).2.length ≤ s.length := by
  induction fuel generalizing s with
  | zero => exact ⟨fun _ hpart => absurd hpart List.not_mem_nil, le_rfl⟩
  | succ fuel ih =>
    rw [split_rounds]
    split
    · exact ⟨fun _ hpart => absurd hpart List.not_mem_nil, le_rfl⟩
    · next pos _ =>
      have hrest : (s.drop (pos + delim.length)).length ≤ s.length := by
        rw [List.length_drop]
        exact Nat.sub_le _ _
      have hfirst : (s.take pos).length ≤ s.length := List.length_take_le' pos s
      dsimp only
      split
      · refine ⟨fun part hpart => ?_, hrest⟩
        rw [List.mem_singleton.mp hpart]
        exact hfirst
      · obtain ⟨hparts, hlast⟩ := ih (s.drop (pos + delim.length))
        refine ⟨fun part hpart => ?_, hlast.trans hrest⟩
        rcases List.mem_cons.mp hpart with rfl | hpart
        · exact hfirst
        · exact (hparts part hpart).trans hrest

theorem SplitString_length (one : Bool) : ∀ part ∈ SplitString s delim one,
    part.length ≤ s.length := by
  intro part hpart
  have hcstr : (c_str s).length ≤ s.length := (List.takeWhile_sublist _).length_le
  obtain ⟨hparts, hlast⟩ :=
    @split_rounds_length delim one (c_str s).length (c_str s)
  unfold SplitString at hpart
  dsimp only at hpart
  split at hpart
  · rcases List.mem_append.mp hpart with hpart | hpart
    · exact (hparts part hpart).trans hcstr
    · rw [List.mem_singleton.mp hpart]
      exact hlast.trans hcstr
  · exact (hparts part hpart).trans hcstr

theorem mem_insert {key value : CStr} {headers : Headers} {header : CStr × CStr}
    (h : header ∈ Headers.insert key value headers) :
    header ∈ headers ∨ header = (key, value) := by
  induction headers with
  | nil => exact Or.inr (List.mem_singleton.mp h)
  | cons first rest ih =>
    obtain ⟨k, v⟩ := first
    rw [Headers.insert] at h
    split at h
    · exact Or.inl h
    · split at h
      · rcases List.mem_cons.mp h with h | h
        · exact Or.inr h
        · exact Or.inl h
      · rcases List.mem_cons.mp h with h | h
        · exact Or.inl (List.mem_cons.mpr (Or.inl h))
        · exact (ih h).imp_left (List.mem_cons_of_mem _)

/-- No header is longer than the head. -/
theorem parse_head_length {head head' : http_req_head_para} (h : parse_head s head = some head')
    (hbefore : ∀ header ∈ head._headers, header.2.length ≤ s.length) :
    ∀ header ∈ head'._headers, header.2.length ≤ s.length := by
  have hlines := @SplitString_length s CRLF false
  unfold parse_head at h
  split at h
  · rw [← Option.some.inj h]
    exact hbefore
  · next line lines hsplit =>
    rw [hsplit] at hlines
    obtain ⟨start, hfirst, rfl⟩ := Option.map_eq_some_iff.mp h
    have hstart : start._headers = head._headers := by
      unfold parse_first_line at hfirst
      split at hfirst
      · rw [← Option.some.inj hfirst]
      · cases hfirst
    have hfold : ∀ (lines : List CStr) (head : http_req_head_para),
        (∀ line ∈ lines, line.length ≤ s.length) →
        (∀ header ∈ head._headers, header.2.length ≤ s.length) →
        ∀ header ∈ (lines.foldl parse_header_line head)._headers, header.2.length ≤ s.length := by
      intro lines
      induction lines with
      | nil => exact fun head _ hhead => hhead
      | cons line lines ih =>
        intro head hlines hhead
        refine ih _ (fun line hline => hlines line (List.mem_cons_of_mem _ hline)) ?_
        unfold parse_header_line
        have hparts := @SplitString_length line ":".toList true
        split
        · next key value hsplit =>
          rw [hsplit] at hparts
          intro header hheader
          rcases mem_insert hheader with hheader | rfl
          · exact hhead header hheader
          · exact (hparts value (by simp)).trans (hlines line List.mem_cons_self)
        · exact hhead
    refine hfold lines start (fun line hline => hlines line (List.mem_cons_of_mem _ hline)) ?_
    rw [hstart]
    exact hbefore

theorem get_header_mem {headers : Headers} {str value : CStr}
    (h : get_header headers str = some value) : ∃ key, (key, value) ∈ headers := by
  obtain ⟨⟨key, found⟩, hfound, rfl⟩ := Option.map_eq_some_iff.mp h
  exact ⟨key, List.mem_of_find?_eq_some hfound⟩

/-- The boundary that is announced fits in the head. -/
theorem head_boundary_length {head : http_req_head_para} (h : parse_head s {} = some head) :
    (head_boundary head []).length ≤ s.length := by
  have hheaders := parse_head_length h (fun _ hheader => absurd hheader List.not_mem_nil)
  have hlabel : ∀ value : CStr, value.length ≤ s.length →
      (GetCaseStringByLabel value "boundary=".toList []).length ≤ s.length := by
    intro value hvalue
    have hcstr : (c_str value).length ≤ value.length :=
      (List.takeWhile_sublist _).length_le
    unfold GetCaseStringByLabel
    split
    · exact Nat.zero_le _
    · rw [List.length_drop]
      omega
  unfold head_boundary
  split
  · split
    · exact Nat.zero_le _
    · next value hvalue =>
      obtain ⟨key, hmem⟩ := get_header_mem hvalue
      split
      · exact hlabel value (hheaders _ hmem)
      · exact Nat.zero_le _
  · exact Nat.zero_le _

theorem strtoull_lt (s : CStr) : strtoull s < 2 ^ 64 := by
  have hcapped : ∀ (n : ℕ) (negative : Prop) [Decidable negative],
      (if n ≥ 2 ^ 64 then 2 ^ 64 - 1 else if negative then (2 ^ 64 - n) % 2 ^ 64 else n)
        < 2 ^ 64 := by
    intro n negative _
    split
    · omega
    · split
      · exact Nat.mod_lt _ (by omega)
      · omega
  exact hcapped _ _

theorem content_length_lt (head : http_req_head_para) : head.content_length < 2 ^ 64 := by
  unfold http_req_head_para.content_length
  cases get_header head._headers "Content-Length".toList with
  | none => simp
  | some value => exact strtoull_lt value

end Lengths

/-! ## Uploads -/

/-- The end of a body with this boundary. -/
def closing (boundary : CStr) : CStr :=
  CRLF ++ "--".toList ++ boundary ++ "--".toList ++ CRLF

theorem closing_length (boundary : CStr) :
    (closing boundary).length = boundary.length + BOUNDARY_EXTRA_LEN := by
  simp only [closing, CRLF, BOUNDARY_EXTRA_LEN, List.length_append, String.length_toList]
  have hlengths : "\r\n".length = 2 ∧ "--".length = 2 := by decide
  omega

/-- A POST request with a multipart body of one part. The boundary need not be
what the head announces as the code reads it: there it may be in quotes, or
before another parameter. -/
structure Upload extends Post where
  part_head : CStr
  content : CStr
  boundary : CStr
  part : body = part_head ++ CRLF2 ++ (content ++ closing boundary)
  part_ends : find CRLF2 (part_head ++ CRLF2) = some part_head.length
  multipart : head_boundary req_head [] ≠ []

namespace Upload

variable (q : Upload)

/-- The boundary as the code reads it. -/
def announced : CStr := head_boundary q.req_head []

/-- What comes before the content. -/
def part_length : ℕ := q.part_head.length + 4

/-- Where the content begins in the request. -/
def part_end : ℕ := q.head.length + q.part_length

theorem body_length : q.body.length
    = q.part_length + q.content.length + (q.boundary.length + BOUNDARY_EXTRA_LEN) := by
  rw [q.part, List.length_append, List.length_append, List.length_append, closing_length,
    part_length, show CRLF2.length = 4 from rfl]
  omega

theorem bytes_length : q.bytes.length = q.head.length + q.body.length := List.length_append

theorem body_lt : q.body.length < 2 ^ 64 := q.length ▸ content_length_lt q.req_head

theorem rest : q.body.drop q.part_length = q.content ++ closing q.boundary := by
  have hlength : (q.part_head ++ CRLF2).length = q.part_length := List.length_append
  rw [q.part, ← hlength, List.drop_left]

/-- The head of the part is found when all of it has come, and not before. -/
theorem find_part {r : ℕ} (h : q.part_length ≤ r) :
    find CRLF2 (q.body.take r) = some q.part_head.length := by
  have hlength : (q.part_head ++ CRLF2).length = q.part_length := List.length_append
  rw [q.part, List.take_append, hlength, List.take_of_length_le (hlength ▸ h)]
  exact find_append q.part_ends _

theorem find_part_none {r : ℕ} (h : r < q.part_length) : find CRLF2 (q.body.take r) = none := by
  have hlength : (q.part_head ++ CRLF2).length = q.part_length := List.length_append
  rw [q.part, List.take_append_of_le_length (hlength ▸ h.le)]
  exact find_take q.part_ends h

/-- The length of the closing boundary, as the code counts. -/
def closing_length : ℕ := q.announced.length + BOUNDARY_EXTRA_LEN

/-- Where the closing boundary begins in the body, as the code counts. -/
def content_end : ℕ := sub64 q.body.length q.closing_length

/-- The length of the content, as the code counts. -/
def content_length : ℕ := sub64 q.content_end q.part_length % 2 ^ 32

/-- What the code takes for content of the first `r` bytes of the body, with the
end of the head of the part among them. -/
def left_str (r : ℕ) : CStr :=
  if r = q.body.length ∨ q.content_end ≤ r then
    ((q.body.take r).drop q.part_length).take q.content_length
  else (q.body.take r).drop q.part_length

/-! ## What is taken for content -/

theorem content_end_eq (h : q.closing_length ≤ q.body.length) :
    q.content_end = q.body.length - q.closing_length := by
  have hlt := q.body_lt
  rw [content_end, sub64]
  omega

theorem content_end_lt (h : q.body.length < q.closing_length) (hclosing : q.closing_length < 2 ^ 16) :
    2 ^ 63 < q.content_end := by
  rw [content_end, sub64]
  omega

theorem content_length_eq (hbody : q.body.length < 2 ^ 31) (hclosing : q.closing_length < 2 ^ 16) :
    q.content_length = if q.part_length + q.closing_length ≤ q.body.length
      then q.body.length - q.closing_length - q.part_length
      else 2 ^ 32 + q.body.length - q.closing_length - q.part_length := by
  have hpart := q.body_length
  rw [content_length, content_end, sub64, sub64]
  split <;> omega

theorem drop_take (r : ℕ) : (q.body.take r).drop q.part_length
    = (q.content ++ closing q.boundary).take (r - q.part_length) := by
  rw [List.drop_take, q.rest]

/-- Up to the end of the head of the part there is nothing. -/
theorem left_str_part_length : q.left_str q.part_length = [] := by
  have hnone : (q.body.take q.part_length).drop q.part_length = [] := by
    rw [q.drop_take, Nat.sub_self, List.take_zero]
  rw [left_str, hnone, List.take_nil, ite_self]

/-- Nor is there anything behind it when the boundary seems to begin there. -/
theorem left_str_of_eq {r : ℕ} (hr : q.part_length ≤ r)
    (h : q.part_length + q.closing_length = q.body.length) : q.left_str r = [] := by
  have hend : q.content_end = q.part_length := by
    rw [q.content_end_eq (by omega)]
    omega
  have hnone : q.content_length = 0 := by
    rw [content_length, hend, sub64]
    have hlt := q.body_lt
    omega
  rw [left_str, if_pos (Or.inr (hend ▸ hr)), hnone, List.take_zero]

/-- Otherwise there is, if any more bytes have come. -/
theorem eq_of_left_str {r : ℕ} (hr : q.part_length < r) (hle : r ≤ q.body.length)
    (hclosing : q.closing_length < 2 ^ 16) (hsmall : r < 2 ^ 30) (h : q.left_str r = []) :
    q.part_length + q.closing_length = q.body.length := by
  have hbody := q.body_length
  have hrest : (q.content ++ closing q.boundary).length
      = q.body.length - q.part_length := by
    rw [List.length_append, Http.closing_length]
    omega
  rw [left_str, q.drop_take] at h
  split at h
  · next hmost =>
    have hend : q.body.length < 2 ^ 31 := by
      rcases hmost with rfl | hmost
      · omega
      · rcases le_or_gt q.closing_length q.body.length with hclosed | hclosed
        · rw [q.content_end_eq hclosed] at hmost
          omega
        · have hlarge := q.content_end_lt hclosed hclosing
          omega
    have hlength := congrArg List.length h
    rw [List.length_take, List.length_take, hrest, List.length_nil,
      q.content_length_eq hend hclosing] at hlength
    split at hlength <;> omega
  · have hlength := congrArg List.length h
    rw [List.length_take, hrest, List.length_nil] at hlength
    omega

/-- Of all of the body it is the content exactly when the boundaries have the
same length. -/
theorem left_str_all (hclosing : q.closing_length < 2 ^ 16) (hsmall : q.body.length < 2 ^ 30) :
    q.left_str q.body.length = q.content ↔ q.announced.length = q.boundary.length := by
  have hbody := q.body_length
  have hannounced : q.closing_length = q.announced.length + BOUNDARY_EXTRA_LEN := rfl
  have hrest : (q.content ++ closing q.boundary).length
      = q.body.length - q.part_length := by
    rw [List.length_append, Http.closing_length]
    omega
  rw [left_str, if_pos (Or.inl rfl), q.drop_take, List.take_take,
    q.content_length_eq (by omega) hclosing]
  constructor
  · intro h
    have hlength := congrArg List.length h
    rw [List.length_take, hrest, BOUNDARY_EXTRA_LEN] at *
    split at hlength <;> omega
  · intro h
    have hcontent : q.body.length - q.closing_length - q.part_length = q.content.length := by omega
    rw [if_pos (by omega), hcontent, min_eq_left (by omega), List.take_left]

end Upload

/-! ## The part -/

/-- The head has been read, and `r` bytes of the body without an invocation. -/
structure InBody (q : Upload) (r : ℕ) (c : Conn) : Prop where
  not_closed : c.closed = false
  idle : c._p_send_buf = none
  status : c._http_status = .RECV_BODY
  req_head : c._req_head_para = q.req_head
  boundary : c._boundary_str = q.announced
  not_pending : c._async_response_pending = false
  length : c._recv_body_length = r
  body : c.recv_body_ = []
  outputs : c.outputs = []

section Part

variable {q : Upload} {r : ℕ} {c : Conn} {buf : CStr}

/-- The next bytes of the body are counted. -/
theorem InBody.process_recv_body (h : InBody q r c) (hlength : r + buf.length < 2 ^ 32) :
    c.process_recv_body buf =
      match c._recv_boundary_status with
      | .BOUNDARY_RECV_HEAD => { c with _recv_body_length := r + buf.length }.boundary_head buf
      | .BOUNDARY_RECV_BODY => { c with _recv_body_length := r + buf.length }.boundary_body buf
      | .BOUNDARY_RECV_TAIL =>
        some ({ c with _recv_body_length := r + buf.length }, r + buf.length = q.body.length) := by
  have hmethod : c._req_head_para._method = "POST".toList := h.req_head ▸ q.method
  have hcontent : c.content_length = q.body.length := by
    rw [Conn.content_length, h.req_head, q.length]
  have hpositive : q.body.length ≠ 0 := by
    rw [q.body_length, Upload.part_length]
    omega
  have hboundary : c._boundary_str ≠ [] := h.boundary ▸ q.multipart
  rw [Conn.process_recv_body, hmethod, if_neg (by decide), if_neg hboundary, Conn.get_boundary,
    hcontent, if_neg hpositive, h.length, Nat.mod_eq_of_lt hlength]
  dsimp only
  cases c._recv_boundary_status with
  | BOUNDARY_RECV_HEAD => rfl
  | BOUNDARY_RECV_BODY => rfl
  | BOUNDARY_RECV_TAIL =>
    simp only [Conn.content_length, h.req_head, q.length]

/-- With the end of the head of the part still to come. -/
theorem InBody.head_more (h : InBody q r c) (hlength : r + buf.length < 2 ^ 32)
    (hstage : c._recv_boundary_status = .BOUNDARY_RECV_HEAD)
    (hhead : c._recv_boundary_head ++ buf = q.body.take (r + buf.length))
    (hshort : r + buf.length < q.part_length) :
    c.process_recv_body buf =
      if r + buf.length ≥ MAX_HTTP_HEAD_LEN then none
      else some ({ c with
        _recv_body_length := r + buf.length
        _recv_boundary_head := q.body.take (r + buf.length) }, false) := by
  have hle : r + buf.length ≤ q.body.length := by
    have hbody := q.body_length
    omega
  rw [h.process_recv_body hlength, hstage]
  simp only [Conn.boundary_head, hhead, q.find_part_none hshort, List.length_take,
    min_eq_left hle]

/-- What is left of the bytes is appended, if it is anything. -/
theorem append_left (hbody : c.recv_body_ = []) (left_str : CStr) :
    (if left_str.length > 0 then (c.append_body left_str, true) else (c, false))
      = ({ c with recv_body_ := left_str }, decide (left_str ≠ [])) := by
  split
  · next hsome =>
    rw [Conn.append_body, hbody, decide_eq_true (List.ne_nil_of_length_pos hsome)]
    rfl
  · next hnone =>
    have hnil : left_str = [] := List.eq_nil_of_length_eq_zero (Nat.eq_zero_of_not_pos hnone)
    have hsame : { c with recv_body_ := [] } = c := by rw [← hbody]
    subst hnil
    rw [hsame]
    rfl

/-- With its end among the bytes. -/
theorem InBody.head_found (h : InBody q r c) (hlength : r + buf.length < 2 ^ 32)
    (hstage : c._recv_boundary_status = .BOUNDARY_RECV_HEAD)
    (hhead : c._recv_boundary_head ++ buf = q.body.take (r + buf.length))
    (hlong : q.part_length ≤ r + buf.length) :
    c.process_recv_body buf =
      some ({ c with
        _recv_body_length := r + buf.length
        _recv_boundary_head := q.body.take (r + buf.length)
        _boundary_content_length := q.content_length
        _recv_boundary_status :=
          if r + buf.length = q.body.length then .BOUNDARY_RECV_HEAD
          else if q.content_end ≤ r + buf.length then .BOUNDARY_RECV_TAIL
          else .BOUNDARY_RECV_BODY
        recv_body_ := q.left_str (r + buf.length) },
        decide (q.left_str (r + buf.length) ≠ [])) := by
  have hend : sub64 q.body.length (q.announced.length + BOUNDARY_EXTRA_LEN) = q.content_end := rfl
  have hcontent : sub64 q.content_end q.part_length % 2 ^ 32 = q.content_length := rfl
  have hpart : q.part_head.length + 4 = q.part_length := rfl
  rw [h.process_recv_body hlength, hstage]
  simp only [Conn.boundary_head, hhead, q.find_part hlong, Conn.content_end, Conn.content_length,
    Conn.closing_length, h.req_head, h.boundary, q.length, hend, hcontent, hpart, Upload.left_str]
  by_cases hall : r + buf.length = q.body.length
  · simp only [hall, if_true, true_or]
    exact congrArg some (append_left (by exact h.body) _)
  · simp only [hall, if_false, false_or]
    by_cases hmost : q.content_end ≤ r + buf.length
    · simp only [hmost, if_true]
      exact congrArg some (append_left (by exact h.body) _)
    · simp only [hmost, if_false]
      exact congrArg some (append_left (by exact h.body) _)

/-- After its head, with all that is missing. -/
theorem InBody.content_all (h : InBody q r c) (hlength : r + buf.length < 2 ^ 32)
    (hstage : c._recv_boundary_status = .BOUNDARY_RECV_BODY)
    (hall : r + buf.length = q.body.length) :
    c.process_recv_body buf =
      if buf.length < q.closing_length then none
      else some ({ c with
        _recv_body_length := r + buf.length
        recv_body_ := buf.take (buf.length - q.closing_length) }, true) := by
  have hclosing : q.announced.length + BOUNDARY_EXTRA_LEN = q.closing_length := rfl
  rw [h.process_recv_body hlength, hstage]
  simp only [Conn.boundary_body, Conn.content_length, Conn.closing_length, h.req_head, h.boundary,
    q.length, hclosing, hall, if_true]
  by_cases hshort : buf.length < q.closing_length
  · rw [if_pos (by omega), if_pos hshort]
  · have hrest : ((buf.length : ℤ) - (q.closing_length : ℤ)).toNat
        = buf.length - q.closing_length := by omega
    rw [if_neg (by omega), if_neg hshort, hrest, Conn.append_body, h.body, List.nil_append]

/-- With some of the content the handler is invoked already. -/
theorem InBody.content_more (h : InBody q r c) (hlength : r + buf.length < 2 ^ 32)
    (hstage : c._recv_boundary_status = .BOUNDARY_RECV_BODY)
    (hnot_all : r + buf.length ≠ q.body.length) (hcontent_end : r < q.content_end) :
    ∃ c', c.process_recv_body buf = some (c', true) := by
  have hclosing : q.announced.length + BOUNDARY_EXTRA_LEN = q.closing_length := rfl
  have hend : sub64 q.body.length q.closing_length = q.content_end := rfl
  rw [h.process_recv_body hlength, hstage]
  simp only [Conn.boundary_body, Conn.content_length, Conn.content_end, Conn.closing_length,
    h.req_head, h.boundary, q.length, hclosing, hend, hnot_all, if_false]
  split
  · rw [if_neg (by omega)]
    exact ⟨_, rfl⟩
  · rw [if_neg (by omega)]
    exact ⟨_, rfl⟩

/-- After the content it is the last byte with which the handler is invoked. -/
theorem InBody.tail_more (h : InBody q r c) (hlength : r + buf.length < 2 ^ 32)
    (hstage : c._recv_boundary_status = .BOUNDARY_RECV_TAIL) :
    c.process_recv_body buf =
      some ({ c with _recv_body_length := r + buf.length },
        decide (r + buf.length = q.body.length)) := by
  rw [h.process_recv_body hlength, hstage]

end Part

/-! ## From the first byte on -/

/-- A cut before the end of the head of the part, where it is not too long yet. -/
def Upload.InHeads (q : Upload) (cut : ℕ) : Prop :=
  cut < q.part_end ∧ cut < q.head.length + MAX_HTTP_HEAD_LEN

/-- The closing boundary seems to begin in the head of the part or right behind
it, and there was a cut from where on the handler waits for the last byte. -/
def Upload.Tailed (q : Upload) (cut : ℕ) : Prop :=
  q.part_end ≤ cut ∧ cut < q.bytes.length
    ∧ (q.part_length + q.closing_length = q.body.length
      ∨ cut = q.part_end ∧ q.body.length < q.part_length + q.closing_length
        ∧ q.closing_length ≤ q.body.length)

/-- Where in the part the connection is after `r` bytes of the body. -/
inductive Stage (q : Upload) (events : List Event) (r : ℕ) (c : Conn) : Prop where
  | head (stage : c._recv_boundary_status = .BOUNDARY_RECV_HEAD)
      (part : c._recv_boundary_head = q.body.take r)
      (short : r < q.part_length) (fits : r < MAX_HTTP_HEAD_LEN)
  | blank (stage : c._recv_boundary_status = .BOUNDARY_RECV_BODY)
      (at_end : r = q.part_length) (fits : r < 2 ^ 30) (content_end : r < q.content_end)
      (heads : ∀ cut ∈ cuts events, q.InHeads cut ∨ cut = q.part_end)
  | tail (stage : c._recv_boundary_status = .BOUNDARY_RECV_TAIL)
      (long : q.part_length ≤ r) (short : r < q.body.length) (fits : q.body.length < 2 ^ 31)
      (heads : ∀ cut ∈ cuts events, q.InHeads cut ∨ q.part_end ≤ cut)
      (tailed : ∃ cut ∈ cuts events, q.Tailed cut)

/-- What can have come of the bytes of an upload so far. -/
inductive Progress (q : Upload) (events : List Event) (c : Conn) : Prop where
  | head (waiting : c = Waiting (arrived events)) (short : (arrived events).length < q.head.length)
  | body {r : ℕ} (body : InBody q r c) (buf : c._recv_buf = [])
      (received : c.received = q.head.length + r)
      (bytes : (arrived events).length = q.head.length + r) (stage : Stage q events r c)
  | refused (closed : c.closed = true) (none : c.invocations = [])
      (fault : q.body.length < q.closing_length
        ∨ ∃ cut ∈ cuts events, q.head.length + MAX_HTTP_HEAD_LEN ≤ cut ∧ cut < q.part_end)
  | lost (none : c.invocations = []) (bytes : (arrived events).length = q.bytes.length)
      (heads : ∀ cut ∈ cuts events, q.InHeads cut ∨ cut = q.bytes.length)
      (fault : q.part_length + q.closing_length = q.body.length)
  | invoked {r : ℕ} {body : CStr} {B : Prop}
      (first : FirstInvoked (fun cut => q.InHeads cut ∨ B ∧ cut = q.part_end) events c r body)
      (late : q.part_end < r)
      (content : r = q.bytes.length →
        (body = q.content ↔ q.announced.length = q.boundary.length))
      (fault : q.content = [] → q.announced.length ≠ q.boundary.length
        ∧ (B → q.closing_length ≤ q.body.length →
          q.part_length + q.closing_length < q.body.length))
  | invoked_last (first : FirstInvoked (fun cut => q.InHeads cut ∨ q.part_end ≤ cut) events c
        q.bytes.length [])
      (tailed : ∃ cut ∈ cuts events, q.Tailed cut)

section Progress

variable {q : Upload} {events : List Event} {c c₁ : Conn} {world : RecvWorld} {chunk buf : CStr}
  {r : ℕ}

/-- What comes of a chunk whose bytes `buf` of the body the connection `c₁`
takes. -/
structure Fed (world : RecvWorld) (c₁ : Conn) (buf : CStr) (c : Conn) : Prop where
  refused : c₁.process_recv_body buf = none → c.closed = true ∧ c.invocations = []
  taken : ∀ {c₂ : Conn} {result : Bool}, c₁.process_recv_body buf = some (c₂, result) →
    c = { (if result then recv_finish world c₂ else c₂) with _recv_buf := [] }

/-- With a result the handler is invoked. -/
theorem Fed.invocations (h : Fed world c₁ buf c) (hbody : InBody q r c₁) {c₂ : Conn}
    (htaken : c₁.process_recv_body buf = some (c₂, true)) :
    c.invocations = [(c₁.received, c₂.recv_body_)] := by
  obtain ⟨houtputs, hreceived⟩ := process_recv_body_outputs htaken
  have hnone : c₂.invocations = [] := by
    rw [Conn.invocations, houtputs, hbody.outputs]
    rfl
  have hfinish := invocations_recv_finish world c₂
  rw [hnone, hreceived, List.nil_append] at hfinish
  rw [h.taken htaken]
  exact hfinish

/-- The chunk ends the last of the cuts. -/
theorem mem_cuts_recv {cut : ℕ} : cut ∈ cuts (events ++ [.recv chunk world])
    ↔ cut ∈ cuts events ∨ cut = (arrived (events ++ [.recv chunk world])).length := by
  rw [cuts_recv, List.mem_append, List.mem_singleton]

/-- A chunk that finds the connection in the head of the part. -/
theorem fed_head (hfed : Fed world c₁ buf (step c (.recv chunk world))) (hbody : InBody q r c₁)
    (hreceived : c₁.received = q.head.length + (r + buf.length))
    (hbytes : (arrived (events ++ [.recv chunk world])).length = q.head.length + (r + buf.length))
    (hstage : c₁._recv_boundary_status = .BOUNDARY_RECV_HEAD)
    (hpart : c₁._recv_boundary_head ++ buf = q.body.take (r + buf.length))
    (hle : r + buf.length ≤ q.body.length) (hfits : r < MAX_HTTP_HEAD_LEN)
    (hbuf : buf.length ≤ MAX_RECV_SIZE) (hclosing : q.closing_length < 2 ^ 16)
    (hheads : ∀ cut ∈ cuts events, q.InHeads cut) :
    Progress q (events ++ [.recv chunk world]) (step c (.recv chunk world)) := by
  have hlength := q.body_length
  have hall := q.bytes_length
  have hextra : BOUNDARY_EXTRA_LEN = 8 := rfl
  have hsmall : r + buf.length < 2 ^ 30 := by
    rw [MAX_HTTP_HEAD_LEN] at hfits
    rw [MAX_RECV_SIZE] at hbuf
    omega
  have hlast : q.head.length + (r + buf.length) ∈ cuts (events ++ [.recv chunk world]) :=
    mem_cuts_recv.mpr (Or.inr hbytes.symm)
  have hcuts : ∀ cut ∈ cuts (events ++ [.recv chunk world]),
      q.InHeads cut ∨ cut = q.head.length + (r + buf.length) := by
    intro cut hcut
    rcases mem_cuts_recv.mp hcut with hcut | rfl
    · exact Or.inl (hheads cut hcut)
    · exact Or.inr hbytes
  rcases lt_or_ge (r + buf.length) q.part_length with hshort | hlong
  · have hmore := hbody.head_more (by omega) hstage hpart hshort
    by_cases htoo_long : r + buf.length ≥ MAX_HTTP_HEAD_LEN
    · rw [if_pos htoo_long] at hmore
      obtain ⟨hclosed, hnone⟩ := hfed.refused hmore
      refine .refused hclosed hnone (Or.inr ⟨_, hlast, ?_, ?_⟩)
      · omega
      · rw [Upload.part_end]
        omega
    · rw [if_neg htoo_long] at hmore
      rw [hfed.taken hmore]
      refine .body (r := r + buf.length) ⟨hbody.not_closed, hbody.idle, hbody.status,
        hbody.req_head, hbody.boundary, hbody.not_pending, rfl, hbody.body, hbody.outputs⟩ rfl
        hreceived hbytes ?_
      exact .head hstage rfl hshort (Nat.lt_of_not_ge htoo_long)
  · have hfound := hbody.head_found (by omega) hstage hpart hlong
    by_cases hleft : q.left_str (r + buf.length) = []
    · rw [hleft, decide_eq_false (not_not_intro rfl)] at hfound
      have hstate := hfed.taken hfound
      by_cases hdone : r + buf.length = q.body.length
      · have hequal := q.eq_of_left_str (by omega) hle hclosing hsmall hleft
        refine .lost ?_ (by omega) ?_ hequal
        · rw [hstate, Conn.invocations]
          simp only [Bool.false_eq_true, if_false, hbody.outputs, List.filterMap_nil]
        · intro cut hcut
          exact (hcuts cut hcut).imp_right fun heq => by omega
      · rw [hstate]
        refine .body (r := r + buf.length) ⟨hbody.not_closed, hbody.idle, hbody.status,
          hbody.req_head, hbody.boundary, hbody.not_pending, rfl, rfl, hbody.outputs⟩ rfl
          hreceived hbytes ?_
        by_cases hmost : q.content_end ≤ r + buf.length
        · have hclosed : q.closing_length ≤ q.body.length := by
            by_contra hlonger
            have hlarge := q.content_end_lt (Nat.lt_of_not_ge hlonger) hclosing
            omega
          have hend := q.content_end_eq hclosed
          refine .tail ?_ hlong (by omega) (by omega) ?_ ⟨_, hlast, ?_⟩
          · simp only [Bool.false_eq_true, if_false, if_neg hdone, if_pos hmost]
          · intro cut hcut
            exact (hcuts cut hcut).imp_right fun heq => by rw [Upload.part_end]; omega
          · rw [Upload.Tailed, Upload.part_end]
            rcases eq_or_lt_of_le hlong with heq | hlt
            · omega
            · have hequal := q.eq_of_left_str hlt hle hclosing hsmall hleft
              omega
        · have hat : r + buf.length = q.part_length := by
            by_contra hne
            have hequal := q.eq_of_left_str (by omega) hle hclosing hsmall hleft
            have hend := q.content_end_eq (by omega)
            omega
          refine .blank ?_ hat hsmall (Nat.lt_of_not_ge hmost) ?_
          · simp only [Bool.false_eq_true, if_false, if_neg hdone, if_neg hmost]
          · intro cut hcut
            exact (hcuts cut hcut).imp_right fun heq => by rw [heq, hat, Upload.part_end]
    · rw [decide_eq_true hleft] at hfound
      have hinvoked := hfed.invocations hbody hfound
      rw [hreceived, ← hbytes] at hinvoked
      have hbehind : q.part_length < r + buf.length := by
        refine lt_of_le_of_ne hlong fun heq => hleft ?_
        rw [← heq]
        exact q.left_str_part_length
      refine .invoked (B := False)
        (FirstInvoked.begin (fun cut hcut => Or.inl (hheads cut hcut)) hinvoked) ?_ ?_ ?_
      · rw [hbytes, Upload.part_end]
        omega
      · intro hlast
        have heq : r + buf.length = q.body.length := by omega
        show q.left_str (r + buf.length) = q.content ↔ _
        rw [heq]
        exact q.left_str_all hclosing (by omega)
      · intro hempty
        refine ⟨fun hsame => hleft (q.left_str_of_eq hlong ?_), False.elim⟩
        have hzero : q.content.length = 0 := List.length_eq_zero_iff.mpr hempty
        rw [Upload.closing_length, hsame]
        omega

/-- One that finds it right behind that head. -/
theorem fed_blank (hfed : Fed world c₁ buf (step c (.recv chunk world))) (hbody : InBody q r c₁)
    (hreceived : c₁.received = q.head.length + (r + buf.length))
    (hbytes : (arrived (events ++ [.recv chunk world])).length = q.head.length + (r + buf.length))
    (hstage : c₁._recv_boundary_status = .BOUNDARY_RECV_BODY) (hat : r = q.part_length)
    (hpart : q.body.take r ++ buf = q.body.take (r + buf.length))
    (hfits : r < 2 ^ 30) (hcontent_end : r < q.content_end)
    (hbuf : buf.length ≤ MAX_RECV_SIZE) (hnonempty : 0 < buf.length)
    (hheads : ∀ cut ∈ cuts events, q.InHeads cut ∨ cut = q.part_end) :
    Progress q (events ++ [.recv chunk world]) (step c (.recv chunk world)) := by
  have hlength := q.body_length
  have hall := q.bytes_length
  have hextra : BOUNDARY_EXTRA_LEN = 8 := rfl
  have hsmall : r + buf.length < 2 ^ 31 := by
    rw [MAX_RECV_SIZE] at hbuf
    omega
  have hannounced : q.closing_length = q.announced.length + BOUNDARY_EXTRA_LEN := rfl
  have hroom : q.closing_length ≤ q.body.length →
      q.part_length + q.closing_length < q.body.length := by
    intro hclosed
    have hend := q.content_end_eq hclosed
    omega
  have hfault : q.content = [] → q.announced.length ≠ q.boundary.length
      ∧ (True → q.closing_length ≤ q.body.length →
        q.part_length + q.closing_length < q.body.length) := by
    intro hempty
    have hzero : q.content.length = 0 := List.length_eq_zero_iff.mpr hempty
    refine ⟨fun hsame => ?_, fun _ => hroom⟩
    have hlonger := hroom (by omega)
    omega
  have hquiet : ∀ cut ∈ cuts events, q.InHeads cut ∨ True ∧ cut = q.part_end :=
    fun cut hcut => (hheads cut hcut).imp_right fun heq => ⟨trivial, heq⟩
  have hlate : q.part_end < (arrived (events ++ [.recv chunk world])).length := by
    rw [hbytes, Upload.part_end]
    omega
  by_cases hdone : r + buf.length = q.body.length
  · have hcontent := hbody.content_all (by omega) hstage hdone
    by_cases hshort : buf.length < q.closing_length
    · rw [if_pos hshort] at hcontent
      obtain ⟨hclosed, hnone⟩ := hfed.refused hcontent
      refine .refused hclosed hnone (Or.inl ?_)
      by_contra hlonger
      have hlonger := hroom (Nat.le_of_not_lt hlonger)
      omega
    · rw [if_neg hshort] at hcontent
      have hinvoked := hfed.invocations hbody hcontent
      rw [hreceived, ← hbytes] at hinvoked
      refine .invoked (B := True) (FirstInvoked.begin hquiet hinvoked) hlate (fun _ => ?_) hfault
      -- all that is missing is the content and the closing boundary
      have hrest : buf = q.content ++ closing q.boundary := by
        have hdrop := congrArg (List.drop r) hpart
        have hprefix : (q.body.take r).length = r := by
          rw [List.length_take]
          omega
        rw [hdone, List.take_length, List.drop_left' hprefix, hat, q.rest] at hdrop
        exact hdrop
      show buf.take (buf.length - q.closing_length) = q.content ↔ _
      have hbuf_length : buf.length = q.content.length + (q.boundary.length + BOUNDARY_EXTRA_LEN) := by
        omega
      constructor
      · intro htake
        have hlengths := congrArg List.length htake
        rw [List.length_take] at hlengths
        omega
      · intro hsame
        have hcontent : buf.length - q.closing_length = q.content.length := by omega
        rw [hcontent, hrest, List.take_left]
  · obtain ⟨c₂, hcontent⟩ := hbody.content_more (by omega) hstage hdone hcontent_end
    have hinvoked := hfed.invocations hbody hcontent
    rw [hreceived, ← hbytes] at hinvoked
    refine .invoked (B := True) (FirstInvoked.begin hquiet hinvoked) hlate (fun hlast => ?_) hfault
    omega

/-- One that finds it behind the content. -/
theorem fed_tail (hfed : Fed world c₁ buf (step c (.recv chunk world))) (hbody : InBody q r c₁)
    (hreceived : c₁.received = q.head.length + (r + buf.length))
    (hbytes : (arrived (events ++ [.recv chunk world])).length = q.head.length + (r + buf.length))
    (hstage : c₁._recv_boundary_status = .BOUNDARY_RECV_TAIL) (hlong : q.part_length ≤ r)
    (hle : r + buf.length ≤ q.body.length) (hfits : q.body.length < 2 ^ 31)
    (hheads : ∀ cut ∈ cuts events, q.InHeads cut ∨ q.part_end ≤ cut)
    (htailed : ∃ cut ∈ cuts events, q.Tailed cut) :
    Progress q (events ++ [.recv chunk world]) (step c (.recv chunk world)) := by
  have hall := q.bytes_length
  have hmore : c₁.process_recv_body buf = _ := hbody.tail_more (by omega) hstage
  obtain ⟨cut, hcut, htailed⟩ := htailed
  have hmem : cut ∈ cuts (events ++ [.recv chunk world]) := mem_cuts_recv.mpr (Or.inl hcut)
  by_cases hdone : r + buf.length = q.body.length
  · rw [decide_eq_true hdone] at hmore
    have hinvoked := hfed.invocations hbody hmore
    rw [hreceived, ← hbytes] at hinvoked
    have hlast : (arrived (events ++ [.recv chunk world])).length = q.bytes.length := by omega
    have hfirst := FirstInvoked.begin hheads hinvoked
    rw [hlast, show _ = [] from hbody.body] at hfirst
    exact .invoked_last hfirst ⟨cut, hmem, htailed⟩
  · rw [decide_eq_false hdone] at hmore
    rw [hfed.taken hmore]
    refine .body (r := r + buf.length) ⟨hbody.not_closed, hbody.idle, hbody.status,
      hbody.req_head, hbody.boundary, hbody.not_pending, rfl, hbody.body, hbody.outputs⟩ rfl
      hreceived hbytes ?_
    refine .tail hstage (by omega) (by omega) hfits (fun cut hcut => ?_) ⟨cut, hmem, htailed⟩
    rcases mem_cuts_recv.mp hcut with hcut | rfl
    · exact hheads cut hcut
    · rw [hbytes, Upload.part_end]
      exact Or.inr (by omega)

/-- The chunk that brings the end of the head of the request. -/
theorem fed_waiting {part : CStr} (hpart : part ++ chunk = q.bytes.take (part ++ chunk).length)
    (hlong : q.head.length ≤ (part ++ chunk).length) :
    Fed world (HeadRead q.toPost (part ++ chunk).length) ((part ++ chunk).drop q.head.length)
      (step (Waiting part) (.recv chunk world)) := by
  have hdone := @waiting_done _ _ world _ hpart hlong
  constructor
  · intro hnone
    rw [hnone] at hdone
    rw [hdone]
    exact ⟨rfl, rfl⟩
  · intro c₂ result hsome
    rw [hsome] at hdone
    exact hdone

/-- And those after it. -/
theorem fed_body (hbody : InBody q r c) (hbuf : c._recv_buf = []) (hchunk : chunk ≠ []) :
    Fed world { c with _recv_buf := chunk, received := c.received + chunk.length } chunk
      (step c (.recv chunk world)) := by
  have hprocess : ∀ d : Conn, d._http_status = .RECV_BODY → process_recv_buf world chunk d
      = (d.process_recv_body chunk).map fun taken =>
        (if taken.2 then recv_finish world taken.1 else taken.1, chunk.length) := by
    intro d hstatus
    have hpart : d.body_part chunk = some (chunk, d) := by
      rw [Conn.body_part, if_neg]
      rintro ⟨hhead, -⟩
      rw [hstatus] at hhead
      cases hhead
    rw [process_recv_buf, hstatus, if_neg (by decide), hpart]
    simp only [Option.bind_eq_bind, Option.bind_some]
    rw [if_pos hstatus]
    cases d.process_recv_body chunk <;> rfl
  have hstep : step c (.recv chunk world) =
      (({ c with _recv_buf := chunk, received := c.received + chunk.length } :
          Conn).process_recv_body chunk).elim
        { c with _recv_buf := chunk, received := c.received + chunk.length, closed := true }
        fun taken => { (if taken.2 then recv_finish world taken.1 else taken.1) with _recv_buf := [] } := by
    rw [step, if_neg (by rw [hbody.not_closed]; exact Bool.false_ne_true)]
    simp only [real_recv, hbuf, List.nil_append]
    rw [if_pos (List.length_pos_of_ne_nil hchunk), hprocess _ (by exact hbody.status)]
    cases ({ c with _recv_buf := chunk, received := c.received + chunk.length } :
        Conn).process_recv_body chunk with
    | none => rfl
    | some taken => simp only [Option.map_some, Option.elim_some, List.drop_length]
  constructor
  · intro hnone
    rw [hnone] at hstep
    rw [hstep]
    refine ⟨rfl, ?_⟩
    show c.outputs.filterMap Output.invocation? = []
    rw [hbody.outputs]
    rfl
  · intro c₂ result hsome
    rw [hsome] at hstep
    exact hstep

theorem body_sends (hbody : InBody q r c) (accepts : List ℕ) : step c (.writable accepts) = c := by
  have hnone : c.send_buf = (none, c) := by
    rw [Conn.send_buf, hbody.idle]
    simp only [Conn.get_send_buf, hbody.status]
  rw [step, if_neg (by rw [hbody.not_closed]; exact Bool.false_ne_true)]
  cases accepts with
  | nil => rw [real_send, hnone]
  | cons accepted rest => rw [real_send, hnone]

end Progress

section Run

variable {events : List Event} {event : Event} {c : Conn}

/-- A head that has come fitted in the buffer. -/
theorem head_fits (q : Post) (run : Run {} events c) (hbytes : arrived events <+: q.bytes) :
    (c = Waiting (arrived events) ∧ (arrived events).length < q.head.length)
      ∨ q.head.length ≤ MAX_RECV_SIZE := by
  induction run with
  | start => exact Or.inl ⟨rfl, lt_of_lt_of_le (by decide) q.head_length⟩
  | @step c events event run hpossible ih =>
    obtain ⟨hbefore, hpart⟩ := arrived_take hbytes
    rcases ih hbefore with ⟨rfl, hshort⟩ | hfits
    · cases event with
      | recv chunk world =>
        have hsnoc : arrived (events ++ [.recv chunk world]) = arrived events ++ chunk :=
          arrived_snoc events _
        rcases lt_or_ge (arrived events ++ chunk).length q.head.length with hless | hmore
        · rw [hsnoc]
          exact Or.inl ⟨waiting_recv hpart hless, hless⟩
        · right
          have hroom : chunk.length ≤ MAX_RECV_SIZE - (arrived events).length :=
            hpossible.2.trans (min_le_left _ _)
          have hchunk := List.length_pos_of_ne_nil hpossible.1
          rw [List.length_append] at hmore
          omega
      | writable accepts =>
        left
        rw [waiting_sends, arrived_snoc]
        simp only [Event.chunk, List.append_nil]
        exact ⟨trivial, hshort⟩
      | reply answer accepts => exact absurd hpossible (waiting_reply _ _ _)
    · exact Or.inr hfits

/-- What no bytes come with leaves what has come as it was. -/
theorem Stage.other {q : Upload} {r : ℕ} (h : Stage q events r c)
    (hcuts : cuts (events ++ [event]) = cuts events) : Stage q (events ++ [event]) r c := by
  cases h with
  | head stage part short fits => exact .head stage part short fits
  | blank stage at_end fits content_end heads =>
    exact .blank stage at_end fits content_end (hcuts ▸ heads)
  | tail stage long short fits heads tailed =>
    exact .tail stage long short fits (hcuts ▸ heads) (hcuts ▸ tailed)

theorem progress_recv (q : Upload) {chunk : CStr} {world : RecvWorld} (h : Progress q events c)
    (hpossible : Possible c (.recv chunk world))
    (hbytes : arrived (events ++ [.recv chunk world]) <+: q.bytes)
    (hhead : q.head.length ≤ MAX_RECV_SIZE) :
    Progress q (events ++ [.recv chunk world]) (step c (.recv chunk world)) := by
  have hsnoc : arrived (events ++ [.recv chunk world]) = arrived events ++ chunk :=
    arrived_snoc events _
  have hpart := (arrived_take hbytes).2
  change arrived events ++ chunk = q.bytes.take (arrived events ++ chunk).length at hpart
  have hchunk := List.length_pos_of_ne_nil hpossible.1
  have hroom : chunk.length ≤ MAX_RECV_SIZE :=
    hpossible.2.trans ((min_le_left _ _).trans (Nat.sub_le _ _))
  have hall : (arrived events).length + chunk.length ≤ q.bytes.length := by
    rw [← List.length_append, ← hsnoc]
    exact hbytes.length_le
  have hlength := q.bytes_length
  have hclosing : q.closing_length < 2 ^ 16 := by
    have hannounced : q.announced.length ≤ q.head.length := head_boundary_length q.parsed
    rw [MAX_RECV_SIZE] at hhead
    rw [Upload.closing_length, BOUNDARY_EXTRA_LEN]
    omega
  have hmem : ∀ cut ∈ cuts events, cut ∈ cuts (events ++ [.recv chunk world]) :=
    fun cut hcut => mem_cuts_recv.mpr (Or.inl hcut)
  cases h with
  | head waiting short =>
    subst waiting
    rcases lt_or_ge (arrived events ++ chunk).length q.head.length with hless | hmore
    · refine .head ?_ (hsnoc ▸ hless)
      rw [hsnoc]
      exact waiting_recv hpart hless
    · have hrest : ((arrived events ++ chunk).drop q.head.length).length
          = (arrived events ++ chunk).length - q.head.length := List.length_drop
      have hbody : InBody q 0 (HeadRead q.toPost (arrived events ++ chunk).length) :=
        ⟨rfl, rfl, rfl, rfl, rfl, rfl, rfl, rfl, rfl⟩
      have hlong : (arrived events ++ chunk).length = (arrived events).length + chunk.length :=
        List.length_append
      have hbuf : (arrived events ++ chunk).drop q.head.length
          = q.body.take ((arrived events ++ chunk).length - q.head.length) := by
        conv_lhs => rw [hpart]
        rw [List.drop_take, Post.bytes, List.drop_left]
      refine fed_head (fed_waiting hpart hmore) hbody ?_ ?_ rfl ?_ ?_ (by decide) ?_ hclosing ?_
      · show (arrived events ++ chunk).length = _
        omega
      · rw [hsnoc]
        omega
      · rw [hrest, Nat.zero_add]
        exact hbuf
      · omega
      · omega
      · intro cut hcut
        have hcut := cut_le hcut
        rw [Upload.InHeads, Upload.part_end]
        omega
  | @body r body buf received bytes stage =>
    have hbody : InBody q r { c with _recv_buf := chunk, received := c.received + chunk.length } :=
      ⟨body.not_closed, body.idle, body.status, body.req_head, body.boundary, body.not_pending,
        body.length, body.body, body.outputs⟩
    have hfed := @fed_body _ _ world _ _ body buf hpossible.1
    have hreceived : c.received + chunk.length = q.head.length + (r + chunk.length) := by omega
    have hcome : (arrived (events ++ [.recv chunk world])).length
        = q.head.length + (r + chunk.length) := by
      rw [hsnoc, List.length_append]
      omega
    have hmore : q.body.take r ++ chunk = q.body.take (r + chunk.length) := by
      have htake : ∀ n, q.bytes.take (q.head.length + n) = q.head ++ q.body.take n :=
        fun n => List.take_length_add_append n
      have hbefore := List.prefix_iff_eq_take.mp (arrived_take hbytes).1
      rw [bytes, htake] at hbefore
      have hlong : (arrived events ++ chunk).length = q.head.length + (r + chunk.length) :=
        hsnoc ▸ hcome
      rw [hlong, htake, hbefore, List.append_assoc] at hpart
      exact List.append_cancel_left hpart
    have hquiet : ∀ cut ∈ cuts events, cut ≤ q.head.length + r := fun cut hcut => bytes ▸ cut_le hcut
    cases stage with
    | head stage part short fits =>
      refine fed_head hfed hbody hreceived hcome stage ?_ (by omega) fits hroom hclosing ?_
      · show c._recv_boundary_head ++ chunk = _
        rw [part]
        exact hmore
      · intro cut hcut
        have hcut := hquiet cut hcut
        rw [Upload.InHeads, Upload.part_end]
        omega
    | blank stage at_end fits content_end heads =>
      exact fed_blank hfed hbody hreceived hcome stage at_end hmore fits content_end hroom hchunk heads
    | tail stage long short fits heads tailed =>
      exact fed_tail hfed hbody hreceived hcome stage long (by omega) fits heads tailed
  | refused closed none fault =>
    have hsame : step c (.recv chunk world) = c := by rw [step, if_pos closed]
    rw [hsame]
    refine .refused closed none (fault.imp_right ?_)
    rintro ⟨cut, hcut, htoo_long⟩
    exact ⟨cut, hmem cut hcut, htoo_long⟩
  | lost none bytes heads fault => omega
  | invoked first late content fault => exact .invoked (first.step hpossible) late content fault
  | invoked_last first tailed =>
    obtain ⟨cut, hcut, htailed⟩ := tailed
    exact .invoked_last (first.step hpossible) ⟨cut, hmem cut hcut, htailed⟩

/-- Events without bytes. -/
theorem progress_other (q : Upload) (h : Progress q events c) (hpossible : Possible c event)
    (hevent : ∀ chunk world, event ≠ .recv chunk world) :
    Progress q (events ++ [event]) (step c event) := by
  have hcuts : cuts (events ++ [event]) = cuts events := cuts_other hevent
  have harrived : arrived (events ++ [event]) = arrived events := by
    rw [arrived_snoc]
    cases event with
    | recv chunk world => exact absurd rfl (hevent chunk world)
    | writable accepts => exact List.append_nil _
    | reply answer accepts => exact List.append_nil _
  cases h with
  | head waiting short =>
    refine .head ?_ (harrived ▸ short)
    rw [harrived, waiting]
    cases event with
    | recv chunk world => exact absurd rfl (hevent chunk world)
    | writable accepts => exact waiting_sends _ _
    | reply answer accepts => exact absurd (waiting ▸ hpossible) (waiting_reply _ _ _)
  | body body buf received bytes stage =>
    have hsame : step c event = c := by
      cases event with
      | recv chunk world => exact absurd rfl (hevent chunk world)
      | writable accepts => exact body_sends body accepts
      | reply answer accepts => exact absurd (body.not_pending.symm.trans hpossible) (by decide)
    rw [hsame]
    exact .body body buf received (harrived ▸ bytes) (stage.other hcuts)
  | refused closed none fault =>
    have hsame : step c event = c := by rw [step.eq_def, if_pos closed]
    rw [hsame]
    exact .refused closed none (hcuts ▸ fault)
  | lost none bytes heads fault =>
    exact .lost ((step_other_invocations hevent).trans none) (harrived ▸ bytes) (hcuts ▸ heads) fault
  | invoked first late content fault => exact .invoked (first.step hpossible) late content fault
  | invoked_last first tailed => exact .invoked_last (first.step hpossible) (hcuts ▸ tailed)

theorem progress_run (q : Upload) (run : Run {} events c) (hbytes : arrived events <+: q.bytes)
    (hhead : q.head.length ≤ MAX_RECV_SIZE) : Progress q events c := by
  induction run with
  | start => exact .head rfl (lt_of_lt_of_le (by decide) q.head_length)
  | @step c events event run hpossible ih =>
    have hbefore := ih (arrived_take hbytes).1
    cases event with
    | recv chunk world => exact progress_recv q hbefore hpossible hbytes hhead
    | writable accepts => exact progress_other q hbefore hpossible fun _ _ => Event.noConfusion
    | reply answer accepts => exact progress_other q hbefore hpossible fun _ _ => Event.noConfusion

end Run

/-! ## Delivery -/

/-- How the bytes of an upload have to be cut. No chunk ends where the head of
the part is too long so far. If there is content, the boundary is as long as it
is announced, and no chunk before the last brings any of the content. If there
is none, some chunk before the last brings the end of the head of the part; it
ends right there if the boundary that is announced is longer. -/
def Upload.Delivered (q : Upload) (events : List Event) : Prop :=
  (∀ cut ∈ cuts events, cut < q.head.length + MAX_HTTP_HEAD_LEN ∨ q.part_end ≤ cut)
    ∧ (q.content ≠ [] ∧ q.announced.length = q.boundary.length
        ∧ (∀ cut ∈ cuts events, cut ≤ q.part_end ∨ cut = q.bytes.length)
      ∨ q.content = [] ∧ ∃ cut ∈ cuts events, q.Tailed cut)

/-- **An upload** is delivered once, after the last byte and with the content as
the body, exactly when its bytes are cut so. -/
theorem delivered_iff (q : Upload) {events : List Event} {c : Conn} (run : Run {} events c)
    (bytes : arrived events = q.bytes) :
    c.invocations = [(q.bytes.length, q.content)] ↔ q.Delivered events := by
  have hbytes : arrived events <+: q.bytes := bytes ▸ List.prefix_refl _
  have hlength := q.body_length
  have hall := q.bytes_length
  have hextra : BOUNDARY_EXTRA_LEN = 8 := rfl
  have hend : q.part_end = q.head.length + q.part_length := rfl
  have hclosing : q.closing_length = q.announced.length + BOUNDARY_EXTRA_LEN := rfl
  have hempty : q.content = [] ↔ q.content.length = 0 := List.length_eq_zero_iff.symm
  have hcome := congrArg List.length bytes
  have hhead : q.head.length ≤ MAX_RECV_SIZE := by
    refine (head_fits q.toPost run hbytes).resolve_left ?_
    rintro ⟨-, hshort⟩
    omega
  -- a tailed cut, when there is content or the code counts too much
  have htailed : ∀ cut, q.Tailed cut → q.announced.length = q.boundary.length → q.content = [] := by
    intro cut hcut hsame
    rw [Upload.Tailed] at hcut
    rw [hempty]
    omega
  cases progress_run q run hbytes hhead with
  | head waiting short => omega
  | body body buf received bytes stage =>
    cases stage with
    | head stage part short fits => omega
    | blank stage at_end fits content_end heads => omega
    | tail stage long short fits heads tailed => omega
  | refused closed none fault =>
    rw [none]
    refine ⟨fun h => absurd h.symm (List.cons_ne_nil _ _), ?_⟩
    rintro ⟨hlimit, hcontent⟩
    rcases fault with hlonger | ⟨cut, hcut, htoo_long⟩
    · rcases hcontent with ⟨-, hsame, -⟩ | ⟨-, cut, -, hcut⟩
      · omega
      · rw [Upload.Tailed] at hcut
        omega
    · have hfits := hlimit cut hcut
      omega
  | lost none bytes heads fault =>
    rw [none]
    refine ⟨fun h => absurd h.symm (List.cons_ne_nil _ _), ?_⟩
    rintro ⟨-, ⟨hsome, hsame, -⟩ | ⟨-, cut, hcut, hcut_tailed⟩⟩
    · rw [Ne, hempty] at hsome
      omega
    · have hhead := heads cut hcut
      rw [Upload.Tailed] at hcut_tailed
      rw [Upload.InHeads] at hhead
      omega
  | @invoked r body B first late content fault =>
    have honly := first.only_iff q.content
    rw [hcome] at honly
    rw [honly]
    have hlimit : ∀ cut ∈ cuts events,
        cut < q.head.length + MAX_HTTP_HEAD_LEN ∨ q.part_end ≤ cut := by
      intro cut hcut
      rcases first.later cut hcut with (hheads | ⟨-, heq⟩) | hlater
      · exact Or.inl hheads.2
      · exact Or.inr heq.ge
      · exact Or.inr (late.le.trans hlater)
    constructor
    · rintro ⟨hr, hbody⟩
      have hsame := (content hr).mp hbody
      refine ⟨hlimit, Or.inl ⟨fun hnil => (fault hnil).1 hsame, hsame, fun cut hcut => ?_⟩⟩
      have hle := cut_le hcut
      rcases first.later cut hcut with (hheads | ⟨-, heq⟩) | hlater
      · exact Or.inl hheads.1.le
      · exact Or.inl heq.le
      · exact Or.inr (by omega)
    · rintro ⟨-, ⟨-, hsame, hcuts⟩ | ⟨hnil, cut, hcut, hcut_tailed⟩⟩
      · have hr := (hcuts r first.cut).resolve_left (Nat.not_le.mpr late)
        exact ⟨hr, (content hr).mpr hsame⟩
      · -- the first cut behind the head of the part was the one with the invocation
        obtain ⟨hdifferent, hroom⟩ := fault hnil
        rw [Upload.Tailed] at hcut_tailed
        rw [hempty] at hnil
        have hat : cut = q.part_end := by omega
        rcases first.later cut hcut with (hheads | ⟨hB, -⟩) | hlater
        · have hbefore := hheads.1
          omega
        · have hroom := hroom hB
          omega
        · omega
  | invoked_last first tailed =>
    obtain ⟨cut, hcut, hcut_tailed⟩ := tailed
    have honly := first.only_iff q.content
    rw [hcome] at honly
    rw [honly]
    constructor
    · rintro ⟨-, hnil⟩
      refine ⟨fun cut hcut => ?_, Or.inr ⟨hnil.symm, cut, hcut, hcut_tailed⟩⟩
      rcases first.later cut hcut with (hheads | hbehind) | hlater
      · exact Or.inl hheads.2
      · exact Or.inr hbehind
      · exact Or.inr (by omega)
    · rintro ⟨-, ⟨hsome, hsame, -⟩ | ⟨hnil, -⟩⟩
      · exact absurd (htailed cut hcut_tailed hsame) hsome
      · exact ⟨rfl, hnil.symm⟩

/-- An upload of two bytes. -/
def small_upload : Upload where
  head := ("POST /u HTTP/1.1\r\nContent-Type: multipart/form-data; boundary=xyz\r\n"
    ++ "Content-Length: 64\r\n\r\n").toList
  req_head :=
    { _method := "POST".toList
      _url_path := "/u".toList
      _headers :=
        [("Content-Length".toList, " 64".toList),
          ("Content-Type".toList, " multipart/form-data; boundary=xyz".toList)] }
  part_head := "--xyz\r\nContent-Disposition: form-data; name=\"f\"".toList
  content := "hi".toList
  boundary := "xyz".toList
  body := "--xyz\r\nContent-Disposition: form-data; name=\"f\"\r\n\r\nhi\r\n--xyz--\r\n".toList
  ends := by decide +kernel
  text := by decide +kernel
  parsed := by decide +kernel
  method := by decide +kernel
  length := by decide +kernel
  part := by decide +kernel
  part_ends := by decide +kernel
  multipart := by decide +kernel

/-- In one chunk. -/
theorem delivered_iff_small :
    (step {} (.recv small_upload.bytes {})).invocations
        = [(small_upload.bytes.length, small_upload.content)]
      ↔ small_upload.Delivered [.recv small_upload.bytes {}] :=
  delivered_iff small_upload ((Run.start {}).step (by decide +kernel)) (List.append_nil _)

/-- With the first byte of the content in one chunk, the second in the next: the
handler is invoked with the first, and again with both. -/
theorem content_cut : ∃ (q : Upload) (events : List Event) (c : Conn),
    Run {} events c ∧ arrived events = q.bytes
      ∧ c.invocations = [(q.part_end + 1, "h".toList), (q.bytes.length, "hi".toList)]
      ∧ c.invocations ≠ [(q.bytes.length, q.content)] :=
  ⟨small_upload,
    [.recv (small_upload.bytes.take (small_upload.part_end + 1)) {},
      .recv (small_upload.bytes.drop (small_upload.part_end + 1)) {}], _,
    ((Run.start {}).step (by decide +kernel)).step (by decide +kernel),
    by decide +kernel, by decide +kernel, by decide +kernel⟩

end RxNetCap.Http
