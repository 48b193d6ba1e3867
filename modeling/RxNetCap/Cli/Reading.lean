/-
How the command-line client reads an answer: `recv_all` and the second half of
`send_http_post` of `tools/rxcli_main.cpp`.

What `recv_all` has found out is a matter of the bytes it has and not of how they
came (`take_read`), and the length is announced by the head alone
(`announced_append`). So it ends with the read that brings the last byte of a
response, and not before (`reads_framed`).

What the server writes is read back by it as the status and the body
(`Announces.parse`). Nothing tells the client that a connection was closed before
the end (`truncated_accepted`).
-/
import RxNetCap.Capture.Signature
import RxNetCap.Http.Lines
import RxNetCap.Http.Wire
import RxNetCap.Lib.Json

set_option autoImplicit false

namespace RxNetCap.Cli

open RxNetCap.Capture RxNetCap.Http RxNetCap.Pdef RxNetCap.JsonText

/-! ## Reading -/

/-- `strtoll` in base 10: without digits it is 0, and beyond the range the end of
it. -/
def strtoll (s : CStr) : ℤ :=
  let s := s.dropWhile Http.is_space
  let digits := (if s.head? = some '-' ∨ s.head? = some '+' then s.tail else s).takeWhile Char.isDigit
  let n : ℤ := Nat.ofDigitChars 10 digits 0
  if s.head? = some '-' then max (-n) (-2 ^ 63) else min n (2 ^ 63 - 1)

/-- `std::atoi` -/
def atoi (s : CStr) : ℤ := to_int (strtoll s)

/-- `find` from a place on. -/
def find_from (pat : CStr) (pos : ℕ) (s : CStr) : Option ℕ := (Http.find pat (s.drop pos)).map (· + pos)

def length_label : CStr := "Content-Length:".toList

/-- Where the value of a header begins, behind its label and the blanks. -/
def value_start (cl_pos : ℕ) (out : CStr) : ℕ :=
  let behind := cl_pos + length_label.length
  behind + ((out.drop behind).takeWhile (· = ' ')).length

/-- `content_length`, when a head that ends there announces one. -/
def announced (header_end_pos : ℕ) (out : CStr) : Option ℤ :=
  match Http.find length_label out with
  | none => none
  | some cl_pos =>
    if cl_pos < header_end_pos then
      match find_from CRLF cl_pos out with
      | none => none
      | some cl_end_line =>
        if cl_end_line ≤ header_end_pos then
          let start := value_start cl_pos out
          some (strtoll (c_str ((out.drop start).take (cl_end_line - start))))
        else none
    else none

/-- A negative length announces nothing. -/
def expected_total (header_end_pos : ℕ) (out : CStr) : Option ℕ :=
  match announced header_end_pos out with
  | none => none
  | some content_length => if content_length ≥ 0 then some (header_end_pos + content_length.toNat) else none

/-- What `recv_all` knows. -/
structure Reader where
  out : CStr := []
  header_end_pos : Option ℕ := none
  expected_total : Option ℕ := none
  deriving DecidableEq, Repr

/-- With a chunk that `recv` has given. -/
def Reader.take (chunk : CStr) (r : Reader) : Reader :=
  let r := { r with out := r.out ++ chunk }
  match r.header_end_pos with
  | some _ => r
  | none =>
    match Http.find CRLF2 r.out with
    | none => r
    | some pos => { r with
      header_end_pos := some (pos + 4)
      expected_total := Cli.expected_total (pos + 4) r.out }

def Reader.complete (r : Reader) : Bool :=
  match r.expected_total with
  | none => false
  | some expected_total => r.out.length ≥ expected_total

/-- What a call of `recv` comes to. Data without bytes is the end of the
connection. -/
inductive Received where
  | data (chunk : CStr)
  | interrupted
  | failed
  deriving DecidableEq, Repr

/-- The result with what was read; `none` while it waits for more. -/
def recv_all (r : Reader) : List Received → Option (Bool × CStr)
  | [] => none
  | .data chunk :: received =>
    if chunk = [] then some (true, r.out)
    else
      let r := r.take chunk
      if r.complete then some (true, r.out) else recv_all r received
  | .interrupted :: received => recv_all r received
  | .failed :: _ => some (false, r.out)

/-- The status code and the body of a response. -/
def parse_response (response : CStr) : Except String (ℤ × CStr) :=
  match Http.find CRLF response with
  | none => .error "malformed HTTP response"
  | some status_end =>
    let status_line := response.take status_end
    if ¬ "HTTP/".toList <+: status_line then .error "unexpected HTTP status line"
    else
      match Http.find [' '] status_line with
      | none => .error "unexpected HTTP status line"
      | some first_space =>
        let code_str :=
          match find_from [' '] (first_space + 1) status_line with
          | none => status_line.drop (first_space + 1)
          | some second_space =>
            (status_line.drop (first_space + 1)).take (second_space - first_space - 1)
        match Http.find CRLF2 response with
        | none => .error "malformed HTTP headers"
        | some header_end => .ok (atoi (c_str code_str), response.drop (header_end + 4))

/-! ## The bytes decide -/

section Heads

variable {pat head s : CStr} {n : ℕ}

/-- What is found is there. -/
theorem find_there (h : Http.find pat s = some n) : pat <+: s.drop n := by
  induction s generalizing n with
  | nil =>
    rw [Http.find] at h
    split at h
    · next hpat => exact hpat ▸ List.nil_prefix
    · cases h
  | cons c s ih =>
    rw [Http.find] at h
    split at h
    · next hprefix =>
      cases h
      exact hprefix
    · obtain ⟨k, hk, rfl⟩ := Option.map_eq_some_iff.mp h
      exact ih hk

/-- What is there is found. -/
theorem find_isSome (pat before after : CStr) : (Http.find pat (before ++ pat ++ after)).isSome := by
  induction before with
  | nil =>
    rw [List.nil_append]
    cases pat with
    | nil => cases after <;> rfl
    | cons x pat =>
      have hhere : Http.find (x :: pat) (x :: pat ++ after) = some 0 := if_pos (List.prefix_append (x :: pat) after)
      rw [hhere]
      rfl
  | cons c before ih =>
    rw [List.cons_append, List.cons_append, Http.find]
    split_ifs
    · rfl
    · rw [Option.isSome_map]
      exact ih

theorem find_front (rest : CStr) (h : Http.find pat (s ++ rest) = some n) (hn : n + pat.length ≤ s.length) :
    Http.find pat s = some n := by
  have hthere : pat <+: s.drop n := by
    have hwhole := find_there h
    rw [List.drop_append_of_le_length (by omega)] at hwhole
    exact List.prefix_of_prefix_length_le hwhole (List.prefix_append _ _) (by rw [List.length_drop]; omega)
  obtain ⟨after, hafter⟩ := hthere
  have hsplit : s = s.take n ++ pat ++ after := by rw [List.append_assoc, hafter, List.take_append_drop]
  have hsome := find_isSome pat (s.take n) after
  rw [← hsplit] at hsome
  obtain ⟨k, hk⟩ := Option.isSome_iff_exists.mp hsome
  rw [find_append hk] at h
  rw [hk, Option.some.inj h]

theorem takeWhile_stop {p : Char → Bool} {x : Char} (hx : p x = false) (before after : CStr) :
    (before ++ x :: after).takeWhile p = before.takeWhile p := by
  induction before with
  | nil =>
    rw [List.nil_append, List.takeWhile_cons_of_neg (by rw [hx]; exact Bool.false_ne_true)]
    rfl
  | cons c before ih =>
    rw [List.cons_append, List.takeWhile_cons, List.takeWhile_cons, ih]

/-- A head is complete. -/
def Ends (head : CStr) : Prop := Http.find CRLF2 head = some (head.length - 4)

theorem Ends.split (h : Ends head) : ∃ front, head = front ++ CRLF2 := by
  have hle := find_le h
  obtain ⟨after, hafter⟩ := find_there h
  have hnil : after = [] := by
    have hlength := congrArg List.length hafter
    rw [List.length_append, List.length_drop, show CRLF2.length = 4 from rfl] at hlength
    rw [show CRLF2.length = 4 from rfl] at hle
    exact List.eq_nil_of_length_eq_zero (by omega)
  refine ⟨head.take (head.length - 4), ?_⟩
  rw [hnil, List.append_nil] at hafter
  rw [hafter, List.take_append_drop]

/-- A label does not go across a character that it does not have. -/
theorem find_apart {x : Char} {before after : CStr} (hx : x ∉ pat)
    (h : Http.find pat (before ++ x :: after) = some n) (hn : n ≤ before.length) :
    n + pat.length ≤ before.length := by
  by_contra hacross
  have hthere := find_there h
  have hsplit : (before ++ x :: after).drop n = (before.drop n ++ [x]) ++ after := by
    rw [List.drop_append_of_le_length hn, List.append_assoc]
    rfl
  rw [hsplit] at hthere
  have hin : before.drop n ++ [x] <+: pat := by
    refine List.prefix_of_prefix_length_le (List.prefix_append _ after) hthere ?_
    rw [List.length_append, List.length_drop, List.length_singleton]
    omega
  exact hx (hin.subset (List.mem_append_right _ (List.mem_singleton_self x)))

/-- The text of a head that a label without a line break is found in. -/
theorem Ends.label (h : Ends head) (hpat : '\n' ∉ pat) (rest : CStr)
    (hfound : Http.find pat (head ++ rest) = some n) (hn : n < head.length) : Http.find pat head = some n := by
  obtain ⟨front, rfl⟩ := h.split
  have hlast : front ++ CRLF2 = (front ++ "\r\n\r".toList) ++ ['\n'] := by
    rw [List.append_assoc]
    rfl
  have hroom : n + pat.length ≤ (front ++ "\r\n\r".toList).length := by
    rw [hlast, List.append_assoc] at hfound
    refine find_apart hpat hfound ?_
    rw [hlast, List.length_append, List.length_singleton] at hn
    exact Nat.lt_succ_iff.mp hn
  refine find_front rest hfound (hroom.trans ?_)
  rw [hlast]
  exact (List.prefix_append _ _).length_le

/-- **The head alone** announces the length. -/
theorem announced_append (h : Ends head) (rest : CStr) :
    announced head.length (head ++ rest) = announced head.length head := by
  have hnewline : '\n' ∉ length_label := by decide
  have hlabel : length_label.length = 15 := by decide
  unfold announced
  cases hwhole : Http.find length_label (head ++ rest) with
  | none =>
    cases hhead : Http.find length_label head with
    | none => rfl
    | some k =>
      rw [find_append hhead] at hwhole
      cases hwhole
  | some cl_pos =>
    dsimp only
    by_cases hin : cl_pos < head.length
    · have hhead := h.label hnewline rest hwhole hin
      have hroom := find_le hhead
      rw [hhead, if_pos hin]
      dsimp only
      rw [if_pos hin]
      obtain ⟨front, hfront⟩ := h.split
      have hlength : head.length = front.length + 4 := by
        rw [hfront, List.length_append]
        rfl
      have hfits : cl_pos + 15 ≤ front.length := by
        have hapart : Http.find length_label (front ++ '\r' :: "\n\r\n".toList) = some cl_pos := by
          rw [← hhead, hfront]
          rfl
        exact hlabel ▸ find_apart (by decide) hapart (by omega)
      -- the line of the label has its end in the head
      obtain ⟨e, he⟩ : ∃ e, Http.find CRLF (head.drop cl_pos) = some e := by
        refine Option.isSome_iff_exists.mp ?_
        have hsplit : head.drop cl_pos = (front ++ CRLF).drop cl_pos ++ CRLF ++ [] := by
          rw [List.append_nil, ← List.drop_append_of_le_length (by
            rw [List.length_append, show CRLF.length = 2 from rfl]
            omega), List.append_assoc, hfront]
          rfl
        rw [hsplit]
        exact find_isSome CRLF _ []
      have hline : find_from CRLF cl_pos (head ++ rest) = find_from CRLF cl_pos head := by
        unfold find_from
        rw [List.drop_append_of_le_length hin.le, find_append he, he]
      have hstart : value_start cl_pos (head ++ rest) = value_start cl_pos head := by
        unfold value_start
        dsimp only
        rw [hlabel, hfront, List.append_assoc, List.drop_append_of_le_length hfits,
          List.drop_append_of_le_length hfits]
        show _ + ((front.drop _ ++ '\r' :: _).takeWhile _).length = _ + ((front.drop _ ++ '\r' :: _).takeWhile _).length
        rw [takeWhile_stop (by decide), takeWhile_stop (by decide)]
      have hle : value_start cl_pos head ≤ head.length := by
        have htake := (List.takeWhile_prefix (· = ' ') (l := head.drop (cl_pos + length_label.length))).length_le
        rw [List.length_drop] at htake
        unfold value_start
        dsimp only
        omega
      rw [hline, hstart]
      have hsame : find_from CRLF cl_pos head = some (e + cl_pos) := by
        unfold find_from
        rw [he]
        rfl
      rw [hsame]
      dsimp only
      by_cases hend : e + cl_pos ≤ head.length
      · rw [if_pos hend, if_pos hend, List.drop_append_of_le_length hle, List.take_append_of_le_length (by
          rw [List.length_drop]
          omega)]
      · rw [if_neg hend, if_neg hend]
    · rw [if_neg hin]
      cases hhead : Http.find length_label head with
      | none => rfl
      | some k =>
        have hroom := find_le hhead
        rw [find_append hhead] at hwhole
        cases hwhole
        omega

theorem expected_total_append (h : Ends head) (rest : CStr) :
    expected_total head.length (head ++ rest) = expected_total head.length head := by
  unfold expected_total
  rw [announced_append h]

/-- What is found first comes to an end there. -/
theorem ends_take (h : Http.find CRLF2 s = some n) :
    Ends (s.take (n + 4)) ∧ (s.take (n + 4)).length = n + 4 := by
  have hle := find_le h
  rw [show CRLF2.length = 4 from rfl] at hle
  have hlength : (s.take (n + 4)).length = n + 4 := List.length_take_of_le hle
  refine ⟨?_, hlength⟩
  have hsplit : s = s.take (n + 4) ++ s.drop (n + 4) := (List.take_append_drop _ s).symm
  rw [hsplit] at h
  unfold Ends
  rw [hlength, Nat.add_sub_cancel]
  exact find_front _ h (by rw [hlength]; exact Nat.le_refl _)

end Heads

/-- What `recv_all` knows of the bytes. -/
def Reader.read (out : CStr) : Reader :=
  match Http.find CRLF2 out with
  | none => { out := out }
  | some pos => {
    out := out
    header_end_pos := some (pos + 4)
    expected_total := Cli.expected_total (pos + 4) out }

/-- **What is known** does not depend on how the bytes have come. -/
theorem take_read (out chunk : CStr) : (Reader.read out).take chunk = Reader.read (out ++ chunk) := by
  unfold Reader.read Reader.take
  cases hfound : Http.find CRLF2 out with
  | none => rfl
  | some pos =>
    obtain ⟨hends, hlength⟩ := ends_take hfound
    have hhead : ∀ more, expected_total (pos + 4) (out ++ more) = expected_total (pos + 4) (out.take (pos + 4)) := by
      intro more
      have hsplit : out ++ more = out.take (pos + 4) ++ (out.drop (pos + 4) ++ more) := by
        rw [← List.append_assoc, List.take_append_drop]
      have happend := expected_total_append hends (out.drop (pos + 4) ++ more)
      rw [hlength] at happend
      rw [hsplit, happend]
    have hsame : expected_total (pos + 4) out = expected_total (pos + 4) (out ++ chunk) := by
      rw [hhead chunk, ← hhead [], List.append_nil]
    rw [find_append hfound]
    dsimp only
    rw [hsame]

/-! ## The end of a response -/

/-- The bytes of the data. -/
def Received.bytes : Received → CStr
  | .data chunk => chunk
  | _ => []

/-- Neither the end of the connection nor a failure. -/
def Received.going : Received → Bool
  | .data chunk => chunk ≠ []
  | .interrupted => true
  | .failed => false

section Whole

variable {whole : CStr}

/-- A text that `recv_all` takes for whole when all of it is there. -/
def Whole (whole : CStr) : Prop := ∀ out, out <+: whole → ((Reader.read out).complete = true ↔ out = whole)

theorem recv_all_whole (hwhole : Whole whole) (received : List Received) (out : CStr) (hmore : out ≠ whole)
    (hgoing : ∀ r ∈ received, r.going = true) (hbytes : out ++ received.flatMap Received.bytes <+: whole) :
    recv_all (Reader.read out) received
      = if out ++ received.flatMap Received.bytes = whole then some (true, whole) else none := by
  induction received generalizing out with
  | nil =>
    rw [List.flatMap_nil, List.append_nil, if_neg hmore]
    rfl
  | cons r received ih =>
    have hlater : ∀ r' ∈ received, r'.going = true := fun r' hr' => hgoing r' (List.mem_cons_of_mem r hr')
    have hfirst : r.going = true := hgoing r List.mem_cons_self
    cases r with
    | data chunk =>
      have hchunk : chunk ≠ [] := of_decide_eq_true hfirst
      rw [List.flatMap_cons, ← List.append_assoc] at hbytes ⊢
      change (out ++ chunk) ++ received.flatMap Received.bytes <+: whole at hbytes
      show recv_all _ (.data chunk :: received)
        = if (out ++ chunk) ++ received.flatMap Received.bytes = whole then _ else _
      have hprefix : out ++ chunk <+: whole := (List.prefix_append _ _).trans hbytes
      rw [recv_all, if_neg hchunk, take_read]
      dsimp only
      by_cases hall : out ++ chunk = whole
      · -- nothing is left for the rest
        have hnil : received.flatMap Received.bytes = [] := by
          have hlength := hbytes.length_le
          rw [List.length_append, hall] at hlength
          exact List.eq_nil_of_length_eq_zero (by omega)
        rw [if_pos ((hwhole _ hprefix).mpr hall), hnil, List.append_nil, if_pos hall]
        have hread : (Reader.read (out ++ chunk)).out = out ++ chunk := by
          unfold Reader.read
          split <;> rfl
        rw [hread, hall]
      · rw [if_neg fun hcomplete => hall ((hwhole _ hprefix).mp hcomplete)]
        exact ih (out ++ chunk) hall hlater hbytes
    | interrupted => exact ih out hmore hlater hbytes
    | failed => cases hfirst

end Whole

/-! ## Numbers -/

section Numbers

variable {n : ℤ}

theorem not_in_decimal {c : Char} (hdigit : c.isDigit = false) (hminus : c ≠ '-') : c ∉ Capture.decimal n := by
  intro hmem
  rcases decimal_chars n c hmem with hc | hc
  · rw [hdigit] at hc
    cases hc
  · exact hminus hc

theorem decimal_ne_nil (n : ℤ) : Capture.decimal n ≠ [] := by
  unfold Capture.decimal
  split_ifs
  · exact List.cons_ne_nil _ _
  · exact toDigits_ne_nil _

/-- A number is read back up to the end of the range. -/
theorem strtoll_decimal (hlow : -2 ^ 63 ≤ n) (hhigh : n < 2 ^ 63) : strtoll (Capture.decimal n) = n := by
  have hspace : ∀ c : Char, c.isDigit = true → Http.is_space c = false := by
    intro c hc
    unfold Http.is_space
    refine decide_eq_false fun hmem => ?_
    have hall : (" \t\n\x0b\x0c\r".toList).all (fun c => c.isDigit = false) = true := by decide
    have hnot := of_decide_eq_true (List.all_eq_true.mp hall c hmem)
    rw [hc] at hnot
    cases hnot
  obtain ⟨x, digits, hdigits⟩ := List.exists_cons_of_ne_nil (toDigits_ne_nil n.natAbs)
  have hall := toDigits_digits n.natAbs
  have htake : (Nat.toDigits 10 n.natAbs).takeWhile Char.isDigit = Nat.toDigits 10 n.natAbs :=
    List.takeWhile_eq_self_iff.mpr hall
  have hx : x.isDigit = true := hall x (hdigits ▸ List.mem_cons_self)
  unfold Capture.decimal
  by_cases hneg : n < 0
  · rw [if_pos hneg]
    unfold strtoll
    have hdrop : ('-' :: Nat.toDigits 10 n.natAbs).dropWhile Http.is_space = '-' :: Nat.toDigits 10 n.natAbs :=
      List.dropWhile_cons_of_neg (by decide)
    dsimp only
    rw [hdrop, List.head?_cons, if_pos rfl, if_pos (Or.inl rfl), List.tail_cons, htake, Nat.ofDigitChars_ten_toDigits]
    omega
  · rw [if_neg hneg]
    unfold strtoll
    have hdrop : (Nat.toDigits 10 n.natAbs).dropWhile Http.is_space = Nat.toDigits 10 n.natAbs := by
      rw [hdigits]
      exact List.dropWhile_cons_of_neg (by rw [hspace x hx]; exact Bool.false_ne_true)
    have hsign : ∀ c : Char, c.isDigit = false → (Nat.toDigits 10 n.natAbs).head? ≠ some c := by
      intro c hc hhead
      rw [hdigits] at hhead
      cases hhead
      rw [hx] at hc
      cases hc
    dsimp only
    rw [hdrop, if_neg (not_or.mpr ⟨hsign '-' (by decide), hsign '+' (by decide)⟩), if_neg (hsign '-' (by decide)),
      htake, Nat.ofDigitChars_ten_toDigits]
    omega

theorem atoi_decimal (hlow : -2 ^ 31 ≤ n) (hhigh : n < 2 ^ 31) : atoi (Capture.decimal n) = n := by
  unfold atoi
  rw [strtoll_decimal (by omega) (by omega)]
  unfold to_int
  rw [Int.bmod_eq_of_le] <;> omega

end Numbers

/-! ## What the server writes -/

def header_line (header : CStr × CStr) : CStr := header.1 ++ ": ".toList ++ header.2

def status_line (head : http_res_head_para) : CStr :=
  head._version ++ " ".toList ++ Capture.decimal head._response_code ++ " ".toList
    ++ (if head._response_str ≠ [] then get_response_str head._response_code else [])

/-- A head is a text of lines. -/
theorem to_head_str_lines (head : http_res_head_para) :
    head.to_head_str = lines_text (status_line head :: head._headers.map header_line) ++ CRLF := by
  unfold http_res_head_para.to_head_str http_res_head_para.first_line status_line
  rw [lines_text_cons, lines_text, List.flatMap_map]
  rfl

/-- A header that can be sent: no line ends in it, and it does not look like the
length. -/
structure Plain (header : CStr × CStr) : Prop where
  name : '\r' ∉ header.1
  value : '\r' ∉ header.2
  other : header.1 = "Content-Length".toList ∨ ¬ length_label <:+: header_line header

section Headers

variable {key value : CStr} {headers : Headers}

theorem insert_mem {header : CStr × CStr} (h : header ∈ Headers.insert key value headers) :
    header = (key, value) ∨ header ∈ headers := by
  induction headers with
  | nil => exact .inl (List.mem_singleton.mp h)
  | cons e headers ih =>
    rw [Headers.insert] at h
    split_ifs at h
    · exact .inr h
    · rcases List.mem_cons.mp h with h | h
      · exact .inl h
      · exact .inr h
    · rcases List.mem_cons.mp h with h | h
      · exact .inr (h ▸ List.mem_cons_self)
      · rcases ih h with h | h
        · exact .inl h
        · exact .inr (List.mem_cons_of_mem e h)

/-- Where a header is set, with what is before and behind it. -/
theorem set_split (key value : CStr) (headers : Headers) : ∃ before after,
    Headers.set key value headers = before ++ (key, value) :: after ∧
      (∀ e ∈ before, e ∈ headers ∧ e.1 ≠ key) ∧ ∀ e ∈ after, e ∈ headers := by
  induction headers with
  | nil => exact ⟨[], [], rfl, fun e he => absurd he List.not_mem_nil, fun e he => absurd he List.not_mem_nil⟩
  | cons e headers ih =>
    rw [Headers.set]
    split_ifs with hkey hless
    · refine ⟨[], headers, by rw [hkey]; rfl, fun e he => absurd he List.not_mem_nil, ?_⟩
      intro e' he'
      exact List.mem_cons_of_mem e he'
    · exact ⟨[], e :: headers, rfl, fun e he => absurd he List.not_mem_nil, fun e' he' => he'⟩
    · obtain ⟨before, after, heq, hbefore, hafter⟩ := ih
      refine ⟨e :: before, after, by rw [heq]; rfl, ?_, ?_⟩
      · intro e' he'
        rcases List.mem_cons.mp he' with rfl | he'
        · exact ⟨List.mem_cons_self, fun h => hkey h.symm⟩
        · exact ⟨List.mem_cons_of_mem e (hbefore e' he').1, (hbefore e' he').2⟩
      · exact fun e' he' => List.mem_cons_of_mem e (hafter e' he')

/-- Another header that is set goes before one or behind it. -/
theorem set_beside {e : CStr × CStr} (hkey : e.1 ≠ key) (before after : Headers) : ∃ before' after',
    Headers.set key value (before ++ e :: after) = before' ++ e :: after' ∧
      (∀ x ∈ before', x = (key, value) ∨ x ∈ before) ∧ ∀ x ∈ after', x = (key, value) ∨ x ∈ after := by
  induction before with
  | nil =>
    rw [List.nil_append, Headers.set, if_neg fun h => hkey h.symm]
    split_ifs
    · refine ⟨[(key, value)], after, rfl, ?_, fun x hx => .inr hx⟩
      exact fun x hx => .inl (List.mem_singleton.mp hx)
    · obtain ⟨b, a, heq, hb, ha⟩ := set_split key value after
      refine ⟨[], Headers.set key value after, rfl, fun x hx => absurd hx List.not_mem_nil, ?_⟩
      intro x hx
      rw [heq] at hx
      rcases List.mem_append.mp hx with hx | hx
      · exact .inr (hb x hx).1
      · rcases List.mem_cons.mp hx with hx | hx
        · exact .inl hx
        · exact .inr (ha x hx)
  | cons first before ih =>
    rw [List.cons_append, Headers.set]
    split_ifs with hsame hless
    · refine ⟨(first.1, value) :: before, after, rfl, ?_, fun x hx => .inr hx⟩
      intro x hx
      rcases List.mem_cons.mp hx with rfl | hx
      · exact .inl (by rw [hsame])
      · exact .inr (List.mem_cons_of_mem first hx)
    · refine ⟨(key, value) :: first :: before, after, rfl, ?_, fun x hx => .inr hx⟩
      intro x hx
      rcases List.mem_cons.mp hx with hx | hx
      · exact .inl hx
      · exact .inr hx
    · obtain ⟨before', after', heq, hbefore, hafter⟩ := ih
      refine ⟨first :: before', after', by rw [heq]; rfl, ?_, hafter⟩
      intro x hx
      rcases List.mem_cons.mp hx with hx | hx
      · exact .inr (hx ▸ List.mem_cons_self)
      · rcases hbefore x hx with hx | hx
        · exact .inl hx
        · exact .inr (List.mem_cons_of_mem first hx)

end Headers

/-- A head that announces a length, in the first of its lines that could. -/
structure Announces (head : http_res_head_para) (length : ℕ) : Prop where
  version : head._version = "HTTP/1.1".toList
  low : -2 ^ 31 ≤ head._response_code
  high : head._response_code < 2 ^ 31
  headers : ∃ before after,
    head._headers = before ++ ("Content-Length".toList, Capture.decimal length) :: after ∧
      (∀ e ∈ before ++ after, '\r' ∉ e.1 ∧ '\r' ∉ e.2) ∧ ∀ e ∈ before, ¬ length_label <:+: header_line e

theorem insert_all_mem (headers start : Headers) {header : CStr × CStr}
    (h : header ∈ headers.foldl (fun headers header => Headers.insert header.1 header.2 headers) start) :
    header ∈ headers ∨ header ∈ start := by
  induction headers generalizing start with
  | nil => exact .inr h
  | cons first headers ih =>
    rcases ih _ h with h | h
    · exact .inl (List.mem_cons_of_mem first h)
    · rcases insert_mem h with h | h
      · exact .inl (h ▸ List.mem_cons_self)
      · exact .inr h

/-- The head of an answer that can be sent. -/
theorem fill_response_headers_announces {answer : Answer} (hplain : ∀ header ∈ answer.headers, Plain header)
    (hlow : -2 ^ 31 ≤ answer.status) (hhigh : answer.status < 2 ^ 31) :
    Announces (fill_response_headers answer {}) answer.body.length := by
  refine ⟨rfl, hlow, hhigh, ?_⟩
  obtain ⟨before, after, hset, hbefore, hafter⟩ := set_split "Content-Length".toList
    (Capture.decimal answer.body.length)
    (answer.headers.foldl (fun headers header => Headers.insert header.1 header.2 headers) [])
  have hall : ∀ e ∈ before ++ after, Plain e := by
    intro e he
    have hmem : e ∈ answer.headers.foldl (fun headers header => Headers.insert header.1 header.2 headers) [] := by
      rcases List.mem_append.mp he with he | he
      · exact (hbefore e he).1
      · exact hafter e he
    rcases insert_all_mem answer.headers [] hmem with h | h
    · exact hplain e h
    · exact absurd h List.not_mem_nil
  obtain ⟨before', after', hset', hbefore', hafter'⟩ :=
    @set_beside "Connection".toList "close".toList ("Content-Length".toList, Capture.decimal answer.body.length)
      (show "Content-Length".toList ≠ "Connection".toList by decide) before after
  refine ⟨before', after', ?_, ?_, ?_⟩
  · show Headers.set _ _ (Headers.set _ _ _) = _
    rw [hset, hset']
  · intro e he
    have hcases : e = ("Connection".toList, "close".toList) ∨ e ∈ before ++ after := by
      rcases List.mem_append.mp he with he | he
      · exact (hbefore' e he).imp_right (List.mem_append_left _)
      · exact (hafter' e he).imp_right (List.mem_append_right _)
    rcases hcases with rfl | he
    · decide
    · exact ⟨(hall e he).name, (hall e he).value⟩
  · intro e he
    rcases hbefore' e he with rfl | he
    · decide
    · exact (hall e (List.mem_append_left _ he)).other.resolve_left (hbefore e he).2

section Framed

variable {head : http_res_head_para} {body : CStr}

theorem get_response_str_chars (status_code : ℤ) :
    '\r' ∉ get_response_str status_code ∧ ':' ∉ get_response_str status_code := by
  have hall : response_list.all (fun entry => ¬ entry.2.toList.elem '\r' ∧ ¬ entry.2.toList.elem ':') = true := by
    decide +kernel
  unfold get_response_str
  cases hfound : response_list.find? fun entry => entry.1 = status_code with
  | none => exact ⟨List.not_mem_nil, List.not_mem_nil⟩
  | some entry =>
    obtain ⟨hreturn, hcolon⟩ := of_decide_eq_true (List.all_eq_true.mp hall entry (List.mem_of_find?_eq_some hfound))
    exact ⟨fun h => hreturn (List.elem_eq_true_of_mem h), fun h => hcolon (List.elem_eq_true_of_mem h)⟩

/-- The first line has neither a return nor a colon. -/
theorem status_line_chars (h : head._version = "HTTP/1.1".toList) :
    '\r' ∉ status_line head ∧ ':' ∉ status_line head := by
  obtain ⟨hreturn, hcolon⟩ := get_response_str_chars head._response_code
  unfold status_line
  rw [h]
  simp only [List.mem_append, not_or]
  refine ⟨⟨⟨⟨⟨by decide, by decide⟩, not_in_decimal (by decide) (by decide)⟩, by decide⟩, ?_⟩,
    ⟨⟨⟨⟨by decide, by decide⟩, not_in_decimal (by decide) (by decide)⟩, by decide⟩, ?_⟩⟩
  · split_ifs
    · exact hreturn
    · exact List.not_mem_nil
  · split_ifs
    · exact hcolon
    · exact List.not_mem_nil

theorem return_not_in_label : '\r' ∉ "Content-Length".toList := by decide

theorem header_line_isLine {e : CStr × CStr} (h : '\r' ∉ e.1 ∧ '\r' ∉ e.2) : IsLine (header_line e) := by
  refine ⟨?_, ?_⟩
  · unfold header_line
    simp
  · unfold header_line
    rw [List.mem_append, List.mem_append, not_or, not_or]
    exact ⟨⟨h.1, by decide⟩, h.2⟩

/-- Its lines, and the one with the length among them. -/
theorem Announces.lines {length : ℕ} (h : Announces head length) : ∃ before after,
    status_line head :: head._headers.map header_line
      = (status_line head :: before) ++ (length_label ++ ' ' :: Capture.decimal length) :: after ∧
    (∀ l ∈ status_line head :: before, ¬ length_label <:+: l) ∧
      ∀ l ∈ status_line head :: head._headers.map header_line, IsLine l := by
  obtain ⟨before, after, hheaders, hreturn, hlabel⟩ := h.headers
  obtain ⟨hline, hcolon⟩ := status_line_chars h.version
  refine ⟨before.map header_line, after.map header_line, ?_, ?_, ?_⟩
  · rw [hheaders, List.map_append, List.map_cons]
    rfl
  · intro l hl
    rcases List.mem_cons.mp hl with rfl | hl
    · exact fun hin => hcolon (hin.subset (by decide))
    · obtain ⟨e, he, rfl⟩ := List.mem_map.mp hl
      exact hlabel e he
  · intro l hl
    rcases List.mem_cons.mp hl with rfl | hl
    · refine ⟨?_, hline⟩
      unfold status_line
      rw [h.version]
      simp
    · obtain ⟨e, he, rfl⟩ := List.mem_map.mp hl
      rw [hheaders] at he
      have hcases : e = ("Content-Length".toList, Capture.decimal length) ∨ e ∈ before ++ after := by
        rcases List.mem_append.mp he with he | he
        · exact .inr (List.mem_append_left _ he)
        · exact (List.mem_cons.mp he).imp_right (List.mem_append_right _)
      rcases hcases with rfl | he
      · have hvalue : '\r' ∉ Capture.decimal length := not_in_decimal (by decide) (by decide)
        exact header_line_isLine ⟨return_not_in_label, hvalue⟩
      · exact header_line_isLine (hreturn e he)

theorem Announces.ends {length : ℕ} (h : Announces head length) : Ends head.to_head_str := by
  obtain ⟨before, after, -, -, hlines⟩ := h.lines
  have hend := find_head_end (status_line head) (head._headers.map header_line) hlines []
  rw [List.append_nil] at hend
  unfold Ends
  rw [to_head_str_lines, hend, List.length_append, show CRLF.length = 2 from rfl]
  rfl

/-- **The length is understood.** -/
theorem Announces.expected_total {length : ℕ} (h : Announces head length) (hlength : length < 2 ^ 63) :
    Cli.expected_total head.to_head_str.length head.to_head_str = some (head.to_head_str.length + length) := by
  obtain ⟨before, after, hsplit, hlabel, hlines⟩ := h.lines
  generalize hfirst : lines_text (status_line head :: before) = first at *
  obtain ⟨line, hline⟩ : ∃ line, line = length_label ++ ' ' :: Capture.decimal length := ⟨_, rfl⟩
  have htext : head.to_head_str = first ++ (line ++ (CRLF ++ (lines_text after ++ CRLF))) := by
    rw [to_head_str_lines, hsplit, lines_text_append, lines_text_cons _ after, ← hfirst, hline]
    simp only [List.append_assoc]
  have hreturn : '\r' ∉ line := by
    have hmem : line ∈ status_line head :: head._headers.map header_line := by
      rw [hsplit, hline]
      exact List.mem_append_right _ List.mem_cons_self
    exact (hlines line hmem).no_return
  have hlabel15 : length_label.length = 15 := by decide
  have hfound : Http.find length_label head.to_head_str = some first.length := by
    have hhere : Http.find length_label line = some 0 := by
      rw [hline]
      exact if_pos (List.prefix_append _ _)
    have hlines := find_label (by decide) (by decide) (by decide) hlabel hhere (CRLF ++ (lines_text after ++ CRLF))
    rw [hfirst] at hlines
    rw [htext]
    exact hlines
  have hlong : first.length < head.to_head_str.length := by
    rw [htext, hline]
    simp only [List.length_append, hlabel15]
    omega
  have hend : find_from CRLF first.length head.to_head_str = some (line.length + first.length) := by
    unfold find_from
    rw [htext, List.drop_left, ← List.append_assoc, find_line_end hreturn]
    rfl
  have hdrop : head.to_head_str.drop (first.length + length_label.length)
      = ' ' :: (Capture.decimal length ++ (CRLF ++ (lines_text after ++ CRLF))) := by
    rw [htext, ← List.drop_drop, List.drop_left, hline, List.append_assoc, List.drop_left]
    rfl
  have hstart : value_start first.length head.to_head_str = first.length + 16 := by
    have hblank : ((Capture.decimal length ++ (CRLF ++ (lines_text after ++ CRLF))).takeWhile (· = ' ')) = [] := by
      obtain ⟨x, digits, hdigits⟩ := List.exists_cons_of_ne_nil (decimal_ne_nil length)
      have hx : ' ' ∉ Capture.decimal length := not_in_decimal (by decide) (by decide)
      rw [hdigits] at hx ⊢
      refine List.takeWhile_cons_of_neg fun h => hx ?_
      rw [of_decide_eq_true h]
      exact List.mem_cons_self
    unfold value_start
    dsimp only
    rw [hdrop, List.takeWhile_cons_of_pos (by rfl), hblank, hlabel15]
    rfl
  have hvalue : (head.to_head_str.drop (first.length + 16)).take (line.length + first.length - (first.length + 16))
      = Capture.decimal length := by
    have hlength16 : line.length + first.length - (first.length + 16) = (Capture.decimal length).length := by
      rw [hline, List.length_append, List.length_cons, hlabel15]
      omega
    have hbehind : first.length + 16 = first.length + length_label.length + 1 := by rw [hlabel15]
    rw [hlength16, hbehind, ← List.drop_drop, hdrop, List.drop_one, List.tail_cons, List.take_left]
  have hannounced : announced head.to_head_str.length head.to_head_str = some (length : ℤ) := by
    unfold announced
    rw [hfound]
    dsimp only
    rw [if_pos hlong, hend]
    dsimp only
    rw [if_pos (by rw [htext]; simp only [List.length_append]; omega), hstart, hvalue,
      c_str_whole (not_in_decimal (by decide) (by decide)), strtoll_decimal (by omega) (by omega)]
  unfold Cli.expected_total
  rw [hannounced]
  dsimp only
  rw [if_pos (Int.natCast_nonneg length), Int.toNat_natCast]

/-- **A response is whole** with its last byte, and not before. -/
theorem Announces.whole (h : Announces head body.length) (hlength : body.length < 2 ^ 63) :
    Whole (framed (head, body)) := by
  intro out hout
  have hends := h.ends
  have hroom := find_le hends
  rw [show CRLF2.length = 4 from rfl] at hroom
  have hframed : framed (head, body) = head.to_head_str ++ body := rfl
  rw [hframed] at hout ⊢
  by_cases hshort : out.length < head.to_head_str.length
  · -- the head is not there yet
    have hpart : out = head.to_head_str.take out.length := by
      have htake := List.prefix_iff_eq_take.mp hout
      rwa [List.take_append_of_le_length hshort.le] at htake
    have hnone : Http.find CRLF2 out = none := by
      rw [hpart]
      exact find_take hends (by rw [show CRLF2.length = 4 from rfl]; omega)
    have hread : Reader.read out = { out := out } := by
      unfold Reader.read
      rw [hnone]
    rw [hread]
    refine iff_of_false Bool.false_ne_true fun hall => ?_
    rw [hall, List.length_append] at hshort
    omega
  · obtain ⟨more, rfl⟩ : head.to_head_str <+: out :=
      List.prefix_of_prefix_length_le (List.prefix_append _ body) hout (Nat.le_of_not_lt hshort)
    have hplace : head.to_head_str.length - 4 + 4 = head.to_head_str.length := by omega
    have hread : Reader.read (head.to_head_str ++ more) = {
        out := head.to_head_str ++ more
        header_end_pos := some head.to_head_str.length
        expected_total := some (head.to_head_str.length + body.length) } := by
      unfold Reader.read
      rw [find_append hends]
      dsimp only
      rw [hplace, expected_total_append hends, h.expected_total hlength]
    have hmore : more <+: body := (List.prefix_append_right_inj _).mp hout
    rw [hread, List.append_cancel_left_eq]
    unfold Reader.complete
    simp only [ge_iff_le, decide_eq_true_eq, List.length_append, Nat.add_le_add_iff_left]
    constructor
    · exact fun hle => hmore.eq_of_length_le hle
    · rintro rfl
      exact Nat.le_refl _

/-- **The status and the body are read back**, the body with whatever comes behind
it. -/
theorem Announces.parse {length : ℕ} (h : Announces head length) (rest : CStr) :
    parse_response (head.to_head_str ++ rest) = .ok (head._response_code, rest) := by
  have hends := h.ends
  have hroom := find_le hends
  rw [show CRLF2.length = 4 from rfl] at hroom
  obtain ⟨hreturn, -⟩ := @status_line_chars head h.version
  have htext : head.to_head_str ++ rest
      = status_line head ++ CRLF ++ (lines_text (head._headers.map header_line) ++ CRLF ++ rest) := by
    rw [to_head_str_lines, lines_text_cons]
    simp only [List.append_assoc]
  have hline : Http.find CRLF (head.to_head_str ++ rest) = some (status_line head).length := by
    rw [htext, find_line_end hreturn]
  have htake : (head.to_head_str ++ rest).take (status_line head).length = status_line head := by
    rw [htext, List.append_assoc, List.take_left]
  obtain ⟨reason, hstatus⟩ : ∃ reason, status_line head
      = "HTTP/1.1 ".toList ++ (Capture.decimal head._response_code ++ ' ' :: reason) := by
    unfold status_line
    rw [h.version]
    exact ⟨_, by simp only [List.append_assoc]; rfl⟩
  have hprotocol : "HTTP/".toList <+: status_line head := by
    rw [hstatus]
    exact ⟨"1.1 ".toList ++ (Capture.decimal head._response_code ++ ' ' :: reason), rfl⟩
  have hfirst : Http.find [' '] (status_line head) = some 8 := by
    rw [hstatus]
    exact find_append (show Http.find [' '] "HTTP/1.1 ".toList = some 8 by decide) _
  have hdrop : (status_line head).drop 9 = Capture.decimal head._response_code ++ ' ' :: reason := by
    rw [hstatus]
    exact @List.drop_left _ "HTTP/1.1 ".toList _
  have hsecond : find_from [' '] (8 + 1) (status_line head)
      = some ((Capture.decimal head._response_code).length + 9) := by
    unfold find_from
    have hhere : Http.find [' '] (' ' :: reason) = some 0 := if_pos (List.prefix_append [' '] reason)
    have hblank : ' ' ∉ Capture.decimal head._response_code := not_in_decimal (by decide) (by decide)
    rw [hdrop, find_behind_line rfl hblank, hhere]
    simp only [Option.map_some, Nat.zero_add]
  unfold parse_response
  rw [hline]
  dsimp only
  rw [htake, if_neg (not_not.mpr hprotocol), hfirst]
  dsimp only
  rw [hsecond]
  dsimp only
  rw [hdrop, find_append hends]
  dsimp only
  rw [show (Capture.decimal head._response_code).length + 9 - 8 - 1 = (Capture.decimal head._response_code).length by omega,
    List.take_left, c_str_whole (not_in_decimal (by decide) (by decide)), atoi_decimal h.low h.high,
    show head.to_head_str.length - 4 + 4 = head.to_head_str.length by omega, List.drop_left]

end Framed

/-! ## From the server to the client -/

section Client

variable {received : List Received}

/-- **A response that comes in whatever pieces** is there with its last byte. -/
theorem reads_framed {head : http_res_head_para} {body : CStr} (h : Announces head body.length)
    (hlength : body.length < 2 ^ 63) (hgoing : ∀ r ∈ received, r.going = true)
    (hbytes : received.flatMap Received.bytes <+: framed (head, body)) :
    recv_all {} received = if received.flatMap Received.bytes = framed (head, body)
      then some (true, framed (head, body)) else none := by
  have hmore : ([] : CStr) ≠ framed (head, body) := by
    intro hnil
    have hroom := find_le h.ends
    have hzero : (head.to_head_str ++ body).length = 0 := congrArg List.length hnil.symm
    rw [show CRLF2.length = 4 from rfl] at hroom
    rw [List.length_append] at hzero
    omega
  exact recv_all_whole (h.whole hlength) received [] hmore hgoing hbytes

/-- The end of the connection ends it as well. -/
theorem recv_all_closed (out : CStr) (hgoing : ∀ r ∈ received, r.going = true)
    (hwaits : recv_all (Reader.read out) received = none) :
    recv_all (Reader.read out) (received ++ [.data []])
      = some (true, out ++ received.flatMap Received.bytes) := by
  have hread : ∀ out, (Reader.read out).out = out := by
    intro out
    unfold Reader.read
    split <;> rfl
  induction received generalizing out with
  | nil =>
    rw [List.nil_append, recv_all, if_pos rfl, List.flatMap_nil, List.append_nil, hread]
  | cons r received ih =>
    have hlater : ∀ r' ∈ received, r'.going = true := fun r' hr' => hgoing r' (List.mem_cons_of_mem r hr')
    have hfirst : r.going = true := hgoing r List.mem_cons_self
    cases r with
    | data chunk =>
      have hchunk : chunk ≠ [] := of_decide_eq_true hfirst
      rw [recv_all, if_neg hchunk, take_read] at hwaits
      rw [List.cons_append, recv_all, if_neg hchunk, take_read, List.flatMap_cons, ← List.append_assoc]
      dsimp only at hwaits ⊢
      split_ifs at hwaits ⊢
      exact ih (out ++ chunk) hlater hwaits
    | interrupted => exact ih out hlater hwaits
    | failed => cases hfirst

/-- **A response that is cut short in its body** is taken for whole when the
connection ends. -/
theorem truncated_accepted {head : http_res_head_para} {body part : CStr} (h : Announces head body.length)
    (hlength : body.length < 2 ^ 63) (hgoing : ∀ r ∈ received, r.going = true) (hpart : part <+: body)
    (hshort : part ≠ body) (hbytes : received.flatMap Received.bytes = framed (head, part)) :
    recv_all {} (received ++ [.data []]) = some (true, framed (head, part)) ∧
      parse_response (framed (head, part)) = .ok (head._response_code, part) := by
  refine ⟨?_, h.parse part⟩
  have hprefix : framed (head, part) <+: framed (head, body) := (List.prefix_append_right_inj _).mpr hpart
  have hne : framed (head, part) ≠ framed (head, body) := fun heq => hshort (List.append_cancel_left heq)
  have hwaits : recv_all {} received = none := by
    rw [reads_framed h hlength hgoing (hbytes ▸ hprefix), hbytes, if_neg hne]
  have hclosed := recv_all_closed [] hgoing hwaits
  rw [List.nil_append, hbytes] at hclosed
  exact hclosed

/-- The head of a small answer. -/
def small_answer : Answer where
  headers := [("Content-Type".toList, "text/plain".toList)]
  body := "done".toList

theorem small_answer_plain : ∀ header ∈ small_answer.headers, Plain header := by
  intro header hheader
  rw [List.mem_singleton.mp hheader]
  exact ⟨by decide, by decide, .inr (by decide)⟩

theorem small_truncated :
    let head := fill_response_headers small_answer {}
    recv_all {} ([.data head.to_head_str, .interrupted, .data "do".toList] ++ [.data []])
        = some (true, framed (head, "do".toList)) ∧
      parse_response (framed (head, "do".toList)) = .ok (200, "do".toList) :=
  @truncated_accepted _ _ small_answer.body _ (fill_response_headers_announces small_answer_plain (by decide) (by decide))
    (by decide) (by decide +kernel) (by decide) (by decide) (by decide +kernel)

end Client

section Server

variable {events : List Event} {c : Conn}

/-- No response has been begun. -/
structure Unanswered (c : Conn) : Prop where
  status : c._http_status = .RECV_HEAD ∨ c._http_status = .RECV_BODY
  buffer : c._p_send_buf = none
  head : c._res_head_para = {}

theorem Unanswered.same {c' : Conn} (h : Unanswered c) (hsame : c.Same c')
    (hstatus : c'._http_status = .RECV_HEAD ∨ c'._http_status = .RECV_BODY) : Unanswered c' :=
  ⟨hstatus, hsame.buf.trans h.buffer, hsame.head.trans h.head⟩

/-- **One event**: nothing is begun but with a reply. -/
theorem Unanswered.step {event : Event} (h : Unanswered c) (possible : Possible c event)
    (hlater : event.later = true) (hnone : response c event = []) : Unanswered (step c event) := by
  by_cases hclosed : c.closed = true
  · unfold Http.step
    rw [if_pos hclosed]
    exact h
  cases event with
  | recv chunk world =>
    obtain ⟨called, bytes, hprocessed, -, hstep⟩ :=
      step_recv world (Bool.eq_false_iff.mpr hclosed) possible.1
    have hchunk : Unanswered (c.with_chunk chunk) := ⟨h.status, h.buffer, h.head⟩
    rw [hstep]
    cases hprocessed with
    | throws => exact ⟨hchunk.status, hchunk.buffer, hchunk.head⟩
    | @waits c' p_ret same status receiving =>
      have hstatus : c'._http_status = .RECV_HEAD ∨ c'._http_status = .RECV_BODY := by
        rcases status with hstatus | ⟨-, hstatus⟩
        · exact hstatus ▸ receiving
        · exact .inr hstatus
      have hafter := hchunk.same same hstatus
      exact ⟨hafter.status, hafter.buffer, hafter.head⟩
    | @asks c' p_ret noanswer same status =>
      have hafter := hchunk.same same (.inr status)
      have hasked : Unanswered (msg_recv_finish world c') := by
        unfold msg_recv_finish
        rw [noanswer]
        exact ⟨hafter.status, hafter.buffer, hafter.head⟩
      exact ⟨hasked.status, hasked.buffer, hasked.head⟩
    | answers answered =>
      rw [Option.isNone_iff_eq_none.mp hlater] at answered
      cases answered
  | writable accepts =>
    unfold Http.step
    rw [if_neg hclosed]
    have hidle : real_send accepts c = c := by
      cases accepts <;> rw [real_send, send_buf_receiving h.status, h.buffer]
    show Unanswered (real_send accepts c)
    rw [hidle]
    exact h
  | reply answer accepts =>
    have hbegun : response c (.reply answer accepts) = [(fill_response_headers answer c._res_head_para, answer.body)] :=
      if_neg hclosed
    rw [hbegun] at hnone
    cases hnone

/-- The first response is that of a reply, on a head as it is made. -/
theorem first_response (run : Run {} events c) (later : ∀ event ∈ events, event.later = true) :
    responses {} events = [] ∧ Unanswered c ∨
      ∃ answer accepts rest, Event.reply answer accepts ∈ events ∧
        responses {} events = (fill_response_headers answer {}, answer.body) :: rest := by
  induction run with
  | start => exact .inl ⟨rfl, .inl rfl, rfl, rfl⟩
  | @step c events event run possible ih =>
    have hsplit : responses {} (events ++ [event]) = responses {} events ++ response c event := by
      rw [responses_append, ← run_foldl run]
      show _ ++ (response c event ++ []) = _
      rw [List.append_nil]
    have hlater : event.later = true := later event (List.mem_append_right _ (List.mem_singleton_self event))
    rcases ih (fun e he => later e (List.mem_append_left _ he)) with ⟨hnone, hunanswered⟩ | ⟨answer, accepts, rest, hreply, hresponses⟩
    · rw [hsplit, hnone, List.nil_append]
      by_cases hbegun : response c event = []
      · exact .inl ⟨hbegun, hunanswered.step possible hlater hbegun⟩
      · right
        cases event with
        | reply answer accepts =>
          have hopen : ¬ c.closed = true := fun hclosed => hbegun (if_pos hclosed)
          refine ⟨answer, accepts, [], List.mem_append_right _ (List.mem_singleton_self _), ?_⟩
          rw [← hunanswered.head]
          exact if_neg hopen
        | recv chunk world => exact absurd rfl hbegun
        | writable accepts => exact absurd rfl hbegun
    · exact .inr ⟨answer, accepts, rest ++ response c event, List.mem_append_left _ hreply, by
        rw [hsplit, hresponses, List.cons_append]⟩

/-- **From the server to the client.** The client has the answer of the server when
the last byte of it has come, and not before, however the socket takes the bytes
and however they come out of it. -/
theorem client_reads_answer (run : Run {} events c) (later : ∀ event ∈ events, event.later = true)
    (one : (responses {} events).length = 1)
    (sendable : ∀ answer accepts, Event.reply answer accepts ∈ events →
      (∀ header ∈ answer.headers, Plain header) ∧ -2 ^ 31 ≤ answer.status ∧ answer.status < 2 ^ 31 ∧
        answer.body.length < 2 ^ 63)
    {received : List Received} (going : ∀ r ∈ received, r.going = true)
    (bytes : received.flatMap Received.bytes <+: wire {} events) :
    ∃ answer accepts, Event.reply answer accepts ∈ events ∧
      recv_all {} received = (if c.unsent = [] ∧ received.flatMap Received.bytes = wire {} events
        then some (true, wire {} events) else none) ∧
      (c.unsent = [] → parse_response (wire {} events) = .ok (answer.status, answer.body)) := by
  rcases first_response run later with ⟨hnone, -⟩ | ⟨answer, accepts, rest, hreply, hresponses⟩
  · rw [hnone] at one
    cases one
  refine ⟨answer, accepts, hreply, ?_⟩
  obtain ⟨hplain, hlow, hhigh, hlength⟩ := sendable answer accepts hreply
  have hrest : rest = [] := by
    rw [hresponses, List.length_cons] at one
    exact List.eq_nil_of_length_eq_zero (Nat.succ.inj one)
  have hannounces := fill_response_headers_announces hplain hlow hhigh
  have hwire : wire {} events ++ c.unsent = framed (fill_response_headers answer {}, answer.body) := by
    rw [(later_run run later).2, hresponses, hrest, List.flatMap_singleton]
  have hprefix : received.flatMap Received.bytes <+: framed (fill_response_headers answer {}, answer.body) :=
    bytes.trans (hwire ▸ List.prefix_append _ _)
  constructor
  · rw [reads_framed hannounces hlength going hprefix]
    by_cases hall : received.flatMap Received.bytes = framed (fill_response_headers answer {}, answer.body)
    · have hunsent : c.unsent = [] := by
        have hle := bytes.length_le
        rw [hall, ← hwire, List.length_append] at hle
        exact List.eq_nil_of_length_eq_zero (by omega)
      have hwhole : wire {} events = framed (fill_response_headers answer {}, answer.body) := by
        rw [← hwire, hunsent, List.append_nil]
      rw [if_pos hall, if_pos ⟨hunsent, hall.trans hwhole.symm⟩, hwhole]
    · rw [if_neg hall, if_neg]
      rintro ⟨hunsent, hbytes⟩
      rw [hunsent, List.append_nil] at hwire
      exact hall (hbytes.trans hwire)
  · intro hunsent
    rw [hunsent, List.append_nil] at hwire
    rw [hwire]
    exact hannounces.parse answer.body

/-- The socket takes ten bytes of the answer first, and the client is interrupted. -/
theorem small_answer_read :
    let events : List Event :=
      [.recv small_post.bytes {}, .reply small_answer [10], .writable [1000, 1000]]
    let received : List Received :=
      [.data ((wire {} events).take 50), .interrupted, .data ((wire {} events).drop 50)]
    ∃ answer accepts, Event.reply answer accepts ∈ events ∧
      recv_all {} received = (if (events.foldl step {}).unsent = [] ∧ received.flatMap Received.bytes = wire {} events
        then some (true, wire {} events) else none) ∧
      ((events.foldl step {}).unsent = [] → parse_response (wire {} events) = .ok (answer.status, answer.body)) := by
  intro events received
  refine client_reads_answer (c := events.foldl step {}) ?_ (by decide +kernel) (by decide +kernel) ?_
    (by decide +kernel) (by decide +kernel)
  · exact .step (.step (.step (.start {}) (by decide +kernel)) (by decide +kernel)) (by decide +kernel)
  · intro answer accepts hreply
    have hanswer : answer = small_answer := by
      simp only [events, List.mem_cons, List.not_mem_nil, or_false, reduceCtorEq, false_or, Event.reply.injEq] at hreply
      exact hreply.1
    rw [hanswer]
    exact ⟨small_answer_plain, by decide, by decide, by decide⟩

end Server

end RxNetCap.Cli
