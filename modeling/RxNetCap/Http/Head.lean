/-
The heads of requests and responses: `http_req_head_para` and
`http_res_head_para` of `src/core/legacy_core.h`, how a head is parsed and how
one is written, with the functions on strings that this takes.

A byte is the character with its code. The cookies of a request are left out,
which nothing reads, and those of a response, which nothing sets.
-/
import RxNetCap.Capture.Request

set_option autoImplicit false

namespace RxNetCap.Http

open RxNetCap.Capture RxNetCap.Pdef

/-! ## Strings -/

def CRLF : CStr := "\r\n".toList

def CRLF2 : CStr := "\r\n\r\n".toList

/-- Where a text first occurs in another. -/
def find (pat : CStr) : CStr → Option ℕ
  | [] => if pat = [] then some 0 else none
  | c :: rest => if pat <+: c :: rest then some 0 else (find pat rest).map (· + 1)

/-- `strstr` stops at the end of a C string. -/
def strstr (s pat : CStr) : Option ℕ := find pat (c_str s)

def tolower (s : CStr) : CStr := s.map Char.toLower

def strcasestr (s pat : CStr) : Option ℕ := find (tolower pat) (tolower (c_str s))

/-- `strcasecmp(...) == 0` -/
def same_case (s t : CStr) : Bool := tolower (c_str s) = tolower (c_str t)

/-- The rounds of `SplitString`: the parts that end with a delimiter, and what
is left. -/
def split_rounds (delim : CStr) (one : Bool) : ℕ → CStr → List CStr × CStr
  | 0, s => ([], s)
  | fuel + 1, s =>
    match find delim s with
    | none => ([], s)
    | some pos =>
      let rest := s.drop (pos + delim.length)
      if one then ([s.take pos], rest)
      else (s.take pos :: (split_rounds delim one fuel rest).1, (split_rounds delim one fuel rest).2)

/-- With `one` it is split at the first delimiter only. A text without a
delimiter has no parts. -/
def SplitString (s delim : CStr) (one : Bool) : List CStr :=
  let (parts, last) := split_rounds delim one (c_str s).length (c_str s)
  if last ≠ [] ∧ parts ≠ [] then parts ++ [last] else parts

def is_space (c : Char) : Bool := c ∈ " \t\n\x0b\x0c\r".toList

/-- In base 10. Without digits it is 0, and too large a number is the largest. -/
def strtoull (s : CStr) : ℕ :=
  let s := s.dropWhile is_space
  let digits := (if s.head? = some '-' ∨ s.head? = some '+' then s.tail else s).takeWhile Char.isDigit
  let n := Nat.ofDigitChars 10 digits 0
  if n ≥ 2 ^ 64 then 2 ^ 64 - 1 else if s.head? = some '-' then (2 ^ 64 - n) % 2 ^ 64 else n

/-! ## Headers -/

/-- A `std::map` of strings, in the order of its keys. -/
abbrev Headers := List (CStr × CStr)

/-- `insert` leaves a value that is there. -/
def Headers.insert (key value : CStr) : Headers → Headers
  | [] => [(key, value)]
  | (k, v) :: rest =>
    if key = k then (k, v) :: rest
    else if key < k then (key, value) :: (k, v) :: rest
    else (k, v) :: Headers.insert key value rest

/-- `headers[key] = value` -/
def Headers.set (key value : CStr) : Headers → Headers
  | [] => [(key, value)]
  | (k, v) :: rest =>
    if key = k then (k, value) :: rest
    else if key < k then (key, value) :: (k, v) :: rest
    else (k, v) :: Headers.set key value rest

/-- The first header with the text in its name. -/
def get_header (headers : Headers) (str : CStr) : Option CStr :=
  (headers.find? fun header => (strcasestr header.1 str).isSome).map Prod.snd

/-! ## Requests -/

structure http_req_head_para where
  _method : CStr := "GET".toList
  _url_path : CStr := []
  _version : CStr := "HTTP/1.1".toList
  _headers : Headers := []
  deriving DecidableEq, Repr

/-- What `init()` makes of a head. -/
def http_req_head_para.blank : http_req_head_para where
  _method := []
  _version := []

/-- The length that a head announces. -/
def http_req_head_para.content_length (head : http_req_head_para) : ℕ :=
  ((get_header head._headers "Content-Length".toList).map strtoull).getD 0

def parse_first_line (line : CStr) (head : http_req_head_para) : Option http_req_head_para :=
  match SplitString line " ".toList false with
  | [_method, _url_path, _version] => some { head with _method, _url_path, _version }
  | _ => none

def parse_header_line (head : http_req_head_para) (line : CStr) : http_req_head_para :=
  match SplitString line ":".toList true with
  | [key, value] => { head with _headers := Headers.insert key value head._headers }
  | _ => head

/-- `GetCaseStringByLabel` without a second label, into `out`. -/
def GetCaseStringByLabel (s label out : CStr) : CStr :=
  match strcasestr s label with
  | none => out
  | some pos => (c_str s).drop (pos + label.length)

/-- The boundary that a head announces, or `boundary` when it announces none. -/
def head_boundary (head : http_req_head_para) (boundary : CStr) : CStr :=
  if head._method = "POST".toList ∨ head._method = "PUT".toList then
    match get_header head._headers "Content-Type".toList with
    | none => boundary
    | some value =>
      if (strcasestr value "multipart/form-data".toList).isSome then
        GetCaseStringByLabel value "boundary=".toList boundary
      else boundary
  else boundary

/-- The head that is read, into `head`; an exception when its first line does
not have three parts. -/
def parse_head (recv_head : CStr) (head : http_req_head_para) : Option http_req_head_para :=
  match SplitString recv_head CRLF false with
  | [] => some head
  | line :: lines => (parse_first_line line head).map fun head => lines.foldl parse_header_line head

/-! ## Responses -/

structure http_res_head_para where
  _response_code : ℤ := 200
  _response_str : CStr := "OK".toList
  _version : CStr := "HTTP/1.1".toList
  _headers : Headers := []
  deriving DecidableEq, Repr

/-- What `init()` makes of a head. -/
def http_res_head_para.blank : http_res_head_para where
  _response_str := []
  _version := []

/-- The reasons, by code. -/
def response_list : List (ℤ × String) :=
  [(200, "OK"), (206, "Partial Content"), (301, "Moved Temporarily"),
    (302, "the uri moved temporarily"), (304, "page was not modified from las"),
    (400, "Bad Request"), (404, "Not Found"), (403, "Forbidden"), (409, "Conflict"),
    (500, "Internal Server Error"), (501, "not implemented"), (503, "the server is not available")]

def get_response_str (status_code : ℤ) : CStr :=
  ((response_list.find? fun entry => entry.1 = status_code).map fun entry => entry.2.toList).getD []

namespace http_res_head_para

variable (head : http_res_head_para)

/-- The first line. -/
def first_line : CStr :=
  head._version ++ " ".toList ++ decimal head._response_code ++ " ".toList
    ++ (if head._response_str ≠ [] then get_response_str head._response_code else []) ++ CRLF

def to_head_str : CStr :=
  head.first_line
    ++ head._headers.flatMap (fun header => header.1 ++ ": ".toList ++ header.2 ++ CRLF) ++ CRLF

end http_res_head_para

end RxNetCap.Http
