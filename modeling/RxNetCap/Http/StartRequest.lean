/-
The message that `CRxUrlHandlerCaptureApi::handle_start` of
`src/rxurlhandlers.cpp` makes of the JSON body of a request.

Only the types of the members count, and the numbers: `rapidjson` keeps an
integer of 64 bits, signed or unsigned, and everything else that is a number as
a `double`. Of a `double` this is its value as a `long long`, since no function
here looks at more of it. A string is read up to a NUL.
-/
import RxNetCap.Capture.Messages
import RxNetCap.Lib.Tally

set_option autoImplicit false

namespace RxNetCap.Http

open RxNetCap.Capture RxNetCap.Pdef RxNetCap.Tally

/-! ## Values -/

/-- An integer that `rapidjson` keeps as one. -/
structure Integer where
  val : ℤ
  lower : -2 ^ 63 ≤ val
  upper : val < 2 ^ 64
  deriving DecidableEq, Repr

/-- A conversion to `long long`. -/
def long_long (n : ℤ) : Integer :=
  if h : n % 2 ^ 64 < 2 ^ 63 then ⟨n % 2 ^ 64, by omega, by omega⟩
  else ⟨n % 2 ^ 64 - 2 ^ 64, by omega, by omega⟩

/-- A value. No function here looks into a literal, an array or an object. -/
inductive Value where
  | integer (n : Integer)
  | double (long_long : ℤ)
  | string (s : CStr)
  | other
  deriving DecidableEq, Repr

/-- The members of an object; of two with one name the first counts. -/
abbrev Members := List (String × Value)

def member (doc : Members) (name : String) : Option Value := doc.lookup name

/-- `IsInt()` and `GetInt()` -/
def Integer.get_int (n : Integer) : Option ℤ :=
  if -2 ^ 31 ≤ n.val ∧ n.val < 2 ^ 31 then some n.val else none

/-- `IsInt64()` and `GetInt64()` -/
def Integer.get_int64 (n : Integer) : Option ℤ := if n.val < 2 ^ 63 then some n.val else none

/-- A member that is a string. -/
def string_member (doc : Members) (name : String) : Option CStr :=
  match member doc name with
  | some (.string s) => some (c_str s)
  | _ => none

def int_member (doc : Members) (name : String) : Option ℤ :=
  match member doc name with
  | some (.integer n) => n.get_int
  | _ => none

def int64_member (doc : Members) (name : String) : Option ℤ :=
  match member doc name with
  | some (.integer n) => n.get_int64
  | _ => none

/-! ## The message -/

/-- Any other mode leaves the first one. -/
def mode_of (mode : CStr) : ECaptureMode :=
  if mode = "process".toList then .PROCESS
  else if mode = "pid".toList then .PID
  else if mode = "container".toList then .CONTAINER
  else .INTERFACE

/-- The mode that is asked for. -/
def requested_mode (doc : Members) : ECaptureMode :=
  match string_member doc "capture_mode" with
  | some mode => mode_of mode
  | none =>
    match string_member doc "mode" with
    | some mode => mode_of mode
    | none => .INTERFACE

/-- The mode after the process name and the process id were read. -/
def capture_mode (doc : Members) : ECaptureMode :=
  let mode := requested_mode doc
  let mode :=
    match string_member doc "proc_name" with
    | some proc_name => if mode = .INTERFACE ∧ proc_name ≠ [] then .PROCESS else mode
    | none => mode
  match int_member doc "pid" with
  | some target_pid => if mode = .INTERFACE ∧ target_pid > 0 then .PID else mode
  | none => mode

/-- The PDEF file of a protocol: that of the configuration, if it has one. -/
def protocol_path (protocol_pdefs : Option (Store CStr CStr)) (protocol_name : CStr) : CStr :=
  let pdef_path := ((protocol_pdefs.bind fun cfg => cfg.lookup protocol_name)).getD []
  non_empty_or pdef_path ("config/protocols/".toList ++ protocol_name ++ ".pdef".toList)

/-- Where two members mean one field, the later one in the source counts. -/
def start_message (protocol_pdefs : Option (Store CStr CStr)) (doc : Members) :
    SRxStartCaptureMsg where
  capture_mode := capture_mode doc
  iface := (string_member doc "iface").getD []
  proc_name := (string_member doc "proc_name").getD []
  target_pid := ((int_member doc "target_pid").or (int_member doc "pid")).getD (-1)
  container_id := (string_member doc "container_id").getD []
  filter := (string_member doc "filter").getD []
  protocol_filter := ((string_member doc "protocol_filter").or
    ((string_member doc "protocol").map (protocol_path protocol_pdefs))).getD []
  protocol_filter_inline := (string_member doc "protocol_filter_inline").getD []
  ip_filter := ((string_member doc "ip_filter").or (string_member doc "ip")).getD []
  port_filter := ((int_member doc "port_filter").or (int_member doc "port")).getD 0
  category := (string_member doc "category").getD []
  file_pattern := ((string_member doc "file_pattern").or (string_member doc "file")).getD []
  duration_sec := (int_member doc "duration").getD 60
  max_bytes := (int64_member doc "max_bytes").getD 0
  max_packets := (int_member doc "max_packets").getD 0
  client_ip := (string_member doc "client_ip").getD []
  request_user := ((string_member doc "request_user").or (string_member doc "user")).getD []

end RxNetCap.Http
