/-
What the manager works out about a start request before it admits it, from
`src/rxcapturemanagerthread.cpp`: the processes it is about, the filter and the
port it implies, its defaults, its key and its signature.

What the request meets outside the program is a `RequestWorld`: the processes,
the configuration in force, and the text of the local time.

The strings are bytes: a character stands for its code modulo 256.
-/
import Mathlib.Data.List.Sort
import RxNetCap.Capture.Messages

set_option autoImplicit false

namespace RxNetCap.Capture

open RxNetCap.Pdef

/-! ## Configuration -/

structure SRxDefaults where
  iface : CStr
  duration_sec : ℤ
  category : CStr
  file_pattern : CStr
  max_bytes : ℤ
  deriving DecidableEq, Repr

/-- The strategy configuration: the defaults, and what is read of the limits
and the storage settings. -/
structure CRxStrategyConfigManager where
  defaults : SRxDefaults
  per_key_cooldown_sec : ℤ
  base_dir : CStr
  progress_bytes_threshold : ℤ
  deriving DecidableEq, Repr

def get_capture_config_snapshot (cfg_manager : Option CRxStrategyConfigManager) :
    CaptureConfigSnapshot :=
  match cfg_manager with
  | none => {}
  | some cfg =>
    let mb := cfg.progress_bytes_threshold / (1024 * 1024)
    { output_dir := cfg.base_dir
      filename_template := cfg.defaults.file_pattern
      max_duration_sec := cfg.defaults.duration_sec
      max_bytes := cfg.defaults.max_bytes
      max_packets := 0
      snaplen := 65535
      compress_threshold_mb :=
        if cfg.progress_bytes_threshold > 0 then (if mb ≤ 0 then 1 else mb) else 0 }

structure SProcessInfo where
  pid : ℤ
  listening_ports : List ℤ
  netns_path : CStr
  deriving DecidableEq, Repr

/-- `FindProcessesByName`, and `GetProcessInfo` with `none` when there is no
such process; the configuration in force; the local time as
`make_sid_with_timestamp` prints it; and `time(NULL)`. -/
structure RequestWorld where
  find_processes : CStr → List SProcessInfo := fun _ => []
  process_info : ℤ → Option SProcessInfo := fun _ => none
  strategy : Option CRxStrategyConfigManager := none
  timestamp : CStr := []
  now : ℤ := 0

/-! ## Text -/

/-- `%d` -/
def decimal (n : ℤ) : CStr :=
  if n < 0 then '-' :: Nat.toDigits 10 n.natAbs else Nat.toDigits 10 n.natAbs

/-- `isspace` -/
def is_space (c : Char) : Bool :=
  c = ' ' ∨ c = '\t' ∨ c = '\n' ∨ c = '\x0b' ∨ c = '\x0c' ∨ c = '\r'

/-- `StringTrim` -/
def StringTrim (s : CStr) : CStr :=
  let blank : Char → Bool := fun c => c = ' ' ∨ c = '\t' ∨ c = '\r' ∨ c = '\n'
  ((s.dropWhile blank).reverse.dropWhile blank).reverse

/-- `strtol` of a text of digits: the largest `long` when they denote more. -/
def strtol_digits (digits : CStr) : ℤ := min (Nat.ofDigitChars 10 digits 0) (2 ^ 63 - 1)

/-- A `long` cast to `int`. -/
def to_int (n : ℤ) : ℤ := n.bmod (2 ^ 32)

/-- `std::atoi` of a text of digits. -/
def atoi (digits : CStr) : ℤ := to_int (strtol_digits digits)

/-! ## Processes, filter and port -/

def resolve_target_processes (world : RequestWorld) (start_msg : SRxStartCaptureMsg) :
    Option (List SProcessInfo) :=
  match start_msg.capture_mode with
  | .PROCESS =>
    let matched := world.find_processes start_msg.proc_name
    if matched = [] then none else some matched
  | .PID => (world.process_info start_msg.target_pid).map fun info => [info]
  | _ => some []

/-- The listening ports of the processes, as a `std::set`: in order, once each. -/
def listening_ports (matched : List SProcessInfo) : List ℤ :=
  ((matched.flatMap SProcessInfo.listening_ports).filter fun port => port > 0).dedup.insertionSort
    (· ≤ ·)

/-- `port 80 or port 443` -/
def ports_filter (ports : List ℤ) : CStr :=
  " or ".toList.intercalate (ports.map fun port => "port ".toList ++ decimal port)

/-- Without a filter, one for the ports that the processes listen on. -/
def auto_filter (matched : List SProcessInfo) (start_msg : SRxStartCaptureMsg) :
    SRxStartCaptureMsg :=
  if start_msg.capture_mode = .PROCESS ∧ start_msg.filter = [] ∧ start_msg.proc_name ≠ [] then
    match listening_ports matched with
    | [] => start_msg
    | [port] =>
      { start_msg with
        filter := ports_filter [port]
        port_filter := if start_msg.port_filter = 0 then port else start_msg.port_filter }
    | ports => { start_msg with filter := ports_filter ports }
  else start_msg

/-- The digits that follow the word `port`, behind blanks, `=` or `:` and a
sign. -/
def port_digits (after : CStr) : CStr :=
  let text := after.dropWhile is_space
  let text :=
    match text with
    | '=' :: rest | ':' :: rest => rest.dropWhile is_space
    | _ => text
  let text :=
    match text with
    | '+' :: rest | '-' :: rest => rest
    | _ => text
  text.takeWhile Char.isDigit

/-- The scan for the word `port`: `last` is the character before the text, the
next `skip` characters belong to a word found before. The answer is 0 when two
different ports are found. -/
def scan_ports (last : Option Char) (skip : ℕ) (found_port : ℤ) (text : CStr) : ℤ :=
  match text with
  | [] => found_port
  | c :: rest =>
    if skip ≠ 0 then scan_ports (some c) (skip - 1) found_port rest
    else if "port".toList.isPrefixOf (c :: rest) = false then
      scan_ports (some c) 0 found_port rest
    else if last.any fun before => before.isAlphanum ∨ before = '_' then
      scan_ports (some c) 3 found_port rest
    else
      let digits := port_digits (rest.drop 3)
      let port := atoi digits
      if digits ≠ [] ∧ port > 0 ∧ port ≤ 65535 then
        if found_port = 0 then scan_ports (some c) 3 port rest
        else if port ≠ found_port then 0
        else scan_ports (some c) 3 found_port rest
      else scan_ports (some c) 3 found_port rest

def infer_port_from_filter (filter : CStr) : ℤ := scan_ports none 0 0 filter

def infer_port (start_msg : SRxStartCaptureMsg) : SRxStartCaptureMsg :=
  if start_msg.port_filter ≤ 0 ∧ start_msg.filter ≠ [] then
    let inferred_port := infer_port_from_filter start_msg.filter
    if inferred_port > 0 then { start_msg with port_filter := inferred_port } else start_msg
  else start_msg

/-! ## The key -/

/-- The text of the key before `snprintf` cuts it to its buffer. -/
def task_key_text (start_msg : SRxStartCaptureMsg) : CStr :=
  match start_msg.capture_mode with
  | .INTERFACE =>
    "iface:".toList ++ c_str start_msg.iface ++ ":".toList ++ c_str start_msg.filter
  | .PROCESS =>
    "proc:".toList ++ c_str start_msg.proc_name ++ ":".toList ++ c_str start_msg.filter
      ++ ":".toList ++ decimal start_msg.port_filter
  | .PID => "pid:".toList ++ decimal start_msg.target_pid
  | .CONTAINER =>
    "container:".toList ++ c_str start_msg.container_id ++ ":".toList ++ c_str start_msg.filter

def generate_task_key (start_msg : SRxStartCaptureMsg) : CStr := cstr 512 (task_key_text start_msg)

/-! ## Defaults -/

def kFallbackDurationSec : ℤ := 60

/-- A number, or another when it is not positive. -/
def positive_or (n other : ℤ) : ℤ := if n > 0 then n else other

theorem positive_or_pos {n other : ℤ} (h : 0 < other) : 0 < positive_or n other := by
  unfold positive_or
  split
  · assumption
  · exact h

def default_iface (strategy : Option CRxStrategyConfigManager) (iface : CStr) : CStr :=
  let iface := non_empty_or iface ((strategy.map fun cfg => cfg.defaults.iface).getD [])
  non_empty_or iface "any".toList

def effective_duration (strategy : Option CRxStrategyConfigManager)
    (config_snapshot : CaptureConfigSnapshot) (duration_sec : ℤ) : ℤ :=
  let duration := positive_or duration_sec config_snapshot.max_duration_sec
  let duration :=
    match strategy with
    | none => duration
    | some cfg => positive_or duration cfg.defaults.duration_sec
  positive_or duration kFallbackDurationSec

def capture_spec_of (start_msg : SRxStartCaptureMsg) (matched : List SProcessInfo)
    (config_snapshot : CaptureConfigSnapshot) : CaptureSpec where
  capture_mode := start_msg.capture_mode
  iface := start_msg.iface
  resolved_iface := start_msg.iface
  proc_name := start_msg.proc_name
  target_pid := start_msg.target_pid
  container_id := start_msg.container_id
  netns_path := non_empty_or start_msg.netns_path ((matched.head?.map (·.netns_path)).getD [])
  category := start_msg.category
  filter := start_msg.filter
  protocol_filter := start_msg.protocol_filter
  protocol_filter_inline := start_msg.protocol_filter_inline
  ip_filter := start_msg.ip_filter
  port_filter := start_msg.port_filter
  output_pattern := start_msg.file_pattern
  max_duration_sec := start_msg.duration_sec
  max_bytes := start_msg.max_bytes
  max_packets := start_msg.max_packets
  snaplen := config_snapshot.snaplen

/-! ## The signature -/

def capture_mode_to_string : ECaptureMode → CStr
  | .INTERFACE => "interface".toList
  | .PROCESS => "process".toList
  | .PID => "pid".toList
  | .CONTAINER => "container".toList

/-- `\u00` and two hexadecimal digits. -/
def hex_escape (code : ℕ) : CStr :=
  "\\u00".toList ++ [Nat.digitChar (code / 16), Nat.digitChar (code % 16)]

def json_escape_char (c : Char) : CStr :=
  if c = '\\' then "\\\\".toList
  else if c = '"' then "\\\"".toList
  else if c = '\n' then "\\n".toList
  else if c = '\r' then "\\r".toList
  else if c = '\t' then "\\t".toList
  else if c.toNat < 0x20 then hex_escape c.toNat
  else [c]

def json_escape (input : CStr) : CStr := input.flatMap json_escape_char

/-- The value of a field of a JSON object. -/
inductive JsonValue where
  | str (value : CStr)
  | int (value : ℤ)
  | bool (value : Bool)
  | int_array (values : List ℤ)
  deriving DecidableEq, Repr

def JsonValue.text : JsonValue → CStr
  | .str value => '"' :: json_escape value ++ ['"']
  | .int value => decimal value
  | .bool value => if value then "true".toList else "false".toList
  | .int_array values => '[' :: [','].intercalate (values.map decimal) ++ [']']

abbrev JsonFields := List (CStr × JsonValue)

/-- A comma stands before each field but the first. -/
def json_object (fields : JsonFields) : CStr :=
  '\x7b' :: [','].intercalate
    (fields.map fun field => '"' :: field.1 ++ '"' :: ':' :: field.2.text) ++ ['\x7d']

def append_json_str_field (key value : CStr) (fields : JsonFields) : JsonFields :=
  if value = [] then fields else fields ++ [(key, .str value)]

def append_json_int_field (key : CStr) (value : ℤ) (include_zero : Bool) (fields : JsonFields) :
    JsonFields :=
  if include_zero = false ∧ value = 0 then fields else fields ++ [(key, .int value)]

def append_json_bool_field (key : CStr) (value : Bool) (fields : JsonFields) : JsonFields :=
  fields ++ [(key, .bool value)]

def append_json_int_array_field (key : CStr) (values : List ℤ) (fields : JsonFields) :
    JsonFields :=
  if values = [] then fields else fields ++ [(key, .int_array values)]

/-- The process ids, in order and once each. -/
def matched_pids (matched : List SProcessInfo) : List ℤ :=
  ((matched.map SProcessInfo.pid).filter fun pid => pid > 0).dedup.insertionSort (· ≤ ·)

/-- The fields about the target. -/
def append_target_fields (spec : CaptureSpec) (matched : List SProcessInfo)
    (fields : JsonFields) : JsonFields :=
  match spec.capture_mode with
  | .PROCESS =>
    append_json_int_array_field "matched_pids".toList (matched_pids matched)
      (append_json_str_field "proc_name".toList spec.proc_name fields)
  | .PID =>
    if spec.target_pid > 0 then
      append_json_int_field "target_pid".toList spec.target_pid true fields
    else fields
  | .CONTAINER => append_json_str_field "container_id".toList spec.container_id fields
  | .INTERFACE => fields

/-- A limit that is written when it is positive. -/
def append_limit_field (key : CStr) (limit default : ℤ) (fields : JsonFields) : JsonFields :=
  let effective := positive_or limit default
  if effective > 0 then append_json_int_field key effective false fields else fields

def capture_signature_fields (spec : CaptureSpec) (config_snapshot : CaptureConfigSnapshot)
    (matched : List SProcessInfo) : JsonFields :=
  let fields : JsonFields := []
  let fields := append_json_str_field "mode".toList (capture_mode_to_string spec.capture_mode) fields
  let fields := append_json_str_field "iface".toList spec.iface fields
  let fields := append_json_str_field "resolved_iface".toList spec.resolved_iface fields
  let fields := append_json_str_field "category".toList spec.category fields
  let fields := append_json_str_field "output_pattern".toList
    (non_empty_or spec.output_pattern config_snapshot.filename_template) fields
  let fields := append_json_str_field "output_dir".toList config_snapshot.output_dir fields
  let fields := append_json_str_field "filter".toList (StringTrim spec.filter) fields
  let fields := append_json_str_field "protocol_filter".toList spec.protocol_filter fields
  let fields := append_json_str_field "ip_filter".toList spec.ip_filter fields
  let fields := append_json_int_field "port_filter".toList spec.port_filter false fields
  let fields := append_limit_field "max_duration_sec".toList spec.max_duration_sec
    config_snapshot.max_duration_sec fields
  let fields := append_limit_field "max_bytes".toList spec.max_bytes config_snapshot.max_bytes fields
  let fields := append_limit_field "max_packets".toList spec.max_packets
    config_snapshot.max_packets fields
  let fields := append_json_int_field "snaplen".toList spec.snaplen true fields
  let fields := append_json_bool_field "compress_enabled".toList config_snapshot.compress_enabled
    fields
  let fields := append_json_int_field "compress_threshold_mb".toList
    config_snapshot.compress_threshold_mb true fields
  let fields := append_json_str_field "compress_format".toList config_snapshot.compress_format fields
  let fields := append_json_bool_field "compress_remove_src".toList
    config_snapshot.compress_remove_src fields
  let fields := append_json_str_field "netns_path".toList spec.netns_path fields
  append_target_fields spec matched fields

def build_capture_signature (spec : CaptureSpec) (config_snapshot : CaptureConfigSnapshot)
    (matched : List SProcessInfo) : CStr :=
  json_object (capture_signature_fields spec config_snapshot matched)

/-- The hash of the payload. -/
def fnv (payload : CStr) : ℕ :=
  payload.foldl (fun hash c => ((hash ^^^ (c.toNat % 256)) * 1099511628211) % 2 ^ 64)
    1469598103934665603

/-- Sixteen hexadecimal digits. -/
def hex16 (n : ℕ) : CStr := (List.range 16).reverse.map fun i => Nat.digitChar (n / 16 ^ i % 16)

/-! ## The request -/

/-- What `handle_start_capture` has worked out when it comes to admitting the
request. -/
structure StartRequest where
  start_msg : SRxStartCaptureMsg
  key : CStr
  signature : CStr
  sid : CStr
  spec : CaptureSpec
  config : CaptureConfigSnapshot
  deriving DecidableEq, Repr

/-- The request with its defaults. -/
def with_defaults (world : RequestWorld) (start_msg : SRxStartCaptureMsg) : SRxStartCaptureMsg :=
  { start_msg with
    iface := default_iface world.strategy start_msg.iface
    duration_sec := effective_duration world.strategy
      (get_capture_config_snapshot world.strategy) start_msg.duration_sec }

/-- The settings that go with a request, with its duration for none. -/
def config_for (world : RequestWorld) (start_msg : SRxStartCaptureMsg) : CaptureConfigSnapshot :=
  let config := get_capture_config_snapshot world.strategy
  { config with
    max_duration_sec := positive_or config.max_duration_sec start_msg.duration_sec }

/-- The part of `handle_start_capture` before the duplicate check; `none` when
there is no such process. The key is built before the defaults are filled in,
the signature after. -/
def prepare_start (world : RequestWorld) (start_msg : SRxStartCaptureMsg) : Option StartRequest := do
  let matched ← resolve_target_processes world start_msg
  let keyed := infer_port (auto_filter matched start_msg)
  let start_msg := with_defaults world keyed
  let config := config_for world start_msg
  let spec := capture_spec_of start_msg matched config
  let signature := hex16 (fnv (build_capture_signature spec config matched))
  return {
    start_msg
    key := generate_task_key keyed
    signature
    sid := signature ++ world.timestamp
    spec
    config }

/-! ## What is kept of a request -/

@[simp] theorem auto_filter_max_packets (matched : List SProcessInfo)
    (start_msg : SRxStartCaptureMsg) :
    (auto_filter matched start_msg).max_packets = start_msg.max_packets := by
  unfold auto_filter
  split
  · split <;> rfl
  · rfl

@[simp] theorem infer_port_max_packets (start_msg : SRxStartCaptureMsg) :
    (infer_port start_msg).max_packets = start_msg.max_packets := by
  unfold infer_port
  split
  · dsimp only
    split <;> rfl
  · rfl

/-- The limit on the packets gets into the spec. -/
theorem prepare_start_max_packets {world : RequestWorld} {start_msg : SRxStartCaptureMsg}
    {request : StartRequest} (h : prepare_start world start_msg = some request) :
    request.spec.max_packets = start_msg.max_packets := by
  obtain ⟨matched, -, hrequest⟩ := Option.bind_eq_some_iff.mp h
  rw [← Option.some.inj hrequest]
  simp only [capture_spec_of, with_defaults, infer_port_max_packets, auto_filter_max_packets]

/-- Every capture has a duration. -/
theorem prepare_start_duration {world : RequestWorld} {start_msg : SRxStartCaptureMsg}
    {request : StartRequest} (h : prepare_start world start_msg = some request) :
    0 < request.spec.max_duration_sec := by
  obtain ⟨matched, -, hrequest⟩ := Option.bind_eq_some_iff.mp h
  rw [← Option.some.inj hrequest]
  exact positive_or_pos (by decide)

end RxNetCap.Capture
