/-
The request of a sample alert: `parse_capture_hint_pairs` and
`prepare_capture_from_sample` of `src/rxcapturemanagerthread.cpp`.

A hint is a list of pairs such as `process=nginx, port=80`; of two pairs with
one key the last counts. When no pair names a target, the whole hint is tried
as one pair, so that its value may have blanks in it.
-/
import RxNetCap.Lib.Tally
import RxNetCap.Capture.Request

set_option autoImplicit false

namespace RxNetCap.Capture

open RxNetCap.Tally RxNetCap.Pdef

/-! ## Alerts -/

/-- What a sample alert says about the capture that goes with it. -/
structure SRxSampleMsg where
  module_name : CStr := []
  capture_hint : CStr := []
  capture_category : CStr := []
  capture_duration_sec : ℤ := 0
  cooldown_sec : ℤ := 0
  deriving DecidableEq, Repr

/-! ## Hints -/

def trim_copy (value : CStr) : CStr :=
  ((value.dropWhile is_space).reverse.dropWhile is_space).reverse

def to_lower_copy (value : CStr) : CStr := value.map Char.toLower

def strip_quotes_copy (value : CStr) : CStr :=
  match value.head?, value.getLast? with
  | some first, some last =>
    if value.length ≥ 2 ∧ (first = '"' ∧ last = '"' ∨ first = '\x27' ∧ last = '\x27') then
      value.tail.dropLast
    else value
  | _, _ => value

/-- `ss >> token`, until the end; `token` is what was read of the next one. -/
def tokens (token : CStr) : CStr → List CStr
  | [] => if token = [] then [] else [token]
  | c :: rest =>
    if is_space c then (if token = [] then tokens [] rest else token :: tokens [] rest)
    else tokens (token ++ [c]) rest

abbrev HintPairs := Store CStr CStr

/-- Note the pair of a token, if it is one. -/
def add_pair (result : HintPairs) (token : CStr) : HintPairs :=
  let separator : Char → Bool := fun c => c = ':' ∨ c = '='
  match token.dropWhile fun c => separator c = false with
  | [] => result
  | _ :: value =>
    result.insert (to_lower_copy (trim_copy (token.takeWhile fun c => separator c = false)))
      (strip_quotes_copy (trim_copy value))

def parse_capture_hint_pairs (hint : CStr) : HintPairs :=
  (tokens [] (hint.map fun c => if c = ',' ∨ c = ';' then ' ' else c)).foldl add_pair ∅

/-- The keys that name a target, in the order in which they are looked for. -/
def target_keys : List (CStr × ECaptureMode) :=
  [("process".toList, .PROCESS), ("proc".toList, .PROCESS), ("pid".toList, .PID),
    ("container".toList, .CONTAINER), ("container_id".toList, .CONTAINER),
    ("iface".toList, .INTERFACE), ("interface".toList, .INTERFACE)]

/-- The target that the pairs name. -/
def pairs_target (pairs : HintPairs) : List (CStr × ECaptureMode) → Option (ECaptureMode × CStr)
  | [] => none
  | (key, mode) :: rest =>
    match pairs.lookup key with
    | some value => some (mode, value)
    | none => pairs_target pairs rest

/-- The target that the whole hint names. -/
def whole_target (hint : CStr) : Option (ECaptureMode × CStr) :=
  match hint.dropWhile fun c => c ≠ ':' with
  | [] => none
  | _ :: value =>
    let key := to_lower_copy (trim_copy (hint.takeWhile fun c => c ≠ ':'))
    (target_keys.find? fun entry => entry.1 = key).map fun entry =>
      (entry.2, strip_quotes_copy (trim_copy value))

def hint_target (hint : CStr) : Option (ECaptureMode × CStr) :=
  (pairs_target (parse_capture_hint_pairs hint) target_keys).orElse fun _ => whole_target hint

/-! ## Numbers -/

/-- `strtol`, if it reads to the end. -/
def parse_long_value (text : CStr) : Option ℤ :=
  let text := (c_str text).dropWhile is_space
  let (negative, digits) :=
    match text with
    | '-' :: rest => (true, rest)
    | '+' :: rest => (false, rest)
    | _ => (false, text)
  if digits = [] ∨ digits.all Char.isDigit = false then none
  else
    let value : ℤ := Nat.ofDigitChars 10 digits 0
    some (if negative then max (-value) (-2 ^ 63) else min value (2 ^ 63 - 1))

def parse_int_value (text : CStr) : Option ℤ := (parse_long_value text).map to_int

/-- The value of a key, if it is a positive `int`, or else `default`. -/
def positive_pair (pairs : HintPairs) (key : CStr) (default : ℤ) : ℤ :=
  match (pairs.lookup key).bind parse_int_value with
  | some value => if value > 0 then value else default
  | none => default

/-- The value of a key, or else `default`. -/
def text_pair (pairs : HintPairs) (key default : CStr) : CStr := (pairs.lookup key).getD default

/-! ## The request -/

def kModulePrefix : CStr := "module:".toList

/-- The module of an alert that names none. -/
def module_of (alert : SRxSampleMsg) : CStr := non_empty_or alert.module_name "default".toList

/-- The target as the fields of a request; `none` when it is missing or not a
process id. -/
def target_request (mode : ECaptureMode) (target_value : CStr) : Option SRxStartCaptureMsg :=
  match mode with
  | .PID =>
    match parse_int_value target_value with
    | some pid => if pid > 0 then some { capture_mode := .PID, target_pid := pid } else none
    | none => none
  | .INTERFACE =>
    if target_value = [] then none else some { capture_mode := .INTERFACE, iface := target_value }
  | .PROCESS =>
    if target_value = [] then none
    else some { capture_mode := .PROCESS, proc_name := target_value }
  | .CONTAINER =>
    if target_value = [] then none
    else some { capture_mode := .CONTAINER, container_id := target_value }

def sample_duration (pairs : HintPairs) (alert : SRxSampleMsg) (defaults : Option SRxDefaults)
    (duration_sec : ℤ) : ℤ :=
  let duration := positive_pair pairs "duration".toList alert.capture_duration_sec
  let duration := positive_pair pairs "duration_sec".toList duration
  let duration :=
    match defaults with
    | none => duration
    | some defaults => positive_or duration defaults.duration_sec
  positive_or duration duration_sec

def sample_max_bytes (pairs : HintPairs) (defaults : Option SRxDefaults) (max_bytes : ℤ) : ℤ :=
  match pairs.lookup "max_bytes".toList with
  | some text =>
    match parse_long_value text with
    | some value => if value > 0 then value else max_bytes
    | none => max_bytes
  | none =>
    match defaults with
    | none => max_bytes
    | some defaults => positive_or max_bytes defaults.max_bytes

def sample_category (pairs : HintPairs) (alert : SRxSampleMsg) (defaults : Option SRxDefaults) :
    CStr :=
  let category := text_pair pairs "category".toList alert.capture_category
  non_empty_or category ((defaults.map fun defaults => defaults.category).getD [])

def prepare_capture_from_sample (alert : SRxSampleMsg)
    (strategy : Option CRxStrategyConfigManager) : Option SRxStartCaptureMsg := do
  let defaults := strategy.map fun cfg => cfg.defaults
  let pairs := parse_capture_hint_pairs alert.capture_hint
  let (mode, target_value) ← hint_target alert.capture_hint
  let target_value :=
    if mode = .INTERFACE then
      non_empty_or target_value ((defaults.map fun defaults => defaults.iface).getD [])
    else target_value
  let msg ← target_request mode target_value
  return { msg with
    netns_path := text_pair pairs "netns".toList msg.netns_path
    filter := text_pair pairs "filter".toList msg.filter
    protocol_filter := text_pair pairs "protocol_filter".toList
      (text_pair pairs "protocol".toList msg.protocol_filter)
    ip_filter := text_pair pairs "ip_filter".toList (text_pair pairs "ip".toList msg.ip_filter)
    port_filter := positive_pair pairs "port_filter".toList
      (positive_pair pairs "port".toList msg.port_filter)
    category := sample_category pairs alert defaults
    duration_sec := sample_duration pairs alert defaults msg.duration_sec
    max_bytes := sample_max_bytes pairs defaults msg.max_bytes
    max_packets := positive_pair pairs "max_packets".toList msg.max_packets
    file_pattern := non_empty_or msg.file_pattern
      ((defaults.map fun defaults => defaults.file_pattern).getD [])
    client_ip := "sample".toList
    request_user := kModulePrefix ++ module_of alert }

/-- A request of a sample alert carries the module of the alert. -/
theorem prepare_capture_from_sample_user {alert : SRxSampleMsg}
    {strategy : Option CRxStrategyConfigManager} {msg : SRxStartCaptureMsg}
    (h : prepare_capture_from_sample alert strategy = some msg) :
    msg.request_user = kModulePrefix ++ module_of alert := by
  unfold prepare_capture_from_sample at h
  obtain ⟨target, -, h⟩ := Option.bind_eq_some_iff.mp h
  obtain ⟨request, -, h⟩ := Option.bind_eq_some_iff.mp h
  rw [← Option.some.inj h]

end RxNetCap.Capture
