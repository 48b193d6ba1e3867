/-
The strategy configuration: what `CRxStrategyConfigManager::load_internal` of
`src/rxstrategyconfig.cpp` makes of the text of the strategy file.

Each load fills a new object, so the configuration depends on the text and the
configuration of the server alone (`strategy_of`). Parsing the text is left to
`rapidjson`; of a number here only counts whether it is an `int`, and a string is
read up to a NUL. The log lines are left out.
-/
import RxNetCap.Capture.Request
import RxNetCap.Lib.Json
import RxNetCap.Lib.Tally

set_option autoImplicit false

namespace RxNetCap.Config

open RxNetCap.Capture RxNetCap.JsonText RxNetCap.Pdef RxNetCap.Tally

/-! ## Settings -/

/-- What the server configuration says about captures. -/
structure CaptureConfig where
  default_interface : CStr := "any".toList
  default_duration : ℤ := 60
  default_category : CStr := "diag".toList
  file_pattern : CStr := "\x7bday\x7d/\x7bdate\x7d-\x7biface\x7d-\x7bproc\x7d-\x7bport\x7d.pcap".toList
  max_file_size_mb : ℤ := 200

structure StorageConfig where
  base_dir : CStr := "/var/log/rxtrace/captures".toList
  max_age_days : ℤ := 7
  max_size_gb : ℤ := 100

structure CRxServerConfig where
  capture : CaptureConfig := {}
  storage : StorageConfig := {}

def default_defaults : SRxDefaults where
  iface := "any".toList
  duration_sec := 60
  category := "diag".toList
  file_pattern := "\x7bday\x7d/\x7bdate\x7d-\x7biface\x7d-\x7bproc\x7d-\x7bport\x7d.pcap".toList
  max_bytes := 200 * 1024 * 1024

structure SRxLimits where
  max_concurrent_captures : ℤ := 3
  queue_capacity : ℤ := 1024
  per_key_cooldown_sec : ℤ := 120
  per_client_window_sec : ℤ := 10
  per_client_max_req : ℤ := 20
  high_priority_slots : ℤ := 2
  deriving DecidableEq, Repr

structure SRxStorage where
  base_dir : CStr := "/var/log/rxtrace/captures".toList
  max_age_days : ℤ := 7
  max_size_gb : ℤ := 100
  progress_interval_sec : ℤ := 10
  progress_packet_threshold : ℤ := 50000
  progress_bytes_threshold : ℤ := 100 * 1024 * 1024
  compress_batch_interval_sec : ℤ := 300
  deriving DecidableEq, Repr

structure SRxThresholds where
  cpu_pct_gt : ℤ := 85
  mem_pct_gt : ℤ := 90
  net_rx_kbps_gt : ℤ := 8000
  deriving DecidableEq, Repr

structure CRxSampleModule where
  name : CStr := []
  cpu_pct_gt : ℤ := 0
  mem_pct_gt : ℤ := 0
  net_rx_kbps_gt : ℤ := 0
  capture_hint : CStr := []
  capture_duration_sec : ℤ := 0
  cooldown_sec : ℤ := 0
  capture_category : CStr := []
  deriving DecidableEq, Repr

def CRxSampleModule.has_thresholds (m : CRxSampleModule) : Bool :=
  m.cpu_pct_gt > 0 || m.mem_pct_gt > 0 || m.net_rx_kbps_gt > 0

structure SRxLogging where
  log_path : CStr := "logs".toList
  log_prefix : CStr := "rxtrace".toList
  max_file_size_mb : ℕ := 100
  log_level : ℤ := 16
  deriving DecidableEq, Repr

/-- All settings of a strategy. -/
structure Strategy where
  defaults : SRxDefaults := default_defaults
  limits : SRxLimits := {}
  storage : SRxStorage := {}
  thresholds : SRxThresholds := {}
  sample_modules : List CRxSampleModule := []
  logging : SRxLogging := {}
  protocol_pdefs : Store CStr CStr := ∅
  deriving DecidableEq

/-! ## Members -/

/-- `IsInt()` and `GetInt()` -/
def int_member (members : Members) (name : String) : Option ℤ :=
  match member members name with
  | some (.number literal) =>
    (integer? literal).filter fun value => -2 ^ 31 ≤ value ∧ value < 2 ^ 31
  | _ => none

def string_member (members : Members) (name : String) : Option CStr :=
  match member members name with
  | some (.string s) => some (c_str s)
  | _ => none

def object_member (members : Members) (name : String) : Option Members :=
  match member members name with
  | some (.object inner) => some inner
  | _ => none

def array_member (members : Members) (name : String) : Option (List Json) :=
  match member members name with
  | some (.array elements) => some elements
  | _ => none

/-! ## Loading -/

/-- The defaults are those of the server, where there is one. -/
def defaults_of (server_config : Option CRxServerConfig) : SRxDefaults :=
  match server_config with
  | some config =>
    { iface := config.capture.default_interface
      duration_sec := config.capture.default_duration
      category := config.capture.default_category
      file_pattern := config.capture.file_pattern
      max_bytes := config.capture.max_file_size_mb * 1024 * 1024 }
  | none => default_defaults

def storage_of (server_config : Option CRxServerConfig) : SRxStorage :=
  match server_config with
  | some config =>
    { base_dir := config.storage.base_dir
      max_age_days := config.storage.max_age_days
      max_size_gb := config.storage.max_size_gb }
  | none => {}

/-- A trigger that is no object or has no thresholds is passed over. -/
def trigger_module (defaults : SRxDefaults) : Json → Option CRxSampleModule
  | .object trigger =>
    let duration_sec := (int_member trigger "capture_duration_sec").getD defaults.duration_sec
    let m : CRxSampleModule :=
      { name := (string_member trigger "name").getD []
        cpu_pct_gt := (int_member trigger "cpu_pct_gt").getD 0
        mem_pct_gt := (int_member trigger "mem_pct_gt").getD 0
        net_rx_kbps_gt := (int_member trigger "net_rx_kbps_gt").getD 0
        capture_hint := (string_member trigger "trigger_capture").getD []
        capture_category := (string_member trigger "capture_category").getD []
        capture_duration_sec := if duration_sec ≤ 0 then defaults.duration_sec else duration_sec
        cooldown_sec := (int_member trigger "cooldown_sec").getD 0 }
    if m.has_thresholds then some m else none
  | _ => none

/-- A member of `protocols`; the map keeps the last path of a name. -/
def add_protocol (protocol_pdefs : Store CStr CStr) : CStr × Json → Store CStr CStr
  | (name, .string s) =>
    if c_str s ≠ [] then protocol_pdefs.insert (c_str name) (c_str s) else protocol_pdefs
  | _ => protocol_pdefs

/-- The settings of a document; it has to be an object. -/
def load_internal (server_config : Option CRxServerConfig) : Json → Option Strategy
  | .object doc =>
    let defaults := defaults_of server_config
    let sample := (object_member doc "sample").getD []
    some {
      defaults
      limits := { queue_capacity := (int_member sample "worker_queue_size").getD 1024 }
      storage := storage_of server_config
      thresholds := {
        cpu_pct_gt := (int_member sample "cpu_pct_gt").getD 85
        mem_pct_gt := (int_member sample "mem_pct_gt").getD 90
        net_rx_kbps_gt := (int_member sample "net_rx_kbps_gt").getD 8000 }
      sample_modules := ((array_member sample "triggers").getD []).filterMap (trigger_module defaults)
      protocol_pdefs := ((object_member doc "protocols").getD []).foldl add_protocol ∅ }
  | _ => none

/-- The settings of a text, if it is a JSON object; `Parse` gets a C string. -/
def strategy_of (parse : CStr → Option Json) (server_config : Option CRxServerConfig) (content : CStr) :
    Option Strategy :=
  (parse (c_str content)).bind (load_internal server_config)

end RxNetCap.Config
