/-
The messages of a capture, from `src/rxcapturemessages.h` and
`src/rxmsgtypes.h`, and what a capture worker sends: the end
of `execute_capture` and the `send_` functions of `src/rxcapturethread.cpp`.

A message is posted to a thread by its index. `put_obj_msg` drops it without a
word when no running thread has that index. What one thread posts to another
arrives in that order.

Thread indexes count up from 1. Where the source keeps one in an `int`, the
value is the same. Where messages go back to a client over HTTP, they are left
out, with the connection and the clock they carry.
-/
import RxNetCap.Capture.Tasks
import RxNetCap.Lib.Mailbox

set_option autoImplicit false

namespace RxNetCap.Capture

open RxNetCap.Mailbox RxNetCap.Pdef

/-! ## Requests -/

inductive ECaptureMode where
  | INTERFACE | PROCESS | PID | CONTAINER
  deriving DecidableEq, Repr

/-- A request, from a client or from a sample alert. -/
structure SRxStartCaptureMsg where
  capture_mode : ECaptureMode := .INTERFACE
  iface : CStr := []
  proc_name : CStr := []
  target_pid : ℤ := -1
  container_id : CStr := []
  netns_path : CStr := []
  filter : CStr := []
  protocol_filter : CStr := []
  protocol_filter_inline : CStr := []
  ip_filter : CStr := []
  port_filter : ℤ := 0
  category : CStr := []
  file_pattern : CStr := []
  duration_sec : ℤ := 60
  max_bytes : ℤ := 0
  max_packets : ℤ := 0
  client_ip : CStr := []
  request_user : CStr := []
  deriving DecidableEq, Repr

/-- The settings that go with a capture; the fields are those that the code
reads on the way to the worker and in it. -/
structure CaptureConfigSnapshot where
  output_dir : CStr := []
  filename_template : CStr := []
  max_duration_sec : ℤ := 0
  max_bytes : ℤ := 0
  max_packets : ℤ := 0
  snaplen : ℤ := 65535
  compress_enabled : Bool := true
  compress_threshold_mb : ℤ := 100
  compress_format : CStr := "tar.gz".toList
  compress_remove_src : Bool := false
  deriving DecidableEq, Repr

structure CaptureSpec where
  capture_mode : ECaptureMode := .INTERFACE
  iface : CStr := []
  proc_name : CStr := []
  target_pid : ℤ := -1
  container_id : CStr := []
  netns_path : CStr := []
  category : CStr := []
  filter : CStr := []
  protocol_filter : CStr := []
  protocol_filter_inline : CStr := []
  ip_filter : CStr := []
  port_filter : ℤ := 0
  output_pattern : CStr := []
  resolved_iface : CStr := []
  max_duration_sec : ℤ := 0
  max_bytes : ℤ := 0
  max_packets : ℤ := 0
  snaplen : ℤ := 65535
  deriving DecidableEq, Repr

/-- The characters before the first NUL. -/
def c_str (s : CStr) : CStr := s.takeWhile (· ≠ '\x00')

/-- A text, or another when it is empty. -/
def non_empty_or (text other : CStr) : CStr := if text = [] then other else text

theorem non_empty_or_ne_nil {text other : CStr} (h : other ≠ []) : non_empty_or text other ≠ [] := by
  rw [non_empty_or]
  split
  · exact h
  · next htext => exact htext

/-! ## Messages -/

inductive ECaptureErrorCode where
  | NONE | UNKNOWN
  | START_INVALID_PARAMS | START_NO_PERMISSION | START_INTERFACE_NOT_FOUND
  | START_PROCESS_NOT_FOUND | START_TCPDUMP_FAILED | START_CREATE_FILE_FAILED
  | RUN_TCPDUMP_DIED | RUN_DISK_FULL | RUN_TIMEOUT | RUN_CANCELLED | RUN_PROCESS_DIED
  | CLEAN_COMPRESS_FAILED | CLEAN_DELETE_FAILED | CLEAN_DISK_FULL
  deriving DecidableEq, Repr

def rx_capture_error_to_string : ECaptureErrorCode → CStr
  | .NONE => "ERR_NONE".toList
  | .UNKNOWN => "ERR_UNKNOWN".toList
  | .START_INVALID_PARAMS => "ERR_START_INVALID_PARAMS".toList
  | .START_NO_PERMISSION => "ERR_START_NO_PERMISSION".toList
  | .START_INTERFACE_NOT_FOUND => "ERR_START_INTERFACE_NOT_FOUND".toList
  | .START_PROCESS_NOT_FOUND => "ERR_START_PROCESS_NOT_FOUND".toList
  | .START_TCPDUMP_FAILED => "ERR_START_TCPDUMP_FAILED".toList
  | .START_CREATE_FILE_FAILED => "ERR_START_CREATE_FILE_FAILED".toList
  | .RUN_TCPDUMP_DIED => "ERR_RUN_TCPDUMP_DIED".toList
  | .RUN_DISK_FULL => "ERR_RUN_DISK_FULL".toList
  | .RUN_TIMEOUT => "ERR_RUN_TIMEOUT".toList
  | .RUN_CANCELLED => "ERR_RUN_CANCELLED".toList
  | .RUN_PROCESS_DIED => "ERR_RUN_PROCESS_DIED".toList
  | .CLEAN_COMPRESS_FAILED => "ERR_CLEAN_COMPRESS_FAILED".toList
  | .CLEAN_DELETE_FAILED => "ERR_CLEAN_DELETE_FAILED".toList
  | .CLEAN_DISK_FULL => "ERR_CLEAN_DISK_FULL".toList

/-- The value of `ERR_RUN_CANCELLED`, which a finished capture reports as its
exit code. -/
def ERR_RUN_CANCELLED : ℤ := 203

/-- `CaptureMessageBase`: the capture a message is about and who sent it. -/
structure CaptureMessageBase where
  capture_id : ℤ
  key : CStr := []
  sid : CStr := []
  sender_thread_index : ℕ := 0
  deriving DecidableEq, Repr

structure SRxCaptureStartMsgV2 extends CaptureMessageBase where
  config : CaptureConfigSnapshot := {}
  spec : CaptureSpec := {}
  worker_id : ℕ := 0
  deriving DecidableEq, Repr

structure SRxCaptureStartedMsgV2 extends CaptureMessageBase where
  start_ts : ℤ := 0
  capture_pid : ℤ := -1
  output_file : CStr := []
  deriving DecidableEq, Repr

structure SRxCaptureFileReadyMsgV2 extends CaptureMessageBase where
  files : List CaptureFileInfo := []
  deriving DecidableEq, Repr

structure CaptureResultStats where
  total_packets : ℕ := 0
  total_bytes : ℕ := 0
  finish_ts : ℤ := 0
  exit_code : ℤ := 0
  error_message : CStr := []
  deriving DecidableEq, Repr

structure SRxCaptureFinishedMsgV2 extends CaptureMessageBase where
  result : CaptureResultStats := {}
  deriving DecidableEq, Repr

structure SRxCaptureFailedMsgV2 extends CaptureMessageBase where
  error_code : ECaptureErrorCode := .UNKNOWN
  error_message : CStr := []
  deriving DecidableEq, Repr

structure SRxCaptureRawFileMsgV2 extends CaptureMessageBase where
  raw_pcap_path : CStr := []
  pdef_file_path : CStr := []
  pdef_inline_content : CStr := []
  has_pdef_filter : Bool := false
  manager_thread_index : ℕ := 0
  deriving DecidableEq, Repr

structure SRxCaptureFilteredFileMsgV2 extends CaptureMessageBase where
  filtered_pcap_path : CStr := []
  total_packets : ℕ := 0
  filtered_packets : ℕ := 0
  file_size : ℕ := 0
  pdef_file_path : CStr := []
  deriving DecidableEq, Repr

/-- `SRxPdefEndianMsg`; the path is in a `char[256]`. -/
structure SRxPdefEndianMsg where
  pdef_file_path : CStr := []
  detected_endian : EndianType := .UNKNOWN
  capture_id : ℤ := 0
  deriving DecidableEq, Repr

/-- To the cleanup thread: files it is to record, compress and age. -/
structure SRxFileEnqueueMsgV2 extends CaptureMessageBase where
  files : List CaptureFileInfo := []
  clean_policy : CaptureConfigSnapshot := {}
  deriving DecidableEq, Repr

inductive Msg where
  | started (msg : SRxCaptureStartedMsgV2)
  | file_ready (msg : SRxCaptureFileReadyMsgV2)
  | finished (msg : SRxCaptureFinishedMsgV2)
  | failed (msg : SRxCaptureFailedMsgV2)
  | raw_file (msg : SRxCaptureRawFileMsgV2)
  | filtered_file (msg : SRxCaptureFilteredFileMsgV2)
  | endian_detected (msg : SRxPdefEndianMsg)
  | file_enqueue (msg : SRxFileEnqueueMsgV2)
  deriving DecidableEq, Repr

/-- The capture whose progress a message reports to the manager or a filter
thread. A detected byte order is about a PDEF file, and what goes to the
cleanup thread is about files. -/
def Msg.capture? : Msg → Option ℤ
  | .started msg => some msg.capture_id
  | .file_ready msg => some msg.capture_id
  | .finished msg => some msg.capture_id
  | .failed msg => some msg.capture_id
  | .raw_file msg => some msg.capture_id
  | .filtered_file msg => some msg.capture_id
  | .endian_detected _ => none
  | .file_enqueue _ => none

/-- A message reports on capture `c`. -/
def Msg.is_about (c : ℤ) (msg : Msg) : Bool := msg.capture? = some c

/-! ## Posting -/

/-- From a thread to a thread, by their indexes. -/
structure Route where
  sender : ℕ
  target : ℕ
  deriving DecidableEq, Repr

abbrev Mail := Letters Route Msg

/-- Post a message; `threads` are the indexes of the running threads. -/
def put_obj_msg (threads : List ℕ) (sender target : ℕ) (msg : Msg) : Mail :=
  if target ∈ threads then [(⟨sender, target⟩, msg)] else []

theorem put_obj_msg_of_mem {threads : List ℕ} {sender target : ℕ} (h : target ∈ threads)
    (msg : Msg) : put_obj_msg threads sender target msg = [(⟨sender, target⟩, msg)] := if_pos h

theorem mem_put_obj_msg {threads : List ℕ} {sender target : ℕ} {msg : Msg} {letter : Route × Msg}
    (h : letter ∈ put_obj_msg threads sender target msg) :
    letter = (⟨sender, target⟩, msg) := by
  unfold put_obj_msg at h
  split at h
  · exact List.mem_singleton.mp h
  · simp at h

/-! ## What a worker sends -/

/-- A worker's messages go to the manager that sent the start message, if the
message names one. -/
def send_to_manager (threads : List ℕ) (worker : ℕ) (start_msg : SRxCaptureStartMsgV2)
    (msg : Msg) : Mail :=
  if start_msg.sender_thread_index = 0 then []
  else put_obj_msg threads worker start_msg.sender_thread_index msg

/-- The header of a message about the capture of `start_msg`, from a worker. -/
def reply_base (worker : ℕ) (start_msg : SRxCaptureStartMsgV2) : CaptureMessageBase where
  capture_id := start_msg.capture_id
  key := start_msg.key
  sid := start_msg.sid
  sender_thread_index := worker

def send_started (threads : List ℕ) (worker : ℕ) (start_msg : SRxCaptureStartMsgV2)
    (start_ts capture_pid : ℤ) (output_file : CStr) : Mail :=
  send_to_manager threads worker start_msg
    (.started { reply_base worker start_msg with start_ts, capture_pid, output_file })

def send_file_ready (threads : List ℕ) (worker : ℕ) (start_msg : SRxCaptureStartMsgV2)
    (files : List CaptureFileInfo) : Mail :=
  if files = [] then []
  else send_to_manager threads worker start_msg
    (.file_ready { reply_base worker start_msg with files })

def send_finished (threads : List ℕ) (worker : ℕ) (start_msg : SRxCaptureStartMsgV2)
    (result : CaptureResultStats) : Mail :=
  send_to_manager threads worker start_msg (.finished { reply_base worker start_msg with result })

def send_failure (threads : List ℕ) (worker : ℕ) (start_msg : SRxCaptureStartMsgV2)
    (error_code : ECaptureErrorCode) (error_message : CStr) : Mail :=
  send_to_manager threads worker start_msg
    (.failed { reply_base worker start_msg with error_code, error_message })

def send_raw_file_for_filter (threads : List ℕ) (worker : ℕ) (start_msg : SRxCaptureStartMsgV2)
    (raw_pcap_path pdef_file_path pdef_inline_content : CStr) : Mail :=
  send_to_manager threads worker start_msg
    (.raw_file
      { reply_base worker start_msg with
        raw_pcap_path
        pdef_file_path
        pdef_inline_content
        has_pdef_filter := pdef_file_path ≠ [] ∨ pdef_inline_content ≠ [] })

/-- What a capture's job reports when it is done. `stat_size` is the size of
the file, `none` when `stat` fails. -/
structure JobResult where
  final_path : CStr
  total_packets : ℕ
  total_bytes : ℕ
  finish_ts : ℤ
  stat_size : Option ℕ
  deriving DecidableEq, Repr

/-- The file of a finished capture, if its job names one. -/
def result_files (job : JobResult) : List CaptureFileInfo :=
  if job.final_path = [] then []
  else
    [{ file_path := job.final_path
       file_size := job.stat_size.getD job.total_bytes
       file_ready_ts := job.finish_ts }]

/-- The end of `execute_capture`: with a filter the raw file goes to be
filtered, without one the file is ready and the capture finished. -/
def send_result (threads : List ℕ) (worker : ℕ) (start_msg : SRxCaptureStartMsgV2)
    (job : JobResult) : Mail :=
  if start_msg.spec.protocol_filter ≠ [] ∨ start_msg.spec.protocol_filter_inline ≠ [] then
    send_raw_file_for_filter threads worker start_msg job.final_path
      start_msg.spec.protocol_filter start_msg.spec.protocol_filter_inline
  else
    send_file_ready threads worker start_msg (result_files job)
      ++ send_finished threads worker start_msg
        { total_packets := job.total_packets
          total_bytes := job.total_bytes
          finish_ts := job.finish_ts
          exit_code := 0 }

end RxNetCap.Capture
