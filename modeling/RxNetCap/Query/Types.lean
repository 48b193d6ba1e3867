/-
Captured files and archives as a task holds them, with all their fields, from
`src/rxcapturetasktypes.h`, and the snapshot of a task that queries get, from
`src/rxsafetaskmgr.h`.

`Capture.CaptureFileInfo` is the part of a file that the messages of a capture
fill in; here are also the fields that the cleanup thread adds.
-/
import RxNetCap.Capture.Messages

set_option autoImplicit false

namespace RxNetCap.Query

open RxNetCap.Capture RxNetCap.Pdef

structure CaptureFileInfo where
  file_path : CStr := []
  file_size : ℕ := 0
  segment_index : ℤ := 0
  total_segments : ℤ := 1
  md5 : CStr := []
  file_ready_ts : ℤ := 0
  compressed : Bool := false
  archive_path : CStr := []
  compress_finish_ts : ℤ := 0
  record_path : CStr := []
  deriving DecidableEq, Repr

structure CaptureArchiveInfo where
  archive_path : CStr := []
  files : List CaptureFileInfo := []
  archive_size : ℕ := 0
  compress_finish_ts : ℤ := 0
  deriving DecidableEq, Repr

/-- What the messages of a capture say about the file. -/
def CaptureFileInfo.reported (info : CaptureFileInfo) : Capture.CaptureFileInfo where
  file_path := info.file_path
  file_size := info.file_size
  file_ready_ts := info.file_ready_ts

structure TaskSnapshot where
  capture_id : ℤ := -1
  key : CStr := []
  sid : CStr := []
  status : ECaptureTaskStatus := .PENDING
  capture_mode : ECaptureMode := .INTERFACE
  iface : CStr := []
  proc_name : CStr := []
  target_pid : ℤ := -1
  worker_thread_index : ℕ := 0
  stop_requested : Bool := false
  filter : CStr := []
  port_filter : ℤ := 0
  duration_sec : ℤ := 0
  start_time : ℤ := 0
  end_time : ℤ := 0
  packet_count : ℕ := 0
  bytes_captured : ℕ := 0
  error_message : CStr := []
  client_ip : CStr := []
  request_user : CStr := []
  captured_files : List CaptureFileInfo := []
  archives : List CaptureArchiveInfo := []
  deriving DecidableEq, Repr

end RxNetCap.Query
