/-
The answer to a query about a capture, from `handle_status` of
`src/rxurlhandlers.cpp` and `handle_query_capture` of
`src/rxcapturemanagerthread.cpp`: the text that is written from a snapshot, and
what a client reads from it.

The two texts differ in the session id, which only the second has when it is
empty, in the estimate of the progress, and in the files of an archive, of which
the second has only the paths. All else is written from the same parts, and each
part is read back in the order in which it is written.
-/
import RxNetCap.Capture.Escape
import RxNetCap.Query.Types

set_option autoImplicit false

namespace RxNetCap.Query

open RxNetCap.Capture RxNetCap.Pdef RxNetCap.JsonText
open scoped RxNetCap.Utf8

/-! ## Writing -/

def capture_status_to_string : ECaptureTaskStatus → CStr
  | .PENDING => "pending".toList
  | .RESOLVING => "resolving".toList
  | .RUNNING => "running".toList
  | .COMPLETED => "completed".toList
  | .FAILED => "failed".toList
  | .STOPPED => "stopped".toList

/-- A name in quotes, as it is. -/
def quoted (name : CStr) : CStr := "\"".toList ++ name ++ "\"".toList

def json_bool (b : Bool) : CStr := if b then "true".toList else "false".toList

/-- One more field of an object. -/
def field (name : String) (value : CStr) : CStr := ",\"".toList ++ name.toList ++ "\":".toList ++ value

def json_array (elements : List CStr) : CStr := "[".toList ++ [','].intercalate elements ++ "]".toList

def file_fields (info : CaptureFileInfo) : CStr :=
  field "size" (Capture.decimal info.file_size)
    ++ field "segment" (Capture.decimal info.segment_index)
    ++ field "segments" (Capture.decimal info.total_segments)
    ++ field "compressed" (json_bool info.compressed)
    ++ (if info.archive_path ≠ [] then field "archive" (json_text info.archive_path) else [])
    ++ (if info.compress_finish_ts > 0 then field "compressed_at" (Capture.decimal info.compress_finish_ts) else [])
    ++ (if info.record_path ≠ [] then field "record" (json_text info.record_path) else [])

def file_text (info : CaptureFileInfo) : CStr :=
  "\x7b\"path\":".toList ++ json_text info.file_path ++ file_fields info ++ "\x7d".toList

/-- An archive, with its files as `file` writes them. -/
def archive_text (file : CaptureFileInfo → CStr) (arc : CaptureArchiveInfo) : CStr :=
  "\x7b\"path\":".toList ++ json_text arc.archive_path
    ++ (field "size" (Capture.decimal arc.archive_size)
      ++ (if arc.compress_finish_ts > 0 then field "compressed_at" (Capture.decimal arc.compress_finish_ts) else [])
      ++ (if arc.files ≠ [] then field "files" (json_array (arc.files.map file)) else []))
    ++ "\x7d".toList

/-- What was asked for. -/
def target_fields (snapshot : TaskSnapshot) : CStr :=
  (if snapshot.iface ≠ [] then field "iface" (json_text snapshot.iface) else [])
    ++ (if snapshot.proc_name ≠ [] then field "proc_name" (json_text snapshot.proc_name) else [])
    ++ (if snapshot.filter ≠ [] then field "filter" (json_text snapshot.filter) else [])
    ++ (if snapshot.target_pid > 0 then field "pid" (Capture.decimal snapshot.target_pid) else [])
    ++ (if snapshot.port_filter > 0 then field "port" (Capture.decimal snapshot.port_filter) else [])

def counter_fields (snapshot : TaskSnapshot) : CStr :=
  field "start_time" (Capture.decimal snapshot.start_time)
    ++ field "end_time" (Capture.decimal snapshot.end_time)
    ++ field "packets" (Capture.decimal snapshot.packet_count)
    ++ field "bytes" (Capture.decimal snapshot.bytes_captured)
    ++ field "worker" (Capture.decimal snapshot.worker_thread_index)

def origin_fields (snapshot : TaskSnapshot) : CStr :=
  field "stop_requested" (json_bool snapshot.stop_requested)
    ++ field "client_ip" (json_text snapshot.client_ip)
    ++ field "request_user" (json_text snapshot.request_user)
    ++ (if snapshot.error_message ≠ [] then field "error" (json_text snapshot.error_message) else [])

def list_fields (file : CaptureFileInfo → CStr) (snapshot : TaskSnapshot) : CStr :=
  (if snapshot.captured_files ≠ [] then
      field "files" (json_array (snapshot.captured_files.map file_text)) else [])
    ++ (if snapshot.archives ≠ [] then
      field "archives" (json_array (snapshot.archives.map (archive_text file))) else [])

/-- The body that `handle_status` writes. -/
def handle_status_body (snapshot : TaskSnapshot) : CStr :=
  "\x7b\"capture_id\":".toList ++ Capture.decimal snapshot.capture_id
    ++ (field "status" (quoted (capture_status_to_string snapshot.status))
      ++ field "mode" (quoted (capture_mode_to_string snapshot.capture_mode))
      ++ field "key" (json_text snapshot.key)
      ++ (if snapshot.sid ≠ [] then field "sid" (json_text snapshot.sid) else [])
      ++ target_fields snapshot
      ++ counter_fields snapshot
      ++ origin_fields snapshot
      ++ list_fields file_text snapshot)
    ++ "\x7d".toList

/-! ### The progress -/

structure Progress where
  progress_pct : ℤ
  duration_sec : ℤ
  elapsed_sec : ℤ
  remaining_sec : ℤ

/-- The estimate for a capture that runs; the percentage is cut to an `int` before
it is bounded. -/
def estimate (now : ℤ) (snapshot : TaskSnapshot) : Option Progress :=
  if (snapshot.status = .RUNNING ∨ snapshot.status = .RESOLVING)
      ∧ snapshot.duration_sec > 0 ∧ snapshot.start_time > 0 then
    let elapsed_sec := if now - snapshot.start_time < 0 then 0 else now - snapshot.start_time
    let progress_pct := (elapsed_sec * 100 / snapshot.duration_sec).bmod (2 ^ 32)
    let remaining_sec := snapshot.duration_sec - elapsed_sec
    some {
      progress_pct := if progress_pct > 100 then 100 else progress_pct
      duration_sec := snapshot.duration_sec
      elapsed_sec := elapsed_sec
      remaining_sec := if remaining_sec < 0 then 0 else remaining_sec }
  else none

def progress_fields : Option Progress → CStr
  | none => []
  | some progress =>
    field "estimated_progress_pct" (Capture.decimal progress.progress_pct)
      ++ field "duration_sec" (Capture.decimal progress.duration_sec)
      ++ field "elapsed_sec" (Capture.decimal progress.elapsed_sec)
      ++ field "remaining_sec" (Capture.decimal progress.remaining_sec)

/-- Of a file in an archive, the path alone. -/
def path_text (info : CaptureFileInfo) : CStr := json_text info.file_path

/-- The body that `handle_query_capture` writes. -/
def handle_query_capture_body (now : ℤ) (snapshot : TaskSnapshot) : CStr :=
  "\x7b\"capture_id\":".toList ++ Capture.decimal snapshot.capture_id
    ++ (field "status" (quoted (capture_status_to_string snapshot.status))
      ++ field "mode" (quoted (capture_mode_to_string snapshot.capture_mode))
      ++ field "key" (json_text snapshot.key)
      ++ field "sid" (json_text snapshot.sid)
      ++ target_fields snapshot
      ++ counter_fields snapshot
      ++ progress_fields (estimate now snapshot)
      ++ origin_fields snapshot
      ++ list_fields path_text snapshot)
    ++ "\x7d".toList

/-! ## Reading -/

structure FileAnswer where
  path : CStr
  size : ℤ
  segment : ℤ
  segments : ℤ
  compressed : Bool
  archive : Option CStr
  compressed_at : Option ℤ
  record : Option CStr

/-- What is said about an archive, with what `φ` says about each of its files. -/
structure ArchiveAnswer (φ : Type) where
  path : CStr
  size : ℤ
  compressed_at : Option ℤ
  files : Option (List φ)

structure Answer (φ : Type) where
  capture_id : ℤ
  status : CStr
  mode : CStr
  key : CStr
  sid : Option CStr
  iface : Option CStr
  proc_name : Option CStr
  filter : Option CStr
  pid : Option ℤ
  port : Option ℤ
  start_time : ℤ
  end_time : ℤ
  packets : ℤ
  bytes : ℤ
  worker : ℤ
  stop_requested : Bool
  client_ip : CStr
  request_user : CStr
  error : Option CStr
  files : Option (List FileAnswer)
  archives : Option (List (ArchiveAnswer φ))

def read_file : Json → Option FileAnswer
  | .object ms => do
    let path ← required Json.string? (member ms "path")
    let size ← required Json.integer? (member ms "size")
    let segment ← required Json.integer? (member ms "segment")
    let segments ← required Json.integer? (member ms "segments")
    let compressed ← required Json.bool? (member ms "compressed")
    let archive ← optional Json.string? (member ms "archive")
    let compressed_at ← optional Json.integer? (member ms "compressed_at")
    let record ← optional Json.string? (member ms "record")
    return { path, size, segment, segments, compressed, archive, compressed_at, record }
  | _ => none

def read_archive {φ : Type} (file : Json → Option φ) : Json → Option (ArchiveAnswer φ)
  | .object ms => do
    let path ← required Json.string? (member ms "path")
    let size ← required Json.integer? (member ms "size")
    let compressed_at ← optional Json.integer? (member ms "compressed_at")
    let files ← optional (Json.list? file) (member ms "files")
    return { path, size, compressed_at, files }
  | _ => none

def read_answer {φ : Type} (file : Json → Option φ) : Json → Option (Answer φ)
  | .object ms => do
    let capture_id ← required Json.integer? (member ms "capture_id")
    let status ← required Json.string? (member ms "status")
    let mode ← required Json.string? (member ms "mode")
    let key ← required Json.string? (member ms "key")
    let sid ← optional Json.string? (member ms "sid")
    let iface ← optional Json.string? (member ms "iface")
    let proc_name ← optional Json.string? (member ms "proc_name")
    let filter ← optional Json.string? (member ms "filter")
    let pid ← optional Json.integer? (member ms "pid")
    let port ← optional Json.integer? (member ms "port")
    let start_time ← required Json.integer? (member ms "start_time")
    let end_time ← required Json.integer? (member ms "end_time")
    let packets ← required Json.integer? (member ms "packets")
    let bytes ← required Json.integer? (member ms "bytes")
    let worker ← required Json.integer? (member ms "worker")
    let stop_requested ← required Json.bool? (member ms "stop_requested")
    let client_ip ← required Json.string? (member ms "client_ip")
    let request_user ← required Json.string? (member ms "request_user")
    let error ← optional Json.string? (member ms "error")
    let files ← optional (Json.list? read_file) (member ms "files")
    let archives ← optional (Json.list? (read_archive file)) (member ms "archives")
    return { capture_id, status, mode, key, sid, iface, proc_name, filter, pid, port, start_time, end_time,
             packets, bytes, worker, stop_requested, client_ip, request_user, error, files, archives }
  | _ => none

/-! ### What should be read -/

/-- A text that is left out when it is empty. -/
def present (s : CStr) : Option CStr := if s ≠ [] then some s else none

/-- A number that is left out when it is not positive. -/
def positive (n : ℤ) : Option ℤ := if n > 0 then some n else none

/-- A list that is left out when it is empty. -/
def filled {α : Type} (l : List α) : Option (List α) := if l ≠ [] then some l else none

def file_answer (info : CaptureFileInfo) : FileAnswer where
  path := info.file_path
  size := info.file_size
  segment := info.segment_index
  segments := info.total_segments
  compressed := info.compressed
  archive := present info.archive_path
  compressed_at := positive info.compress_finish_ts
  record := present info.record_path

def archive_answer {φ : Type} (file : CaptureFileInfo → φ) (arc : CaptureArchiveInfo) : ArchiveAnswer φ where
  path := arc.archive_path
  size := arc.archive_size
  compressed_at := positive arc.compress_finish_ts
  files := filled (arc.files.map file)

def answer {φ : Type} (file : CaptureFileInfo → φ) (snapshot : TaskSnapshot) : Answer φ where
  capture_id := snapshot.capture_id
  status := capture_status_to_string snapshot.status
  mode := capture_mode_to_string snapshot.capture_mode
  key := snapshot.key
  sid := present snapshot.sid
  iface := present snapshot.iface
  proc_name := present snapshot.proc_name
  filter := present snapshot.filter
  pid := positive snapshot.target_pid
  port := positive snapshot.port_filter
  start_time := snapshot.start_time
  end_time := snapshot.end_time
  packets := snapshot.packet_count
  bytes := snapshot.bytes_captured
  worker := snapshot.worker_thread_index
  stop_requested := snapshot.stop_requested
  client_ip := snapshot.client_ip
  request_user := snapshot.request_user
  error := present snapshot.error_message
  files := filled (snapshot.captured_files.map file_answer)
  archives := filled (snapshot.archives.map (archive_answer file))

/-! ## The texts as JSON -/

/-- The texts that are written about a file are UTF-8. -/
structure FileTexts (info : CaptureFileInfo) : Prop where
  file_path : Utf8.Valid info.file_path
  archive_path : Utf8.Valid info.archive_path
  record_path : Utf8.Valid info.record_path

structure ArchiveTexts (arc : CaptureArchiveInfo) : Prop where
  archive_path : Utf8.Valid arc.archive_path
  files : ∀ info ∈ arc.files, FileTexts info

structure Texts (snapshot : TaskSnapshot) : Prop where
  key : Utf8.Valid snapshot.key
  sid : Utf8.Valid snapshot.sid
  iface : Utf8.Valid snapshot.iface
  proc_name : Utf8.Valid snapshot.proc_name
  filter : Utf8.Valid snapshot.filter
  error_message : Utf8.Valid snapshot.error_message
  client_ip : Utf8.Valid snapshot.client_ip
  request_user : Utf8.Valid snapshot.request_user
  captured_files : ∀ info ∈ snapshot.captured_files, FileTexts info
  archives : ∀ arc ∈ snapshot.archives, ArchiveTexts arc

/-! ### Parts -/

theorem fields_field {name : String} {v : Json} {t : CStr} (hname : IsName name.toList) (hvalue : Reads v t) :
    Fields [named name v] (field name t) := by
  have htext : field name t = ',' :: member_text name.toList t := by simp [field, member_text]
  rw [htext]
  exact fields_member hname hvalue

theorem reads_fields {name : String} {v : Json} {t t' : CStr} {ms : Members} (hname : IsName name.toList)
    (hvalue : Reads v t) (hfields : Fields ms t') {start : CStr}
    (hstart : start = '\x7b' :: '"' :: name.toList ++ ['"', ':']) :
    Reads (.object (named name v :: ms)) (start ++ t ++ t' ++ "\x7d".toList) := by
  have htext : start ++ t ++ t' ++ "\x7d".toList
      = '\x7b' :: member_text name.toList t ++ t' ++ ['\x7d'] := by simp [hstart, member_text]
  rw [htext]
  exact reads_object hname hvalue hfields

theorem reads_quoted {name : CStr} (hname : IsName name) : Reads (.string name) (quoted name) :=
  reads_string (spells_plain fun c hc => (hname c hc).1) (Utf8.valid_ascii fun c hc => (hname c hc).2)

theorem reads_json_bool (b : Bool) : Reads (.bool b) (json_bool b) := reads_bool b

theorem reads_list {α : Type} {l : List α} {f : α → Json} {g : α → CStr} (hne : l ≠ [])
    (h : ∀ a ∈ l, Reads (f a) (g a)) : Reads (.array (l.map f)) (json_array (l.map g)) :=
  reads_array_map hne h

/-- A text that may be left out. -/
theorem fields_text {name : String} {value : CStr} (hname : IsName name.toList) (hvalid : Utf8.Valid value) :
    Fields (if value ≠ [] then [named name (.string value)] else [])
      (if value ≠ [] then field name (json_text value) else []) :=
  .ite fun _ => fields_field hname (reads_json_text hvalid)

/-- A number that may be left out. -/
theorem fields_number {name : String} (n : ℤ) (hname : IsName name.toList) :
    Fields (if n > 0 then [named name (.number (Capture.decimal n))] else [])
      (if n > 0 then field name (Capture.decimal n) else []) :=
  .ite fun _ => fields_field hname (reads_decimal n)

/-! ### Reading a part back -/

theorem required_text (s : CStr) : required Json.string? (some (.string s)) = some s := rfl

theorem required_number (n : ℤ) : required Json.integer? (some (.number (Capture.decimal n))) = some n :=
  integer_decimal n

theorem required_bool (b : Bool) : required Json.bool? (some (.bool b)) = some b := rfl

theorem optional_text (value : CStr) :
    JsonText.optional Json.string? (if value ≠ [] then some (.string value) else none)
      = some (present value) :=
  optional_ite fun _ => rfl

theorem optional_number (n : ℤ) :
    JsonText.optional Json.integer? (if n > 0 then some (.number (Capture.decimal n)) else none)
      = some (positive n) :=
  optional_ite fun _ => integer_decimal n

theorem optional_list {α β : Type} {element : Json → Option β} {f : α → Json} {g : α → β} (l : List α)
    (h : ∀ a, element (f a) = some (g a)) :
    JsonText.optional (Json.list? element) (if l ≠ [] then some (.array (l.map f)) else none)
      = some (filled (l.map g)) := by
  rw [optional_ite fun _ => list_map fun a _ => h a]
  simp only [filled, ne_eq, List.map_eq_nil_iff]

/-! ### Files and archives -/

def file_members (info : CaptureFileInfo) : Members :=
  [named "size" (.number (Capture.decimal info.file_size))]
    ++ [named "segment" (.number (Capture.decimal info.segment_index))]
    ++ [named "segments" (.number (Capture.decimal info.total_segments))]
    ++ [named "compressed" (.bool info.compressed)]
    ++ (if info.archive_path ≠ [] then [named "archive" (.string info.archive_path)] else [])
    ++ (if info.compress_finish_ts > 0 then
      [named "compressed_at" (.number (Capture.decimal info.compress_finish_ts))] else [])
    ++ (if info.record_path ≠ [] then [named "record" (.string info.record_path)] else [])

def file_json (info : CaptureFileInfo) : Json :=
  .object (named "path" (.string info.file_path) :: file_members info)

theorem fields_file {info : CaptureFileInfo} (h : FileTexts info) :
    Fields (file_members info) (file_fields info) :=
  (fields_field (by decide) (reads_decimal _))
    |>.append (fields_field (by decide) (reads_decimal _))
    |>.append (fields_field (by decide) (reads_decimal _))
    |>.append (fields_field (by decide) (reads_json_bool _))
    |>.append (fields_text (by decide) h.archive_path)
    |>.append (fields_number _ (by decide))
    |>.append (fields_text (by decide) h.record_path)

theorem reads_file {info : CaptureFileInfo} (h : FileTexts info) : Reads (file_json info) (file_text info) :=
  reads_fields (by decide) (reads_json_text h.file_path) (fields_file h) (by decide)

theorem read_file_json (info : CaptureFileInfo) : read_file (file_json info) = some (file_answer info) := by
  simp only [read_file, file_json, file_members, member_named, member_append, member_ite, member_nil,
    String.reduceEq, if_true, if_false, ite_self, Option.or_none, Option.none_or,
    required_text, required_number, required_bool, optional_text, optional_number, Option.bind_eq_bind,
    Option.bind_some, Option.pure_def]
  rfl

def path_json (info : CaptureFileInfo) : Json := .string info.file_path

theorem reads_path {info : CaptureFileInfo} (h : FileTexts info) : Reads (path_json info) (path_text info) :=
  reads_json_text h.file_path

section Archives

variable {φ : Type} {json : CaptureFileInfo → Json} {text : CaptureFileInfo → CStr}
  {read : Json → Option φ} {told : CaptureFileInfo → φ}

def archive_members (json : CaptureFileInfo → Json) (arc : CaptureArchiveInfo) : Members :=
  [named "size" (.number (Capture.decimal arc.archive_size))]
    ++ (if arc.compress_finish_ts > 0 then
      [named "compressed_at" (.number (Capture.decimal arc.compress_finish_ts))] else [])
    ++ (if arc.files ≠ [] then [named "files" (.array (arc.files.map json))] else [])

def archive_json (json : CaptureFileInfo → Json) (arc : CaptureArchiveInfo) : Json :=
  .object (named "path" (.string arc.archive_path) :: archive_members json arc)

theorem reads_archive {arc : CaptureArchiveInfo} (hfile : ∀ info, FileTexts info → Reads (json info) (text info))
    (h : ArchiveTexts arc) : Reads (archive_json json arc) (archive_text text arc) := by
  have hfiles : Fields (if arc.files ≠ [] then [named "files" (.array (arc.files.map json))] else [])
      (if arc.files ≠ [] then field "files" (json_array (arc.files.map text)) else []) :=
    .ite fun hne => fields_field (by decide) (reads_list hne fun info hinfo => hfile info (h.files info hinfo))
  have hfields : Fields (archive_members json arc) _ :=
    (fields_field (by decide) (reads_decimal _)).append (fields_number _ (by decide)) |>.append hfiles
  exact reads_fields (by decide) (reads_json_text h.archive_path) hfields (by decide)

theorem read_archive_json (hread : ∀ info, read (json info) = some (told info)) (arc : CaptureArchiveInfo) :
    read_archive read (archive_json json arc) = some (archive_answer told arc) := by
  simp only [read_archive, archive_json, archive_members, member_named, member_append, member_ite, member_nil,
    String.reduceEq, if_true, if_false, ite_self, Option.or_none, Option.none_or, required_text,
    required_number, optional_number, optional_list _ hread, Option.bind_eq_bind, Option.bind_some,
    Option.pure_def]
  rfl

/-! ### Snapshots -/

def target_members (snapshot : TaskSnapshot) : Members :=
  (if snapshot.iface ≠ [] then [named "iface" (.string snapshot.iface)] else [])
    ++ (if snapshot.proc_name ≠ [] then [named "proc_name" (.string snapshot.proc_name)] else [])
    ++ (if snapshot.filter ≠ [] then [named "filter" (.string snapshot.filter)] else [])
    ++ (if snapshot.target_pid > 0 then [named "pid" (.number (Capture.decimal snapshot.target_pid))] else [])
    ++ (if snapshot.port_filter > 0 then [named "port" (.number (Capture.decimal snapshot.port_filter))] else [])

def counter_members (snapshot : TaskSnapshot) : Members :=
  [named "start_time" (.number (Capture.decimal snapshot.start_time))]
    ++ [named "end_time" (.number (Capture.decimal snapshot.end_time))]
    ++ [named "packets" (.number (Capture.decimal snapshot.packet_count))]
    ++ [named "bytes" (.number (Capture.decimal snapshot.bytes_captured))]
    ++ [named "worker" (.number (Capture.decimal snapshot.worker_thread_index))]

def origin_members (snapshot : TaskSnapshot) : Members :=
  [named "stop_requested" (.bool snapshot.stop_requested)]
    ++ [named "client_ip" (.string snapshot.client_ip)]
    ++ [named "request_user" (.string snapshot.request_user)]
    ++ (if snapshot.error_message ≠ [] then [named "error" (.string snapshot.error_message)] else [])

def list_members (json : CaptureFileInfo → Json) (snapshot : TaskSnapshot) : Members :=
  (if snapshot.captured_files ≠ [] then
      [named "files" (.array (snapshot.captured_files.map file_json))] else [])
    ++ (if snapshot.archives ≠ [] then
      [named "archives" (.array (snapshot.archives.map (archive_json json)))] else [])

def progress_members : Option Progress → Members
  | none => []
  | some progress =>
    [named "estimated_progress_pct" (.number (Capture.decimal progress.progress_pct))]
      ++ [named "duration_sec" (.number (Capture.decimal progress.duration_sec))]
      ++ [named "elapsed_sec" (.number (Capture.decimal progress.elapsed_sec))]
      ++ [named "remaining_sec" (.number (Capture.decimal progress.remaining_sec))]

/-- Both answers, from what they say of the session, the progress and the files of
an archive. -/
def snapshot_members (sid : Members) (progress : Option Progress) (json : CaptureFileInfo → Json)
    (snapshot : TaskSnapshot) : Members :=
  [named "status" (.string (capture_status_to_string snapshot.status))]
    ++ [named "mode" (.string (capture_mode_to_string snapshot.capture_mode))]
    ++ [named "key" (.string snapshot.key)]
    ++ sid
    ++ target_members snapshot
    ++ counter_members snapshot
    ++ progress_members progress
    ++ origin_members snapshot
    ++ list_members json snapshot

def snapshot_json (sid : Members) (progress : Option Progress) (json : CaptureFileInfo → Json)
    (snapshot : TaskSnapshot) : Json :=
  .object (named "capture_id" (.number (Capture.decimal snapshot.capture_id))
    :: snapshot_members sid progress json snapshot)

theorem fields_target {snapshot : TaskSnapshot} (h : Texts snapshot) :
    Fields (target_members snapshot) (target_fields snapshot) :=
  (fields_text (by decide) h.iface)
    |>.append (fields_text (by decide) h.proc_name)
    |>.append (fields_text (by decide) h.filter)
    |>.append (fields_number _ (by decide))
    |>.append (fields_number _ (by decide))

theorem fields_counters (snapshot : TaskSnapshot) :
    Fields (counter_members snapshot) (counter_fields snapshot) :=
  (fields_field (by decide) (reads_decimal _))
    |>.append (fields_field (by decide) (reads_decimal _))
    |>.append (fields_field (by decide) (reads_decimal _))
    |>.append (fields_field (by decide) (reads_decimal _))
    |>.append (fields_field (by decide) (reads_decimal _))

theorem fields_progress (progress : Option Progress) :
    Fields (progress_members progress) (progress_fields progress) := by
  cases progress with
  | none => exact .nil
  | some progress =>
    exact (fields_field (by decide) (reads_decimal _))
      |>.append (fields_field (by decide) (reads_decimal _))
      |>.append (fields_field (by decide) (reads_decimal _))
      |>.append (fields_field (by decide) (reads_decimal _))

theorem fields_origin {snapshot : TaskSnapshot} (h : Texts snapshot) :
    Fields (origin_members snapshot) (origin_fields snapshot) :=
  (fields_field (by decide) (reads_json_bool _))
    |>.append (fields_field (by decide) (reads_json_text h.client_ip))
    |>.append (fields_field (by decide) (reads_json_text h.request_user))
    |>.append (fields_text (by decide) h.error_message)

theorem fields_lists {snapshot : TaskSnapshot}
    (hfile : ∀ info, FileTexts info → Reads (json info) (text info)) (h : Texts snapshot) :
    Fields (list_members json snapshot) (list_fields text snapshot) :=
  (Fields.ite fun hne => fields_field (by decide)
      (reads_list hne fun info hinfo => reads_file (h.captured_files info hinfo)))
    |>.append (.ite fun hne => fields_field (by decide)
      (reads_list hne fun arc harc => reads_archive hfile (h.archives arc harc)))

theorem status_name (status : ECaptureTaskStatus) : IsName (capture_status_to_string status) := by
  cases status <;> decide

theorem mode_name (mode : ECaptureMode) : IsName (capture_mode_to_string mode) := by
  cases mode <;> decide

def snapshot_text (sid : CStr) (progress : Option Progress) (text : CaptureFileInfo → CStr)
    (snapshot : TaskSnapshot) : CStr :=
  "\x7b\"capture_id\":".toList ++ Capture.decimal snapshot.capture_id
    ++ (field "status" (quoted (capture_status_to_string snapshot.status))
      ++ field "mode" (quoted (capture_mode_to_string snapshot.capture_mode))
      ++ field "key" (json_text snapshot.key)
      ++ sid
      ++ target_fields snapshot
      ++ counter_fields snapshot
      ++ progress_fields progress
      ++ origin_fields snapshot
      ++ list_fields text snapshot)
    ++ "\x7d".toList

theorem reads_snapshot {snapshot : TaskSnapshot} {sid : Members} {sid_text : CStr}
    (hfile : ∀ info, FileTexts info → Reads (json info) (text info)) (hsid : Fields sid sid_text)
    (progress : Option Progress) (h : Texts snapshot) :
    Reads (snapshot_json sid progress json snapshot) (snapshot_text sid_text progress text snapshot) := by
  refine reads_fields (by decide) (reads_decimal _) ?_ (by decide)
  exact (fields_field (by decide) (reads_quoted (status_name _)))
    |>.append (fields_field (by decide) (reads_quoted (mode_name _)))
    |>.append (fields_field (by decide) (reads_json_text h.key))
    |>.append hsid
    |>.append (fields_target h)
    |>.append (fields_counters snapshot)
    |>.append (fields_progress progress)
    |>.append (fields_origin h)
    |>.append (fields_lists hfile h)

/-- The estimate is under names of its own. -/
theorem member_progress (progress : Option Progress) {name : String}
    (hname : name ∉ ["estimated_progress_pct", "duration_sec", "elapsed_sec", "remaining_sec"]) :
    member (progress_members progress) name = none := by
  simp only [List.mem_cons, List.not_mem_nil, or_false, not_or] at hname
  obtain ⟨hpct, hduration, helapsed, hremaining⟩ := hname
  cases progress with
  | none => rfl
  | some progress =>
    simp only [progress_members, member_append, member_named, member_nil, if_neg (Ne.symm hpct),
      if_neg (Ne.symm hduration), if_neg (Ne.symm helapsed), if_neg (Ne.symm hremaining), Option.or_none]

theorem read_snapshot_json (hread : ∀ info, read (json info) = some (told info)) {sid : Members}
    {told_sid : Option CStr} (hsid : JsonText.optional Json.string? (member sid "sid") = some told_sid)
    (hother : ∀ name, name ≠ "sid" → member sid name = none) (progress : Option Progress)
    (snapshot : TaskSnapshot) :
    read_answer read (snapshot_json sid progress json snapshot)
      = some { answer told snapshot with sid := told_sid } := by
  simp (disch := decide) only [read_answer, snapshot_json, snapshot_members, target_members, counter_members,
    origin_members, list_members, member_progress, hother, member_named, member_append, member_ite, member_nil,
    String.reduceEq, if_true, if_false, ite_self, Option.or_none, Option.none_or, required_text,
    required_number, required_bool, optional_text, optional_number, optional_list _ read_file_json,
    optional_list _ (read_archive_json hread), hsid, Option.bind_eq_bind, Option.bind_some, Option.pure_def]
  rfl

end Archives

/-! ## Both answers -/

def sid_members (snapshot : TaskSnapshot) : Members :=
  if snapshot.sid ≠ [] then [named "sid" (.string snapshot.sid)] else []

theorem status_text (snapshot : TaskSnapshot) : handle_status_body snapshot
    = snapshot_text (if snapshot.sid ≠ [] then field "sid" (json_text snapshot.sid) else []) none file_text
        snapshot := by
  unfold handle_status_body snapshot_text progress_fields
  simp only [List.append_nil]

theorem query_text (now : ℤ) (snapshot : TaskSnapshot) : handle_query_capture_body now snapshot
    = snapshot_text (field "sid" (json_text snapshot.sid)) (estimate now snapshot) path_text snapshot := by
  unfold handle_query_capture_body snapshot_text
  exact Eq.refl _

theorem status_answer {snapshot : TaskSnapshot} (h : Texts snapshot) :
    (decode (handle_status_body snapshot)).bind (read_answer read_file)
      = some (answer file_answer snapshot) := by
  have hsid : Fields (sid_members snapshot)
      (if snapshot.sid ≠ [] then field "sid" (json_text snapshot.sid) else []) :=
    fields_text (by decide) h.sid
  have hwanted : JsonText.optional Json.string? (member (sid_members snapshot) "sid")
      = some (present snapshot.sid) := by
    rw [sid_members, member_ite, member_named, if_pos rfl]
    exact optional_text snapshot.sid
  have hother : ∀ name, name ≠ "sid" → member (sid_members snapshot) name = none := fun name hname => by
    rw [sid_members, member_ite, member_named, if_neg hname.symm, member_nil, ite_self]
  have hreads := reads_snapshot (fun _ => reads_file) hsid none h
  rw [status_text, decode_reads hreads, Option.bind_some,
    read_snapshot_json read_file_json hwanted hother none snapshot]
  rfl

theorem query_answer (now : ℤ) {snapshot : TaskSnapshot} (h : Texts snapshot) :
    (decode (handle_query_capture_body now snapshot)).bind (read_answer Json.string?)
      = some { answer CaptureFileInfo.file_path snapshot with sid := some snapshot.sid } := by
  have hsid : Fields [named "sid" (.string snapshot.sid)] (field "sid" (json_text snapshot.sid)) :=
    fields_field (by decide) (reads_json_text h.sid)
  have hwanted : JsonText.optional Json.string? (member [named "sid" (.string snapshot.sid)] "sid")
      = some (some snapshot.sid) := by
    rw [member_named, if_pos rfl]
    rfl
  have hother : ∀ name, name ≠ "sid" → member [named "sid" (.string snapshot.sid)] name = none :=
    fun name hname => by rw [member_named, if_neg hname.symm, member_nil]
  have hpath : ∀ info, (path_json info).string? = some info.file_path := fun _ => rfl
  have hreads := reads_snapshot (fun _ => reads_path) hsid (estimate now snapshot) h
  rw [query_text, decode_reads hreads, Option.bind_some,
    read_snapshot_json hpath hwanted hother (estimate now snapshot) snapshot]

/-- **Both answers are well-formed and give the snapshot back**: of what may be
left out, a text or a list is when it is empty, and a number when it is not
positive. An escaped text gives itself back. -/
theorem answers_read_back :
    (∀ s : CStr, JsonText.unescape (json_escape s) = some s) ∧
      ∀ (now : ℤ) (snapshot : TaskSnapshot), Texts snapshot →
        (decode (handle_status_body snapshot)).bind (read_answer read_file)
            = some (answer file_answer snapshot) ∧
          (decode (handle_query_capture_body now snapshot)).bind (read_answer Json.string?)
            = some { answer CaptureFileInfo.file_path snapshot with sid := some snapshot.sid } :=
  ⟨unescape_json_escape, fun now _ h => ⟨status_answer h, query_answer now h⟩⟩

/-- The capture of an interface, which is of no process. -/
def interface_snapshot : TaskSnapshot where
  capture_id := 7
  key := "eth0".toList
  sid := "s\"1".toList
  status := .RUNNING
  iface := "eth0".toList
  duration_sec := 60
  start_time := 1000
  captured_files := [{ file_path := "/a.pcap".toList, file_size := 24 }]
  archives := [{ archive_path := "/a.tgz".toList, files := [{ file_path := "/a.pcap".toList }] }]

theorem interface_texts : Texts interface_snapshot where
  key := by decide
  sid := by decide
  iface := by decide
  proc_name := by decide
  filter := by decide
  error_message := by decide
  client_ip := by decide
  request_user := by decide
  captured_files := by
    intro info hinfo
    obtain rfl := List.mem_singleton.mp hinfo
    exact ⟨by decide, by decide, by decide⟩
  archives := by
    intro arc harc
    obtain rfl := List.mem_singleton.mp harc
    refine ⟨by decide, fun info hinfo => ?_⟩
    obtain rfl := List.mem_singleton.mp hinfo
    exact ⟨by decide, by decide, by decide⟩

theorem interface_answers :
    (decode (handle_status_body interface_snapshot)).bind (read_answer read_file)
        = some (answer file_answer interface_snapshot) ∧
      (decode (handle_query_capture_body 1030 interface_snapshot)).bind (read_answer Json.string?)
        = some { answer CaptureFileInfo.file_path interface_snapshot with sid := some "s\"1".toList } :=
  answers_read_back.2 1030 interface_snapshot interface_texts

/-- A process id is left out that is not zero, of a capture that has none. -/
theorem pid_left_out : ¬ ∀ snapshot, Texts snapshot →
    ∀ told, (decode (handle_status_body snapshot)).bind (read_answer read_file) = some told →
      (told.pid = none ↔ snapshot.target_pid = 0) := by
  intro h
  have hiff := h interface_snapshot interface_texts _ (status_answer interface_texts)
  exact absurd (hiff.mp rfl) (by decide)

end RxNetCap.Query
