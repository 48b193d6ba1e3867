/-
The reply to a start request, from `resolve_target_processes`,
`create_duplicate_error_reply`, `create_capacity_error_reply` and
`create_and_add_capture_task` of `src/rxcapturemanagerthread.cpp`.

The manager writes four of its five replies with `snprintf`, into a buffer and with
the strings as they are; only the reply to a duplicate escapes them. So a client
reads the key, the session id and the name of the process back exactly when they
can stand in a JSON string as they are and the buffer has room (`told_iff`).

The header with the time that a request has waited is left out.
-/
import RxNetCap.Capture.Manager
import RxNetCap.Lib.JsonFront
import RxNetCap.Query.Snapshot

set_option autoImplicit false

namespace RxNetCap.Query

open RxNetCap.Capture RxNetCap.JsonText RxNetCap.Pdef
open scoped RxNetCap.Utf8

/-! ## The replies -/

structure SRxHttpReplyMsg where
  status : ℤ
  reason : CStr
  content_type : CStr := "application/json".toList
  body : CStr
  deriving DecidableEq, Repr

def process_not_found_text (proc_name : CStr) : CStr :=
  "\x7b\"error\":".toList ++ quoted "process not found".toList ++ field "proc_name" (quoted (c_str proc_name))
    ++ "\x7d".toList

def pid_not_found_text (target_pid : ℤ) : CStr :=
  "\x7b\"error\":".toList ++ quoted "pid not found".toList ++ field "pid" (Capture.decimal target_pid)
    ++ "\x7d".toList

def capacity_text (max_concurrent : ℤ) : CStr :=
  "\x7b\"error\":".toList ++ quoted "capture capacity reached".toList
    ++ field "max_concurrent" (Capture.decimal max_concurrent) ++ "\x7d".toList

/-- Without `snprintf`. -/
def duplicate_text (task_key sid : CStr) (existing_id : ℤ) (status : CStr) : CStr :=
  "\x7b\"error\":".toList ++ quoted "duplicate capture task".toList
    ++ (field "key" (json_text task_key)
      ++ (if sid ≠ [] then field "sid" (json_text sid) else [])
      ++ field "existing_capture_id" (Capture.decimal existing_id)
      ++ field "status" (json_text status))
    ++ "\x7d".toList

def started_text (capture_id : ℤ) (mode : ECaptureMode) (task_key sid : CStr) (matched : ℕ)
    (port_filter : ℤ) : CStr :=
  "\x7b\"capture_id\":".toList ++ Capture.decimal capture_id
    ++ (field "duplicate" (json_bool false)
      ++ field "status" (quoted "started".toList)
      ++ field "mode" (quoted (capture_mode_to_string mode))
      ++ field "key" (quoted (c_str task_key))
      ++ field "sid" (quoted (c_str sid))
      ++ field "matched_pids" (Capture.decimal (matched : ℤ))
      ++ field "port" (Capture.decimal port_filter))
    ++ "\x7d".toList

/-- The first error reply of `resolve_target_processes`. -/
def process_not_found_reply (proc_name : CStr) : SRxHttpReplyMsg where
  status := 404
  reason := "Not Found".toList
  body := cstr 256 (process_not_found_text proc_name)

/-- The other one. -/
def pid_not_found_reply (target_pid : ℤ) : SRxHttpReplyMsg where
  status := 404
  reason := "Not Found".toList
  body := cstr 256 (pid_not_found_text target_pid)

def create_duplicate_error_reply (task_key sid : CStr) (existing_id : ℤ) (status : CStr) :
    SRxHttpReplyMsg where
  status := 409
  reason := "Conflict".toList
  body := duplicate_text task_key sid existing_id status

def create_capacity_error_reply (max_concurrent : ℤ) : SRxHttpReplyMsg where
  status := 429
  reason := "Too Many Requests".toList
  body := cstr 256 (capacity_text max_concurrent)

/-- The reply of `create_and_add_capture_task`. -/
def started_reply (capture_id : ℤ) (mode : ECaptureMode) (task_key sid : CStr) (matched : ℕ)
    (port_filter : ℤ) : SRxHttpReplyMsg where
  status := 200
  reason := "OK".toList
  body := cstr 1024 (started_text capture_id mode task_key sid matched port_filter)

/-! ## Which reply -/

/-- A reply, with the values that are used for it. -/
inductive StartReply where
  | process_not_found (proc_name : CStr)
  | pid_not_found (target_pid : ℤ)
  | duplicate (task_key sid : CStr) (existing_id : ℤ) (status : ECaptureTaskStatus)
  | capacity (max_concurrent : ℤ)
  | started (capture_id : ℤ) (mode : ECaptureMode) (task_key sid : CStr) (matched : ℕ) (port_filter : ℤ)
  deriving DecidableEq

def StartReply.message : StartReply → SRxHttpReplyMsg
  | .process_not_found proc_name => process_not_found_reply proc_name
  | .pid_not_found target_pid => pid_not_found_reply target_pid
  | .duplicate task_key sid existing_id status =>
    create_duplicate_error_reply task_key sid existing_id (capture_status_to_string status)
  | .capacity max_concurrent => create_capacity_error_reply max_concurrent
  | .started capture_id mode task_key sid matched port_filter =>
    started_reply capture_id mode task_key sid matched port_filter

/-- The error reply of `resolve_target_processes`. -/
def not_found_reply (start_msg : SRxStartCaptureMsg) : StartReply :=
  if start_msg.capture_mode = .PROCESS then .process_not_found start_msg.proc_name
  else .pid_not_found start_msg.target_pid

/-- The reply about an active task, of which the snapshot is `existing`. What the
snapshot does not say is the request's. -/
def duplicate_reply (request : StartRequest) (task : SRxCaptureTask) (existing : Option SRxCaptureTask) :
    StartReply :=
  .duplicate
    (non_empty_or ((existing.map SRxCaptureTask.key).getD []) request.key)
    (non_empty_or ((existing.map SRxCaptureTask.sid).getD []) request.sid)
    task.capture_id task.status

/-- `check_task_duplicate` comes after the search by the signature; it gives the id
of the task, and the snapshot is looked up again when that is positive. -/
def check_duplicate (request : StartRequest) (mgr : CRxSafeTaskMgr) : Option StartReply :=
  match mgr.query_active_task_by_signature request.signature with
  | some task => some (duplicate_reply request task (some task))
  | none =>
    if mgr.is_key_active request.key then
      (mgr.query_task_by_key request.key).map fun task =>
        duplicate_reply request task (if task.capture_id > 0 then mgr.task task.capture_id else none)
    else none

/-- The reply of `handle_start_capture`. -/
def start_reply (cfg : Config) (start_msg : SRxStartCaptureMsg) (world : RequestWorld) (m : Manager) :
    StartReply :=
  match resolve_target_processes world start_msg, prepare_start world start_msg with
  | some matched, some request =>
    match check_duplicate request m.task_mgr with
    | some reply => reply
    | none =>
      if running_tasks m.task_mgr ≥ get_max_concurrent_limit cfg then .capacity (get_max_concurrent_limit cfg)
      else
        .started m.next_capture_id request.start_msg.capture_mode request.key request.sid matched.length
          request.start_msg.port_filter
  | _, _ => not_found_reply start_msg

theorem check_duplicate_none (request : StartRequest) (mgr : CRxSafeTaskMgr) :
    check_duplicate request mgr = none ↔ duplicate_of request mgr = none := by
  unfold check_duplicate duplicate_of
  cases mgr.query_active_task_by_signature request.signature with
  | some task => exact ⟨nofun, nofun⟩
  | none =>
    simp only
    split
    · exact Option.map_eq_none_iff
    · exact ⟨fun _ => rfl, fun _ => rfl⟩

/-- The manager says started when it admits the request. -/
theorem start_reply_started {cfg : Config} {start_msg : SRxStartCaptureMsg} {world : RequestWorld}
    {m : Manager} {request : StartRequest} (hrequest : prepare_start world start_msg = some request)
    (haccepts : accepts_start cfg request m = true) :
    ∃ matched, resolve_target_processes world start_msg = some matched ∧
      start_reply cfg start_msg world m = .started m.next_capture_id request.start_msg.capture_mode
        request.key request.sid matched.length request.start_msg.port_filter := by
  obtain ⟨matched, hmatched, -⟩ := Option.bind_eq_some_iff.mp hrequest
  obtain ⟨hnew, hroom⟩ := of_decide_eq_true haccepts
  refine ⟨matched, hmatched, ?_⟩
  have hnone := (check_duplicate_none request m.task_mgr).mpr (Option.isNone_iff_eq_none.mp hnew)
  unfold start_reply
  rw [hmatched, hrequest]
  simp only [hnone]
  exact if_neg (not_le.mpr hroom)

/-! ## What a client reads -/

/-- A whole JSON object in which the strings are. -/
def Tells (body : CStr) (strings : List (String × CStr)) : Prop :=
  ∃ ms, decode body = some (.object ms) ∧
    ∀ entry ∈ strings, (member ms entry.1).bind Json.string? = some entry.2

/-- The strings that a reply has, with their names. -/
def StartReply.strings : StartReply → List (String × CStr)
  | .process_not_found proc_name => [("proc_name", proc_name)]
  | .pid_not_found _ => []
  | .duplicate task_key sid _ _ => ("key", task_key) :: if sid ≠ [] then [("sid", sid)] else []
  | .capacity _ => []
  | .started _ _ task_key sid _ _ => [("key", task_key), ("sid", sid)]

/-- A string that can stand between quotes as it is. -/
def Literal (s : CStr) : Prop := (∀ c ∈ s, Plain c) ∧ Utf8.Valid s

instance (s : CStr) : Decidable (Literal s) := inferInstanceAs (Decidable (_ ∧ _))

/-- The strings can be written in the way that the reply has. -/
def StartReply.Spelt : StartReply → Prop
  | .process_not_found proc_name => Literal proc_name
  | .duplicate task_key sid _ _ => Utf8.Valid task_key ∧ Utf8.Valid sid
  | .started _ _ task_key sid _ _ => Literal task_key ∧ Literal sid
  | .pid_not_found _ | .capacity _ => True

/-- The buffer has room for the values. -/
def StartReply.Fits : StartReply → Prop
  | .process_not_found proc_name => proc_name.length ≤ 211
  | .pid_not_found target_pid => (Capture.decimal target_pid).length ≤ 223
  | .duplicate _ _ _ _ => True
  | .capacity max_concurrent => (Capture.decimal max_concurrent).length ≤ 201
  | .started capture_id mode task_key sid matched port_filter =>
    (Capture.decimal capture_id).length + (capture_mode_to_string mode).length + task_key.length + sid.length
      + (Capture.decimal (matched : ℤ)).length + (Capture.decimal port_filter).length ≤ 919

/-! ### Taking a reply apart -/

section Off

variable {n : ℕ} {name : String} {v : Json} {t rest r : CStr} {ms : Members}

theorem quoted_eq (u : CStr) : quoted u = '"' :: (u ++ ['"']) := by simp [quoted]

theorem quoted_length (u : CStr) : (quoted u).length = u.length + 2 := by
  rw [quoted_eq, List.length_cons, List.length_append]
  rfl

theorem field_length (name : String) (t : CStr) :
    (field name t).length = name.toList.length + t.length + 4 := by
  simp only [field, List.length_append, String.reduceToList, List.length_cons, List.length_nil]
  omega

theorem stops_field (name : String) (t rest : CStr) : Stops (field name t ++ rest) := .cons (.inl rfl) _

theorem stops_end : Stops "\x7d".toList := .cons (.inr (.inl rfl)) _

theorem field_eq (name : String) (t rest : CStr) :
    field name t ++ rest = ',' :: member_text name.toList (t ++ rest) := by simp [field, member_text]

/-- The first member of an object. -/
theorem object_off (name : String) (hname : IsName name.toList) (hvalue : Reads v t) (hstops : Stops rest)
    {text start : CStr} (htext : text = start ++ t ++ rest)
    (hstart : start = '\x7b' :: '"' :: name.toList ++ ['"', ':']) {size : ℕ} (h : decode (cstr size text) = some (.object ms)) :
    ∃ m ms' r, ms = named name v :: ms' ∧ read_more_members m rest = some (ms', r) ∧
      (r = [] → text.length ≤ size - 1 ∧ Utf8.Valid text) := by
  have hbrace : text = '\x7b' :: (member_text name.toList t ++ rest) := by
    simp [htext, hstart, member_text]
  rw [hbrace, cstr] at h
  obtain ⟨n, r, hread, hwhole⟩ := decode_cut h
  rw [← hbrace] at hwhole
  cases n with
  | zero => cases hread
  | succ n =>
    have hskip : skip (member_text name.toList t ++ rest)
        = '"' :: (name.toList ++ '"' :: ':' :: t ++ rest) := skip_cons rfl _
    rw [read_value, if_pos rfl, hskip] at hread
    obtain ⟨⟨ms', r'⟩, hms, hread⟩ := Option.bind_eq_some_iff.mp hread
    cases hread
    obtain ⟨m, ms', rfl, hmore⟩ := read_member_off hname hvalue hstops hms
    exact ⟨m, ms', r, rfl, hmore, hwhole⟩

theorem field_off (h : read_more_members n (field name t ++ rest) = some (ms, r))
    (hname : IsName name.toList) (hvalue : Reads v t) (hstops : Stops rest) :
    ∃ m ms', ms = named name v :: ms' ∧ read_more_members m rest = some (ms', r) := by
  rw [field_eq] at h
  obtain ⟨m, h⟩ := read_comma_off h
  have htext : member_text name.toList (t ++ rest) = member_text name.toList t ++ rest := by simp [member_text]
  rw [htext] at h
  exact read_member_off hname hvalue hstops h

/-- A string that is written as it is, and read back. -/
theorem literal_off {value : CStr}
    (h : read_more_members n (field name (quoted (c_str value)) ++ rest) = some (ms, r))
    (hname : IsName name.toList) (hstops : Stops rest)
    (hrest : ∀ m t r', read_string m rest = some (t, r') → t = [','])
    (htold : (member ms name).bind Json.string? = some value) :
    (∀ c ∈ value, Plain c) ∧ c_str value = value ∧
      ∃ m ms', ms = named name (.string value) :: ms' ∧ read_more_members m rest = some (ms', r) := by
  rw [field_eq, quoted_eq] at h
  obtain ⟨m, h⟩ := read_comma_off h
  have htext : '"' :: (c_str value ++ ['"']) ++ rest = '"' :: (c_str value ++ '"' :: rest) := by simp
  rw [htext] at h
  obtain ⟨m1, m2, s, r', ms', rfl, hs, hmore⟩ := read_string_off hname h
  have hsame : s = value := by
    have hmember := member_named name name (.string s) ms'
    rw [named] at hmember
    rw [hmember, if_pos rfl] at htold
    exact Option.some.inj htold
  subst hsame
  obtain ⟨hplain, hwhole, rfl⟩ := read_string_literal (List.takeWhile_prefix _) hs hrest
  rw [hstops.skip] at hmore
  exact ⟨hplain, hwhole, m2, ms', rfl, hmore⟩

theorem end_off (h : read_more_members n "\x7d".toList = some (ms, r)) : r = [] := by
  cases n with
  | zero => cases h
  | succ n =>
    cases h
    rfl

/-- The string of a field of a valid text. -/
theorem valid_field {front u behind : CStr} (h : Utf8.Valid (front ++ (field name (quoted u) ++ behind))) :
    Utf8.Valid u := by
  have hquotes : front ++ (field name (quoted u) ++ behind)
      = (front ++ (",\"".toList ++ name.toList ++ "\":".toList)) ++ '"' :: (u ++ '"' :: behind) := by
    simp only [field, quoted_eq, List.append_assoc, List.cons_append, List.nil_append]
  rw [hquotes] at h
  have hfirst := ((Utf8.valid_cons_iff (c := '"') (by decide)).mp h).2
  exact ((Utf8.valid_cons_iff (c := '"') (by decide)).mp hfirst).1

end Off

theorem c_str_plain {s : CStr} (h : ∀ c ∈ s, Plain c) : c_str s = s := by
  refine List.takeWhile_eq_self_iff.mpr fun c hc => ?_
  have hplain := (h c hc).2.2
  rw [decide_eq_true_eq]
  rintro rfl
  exact absurd hplain (by decide)

theorem reads_literal {s : CStr} (h : Literal s) : Reads (.string s) (quoted (c_str s)) := by
  rw [c_str_plain h.1]
  exact reads_string (spells_plain h.1) h.2

/-! ### Each reply -/

/-- A text that fits is not cut. -/
theorem cstr_fits {n : ℕ} {t : CStr} (h : t.length < n) : cstr n t = t := by
  rw [cstr, List.take_of_length_le (Nat.le_sub_one_of_lt h)]

theorem comma_literal (name : String) (t rest : CStr) : ∀ m u r',
    read_string m (field name t ++ rest) = some (u, r') → u = [','] := by
  intro m u r' h
  rw [field_eq] at h
  match m, h with
  | 1, h => cases h
  | m + 2, h =>
    cases h
    rfl

theorem end_literal : ∀ m u r', read_string m "\x7d".toList = some (u, r') → u = [','] := by
  intro m u r' h
  match m, h with
  | 1, h => cases h
  | m + 2, h => cases h

theorem not_found_told_iff (proc_name : CStr) :
    Tells (process_not_found_reply proc_name).body [("proc_name", proc_name)] ↔
      Literal proc_name ∧ proc_name.length ≤ 211 := by
  have htext : process_not_found_text proc_name = "\x7b\"error\":".toList ++ quoted "process not found".toList
      ++ (field "proc_name" (quoted (c_str proc_name)) ++ "\x7d".toList) := by
    unfold process_not_found_text
    exact List.append_assoc _ _ _
  have hlength : (process_not_found_text proc_name).length = (c_str proc_name).length + 44 := by
    unfold process_not_found_text
    simp only [List.length_append, quoted_length, field_length, String.reduceToList, List.length_cons,
      List.length_nil]
    omega
  constructor
  · rintro ⟨ms, hdecode, htold⟩
    have htold : (member ms "proc_name").bind Json.string? = some proc_name :=
      htold ("proc_name", proc_name) List.mem_cons_self
    obtain ⟨m, ms', r, rfl, hmore, hwhole⟩ := object_off "error" (by decide) (reads_quoted (by decide))
      (stops_field _ _ _) htext (by decide) hdecode
    rw [member_named, if_neg (by decide)] at htold
    obtain ⟨hplain, hsame, m', ms'', rfl, hend⟩ := literal_off hmore (by decide) stops_end end_literal htold
    obtain ⟨hlong, hvalid⟩ := hwhole (end_off hend)
    rw [hlength, hsame] at hlong
    rw [htext, hsame] at hvalid
    exact ⟨⟨hplain, valid_field hvalid⟩, by omega⟩
  · rintro ⟨hliteral, hfits⟩
    have hreads : Reads (.object [named "error" (.string "process not found".toList),
        named "proc_name" (.string proc_name)]) (process_not_found_text proc_name) :=
      reads_fields (by decide) (reads_quoted (by decide)) (fields_field (by decide) (reads_literal hliteral))
        (by decide)
    have hbody : (process_not_found_reply proc_name).body = process_not_found_text proc_name := by
      refine cstr_fits ?_
      rw [hlength, c_str_plain hliteral.1]
      omega
    rw [hbody]
    refine ⟨_, decode_reads hreads, fun entry hentry => ?_⟩
    rw [List.mem_singleton.mp hentry]
    change (member _ "proc_name").bind Json.string? = some proc_name
    rw [member_named, if_neg (by decide), member_named, if_pos rfl]
    rfl

/-- A reply with a number. -/
theorem number_told_iff {text error : CStr} {name : String} (n : ℤ) (herror : IsName error)
    (hname : IsName name.toList)
    (htext : text = "\x7b\"error\":".toList ++ quoted error ++ field name (Capture.decimal n) ++ "\x7d".toList) :
    Tells (cstr 256 text) [] ↔ error.length + name.toList.length + (Capture.decimal n).length + 16 ≤ 255 := by
  have hlength : text.length = error.length + name.toList.length + (Capture.decimal n).length + 16 := by
    rw [htext]
    simp only [List.length_append, quoted_length, field_length, String.reduceToList, List.length_cons,
      List.length_nil]
    omega
  rw [← hlength]
  constructor
  · rintro ⟨ms, hdecode, -⟩
    obtain ⟨m, ms', r, rfl, hmore, hwhole⟩ := object_off "error" (by decide) (reads_quoted herror)
      (stops_field _ _ _) (htext.trans (List.append_assoc _ _ _)) (by decide) hdecode
    obtain ⟨m', ms'', rfl, hend⟩ := field_off hmore hname (reads_decimal n) stops_end
    exact (hwhole (end_off hend)).1
  · intro hfits
    have hreads : Reads (.object [named "error" (.string error), named name (.number (Capture.decimal n))]) text := by
      rw [htext]
      exact reads_fields (by decide) (reads_quoted herror) (fields_field hname (reads_decimal n)) (by decide)
    rw [cstr_fits (Nat.lt_succ_of_le hfits)]
    exact ⟨_, decode_reads hreads, nofun⟩

theorem json_text_eq (value : CStr) : json_text value = quoted (json_escape value) := by
  rw [quoted_eq]
  rfl

/-- The reply to a duplicate is the one that escapes its strings. -/
theorem duplicate_told_iff (task_key sid : CStr) (existing_id : ℤ) (status : ECaptureTaskStatus) :
    Tells (duplicate_text task_key sid existing_id (capture_status_to_string status))
        (("key", task_key) :: if sid ≠ [] then [("sid", sid)] else []) ↔
      Utf8.Valid task_key ∧ Utf8.Valid sid := by
  constructor
  · rintro ⟨ms, hdecode, -⟩
    obtain ⟨hvalid, -⟩ := Option.ite_none_right_eq_some.mp hdecode
    unfold duplicate_text at hvalid
    simp only [json_text_eq, List.append_assoc] at hvalid
    rw [← List.append_assoc] at hvalid
    refine ⟨(valid_json_escape task_key).mp (valid_field hvalid), ?_⟩
    by_cases hsid : sid = []
    · rw [hsid]
      exact Utf8.valid_nil
    · rw [if_pos hsid, ← List.append_assoc] at hvalid
      exact (valid_json_escape sid).mp (valid_field hvalid)
  · rintro ⟨hkey, hsid⟩
    have hstatus : Utf8.Valid (capture_status_to_string status) :=
      Utf8.valid_ascii fun c hc => (status_name status c hc).2
    have hreads : Reads (.object (named "error" (.string "duplicate capture task".toList) ::
        ([named "key" (.string task_key)] ++ (if sid ≠ [] then [named "sid" (.string sid)] else [])
          ++ [named "existing_capture_id" (.number (Capture.decimal existing_id))]
          ++ [named "status" (.string (capture_status_to_string status))])))
        (duplicate_text task_key sid existing_id (capture_status_to_string status)) := by
      refine reads_fields (by decide) (reads_quoted (by decide)) ?_ (by decide)
      exact (fields_field (by decide) (reads_json_text hkey))
        |>.append (fields_text (by decide) hsid)
        |>.append (fields_field (by decide) (reads_decimal _))
        |>.append (fields_field (by decide) (reads_json_text hstatus))
    refine ⟨_, decode_reads hreads, fun entry hentry => ?_⟩
    rcases List.mem_cons.mp hentry with rfl | hentry
    · simp only [List.cons_append, member_named, String.reduceEq, if_true, if_false]
      rfl
    · split at hentry
      · next hne =>
        rw [List.mem_singleton.mp hentry, if_pos hne]
        simp only [List.cons_append, List.nil_append, member_named, String.reduceEq, if_true, if_false]
        rfl
      · cases hentry

/-- The members of the reply to a request that has been admitted. -/
def started_members (capture_id : ℤ) (mode : ECaptureMode) (task_key sid : CStr) (matched : ℕ)
    (port_filter : ℤ) : Members :=
  named "capture_id" (.number (Capture.decimal capture_id)) ::
    ([named "duplicate" (.bool false)]
      ++ [named "status" (.string "started".toList)]
      ++ [named "mode" (.string (capture_mode_to_string mode))]
      ++ [named "key" (.string task_key)]
      ++ [named "sid" (.string sid)]
      ++ [named "matched_pids" (.number (Capture.decimal (matched : ℤ)))]
      ++ [named "port" (.number (Capture.decimal port_filter))])

theorem started_length (capture_id : ℤ) (mode : ECaptureMode) (task_key sid : CStr) (matched : ℕ)
    (port_filter : ℤ) :
    (started_text capture_id mode task_key sid matched port_filter).length
      = (Capture.decimal capture_id).length + (capture_mode_to_string mode).length + (c_str task_key).length
        + (c_str sid).length + (Capture.decimal (matched : ℤ)).length + (Capture.decimal port_filter).length + 104 := by
  unfold started_text
  have hfalse : (json_bool false).length = 5 := rfl
  simp only [List.length_append, quoted_length, field_length, String.reduceToList, List.length_cons,
    List.length_nil, hfalse]
  omega

theorem started_told_iff (capture_id : ℤ) (mode : ECaptureMode) (task_key sid : CStr) (matched : ℕ)
    (port_filter : ℤ) :
    Tells (started_reply capture_id mode task_key sid matched port_filter).body
        [("key", task_key), ("sid", sid)] ↔
      (Literal task_key ∧ Literal sid) ∧
        (Capture.decimal capture_id).length + (capture_mode_to_string mode).length + task_key.length + sid.length
          + (Capture.decimal (matched : ℤ)).length + (Capture.decimal port_filter).length ≤ 919 := by
  have hlength := started_length capture_id mode task_key sid matched port_filter
  constructor
  · rintro ⟨ms, hdecode, htold⟩
    have hkey : (member ms "key").bind Json.string? = some task_key :=
      htold ("key", task_key) List.mem_cons_self
    have hsid : (member ms "sid").bind Json.string? = some sid :=
      htold ("sid", sid) (List.mem_cons_of_mem _ List.mem_cons_self)
    have htext : started_text capture_id mode task_key sid matched port_filter
        = "\x7b\"capture_id\":".toList ++ Capture.decimal capture_id
          ++ (field "duplicate" (json_bool false)
            ++ (field "status" (quoted "started".toList)
            ++ (field "mode" (quoted (capture_mode_to_string mode))
            ++ (field "key" (quoted (c_str task_key))
            ++ (field "sid" (quoted (c_str sid))
            ++ (field "matched_pids" (Capture.decimal (matched : ℤ))
            ++ (field "port" (Capture.decimal port_filter)
            ++ "\x7d".toList))))))) := by
      unfold started_text
      simp only [List.append_assoc]
    obtain ⟨_, ms1, r, rfl, hduplicate, hwhole⟩ := object_off "capture_id" (by decide) (reads_decimal _)
      (stops_field _ _ _) htext (by decide) hdecode
    obtain ⟨_, ms2, rfl, hstatus⟩ := field_off hduplicate (by decide) (reads_json_bool false)
      (stops_field _ _ _)
    obtain ⟨_, ms3, rfl, hmode⟩ := field_off hstatus (by decide) (reads_quoted (by decide))
      (stops_field _ _ _)
    obtain ⟨_, ms4, rfl, hstring⟩ := field_off hmode (by decide) (reads_quoted (mode_name mode))
      (stops_field _ _ _)
    simp only [member_named, String.reduceEq, if_false] at hkey hsid
    obtain ⟨hkeyplain, hkeysame, _, ms5, rfl, hstring'⟩ := literal_off hstring (by decide)
      (stops_field _ _ _) (comma_literal _ _ _) hkey
    rw [member_named, if_neg (by decide)] at hsid
    obtain ⟨hsidplain, hsidsame, _, ms6, rfl, hmatched⟩ := literal_off hstring' (by decide)
      (stops_field _ _ _) (comma_literal _ _ _) hsid
    obtain ⟨_, ms7, rfl, hport⟩ := field_off hmatched (by decide) (reads_decimal _) (stops_field _ _ _)
    obtain ⟨_, ms8, rfl, hend⟩ := field_off hport (by decide) (reads_decimal _) stops_end
    obtain ⟨hlong, hvalid⟩ := hwhole (end_off hend)
    rw [hlength, hkeysame, hsidsame] at hlong
    rw [htext, hkeysame, hsidsame] at hvalid
    rw [← List.append_assoc, ← List.append_assoc, ← List.append_assoc] at hvalid
    have hkeyvalid := valid_field hvalid
    rw [← List.append_assoc] at hvalid
    exact ⟨⟨⟨hkeyplain, hkeyvalid⟩, ⟨hsidplain, valid_field hvalid⟩⟩, by omega⟩
  · rintro ⟨⟨hkey, hsid⟩, hfits⟩
    have hreads : Reads (.object (started_members capture_id mode task_key sid matched port_filter))
        (started_text capture_id mode task_key sid matched port_filter) := by
      refine reads_fields (by decide) (reads_decimal _) ?_ (by decide)
      exact (fields_field (by decide) (reads_json_bool false))
        |>.append (fields_field (by decide) (reads_quoted (by decide)))
        |>.append (fields_field (by decide) (reads_quoted (mode_name mode)))
        |>.append (fields_field (by decide) (reads_literal hkey))
        |>.append (fields_field (by decide) (reads_literal hsid))
        |>.append (fields_field (by decide) (reads_decimal _))
        |>.append (fields_field (by decide) (reads_decimal _))
    have hbody : (started_reply capture_id mode task_key sid matched port_filter).body
        = started_text capture_id mode task_key sid matched port_filter := by
      refine cstr_fits ?_
      rw [hlength, c_str_plain hkey.1, c_str_plain hsid.1]
      omega
    rw [hbody]
    refine ⟨_, decode_reads hreads, fun entry hentry => ?_⟩
    rcases List.mem_pair.mp hentry with rfl | rfl
    · simp only [started_members, List.cons_append, List.nil_append, member_named, String.reduceEq, if_true,
        if_false]
      rfl
    · simp only [started_members, List.cons_append, List.nil_append, member_named, String.reduceEq, if_true,
        if_false]
      rfl

/-- **A client reads a whole object and the strings that were used** exactly when
they can be written in the way that the reply has, and the buffer has room. -/
theorem told_iff (reply : StartReply) :
    Tells reply.message.body reply.strings ↔ reply.Spelt ∧ reply.Fits := by
  cases reply with
  | process_not_found proc_name => exact not_found_told_iff proc_name
  | pid_not_found target_pid =>
    have htold : Tells (pid_not_found_reply target_pid).body [] ↔ 13 + 3 + (Capture.decimal target_pid).length + 16 ≤ 255 :=
      number_told_iff target_pid (by decide) (by decide) rfl
    refine htold.trans ⟨fun h => ⟨trivial, ?_⟩, fun h => ?_⟩
    · change (Capture.decimal target_pid).length ≤ 223
      omega
    · have hfits : (Capture.decimal target_pid).length ≤ 223 := h.2
      omega
  | duplicate task_key sid existing_id status =>
    exact (duplicate_told_iff task_key sid existing_id status).trans (and_iff_left trivial).symm
  | capacity max_concurrent =>
    have htold : Tells (create_capacity_error_reply max_concurrent).body [] ↔
        24 + 14 + (Capture.decimal max_concurrent).length + 16 ≤ 255 :=
      number_told_iff max_concurrent (by decide) (by decide) rfl
    refine htold.trans ⟨fun h => ⟨trivial, ?_⟩, fun h => ?_⟩
    · change (Capture.decimal max_concurrent).length ≤ 201
      omega
    · have hfits : (Capture.decimal max_concurrent).length ≤ 201 := h.2
      omega
  | started capture_id mode task_key sid matched port_filter =>
    exact started_told_iff capture_id mode task_key sid matched port_filter

/-! ## The replies that the manager sends -/

/-- A number as a buffer has room for it. -/
theorem decimal_length {n : ℤ} {k : ℕ} (hk : 0 < k) (h : n.natAbs < 10 ^ k) : (Capture.decimal n).length ≤ k + 1 := by
  have hdigits := (Nat.length_toDigits_le_iff (by decide) hk).mpr h
  unfold Capture.decimal
  split
  · exact Nat.succ_le_succ hdigits
  · exact Nat.le_succ_of_le hdigits

theorem int_length {n : ℤ} (h : -2 ^ 31 ≤ n ∧ n < 2 ^ 31) : (Capture.decimal n).length ≤ 11 :=
  decimal_length (by decide) (by omega)

theorem digit_plain {c : Char} (h : c.isDigit = true) : Plain c ∧ Utf8.Ascii c := by
  simp only [Char.isDigit, Bool.and_eq_true, decide_eq_true_eq, UInt32.le_iff_toNat_le] at h
  have hlow : '0'.toNat ≤ c.toNat := h.1
  have hhigh : c.toNat ≤ '9'.toNat := h.2
  have hzero : '0'.toNat = 48 := rfl
  have hnine : '9'.toNat = 57 := rfl
  refine ⟨⟨?_, ?_, by omega⟩, ?_⟩
  · rintro rfl
    exact absurd hlow (by decide)
  · rintro rfl
    exact absurd hhigh (by decide)
  · change c.toNat < 0x80
    omega

/-- The signature and the digits of the time. -/
theorem sid_literal (n : ℕ) {timestamp : CStr} (h : ∀ c ∈ timestamp, c.isDigit = true) :
    Literal (hex16 n ++ timestamp) := by
  have hhex : ∀ k < 16, Plain (Nat.digitChar k) ∧ Utf8.Ascii (Nat.digitChar k) := by decide
  have hall : ∀ c ∈ hex16 n ++ timestamp, Plain c ∧ Utf8.Ascii c := by
    intro c hc
    rcases List.mem_append.mp hc with hc | hc
    · obtain ⟨i, -, rfl⟩ := List.mem_map.mp hc
      exact hhex _ (Nat.mod_lt _ (by decide))
    · exact digit_plain (h c hc)
  exact ⟨fun c hc => (hall c hc).1, Utf8.valid_ascii fun c hc => (hall c hc).2⟩

/-- What a request that is admitted is answered with. -/
theorem of_started {cfg : Config} {start_msg : SRxStartCaptureMsg} {world : RequestWorld} {m : Manager}
    {capture_id port_filter : ℤ} {mode : ECaptureMode} {task_key sid : CStr} {matched : ℕ}
    (h : start_reply cfg start_msg world m = .started capture_id mode task_key sid matched port_filter) :
    ∃ request, prepare_start world start_msg = some request ∧ task_key = request.key ∧ sid = request.sid := by
  unfold start_reply at h
  split at h
  · next request _ hrequest =>
    split at h
    · next reply hduplicate =>
      -- the reply to a duplicate does not say started
      unfold check_duplicate at hduplicate
      rw [h] at hduplicate
      split at hduplicate
      · cases hduplicate
      · obtain ⟨-, hduplicate⟩ := Option.ite_none_right_eq_some.mp hduplicate
        obtain ⟨task, -, htask⟩ := Option.map_eq_some_iff.mp hduplicate
        cases htask
    · split at h
      · cases h
      · cases h
        exact ⟨request, hrequest, rfl, rfl⟩
  · unfold not_found_reply at h
    split at h <;> cases h

/-- With the time in digits and with numbers that are of the types of the source, an
admitted request is answered well exactly when its key can be written as it is. -/
theorem started_sound_iff {cfg : Config} {start_msg : SRxStartCaptureMsg} {world : RequestWorld} {m : Manager}
    {capture_id port_filter : ℤ} {mode : ECaptureMode} {task_key sid : CStr} {matched : ℕ}
    (hreply : start_reply cfg start_msg world m = .started capture_id mode task_key sid matched port_filter)
    (hclock : (∀ c ∈ world.timestamp, c.isDigit = true) ∧ world.timestamp.length ≤ 32)
    (hid : -2 ^ 31 ≤ capture_id ∧ capture_id < 2 ^ 31) (hport : -2 ^ 31 ≤ port_filter ∧ port_filter < 2 ^ 31)
    (hmatched : matched < 2 ^ 64) :
    (StartReply.started capture_id mode task_key sid matched port_filter).Spelt ∧
        (StartReply.started capture_id mode task_key sid matched port_filter).Fits ↔ Literal task_key := by
  obtain ⟨request, hrequest, rfl, rfl⟩ := of_started hreply
  obtain ⟨processes, -, hrequest⟩ := Option.bind_eq_some_iff.mp hrequest
  obtain rfl := Option.some.inj hrequest
  refine ⟨fun h => h.1.1, fun hkey => ⟨⟨hkey, sid_literal _ hclock.1⟩, ?_⟩⟩
  have hkeylength : (generate_task_key (infer_port (auto_filter processes start_msg))).length ≤ 511 :=
    List.length_take_le _ _
  have hmode : (capture_mode_to_string mode).length ≤ 9 := by cases mode <;> decide
  have hdigits : (Capture.decimal (matched : ℤ)).length ≤ 21 :=
    decimal_length (by decide) (by rw [Int.natAbs_natCast]; omega)
  have hcapture := int_length hid
  have hfilter := int_length hport
  simp only [StartReply.Fits, hex16, List.length_append, List.length_map, List.length_reverse,
    List.length_range]
  omega

/-- **The reply to any request** is whole and gives the strings that were used
exactly under this condition. -/
theorem start_reply_told_iff (cfg : Config) (start_msg : SRxStartCaptureMsg) (world : RequestWorld)
    (m : Manager) :
    Tells (start_reply cfg start_msg world m).message.body (start_reply cfg start_msg world m).strings ↔
      (start_reply cfg start_msg world m).Spelt ∧ (start_reply cfg start_msg world m).Fits :=
  told_iff _

/-- A process with one worker. -/
def lone_worker : Config where
  manager := 1
  filter_threads := []
  workers := [2]
  cleanup := none
  threads := [1, 2]
  max_concurrent_captures := 1
  manager_pos := Nat.one_pos
  manager_runs := by decide
  manager_apart := by decide
  cleanup_apart := nofun

/-- A name with a quote in it, of no process. -/
def quoted_name : SRxStartCaptureMsg := { capture_mode := .PROCESS, proc_name := "a\"b".toList }

theorem quoted_name_garbled :
    ¬ Tells (start_reply lone_worker quoted_name {} {}).message.body [("proc_name", "a\"b".toList)] := by
  have hreply : start_reply lone_worker quoted_name {} {} = .process_not_found "a\"b".toList := by decide
  rw [hreply]
  exact fun htells => absurd ((not_found_told_iff "a\"b".toList).mp htells).1 (by decide)

end RxNetCap.Query
