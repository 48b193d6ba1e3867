/-
A task of the command-line client: `build_task_payload` of
`tools/rxcli_main.cpp`, which rewrites the JSON object of a task, and how the
server reads the result.

The client has its own list of the members that it passes on. What the server
reads besides (a mode, a container, an address, limits, a user) is lost on the
way, a `bpf` becomes the filter that the server would not have read from it, and
a duration or process id that is not an `int` is made one. So the two readings
are the same exactly for the tasks in which none of this makes a difference
(`same_message_iff`).

The summary that is printed for a task is left out.
-/
import RxNetCap.Http.StartRequest
import RxNetCap.Capture.Sample
import Mathlib.Data.List.TakeWhile

set_option autoImplicit false

namespace RxNetCap.Cli

open RxNetCap.Capture RxNetCap.Http RxNetCap.Pdef RxNetCap.Tally

/-! ## The members -/

/-- Pass on a member that has to be a string; `name'` is its name in the
payload. -/
def string_field (item : Members) (name name' : String) : Except String Members :=
  match member item name with
  | none => .ok []
  | some (.string s) => .ok [(name', .string (c_str s))]
  | some _ => .error (name ++ " must be a string")

/-- Pass on a member that has to be an integer of 64 bits with its sign. -/
def int64_field (item : Members) (name : String) : Except String Members :=
  match member item name with
  | none => .ok []
  | some (.integer n) =>
    if n.val < 2 ^ 63 then .ok [(name, .integer n)] else .error (name ++ " must be an integer")
  | some _ => .error (name ++ " must be an integer")

/-- The value of a duration, none when it is not a number. -/
def parse_duration_value : Value → Option Integer
  | .integer n => some (long_long n.val)
  | .double value => some (long_long value)
  | .string s => (parse_long_value s).map long_long
  | .other => none

/-- When both are there, only `duration` is looked at. -/
def parse_duration (item : Members) : Option Integer :=
  match member item "duration" with
  | some value => parse_duration_value value
  | none => (member item "duration_sec").bind parse_duration_value

/-- A duration that is no number is passed over. -/
def duration_field (item : Members) : Members :=
  match parse_duration item with
  | some value => [("duration", .integer value)]
  | none => []

def add_pid_field (value : Value) (field_name : String) : Except String Members :=
  match value with
  | .integer n => .ok [(field_name, .integer (long_long n.val))]
  | _ => .error (field_name ++ " must be an integer")

def filter_field (item : Members) : Except String Members :=
  match member item "filter" with
  | some _ => string_field item "filter" "filter"
  | none => string_field item "bpf" "filter"

def pid_field (item : Members) : Except String Members :=
  match member item "pid" with
  | some value => add_pid_field value "pid"
  | none =>
    match member item "target_pid" with
    | some value => add_pid_field value "target_pid"
    | none => .ok []

def build_task_payload (item : Members) : Except String Members := do
  let capture_id ← int64_field item "capture_id"
  let id ← int64_field item "id"
  let sid ← string_field item "sid" "sid"
  let iface ← string_field item "iface" "iface"
  let duration := duration_field item
  let filter ← filter_field item
  let file ← string_field item "file" "file"
  let file_pattern ← string_field item "file_pattern" "file_pattern"
  let category ← string_field item "category" "category"
  let priority ← string_field item "priority" "priority"
  let proc_name ← string_field item "proc_name" "proc_name"
  let pid ← pid_field item
  let protocol ← string_field item "protocol" "protocol"
  let protocol_filter ← string_field item "protocol_filter" "protocol_filter"
  let protocol_filter_inline ←
    string_field item "protocol_filter_inline" "protocol_filter_inline"
  return capture_id ++ id ++ sid ++ iface ++ duration ++ filter ++ file ++ file_pattern ++ category
    ++ priority ++ proc_name ++ pid ++ protocol ++ protocol_filter ++ protocol_filter_inline

/-! ## What the server finds in a payload -/

section Payload

variable {item payload : Members}

theorem member_append (l l' : Members) (name : String) :
    member (l ++ l') name = (member l name).or (member l' name) := by
  rw [member, List.lookup_append]
  rfl

theorem member_nil (name : String) : member [] name = none := rfl

theorem member_singleton (name m : String) (v : Value) :
    member [(name, v)] m = if m = name then some v else none := by
  unfold member
  rw [List.lookup_cons]
  by_cases h : m = name
  · rw [if_pos h, beq_iff_eq.mpr h]
  · rw [if_neg h, beq_eq_false_iff_ne.mpr h]
    rfl

/-- A field that is passed on under one name is found under this name only. -/
theorem member_string_field {name name' : String} (h : string_field item name name' = .ok payload)
    (m : String) : member payload m
      = if m = name' then (string_member item name).map Value.string else none := by
  unfold string_field at h
  unfold string_member
  cases hmember : member item name with
  | none =>
    simp only [hmember, Except.ok.injEq] at h
    rw [← h, member_nil, Option.map_none, ite_self]
  | some value =>
    cases value with
    | string s =>
      simp only [hmember, Except.ok.injEq] at h
      rw [← h, member_singleton, Option.map_some]
    | integer n => simp only [hmember, reduceCtorEq] at h
    | double n => simp only [hmember, reduceCtorEq] at h
    | other => simp only [hmember, reduceCtorEq] at h

theorem member_int64_field {name : String} (h : int64_field item name = .ok payload) (m : String)
    (hm : m ≠ name) : member payload m = none := by
  unfold int64_field at h
  split at h
  · cases h
    rfl
  · split at h
    · cases h
      rw [member_singleton, if_neg hm]
    · cases h
  · cases h

theorem member_duration_field (m : String) : member (duration_field item) m
    = if m = "duration" then (parse_duration item).map Value.integer else none := by
  rw [duration_field]
  cases parse_duration item with
  | none => rw [Option.map_none, ite_self, member_nil]
  | some value => rw [member_singleton, Option.map_some]

/-- The filter that is passed on. -/
def passed_filter (item : Members) : Option CStr :=
  match member item "filter" with
  | some _ => string_member item "filter"
  | none => string_member item "bpf"

theorem member_filter_field (h : filter_field item = .ok payload) (m : String) : member payload m
    = if m = "filter" then (passed_filter item).map Value.string else none := by
  unfold filter_field at h
  unfold passed_filter
  split at h
  · exact member_string_field h m
  · exact member_string_field h m

/-- The process id that is passed on, and under which name. -/
def passed_pid (item : Members) : Option (String × Integer) :=
  match member item "pid" with
  | some (.integer n) => some ("pid", long_long n.val)
  | some _ => none
  | none =>
    match member item "target_pid" with
    | some (.integer n) => some ("target_pid", long_long n.val)
    | _ => none

theorem member_pid_field (h : pid_field item = .ok payload) (m : String) : member payload m
    = ((passed_pid item).filter fun entry => m = entry.1).map fun entry => .integer entry.2 := by
  have hone (name : String) (n : Integer) :
      ((some (name, n)).filter fun entry => m = entry.1).map (fun entry => Value.integer entry.2)
        = if m = name then some (.integer n) else none := by
    by_cases hm : m = name <;> simp [Option.filter, hm]
  unfold pid_field at h
  unfold passed_pid
  cases hpid : member item "pid" with
  | some value =>
    cases value with
    | integer n =>
      simp only [hpid, add_pid_field, Except.ok.injEq] at h
      rw [← h, member_singleton]
      exact (hone _ _).symm
    | string s => simp only [hpid, add_pid_field, reduceCtorEq] at h
    | double n => simp only [hpid, add_pid_field, reduceCtorEq] at h
    | other => simp only [hpid, add_pid_field, reduceCtorEq] at h
  | none =>
    cases htarget : member item "target_pid" with
    | some value =>
      cases value with
      | integer n =>
        simp only [hpid, htarget, add_pid_field, Except.ok.injEq] at h
        rw [← h, member_singleton]
        exact (hone _ _).symm
      | string s => simp only [hpid, htarget, add_pid_field, reduceCtorEq] at h
      | double n => simp only [hpid, htarget, add_pid_field, reduceCtorEq] at h
      | other => simp only [hpid, htarget, add_pid_field, reduceCtorEq] at h
    | none =>
      simp only [hpid, htarget, Except.ok.injEq] at h
      rw [← h]
      rfl

/-- It has one of two names. -/
theorem passed_pid_name {entry : String × Integer} (h : passed_pid item = some entry) :
    entry.1 = "pid" ∨ entry.1 = "target_pid" := by
  unfold passed_pid at h
  split at h
  · cases h
    exact .inl rfl
  · cases h
  · split at h
    · cases h
      exact .inr rfl
    · cases h

theorem except_bind_ok {ε α β : Type} {x : Except ε α} {f : α → Except ε β} {b : β} :
    x >>= f = .ok b ↔ ∃ a, x = .ok a ∧ f a = .ok b := by
  cases x with
  | error e =>
    refine iff_of_false (fun h => by cases h) ?_
    rintro ⟨a, h, -⟩
    cases h
  | ok a =>
    constructor
    · exact fun h => ⟨a, rfl, h⟩
    · rintro ⟨a', h, h'⟩
      cases h
      exact h'

/-- What the server finds in a payload under the names that it reads. -/
structure Passes (item payload : Members) : Prop where
  same : ∀ name ∈ ["iface", "proc_name", "category", "file", "file_pattern", "protocol",
    "protocol_filter", "protocol_filter_inline"],
    member payload name = (string_member item name).map Value.string
  filter : member payload "filter" = (passed_filter item).map Value.string
  duration : member payload "duration" = (parse_duration item).map Value.integer
  pid : ∀ name ∈ ["pid", "target_pid"], member payload name
    = ((passed_pid item).filter fun entry => name = entry.1).map fun entry => .integer entry.2
  lost : ∀ name ∈ ["capture_mode", "mode", "container_id", "ip", "ip_filter", "port",
    "port_filter", "max_bytes", "max_packets", "client_ip", "user", "request_user"],
    member payload name = none

theorem build_task_payload_passes (h : build_task_payload item = .ok payload) :
    Passes item payload := by
  simp only [build_task_payload, except_bind_ok] at h
  obtain ⟨capture_id, hcapture_id, id, hid, sid, hsid, iface, hiface, filter, hfilter, file, hfile,
    file_pattern, hfile_pattern, category, hcategory, priority, hpriority, proc_name, hproc_name,
    pid, hpid, protocol, hprotocol, protocol_filter, hprotocol_filter, protocol_filter_inline,
    hprotocol_filter_inline, hpayload⟩ := h
  have hlookup (m : String) : member payload m = _ := congrArg (member · m)
    (Except.ok.inj hpayload).symm
  simp only [member_append, member_string_field hsid, member_string_field hiface,
    member_duration_field, member_filter_field hfilter, member_string_field hfile,
    member_string_field hfile_pattern, member_string_field hcategory,
    member_string_field hpriority, member_string_field hproc_name, member_pid_field hpid,
    member_string_field hprotocol, member_string_field hprotocol_filter,
    member_string_field hprotocol_filter_inline] at hlookup
  have hno_pid (m : String) (hm : m ≠ "pid" ∧ m ≠ "target_pid") :
      ((passed_pid item).filter fun entry => m = entry.1).map (fun entry => Value.integer entry.2)
        = none := by
    cases hpassed : passed_pid item with
    | none => rfl
    | some entry =>
      have hname := passed_pid_name hpassed
      have hne : m ≠ entry.1 := by
        rintro rfl
        exact hname.elim hm.1 hm.2
      simp [Option.filter, hne]
  refine ⟨?_, ?_, ?_, ?_, ?_⟩
  · intro name hname
    simp only [List.mem_cons, List.not_mem_nil, or_false] at hname
    rcases hname with rfl | rfl | rfl | rfl | rfl | rfl | rfl | rfl
    all_goals
      rw [hlookup, member_int64_field hcapture_id _ (by decide), member_int64_field hid _ (by decide),
        hno_pid _ (by decide)]
      simp
  · rw [hlookup, member_int64_field hcapture_id _ (by decide), member_int64_field hid _ (by decide),
      hno_pid _ (by decide)]
    simp
  · rw [hlookup, member_int64_field hcapture_id _ (by decide), member_int64_field hid _ (by decide),
      hno_pid _ (by decide)]
    simp
  · intro name hname
    simp only [List.mem_cons, List.not_mem_nil, or_false] at hname
    rcases hname with rfl | rfl
    all_goals
      rw [hlookup, member_int64_field hcapture_id _ (by decide), member_int64_field hid _ (by decide)]
      simp
  · intro name hname
    simp only [List.mem_cons, List.not_mem_nil, or_false] at hname
    rcases hname with rfl | rfl | rfl | rfl | rfl | rfl | rfl | rfl | rfl | rfl | rfl | rfl
    all_goals
      rw [hlookup, member_int64_field hcapture_id _ (by decide), member_int64_field hid _ (by decide),
        hno_pid _ (by decide)]
      simp

/-- A string that was read is read again. -/
theorem c_str_string_member {name : String} {s : CStr} (h : string_member item name = some s) :
    c_str s = s := by
  unfold string_member at h
  split at h
  · rw [← Option.some.inj h]
    exact List.takeWhile_idem
  · cases h

/-- A member that is passed on as a string. -/
theorem string_member_passed {name name' : String}
    (h : member payload name' = (string_member item name).map Value.string) :
    string_member payload name' = string_member item name := by
  cases hstring : string_member item name with
  | none =>
    rw [hstring] at h
    rw [string_member, h]
    rfl
  | some s =>
    rw [hstring] at h
    rw [string_member, h, Option.map_some]
    exact congrArg some (c_str_string_member hstring)

theorem string_member_none {name : String} (h : member payload name = none) :
    string_member payload name = none := by
  rw [string_member, h]

theorem int_member_none {name : String} (h : member payload name = none) :
    int_member payload name = none := by
  rw [int_member, h]

theorem int64_member_none {name : String} (h : member payload name = none) :
    int64_member payload name = none := by
  rw [int64_member, h]

end Payload

/-! ## The two readings -/

/-- The mode that the process name and the process id call for. -/
def implied_mode (item : Members) : ECaptureMode :=
  if (string_member item "proc_name").getD [] ≠ [] then .PROCESS
  else if (int_member item "pid").getD 0 > 0 then .PID
  else .INTERFACE

/-- The process id that the client makes of an integer; -1 is none. -/
def converted_pid (n : Integer) : ℤ := (long_long n.val).get_int.getD (-1)

/-- As a `long long` it is a negative `int`. -/
def Wraps (n : Integer) : Prop := 2 ^ 64 - 2 ^ 31 ≤ n.val ∧ n.val ≠ 2 ^ 64 - 1

/-- The only process id of a task. -/
def OnlyPid (item : Members) (n : Integer) : Prop :=
  (member item "pid" = some (.integer n) ∧ int_member item "target_pid" = none) ∨
    (member item "pid" = none ∧ member item "target_pid" = some (.integer n))

/-- The tasks that mean the same on both ways. -/
structure SameMeaning (item : Members) : Prop where
  mode : requested_mode item = .INTERFACE ∨ requested_mode item = implied_mode item
  two_pids : ∀ n target_pid, member item "pid" = some (.integer n) →
    int_member item "target_pid" = some target_pid → converted_pid n = target_pid
  pid : ∀ n, OnlyPid item n → ¬ Wraps n
  container : (string_member item "container_id").getD [] = []
  filter : member item "filter" = none → (string_member item "bpf").getD [] = []
  ip : ((string_member item "ip_filter").or (string_member item "ip")).getD [] = []
  port : ((int_member item "port_filter").or (int_member item "port")).getD 0 = 0
  duration : int_member item "duration" = none → ∀ n, parse_duration item = some n →
    n.get_int.getD 60 = 60
  max_bytes : (int64_member item "max_bytes").getD 0 = 0
  max_packets : (int_member item "max_packets").getD 0 = 0
  client_ip : (string_member item "client_ip").getD [] = []
  request_user : ((string_member item "request_user").or (string_member item "user")).getD [] = []

section Readings

variable {item payload : Members}

theorem capture_mode_eq (doc : Members) : capture_mode doc =
    if requested_mode doc = .INTERFACE then implied_mode doc else requested_mode doc := by
  unfold capture_mode implied_mode
  by_cases hmode : requested_mode doc = .INTERFACE
  · simp only [hmode, true_and, if_true]
    cases string_member doc "proc_name" with
    | none =>
      cases int_member doc "pid" with
      | none => simp
      | some target_pid => simp
    | some proc_name =>
      by_cases hproc : proc_name = []
      · cases int_member doc "pid" with
        | none => simp [hproc]
        | some target_pid => simp [hproc]
      · cases int_member doc "pid" with
        | none => simp [hproc]
        | some target_pid => simp [hproc]
  · simp only [hmode, false_and, if_false]
    cases string_member doc "proc_name" <;> cases int_member doc "pid" <;> simp [hmode]

theorem long_long_val (n : Integer) :
    (long_long n.val).val = if n.val < 2 ^ 63 then n.val else n.val - 2 ^ 64 := by
  have hlower := n.lower
  have hupper := n.upper
  unfold long_long
  split
  · dsimp only
    split <;> omega
  · dsimp only
    split <;> omega

/-- An `int` stays the same. -/
theorem converted_pid_eq_iff (n : Integer) : n.get_int.getD (-1) = converted_pid n ↔ ¬ Wraps n := by
  have hval := long_long_val n
  have hlower := n.lower
  have hupper := n.upper
  unfold converted_pid Wraps Integer.get_int
  rw [hval]
  by_cases hsigned : n.val < 2 ^ 63
  · rw [if_pos hsigned]
    exact iff_of_true rfl (by omega)
  · rw [if_neg hsigned, if_neg (by omega), Option.getD_none]
    by_cases hint : -2 ^ 31 ≤ n.val - 2 ^ 64
    · rw [if_pos (by omega), Option.getD_some]
      omega
    · rw [if_neg (by omega), Option.getD_none]
      exact iff_of_true rfl (by omega)

theorem long_long_get_int_pos (n : Integer) :
    (long_long n.val).get_int.getD 0 > 0 ↔ n.get_int.getD 0 > 0 := by
  have hval := long_long_val n
  have hlower := n.lower
  have hupper := n.upper
  unfold Integer.get_int
  rw [hval]
  by_cases hsigned : n.val < 2 ^ 63
  · rw [if_pos hsigned]
  · rw [if_neg hsigned, if_neg (show ¬ (-2 ^ 31 ≤ n.val ∧ n.val < 2 ^ 31) by omega)]
    split
    · rw [Option.getD_some, Option.getD_none]
      omega
    · rfl

theorem int_member_passed {name : String} {n : Option Integer}
    (h : member payload name = n.map Value.integer) :
    int_member payload name = n.bind Integer.get_int := by
  rw [int_member, h]
  cases n <;> rfl

/-- Where the server looks for a process id in a payload. -/
theorem Passes.int_member_pid (h : Passes item payload) {name : String}
    (hname : name ∈ ["pid", "target_pid"]) : int_member payload name
      = ((passed_pid item).filter fun entry => name = entry.1).bind fun entry =>
          entry.2.get_int := by
  rw [int_member, h.pid name hname]
  cases (passed_pid item).filter fun entry => name = entry.1 <;> rfl

/-- The mode of a payload. -/
theorem Passes.capture_mode (h : Passes item payload) :
    capture_mode payload = implied_mode item := by
  have hrequested : requested_mode payload = .INTERFACE := by
    rw [requested_mode, string_member_none (h.lost _ (by simp)),
      string_member_none (h.lost _ (by simp))]
  have hpid : (int_member payload "pid").getD 0 > 0 ↔ (int_member item "pid").getD 0 > 0 := by
    rw [h.int_member_pid (by simp), passed_pid, int_member]
    cases member item "pid" with
    | some value =>
      cases value with
      | integer n =>
        simpa [Option.filter] using long_long_get_int_pos n
      | string s => simp [Option.filter]
      | double n => simp [Option.filter]
      | other => simp [Option.filter]
    | none =>
      cases member item "target_pid" with
      | some value => cases value <;> simp [Option.filter]
      | none => simp [Option.filter]
  rw [capture_mode_eq, if_pos hrequested, implied_mode, implied_mode,
    string_member_passed (h.same _ (by simp))]
  simp only [hpid]

/-- The process id of a payload. -/
theorem Passes.target_pid (h : Passes item payload) :
    ((int_member payload "target_pid").or (int_member payload "pid")).getD (-1)
      = ((passed_pid item).bind fun entry => entry.2.get_int).getD (-1) := by
  rw [h.int_member_pid (by simp), h.int_member_pid (by simp)]
  cases hpassed : passed_pid item with
  | none => rfl
  | some entry =>
    obtain ⟨name, n⟩ := entry
    rcases passed_pid_name hpassed with hname | hname
    · obtain rfl : name = "pid" := hname
      simp [Option.filter]
    · obtain rfl : name = "target_pid" := hname
      simp [Option.filter]

/-- When the two read the same process id. -/
theorem target_pid_iff (hok : ∃ fields, pid_field item = .ok fields) :
    ((int_member item "target_pid").or (int_member item "pid")).getD (-1)
        = ((passed_pid item).bind fun entry => entry.2.get_int).getD (-1) ↔
      (∀ n target_pid, member item "pid" = some (.integer n) →
        int_member item "target_pid" = some target_pid → converted_pid n = target_pid) ∧
      ∀ n, OnlyPid item n → ¬ Wraps n := by
  obtain ⟨fields, hfields⟩ := hok
  unfold pid_field at hfields
  unfold passed_pid OnlyPid
  cases hpid : member item "pid" with
  | some value =>
    cases value with
    | integer n =>
      have hint : int_member item "pid" = n.get_int := by rw [int_member, hpid]
      rw [hint]
      cases htarget : int_member item "target_pid" with
      | some target_pid =>
        simp [converted_pid, eq_comm]
      | none =>
        simpa [converted_pid] using converted_pid_eq_iff n
    | string s => simp [hpid, add_pid_field] at hfields
    | double n => simp [hpid, add_pid_field] at hfields
    | other => simp [hpid, add_pid_field] at hfields
  | none =>
    have hint : int_member item "pid" = none := int_member_none hpid
    rw [hint]
    cases htarget : member item "target_pid" with
    | some value =>
      cases value with
      | integer n =>
        have hread : int_member item "target_pid" = n.get_int := by rw [int_member, htarget]
        rw [hread]
        simpa [converted_pid] using converted_pid_eq_iff n
      | string s => simp [hpid, htarget, add_pid_field] at hfields
      | double n => simp [hpid, htarget, add_pid_field] at hfields
      | other => simp [hpid, htarget, add_pid_field] at hfields
    | none =>
      have hread : int_member item "target_pid" = none := int_member_none htarget
      rw [hread]
      simp

theorem Passes.filter_iff (h : Passes item payload) :
    (string_member item "filter").getD [] = (string_member payload "filter").getD [] ↔
      (member item "filter" = none → (string_member item "bpf").getD [] = []) := by
  cases hmember : member item "filter" with
  | some value =>
    have hpassed : passed_filter item = string_member item "filter" := by
      rw [passed_filter, hmember]
    have hfilter := h.filter
    rw [hpassed] at hfilter
    rw [string_member_passed hfilter]
    simp
  | none =>
    have hpassed : passed_filter item = string_member item "bpf" := by
      rw [passed_filter, hmember]
    have hfilter := h.filter
    rw [hpassed] at hfilter
    rw [string_member_passed hfilter, string_member_none hmember, Option.getD_none, eq_comm]
    exact ⟨fun h _ => h, fun h => h rfl⟩

theorem Passes.duration_iff (h : Passes item payload) :
    (int_member item "duration").getD 60 = (int_member payload "duration").getD 60 ↔
      (int_member item "duration" = none → ∀ n, parse_duration item = some n →
        n.get_int.getD 60 = 60) := by
  rw [int_member_passed h.duration]
  cases hint : int_member item "duration" with
  | none =>
    cases parse_duration item with
    | none => simp
    | some n => simp [eq_comm]
  | some value =>
    -- the client passes an `int` on
    have hparsed : (parse_duration item).bind Integer.get_int = some value := by
      unfold int_member at hint
      split at hint
      · rename_i n hmember
        rw [parse_duration, hmember]
        have hval := long_long_val n
        unfold Integer.get_int at hint
        split at hint
        · rename_i hrange
          rw [if_pos (by omega)] at hval
          simp only [parse_duration_value, Option.bind_some, Integer.get_int]
          rw [hval, if_pos hrange]
          exact hint
        · cases hint
      · cases hint
    simp [hparsed]

/-- **The server reads a task and its payload the same way exactly when the
task has nothing that the client drops or converts.** -/
theorem same_message_iff (protocol_pdefs : Option (Store CStr CStr))
    (h : build_task_payload item = .ok payload) :
    start_message protocol_pdefs item = start_message protocol_pdefs payload ↔
      SameMeaning item := by
  have hpasses := build_task_payload_passes h
  have hfields : ∃ fields, pid_field item = .ok fields := by
    simp only [build_task_payload, except_bind_ok] at h
    obtain ⟨_, -, _, -, _, -, _, -, _, -, _, -, _, -, _, -, _, -, _, -, fields, hfields, -⟩ := h
    exact ⟨fields, hfields⟩
  have hmode : capture_mode item = capture_mode payload ↔
      requested_mode item = .INTERFACE ∨ requested_mode item = implied_mode item := by
    rw [capture_mode_eq item, hpasses.capture_mode]
    by_cases hrequested : requested_mode item = .INTERFACE
    · simp [hrequested]
    · simp [hrequested]
  have hpid := target_pid_iff hfields
  rw [← hpasses.target_pid] at hpid
  have hsame := fun name hname => string_member_passed (hpasses.same name hname)
  have hlost := hpasses.lost
  simp only [start_message, SRxStartCaptureMsg.mk.injEq, hmode, hpid, hpasses.filter_iff,
    hpasses.duration_iff, hsame "iface" (by simp), hsame "proc_name" (by simp),
    hsame "category" (by simp), hsame "file" (by simp), hsame "file_pattern" (by simp),
    hsame "protocol" (by simp), hsame "protocol_filter" (by simp),
    hsame "protocol_filter_inline" (by simp), string_member_none (hlost "container_id" (by simp)),
    string_member_none (hlost "ip" (by simp)), string_member_none (hlost "ip_filter" (by simp)),
    int_member_none (hlost "port" (by simp)), int_member_none (hlost "port_filter" (by simp)),
    int64_member_none (hlost "max_bytes" (by simp)), int_member_none (hlost "max_packets" (by simp)),
    string_member_none (hlost "client_ip" (by simp)), string_member_none (hlost "user" (by simp)),
    string_member_none (hlost "request_user" (by simp)), Option.or_none, Option.getD_none, true_and]
  constructor
  · rintro ⟨hmode, ⟨htwo, hone⟩, hcontainer, hfilter, hip, hport, hduration, hbytes, hpackets,
      hclient, huser⟩
    exact ⟨hmode, htwo, hone, hcontainer, hfilter, hip, hport, hduration, hbytes, hpackets, hclient,
      huser⟩
  · rintro ⟨hmode, htwo, hone, hcontainer, hfilter, hip, hport, hduration, hbytes, hpackets,
      hclient, huser⟩
    exact ⟨hmode, ⟨htwo, hone⟩, hcontainer, hfilter, hip, hport, hduration, hbytes, hpackets,
      hclient, huser⟩

end Readings

/-- A task with a duration in seconds. -/
def duration_sec_task : Members :=
  [("iface", .string "eth0".toList), ("duration_sec", .integer ⟨120, by decide, by decide⟩)]

theorem duration_sec_payload : build_task_payload duration_sec_task
    = .ok [("iface", .string "eth0".toList), ("duration", .integer ⟨120, by decide, by decide⟩)] := by
  rfl

/-- Over the interface it takes 60 seconds, from the client 120. -/
theorem duration_sec_differs : ∃ payload, build_task_payload duration_sec_task = .ok payload ∧
    start_message none duration_sec_task ≠ start_message none payload :=
  ⟨_, duration_sec_payload, by decide⟩

theorem duration_sec_same_message_iff :
    ∃ payload, build_task_payload duration_sec_task = .ok payload ∧
      (start_message none duration_sec_task = start_message none payload ↔
        SameMeaning duration_sec_task) :=
  ⟨_, duration_sec_payload, same_message_iff none duration_sec_payload⟩

end RxNetCap.Cli
