/-
What the two identities of a request tell about it.

The payload of the signature is JSON text, and it can be read back: from the
payload follow its fields, and from the fields what was signed
(`payload_entries`). The text of the key can be read back when the name in it has
no colon and nothing in it ends a C string (`generate_task_key_inj`).
-/
import Mathlib.Data.List.Nodup
import Mathlib.Data.List.TakeWhile
import Mathlib.Tactic.IntervalCases
import RxNetCap.Capture.Request
import RxNetCap.Lib.Codes

set_option autoImplicit false

namespace RxNetCap.Capture

open RxNetCap.Codes RxNetCap.Pdef

/-! ## Numbers -/

/-- A character that numbers are written with. -/
def NumberChar (c : Char) : Prop := c.isDigit = true ∨ c = '-'

theorem digits_inj {n n' : ℕ} (h : Nat.toDigits 10 n = Nat.toDigits 10 n') : n = n' := by
  rw [← Nat.ofDigitChars_ten_toDigits (n := n), h, Nat.ofDigitChars_ten_toDigits]

theorem digit_of_mem {n : ℕ} {c : Char} (h : c ∈ Nat.toDigits 10 n) : c.isDigit = true :=
  Nat.isDigit_of_mem_toDigits (by decide) (by decide) h

theorem dash_not_mem (n : ℕ) : '-' ∉ Nat.toDigits 10 n := by
  intro hmem
  have hdigit := digit_of_mem hmem
  revert hdigit
  decide

theorem decimal_chars (n : ℤ) : ∀ c ∈ decimal n, NumberChar c := by
  intro c hc
  unfold decimal at hc
  split at hc
  · rcases List.mem_cons.mp hc with rfl | hc
    · exact .inr rfl
    · exact .inl (digit_of_mem hc)
  · exact .inl (digit_of_mem hc)

theorem decimal_inj {n n' : ℤ} (h : decimal n = decimal n') : n = n' := by
  unfold decimal at h
  split at h
  · split at h
    · have habs := digits_inj (List.cons.inj h).2
      omega
    · exact absurd (h ▸ List.mem_cons_self) (dash_not_mem _)
  · split at h
    · exact absurd (h.symm ▸ List.mem_cons_self) (dash_not_mem _)
    · have habs := digits_inj h
      omega

theorem decimal_readable :
    Readable (fun _ => True) (Starts fun c => ¬ NumberChar c) decimal :=
  readable_run (fun _ _ _ _ => decimal_inj) fun n _ => decimal_chars n

theorem decimal_starts (n : ℤ) : Starts NumberChar (decimal n) := by
  cases hdecimal : decimal n with
  | nil =>
    unfold decimal at hdecimal
    split at hdecimal
    · cases hdecimal
    · exact absurd hdecimal Nat.toDigits_ne_nil
  | cons c rest =>
    exact .cons (decimal_chars n c (hdecimal ▸ List.mem_cons_self)) rest

/-! ## JSON -/

/-- The value of a hexadecimal digit. -/
def hex_value (c : Char) : ℕ :=
  if c.isDigit then c.toNat - 48 else c.toNat - 87

/-- Read what `json_escape_char` writes. -/
def json_unescape : CStr → Option (Char × CStr)
  | '\\' :: 'n' :: rest => some ('\n', rest)
  | '\\' :: 'r' :: rest => some ('\r', rest)
  | '\\' :: 't' :: rest => some ('\t', rest)
  | '\\' :: 'u' :: '0' :: '0' :: high :: low :: rest =>
    some (Char.ofNat (16 * hex_value high + hex_value low), rest)
  | '\\' :: c :: rest => some (c, rest)
  | c :: rest => some (c, rest)
  | [] => none

theorem unescape_control {n : ℕ} (h : n < 0x20) (s : CStr) :
    json_unescape (hex_escape n ++ s) = some (Char.ofNat n, s) := by
  interval_cases n <;> rfl

theorem unescape_escape (c : Char) (s : CStr) :
    json_unescape (json_escape_char c ++ s) = some (c, s) := by
  unfold json_escape_char
  split
  · next h => rw [h]; rfl
  · next hbackslash =>
    split
    · next h => rw [h]; rfl
    · split
      · next h => rw [h]; rfl
      · split
        · next h => rw [h]; rfl
        · split
          · next h => rw [h]; rfl
          · split
            · next hcontrol =>
              rw [unescape_control hcontrol, Char.ofNat_toNat]
            · simp only [List.cons_append, List.nil_append]
              unfold json_unescape
              split <;> simp_all

theorem escape_readable : Readable (fun _ => True) Anything json_escape_char :=
  Readable.of_decoder json_unescape fun c s _ _ => unescape_escape c s

theorem escape_starts (c : Char) : Starts (· ≠ '"') (json_escape_char c) := by
  unfold json_escape_char
  split
  · exact .cons (by decide) _
  · split
    · exact .cons (by decide) _
    · next hquote =>
      split
      · exact .cons (by decide) _
      · split
        · exact .cons (by decide) _
        · split
          · exact .cons (by decide) _
          · split
            · exact .cons (by decide) _
            · exact ⟨c, [], rfl, hquote⟩

/-- What ends a value. -/
def ends_value (c : Char) : Prop := c = ',' ∨ c = '\x7d'

theorem not_number_of_ends {c : Char} (h : ends_value c) : ¬ NumberChar c := by
  rcases h with rfl | rfl
  · exact fun h => by rcases h with h | h <;> revert h <;> decide
  · exact fun h => by rcases h with h | h <;> revert h <;> decide

theorem array_readable :
    Readable (fun _ => True) Anything (joined ',' ']' decimal) := by
  have hends : ∀ s : CStr, Starts (fun c => c = ',' ∨ c = ']') s →
      Starts (fun c => ¬ NumberChar c) s := by
    rintro s ⟨c, rest, rfl, rfl | rfl⟩
    · exact .cons (fun h => by rcases h with h | h <;> revert h <;> decide) rest
    · exact .cons (fun h => by rcases h with h | h <;> revert h <;> decide) rest
  have hclose : ∀ n : ℤ, True → Starts (· ≠ ']') (decimal n) := by
    intro n _
    obtain ⟨c, rest, hdecimal, hc⟩ := decimal_starts n
    refine ⟨c, rest, hdecimal, ?_⟩
    rintro rfl
    rcases hc with hc | hc <;> revert hc <;> decide
  exact (Readable.joined (by decide) (decimal_readable.mono (fun _ h => h) hends) hclose).mono
    (fun _ _ _ _ => trivial) fun _ h => h

theorem string_readable :
    Readable (fun _ => True) Anything (spelled '"' json_escape_char) :=
  (escape_readable.until fun c _ => escape_starts c).mono (fun _ _ _ _ => trivial) fun _ h => h

/-- The kind of a value, and of the values that begin with a character. -/
def JsonValue.kind : JsonValue → ℕ
  | .str _ => 0
  | .int_array _ => 1
  | .bool _ => 2
  | .int _ => 3

def kind_of (c : Char) : ℕ :=
  if c = '"' then 0 else if c = '[' then 1 else if c = 't' ∨ c = 'f' then 2 else 3

theorem kind_of_number {c : Char} (h : NumberChar c) : kind_of c = 3 := by
  unfold kind_of
  split
  · next hc => rw [hc] at h; rcases h with h | h <;> revert h <;> decide
  · split
    · next hc => rw [hc] at h; rcases h with h | h <;> revert h <;> decide
    · split
      · next hc => rcases hc with rfl | rfl <;> rcases h with h | h <;> revert h <;> decide
      · rfl

theorem text_starts (value : JsonValue) : Starts (kind_of · = value.kind) value.text := by
  cases value with
  | str value => exact ⟨'"', _, rfl, rfl⟩
  | int value =>
    obtain ⟨c, rest, hdecimal, hc⟩ := decimal_starts value
    exact ⟨c, rest, hdecimal, kind_of_number hc⟩
  | bool value =>
    cases value
    · exact ⟨'f', _, rfl, rfl⟩
    · exact ⟨'t', _, rfl, rfl⟩
  | int_array values => exact ⟨'[', _, rfl, rfl⟩

theorem text_readable : Readable (fun _ => True) (Starts ends_value) JsonValue.text := by
  intro a b s t _ _ hs ht h
  obtain ⟨c, ha, hb⟩ := (text_starts a).same (text_starts b) h
  have hkind : a.kind = b.kind := ha.symm.trans hb
  have hend : ∀ u : CStr, Starts ends_value u → Starts (fun c => ¬ NumberChar c) u := by
    rintro u ⟨d, rest, rfl, hd⟩
    exact ⟨d, rest, rfl, not_number_of_ends hd⟩
  cases a with
  | str value =>
    cases b with
    | str value' =>
      obtain ⟨rfl, hst⟩ := string_readable.cons '"' value value' s t trivial trivial trivial trivial h
      exact ⟨rfl, hst⟩
    | _ => cases hkind
  | int value =>
    cases b with
    | int value' =>
      obtain ⟨rfl, hst⟩ := decimal_readable value value' s t trivial trivial (hend s hs)
        (hend t ht) h
      exact ⟨rfl, hst⟩
    | _ => cases hkind
  | bool value =>
    cases b with
    | bool value' =>
      cases value <;> cases value'
      · exact ⟨rfl, List.append_cancel_left h⟩
      · exact absurd (List.cons.inj h).1 (by decide)
      · exact absurd (List.cons.inj h).1 (by decide)
      · exact ⟨rfl, List.append_cancel_left h⟩
    | _ => cases hkind
  | int_array values =>
    cases b with
    | int_array values' =>
      obtain ⟨rfl, hst⟩ := array_readable.cons '[' values values' s t trivial trivial trivial
        trivial h
      exact ⟨rfl, hst⟩
    | _ => cases hkind

/-- A field of an object. -/
def field_text (field : CStr × JsonValue) : CStr :=
  '"' :: field.1 ++ '"' :: ':' :: field.2.text

/-- A key that is written as it is. -/
def PlainKey (key : CStr) : Prop := ∀ c ∈ key, c ≠ '"'

theorem field_readable :
    Readable (fun field : CStr × JsonValue => PlainKey field.1 ∧ True) (Starts ends_value)
      field_text := by
  have hkey : Readable PlainKey (Starts fun c => ¬ c ≠ '"') fun key : CStr => key :=
    readable_run (fun _ _ _ _ h => h) fun _ hplain => hplain
  exact (hkey.append ((text_readable.cons ':').cons '"')
    fun value s _ _ => ⟨'"', _, rfl, fun h => h rfl⟩).cons '"'

/-- **An object can be read back.** -/
theorem json_object_inj {fields fields' : JsonFields}
    (hplain : ∀ field ∈ fields, PlainKey field.1) (hplain' : ∀ field ∈ fields', PlainKey field.1)
    (h : json_object fields = json_object fields') : fields = fields' := by
  have hobject : Readable (fun fields : JsonFields => ∀ field ∈ fields, PlainKey field.1 ∧ True)
      Anything (joined ',' '\x7d' field_text) :=
    Readable.joined (by decide) field_readable fun field _ => ⟨'"', _, rfl, by decide⟩
  refine hobject.inj trivial (fun field hmem => ⟨hplain field hmem, trivial⟩)
    (fun field hmem => ⟨hplain' field hmem, trivial⟩) ?_
  exact (List.cons.inj h).2

/-! ## The payload -/

/-- A field that is left out when it is empty. -/
def str_entry (value : CStr) : Option JsonValue := if value = [] then none else some (.str value)

def int_entry (value : ℤ) : Option JsonValue := if value = 0 then none else some (.int value)

def array_entry (values : List ℤ) : Option JsonValue :=
  if values = [] then none else some (.int_array values)

def limit_entry (limit default : ℤ) : Option JsonValue :=
  if positive_or limit default > 0 then some (.int (positive_or limit default)) else none

def target_entries (spec : CaptureSpec) (matched : List SProcessInfo) :
    List (CStr × Option JsonValue) :=
  match spec.capture_mode with
  | .PROCESS =>
    [("proc_name".toList, str_entry spec.proc_name),
      ("matched_pids".toList, array_entry (matched_pids matched))]
  | .PID =>
    [("target_pid".toList, if spec.target_pid > 0 then some (.int spec.target_pid) else none)]
  | .CONTAINER => [("container_id".toList, str_entry spec.container_id)]
  | .INTERFACE => []

/-- The fields that are signed, with those that are left out. -/
def signature_entries (spec : CaptureSpec) (config_snapshot : CaptureConfigSnapshot)
    (matched : List SProcessInfo) : List (CStr × Option JsonValue) :=
  [("mode".toList, str_entry (capture_mode_to_string spec.capture_mode)),
    ("iface".toList, str_entry spec.iface),
    ("resolved_iface".toList, str_entry spec.resolved_iface),
    ("category".toList, str_entry spec.category),
    ("output_pattern".toList,
      str_entry (non_empty_or spec.output_pattern config_snapshot.filename_template)),
    ("output_dir".toList, str_entry config_snapshot.output_dir),
    ("filter".toList, str_entry (StringTrim spec.filter)),
    ("protocol_filter".toList, str_entry spec.protocol_filter),
    ("ip_filter".toList, str_entry spec.ip_filter),
    ("port_filter".toList, int_entry spec.port_filter),
    ("max_duration_sec".toList, limit_entry spec.max_duration_sec config_snapshot.max_duration_sec),
    ("max_bytes".toList, limit_entry spec.max_bytes config_snapshot.max_bytes),
    ("max_packets".toList, limit_entry spec.max_packets config_snapshot.max_packets),
    ("snaplen".toList, some (.int spec.snaplen)),
    ("compress_enabled".toList, some (.bool config_snapshot.compress_enabled)),
    ("compress_threshold_mb".toList, some (.int config_snapshot.compress_threshold_mb)),
    ("compress_format".toList, str_entry config_snapshot.compress_format),
    ("compress_remove_src".toList, some (.bool config_snapshot.compress_remove_src)),
    ("netns_path".toList, str_entry spec.netns_path)] ++ target_entries spec matched

section Entries

variable (key : CStr) (entries : List (CStr × Option JsonValue))

theorem append_str_present (value : CStr) :
    append_json_str_field key value (present entries)
      = present (entries ++ [(key, str_entry value)]) := by
  rw [append_json_str_field, present_append, str_entry]
  split
  · exact (List.append_nil _).symm
  · rfl

theorem append_int_present (value : ℤ) :
    append_json_int_field key value false (present entries)
      = present (entries ++ [(key, int_entry value)]) := by
  rw [append_json_int_field, present_append, int_entry]
  by_cases hvalue : value = 0
  · rw [if_pos ⟨rfl, hvalue⟩, if_pos hvalue]
    exact (List.append_nil _).symm
  · rw [if_neg fun h => hvalue h.2, if_neg hvalue]
    rfl

theorem append_int_present_zero (value : ℤ) :
    append_json_int_field key value true (present entries)
      = present (entries ++ [(key, some (.int value))]) := by
  rw [append_json_int_field, present_append, if_neg fun h => Bool.noConfusion h.1]
  rfl

theorem append_bool_present (value : Bool) :
    append_json_bool_field key value (present entries)
      = present (entries ++ [(key, some (.bool value))]) := by
  rw [append_json_bool_field, present_append]
  rfl

theorem append_array_present (values : List ℤ) :
    append_json_int_array_field key values (present entries)
      = present (entries ++ [(key, array_entry values)]) := by
  rw [append_json_int_array_field, present_append, array_entry]
  split
  · exact (List.append_nil _).symm
  · rfl

theorem append_limit_present (limit default : ℤ) :
    append_limit_field key limit default (present entries)
      = present (entries ++ [(key, limit_entry limit default)]) := by
  simp only [append_limit_field, limit_entry, append_int_present, int_entry]
  by_cases hlimit : positive_or limit default > 0
  · rw [if_pos hlimit, if_pos hlimit, if_neg (ne_of_gt hlimit)]
  · rw [if_neg hlimit, if_neg hlimit, present_append]
    exact (List.append_nil _).symm

theorem append_target_present (spec : CaptureSpec) (matched : List SProcessInfo) :
    append_target_fields spec matched (present entries)
      = present (entries ++ target_entries spec matched) := by
  unfold append_target_fields target_entries
  cases spec.capture_mode with
  | INTERFACE => rw [List.append_nil]
  | PROCESS =>
    simp only [append_str_present, append_array_present, List.append_assoc, List.cons_append,
      List.nil_append]
  | PID =>
    simp only [append_int_present_zero]
    split
    · rfl
    · rw [present_append]
      exact (List.append_nil _).symm
  | CONTAINER => exact append_str_present _ _ _

end Entries

theorem signature_fields_eq (spec : CaptureSpec) (config_snapshot : CaptureConfigSnapshot)
    (matched : List SProcessInfo) :
    capture_signature_fields spec config_snapshot matched
      = present (signature_entries spec config_snapshot matched) := by
  have hnil : ([] : JsonFields) = present [] := rfl
  unfold capture_signature_fields
  rw [hnil]
  simp only [append_str_present, append_int_present, append_int_present_zero, append_bool_present,
    append_limit_present, append_target_present, List.nil_append, List.cons_append,
    signature_entries]

/-- The keys depend on the mode alone. -/
theorem entries_keys {spec spec' : CaptureSpec} (h : spec.capture_mode = spec'.capture_mode)
    (config_snapshot config_snapshot' : CaptureConfigSnapshot)
    (matched matched' : List SProcessInfo) :
    (signature_entries spec config_snapshot matched).map Prod.fst
      = (signature_entries spec' config_snapshot' matched').map Prod.fst := by
  simp only [signature_entries, target_entries, h]
  cases spec'.capture_mode <;> rfl

theorem entries_plain (spec : CaptureSpec) (config_snapshot : CaptureConfigSnapshot)
    (matched : List SProcessInfo) :
    ((signature_entries spec config_snapshot matched).map Prod.fst).Nodup ∧
      ∀ key ∈ (signature_entries spec config_snapshot matched).map Prod.fst, PlainKey key := by
  -- with `all`, or every character there is would be tried
  have hkeys : ∀ mode, ((signature_entries { capture_mode := mode } {} []).map Prod.fst).Nodup ∧
      ∀ key ∈ (signature_entries { capture_mode := mode } {} []).map Prod.fst,
        (key.all fun c => decide (c ≠ '"')) = true := by
    intro mode
    cases mode <;> decide +kernel
  have hmode : spec.capture_mode = CaptureSpec.capture_mode { capture_mode := spec.capture_mode } :=
    rfl
  rw [entries_keys hmode config_snapshot {} matched []]
  obtain ⟨hnodup, hplain⟩ := hkeys spec.capture_mode
  refine ⟨hnodup, fun key hkey c hc => ?_⟩
  exact of_decide_eq_true (List.all_eq_true.mp (hplain key hkey) c hc)

theorem mode_string_inj {mode mode' : ECaptureMode}
    (h : capture_mode_to_string mode = capture_mode_to_string mode') : mode = mode' := by
  revert h
  cases mode <;> cases mode' <;> decide

/-- **The signed fields** are told by the payload. -/
theorem payload_entries {spec spec' : CaptureSpec}
    {config_snapshot config_snapshot' : CaptureConfigSnapshot} {matched matched' : List SProcessInfo}
    (h : build_capture_signature spec config_snapshot matched
      = build_capture_signature spec' config_snapshot' matched') :
    signature_entries spec config_snapshot matched
      = signature_entries spec' config_snapshot' matched' := by
  have hplain : ∀ spec config_snapshot matched,
      ∀ field ∈ capture_signature_fields spec config_snapshot matched, PlainKey field.1 := by
    intro spec config_snapshot matched field hmem
    rw [signature_fields_eq] at hmem
    exact (entries_plain spec config_snapshot matched).2 _ (mem_present hmem)
  have hfields := json_object_inj (hplain _ _ _) (hplain _ _ _) h
  rw [signature_fields_eq, signature_fields_eq] at hfields
  -- the mode comes first, and is always there
  have hmode : spec.capture_mode = spec'.capture_mode := by
    have hhead : ∀ (mode : ECaptureMode), str_entry (capture_mode_to_string mode)
        = some (.str (capture_mode_to_string mode)) := by
      intro mode
      cases mode <;> rfl
    have hfirst := congrArg List.head? hfields
    simp only [signature_entries, hhead, List.cons_append, present, List.filterMap_cons,
      Option.map_some, List.head?_cons, Option.some.injEq, Prod.mk.injEq, JsonValue.str.injEq,
      true_and] at hfirst
    exact mode_string_inj hfirst
  exact present_inj (entries_keys hmode _ _ _ _) (entries_plain _ _ _).1 hfields

/-! ## The key -/

/-- What the key is made of. -/
inductive KeyFields where
  | iface (iface filter : CStr)
  | proc (proc_name filter : CStr) (port_filter : ℤ)
  | pid (target_pid : ℤ)
  | container (container_id filter : CStr)
  deriving DecidableEq, Repr

def key_fields (start_msg : SRxStartCaptureMsg) : KeyFields :=
  match start_msg.capture_mode with
  | .INTERFACE => .iface start_msg.iface start_msg.filter
  | .PROCESS => .proc start_msg.proc_name start_msg.filter start_msg.port_filter
  | .PID => .pid start_msg.target_pid
  | .CONTAINER => .container start_msg.container_id start_msg.filter

def KeyFields.name : KeyFields → CStr
  | .iface name _ => name
  | .proc name _ _ => name
  | .pid _ => []
  | .container name _ => name

def KeyFields.filter : KeyFields → CStr
  | .iface _ filter => filter
  | .proc _ filter _ => filter
  | .pid _ => []
  | .container _ filter => filter

def KeyFields.label : KeyFields → String
  | .iface _ _ => "iface:"
  | .proc _ _ _ => "proc:"
  | .pid _ => "pid:"
  | .container _ _ => "container:"

def KeyFields.body : KeyFields → CStr
  | .iface name filter => name ++ ':' :: filter
  | .proc name filter port_filter => name ++ ':' :: (filter ++ ':' :: decimal port_filter)
  | .pid target_pid => decimal target_pid
  | .container name filter => name ++ ':' :: filter

/-- The text of the key, when nothing in it ends a C string. -/
def KeyFields.text (fields : KeyFields) : CStr := fields.label.toList ++ fields.body

/-- A key that is told by its text: it is not cut, and the name ends at the
first colon. -/
structure KeyFields.Fits (fields : KeyFields) : Prop where
  name_whole : '\x00' ∉ fields.name
  filter_whole : '\x00' ∉ fields.filter
  no_colon : ':' ∉ fields.name
  short : fields.text.length ≤ 511

theorem c_str_whole {s : CStr} (h : '\x00' ∉ s) : c_str s = s := by
  refine List.takeWhile_eq_self_iff.mpr fun c hc => decide_eq_true ?_
  rintro rfl
  exact h hc

theorem task_key_text_whole {start_msg : SRxStartCaptureMsg}
    (hname : '\x00' ∉ (key_fields start_msg).name)
    (hfilter : '\x00' ∉ (key_fields start_msg).filter) :
    task_key_text start_msg = (key_fields start_msg).text := by
  have hcolon : ∀ s : CStr, ":".toList ++ s = ':' :: s := fun _ => rfl
  unfold task_key_text KeyFields.text
  unfold key_fields at hname hfilter ⊢
  cases hmode : start_msg.capture_mode with
  | PID => rfl
  | _ =>
    simp only [hmode, KeyFields.name, KeyFields.filter] at hname hfilter
    simp only [KeyFields.label, KeyFields.body, c_str_whole hname, c_str_whole hfilter,
      List.append_assoc, List.cons_append, hcolon]

theorem generate_task_key_fits {start_msg : SRxStartCaptureMsg}
    (h : (key_fields start_msg).Fits) :
    generate_task_key start_msg = (key_fields start_msg).text := by
  rw [generate_task_key, cstr, task_key_text_whole h.name_whole h.filter_whole]
  exact List.take_of_length_le h.short

theorem colon_not_mem (n : ℤ) : ':' ∉ decimal n := by
  intro hmem
  rcases decimal_chars n _ hmem with h | h <;> revert h <;> decide

/-- The last colon is where the port begins. -/
theorem colon_decimal_inj {front front' : CStr} {n n' : ℤ}
    (h : front ++ ':' :: decimal n = front' ++ ':' :: decimal n') : front = front' ∧ n = n' := by
  have hreverse := congrArg List.reverse h
  simp only [List.reverse_append, List.reverse_cons, List.append_assoc, List.cons_append,
    List.nil_append] at hreverse
  have hnot : ∀ n : ℤ, ':' ∉ (decimal n).reverse :=
    fun n hmem => colon_not_mem n (List.mem_reverse.mp hmem)
  obtain ⟨hdecimal, hfront⟩ := cut_inj (hnot n) (hnot n') hreverse
  exact ⟨List.reverse_injective hfront, decimal_inj (List.reverse_injective hdecimal)⟩

/-- The label tells the mode. -/
theorem label_inj {fields fields' : KeyFields} (h : fields.text = fields'.text) :
    fields.label = fields'.label ∧ fields.body = fields'.body := by
  have hlabel : fields.label = fields'.label := by
    have htwo := congrArg (List.take 2) h
    revert htwo
    unfold KeyFields.text
    generalize fields.body = body
    generalize fields'.body = body'
    cases fields <;> cases fields' <;> simp [KeyFields.label]
  refine ⟨hlabel, ?_⟩
  rw [KeyFields.text, KeyFields.text, hlabel] at h
  exact List.append_cancel_left h

theorem KeyFields.text_inj {fields fields' : KeyFields} (h : ':' ∉ fields.name)
    (h' : ':' ∉ fields'.name) (htext : fields.text = fields'.text) : fields = fields' := by
  obtain ⟨hlabel, hbody⟩ := label_inj htext
  cases fields with
  | iface name filter =>
    cases fields' with
    | iface name' filter' =>
      obtain ⟨rfl, rfl⟩ := cut_inj h h' hbody
      rfl
    | _ => simp [label] at hlabel
  | proc name filter port_filter =>
    cases fields' with
    | proc name' filter' port_filter' =>
      obtain ⟨rfl, hrest⟩ := cut_inj h h' hbody
      obtain ⟨rfl, rfl⟩ := colon_decimal_inj hrest
      rfl
    | _ => simp [label] at hlabel
  | pid target_pid =>
    cases fields' with
    | pid target_pid' => rw [decimal_inj hbody]
    | _ => simp [label] at hlabel
  | container name filter =>
    cases fields' with
    | container name' filter' =>
      obtain ⟨rfl, rfl⟩ := cut_inj h h' hbody
      rfl
    | _ => simp [label] at hlabel

/-- **The key fields** are told by a key that fits. -/
theorem generate_task_key_inj {start_msg start_msg' : SRxStartCaptureMsg}
    (h : (key_fields start_msg).Fits) (h' : (key_fields start_msg').Fits)
    (hkey : generate_task_key start_msg = generate_task_key start_msg') :
    key_fields start_msg = key_fields start_msg' := by
  rw [generate_task_key_fits h, generate_task_key_fits h'] at hkey
  exact KeyFields.text_inj h.no_colon h'.no_colon hkey

end RxNetCap.Capture
