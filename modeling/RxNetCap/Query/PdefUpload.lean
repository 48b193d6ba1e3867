/-
The upload of a PDEF file over HTTP: `CRxUrlHandlerPdefUpload::perform` of
`src/rxurlhandlers.cpp`, and the disk that it writes to.

A file is found by where its path leads (`Place`), so two spellings of one path
are one file; there are no symbolic links. The handler writes what it is sent under
a name made of the time and a random number. In a directory whose name leaves room
for it in the buffer of 256 octets the names of two moments differ
(`temp_place_inj`).

A text that runs over a table of the parser has no defined outcome; the upload has
none either.
-/
import RxNetCap.Capture.Naming
import RxNetCap.Capture.Signature
import RxNetCap.Pdef.ParseString
import RxNetCap.Query.PdefList

set_option autoImplicit false

namespace RxNetCap.Query

open RxNetCap.Capture RxNetCap.Http RxNetCap.Paths RxNetCap.Pdef

/-! ## The disk -/

/-- Where a path leads. -/
structure Place where
  absolute : Bool
  parts : List Paths.Path
  deriving DecidableEq

def place (path : CStr) : Place := { absolute := absolute path, parts := parts path }

inductive Node where
  | directory
  | file (content : CStr) (mtime : ℤ)
  deriving DecidableEq

def Node.stat : Node → Stat
  | .directory => { regular := false, size := 0, mtime := 0 }
  | .file content mtime => { regular := true, size := content.length, mtime }

def Node.content? : Node → Option CStr
  | .directory => none
  | .file content _ => some content

/-- What there is at each place. -/
abbrev PdefDisk := Place → Option Node

/-- What a path names. One that does not end in a name names a directory only. -/
def PdefDisk.node (disk : PdefDisk) (path : CStr) : Option Node :=
  if path = [] then none
  else (disk (place path)).filter fun node => node = .directory ∨ IsName (final path)

def PdefDisk.put (disk : PdefDisk) (path : CStr) (node : Option Node) : PdefDisk :=
  Function.update disk (place path) node

/-- What stays the same while the server runs: its configuration, and how a time is
written. -/
structure PdefSite where
  server_config : Option (Option CStr) := none
  format_mtime : ℤ → CStr

/-- What `handle_get` meets. -/
def PdefSite.world (site : PdefSite) (disk : PdefDisk) : PdefWorld where
  server_config := site.server_config
  stat path := (disk.node path).map Node.stat
  open_file path := (disk.node path).bind Node.content?
  format_mtime := site.format_mtime

/-- The directory that uploads go to. -/
def PdefSite.base_dir (site : PdefSite) : CStr :=
  non_empty_or (get_configured_pdef_dir (site.world fun _ => none)) fallback_pdef_dir

/-! ## The name -/

/-- What a name is made of: `gettimeofday` and `rand`. -/
structure Stamp where
  tv_sec : ℕ
  tv_usec : ℕ
  r : ℕ
  tv_sec_lt : tv_sec < 2 ^ 64
  tv_usec_lt : tv_usec < 10 ^ 6
  r_lt : r < 2 ^ 32

def name_start : CStr := "rxtracenetcap_pdef_".toList

def name_end : CStr := ".pdef".toList

def Stamp.stem (stamp : Stamp) : CStr :=
  name_start ++ (Nat.toDigits 10 stamp.tv_sec
    ++ '_' :: ((Nat.toDigits 10 stamp.tv_usec).leftpad 6 '0' ++ '_' :: Nat.toDigits 10 stamp.r))

/-- `rxtracenetcap_pdef_%lu_%06lu_%u.pdef` -/
def Stamp.name (stamp : Stamp) : CStr := stamp.stem ++ name_end

def temp_path (base_dir : CStr) (stamp : Stamp) : CStr :=
  cstr 256 (base_dir ++ "/".toList ++ stamp.name)

/-! ## The handler -/

/-- What one call meets. `written` is what of the body gets to the file, `bad`
whether the stream says that writing failed. -/
structure UploadMoment where
  stamp : Stamp
  mtime : ℤ
  mkdir_fails : Bool := false
  open_fails : Bool := false
  written : CStr → CStr := id
  bad : Bool := false

structure Uploaded where
  disk : PdefDisk
  res_head : http_res_head_para
  send_body : CStr

def fnv1a64 (data : CStr) : ℕ :=
  data.foldl (fun hash c => ((hash ^^^ (c.toNat % 256)) * 1099511628211) % 2 ^ 64) 14695981039346656037

def set_pdef_error (disk : PdefDisk) (res_head : http_res_head_para) (code : ℤ) (message : CStr) : Uploaded :=
  let body := "\x7b\"error\":\"".toList ++ json_escape message ++ "\"\x7d".toList
  let (res_head, send_body) :=
    set_json_response res_head code (if code = 200 then "OK".toList else "Error".toList) body
  { disk, res_head, send_body }

/-- The answer to an upload that was stored. -/
def uploaded_json (temp_path recv_body : CStr) : CStr :=
  "\x7b\"status\":".toList ++ quoted "ok".toList
    ++ (field "path" (json_text temp_path)
      ++ field "size" (Capture.decimal recv_body.length)
      ++ field "checksum" (quoted (Nat.toDigits 16 (fnv1a64 recv_body)))
      ++ field "validated" (json_bool true))
    ++ "\x7d".toList

/-- What comes once the directory is there. -/
def store_pdef (moment : UploadMoment) (base_dir : CStr) (disk : PdefDisk) (res_head : http_res_head_para)
    (recv_body : CStr) : Uploaded :=
  let temp_path := temp_path base_dir moment.stamp
  if moment.open_fails ∨ disk (place temp_path) = some .directory then
    set_pdef_error disk res_head 500 "Failed to open temp file".toList
  else
    let disk := disk.put temp_path (some (.file (moment.written recv_body) moment.mtime))
    if moment.bad then set_pdef_error disk res_head 500 "Failed to write temp file".toList
    else
      let (res_head, send_body) :=
        set_json_response res_head 200 "OK".toList (uploaded_json temp_path recv_body)
      { disk, res_head, send_body }

/-- What comes once the text is a PDEF. A directory cannot be made where something
is. -/
def store_in_dir (moment : UploadMoment) (base_dir : CStr) (disk : PdefDisk) (res_head : http_res_head_para)
    (recv_body : CStr) : Uploaded :=
  match disk.node base_dir with
  | none =>
    if moment.mkdir_fails ∨ disk (place base_dir) ≠ none then
      set_pdef_error disk res_head 500 "Failed to create temp dir".toList
    else store_pdef moment base_dir (disk.put base_dir (some .directory)) res_head recv_body
  | some .directory => store_pdef moment base_dir disk res_head recv_body
  | some (.file _ _) =>
    set_pdef_error disk res_head 500 "Temp path exists and is not a directory".toList

def upload_perform (site : PdefSite) (moment : UploadMoment) (disk : PdefDisk)
    (res_head : http_res_head_para) (_method recv_body : CStr) : Option Uploaded :=
  if _method ≠ "POST".toList then some (set_pdef_error disk res_head 405 "Only POST allowed".toList)
  else if recv_body = [] then some (set_pdef_error disk res_head 400 "Empty body".toList)
  else if recv_body.length > kMaxPdefSize then
    some (set_pdef_error disk res_head 413 "PDEF too large".toList)
  else
    match (pdef_parse_string (c_str recv_body)).1 with
    | .undefined => none
    | .rejected err =>
      some (set_pdef_error disk res_head 400 ("Invalid PDEF: ".toList ++ c_str err))
    | .accepted _ => some (store_in_dir moment site.base_dir disk res_head recv_body)

/-! ## What a name is made of -/

section Names

variable {c : Char} {dir name : CStr}

/-- A character of a name in front of its ending. -/
def StemChar (c : Char) : Prop := c.isDigit = true ∨ c.isLower = true ∨ c = '_'

instance (c : Char) : Decidable (StemChar c) := inferInstanceAs (Decidable (_ ∨ _ ∨ _))

theorem StemChar.ascii (h : StemChar c) : Utf8.Ascii c := by
  have hrange : c.toNat ≤ 'z'.toNat := by
    rcases h with h | h | rfl
    · simp only [Char.isDigit, Bool.and_eq_true, decide_eq_true_eq, UInt32.le_iff_toNat_le] at h
      exact h.2.trans (by decide)
    · have hlast : c.val ≤ 'z'.val := of_decide_eq_true (Bool.and_elim_right h)
      exact UInt32.le_iff_toNat_le.mp hlast
    · decide
  exact hrange.trans_lt (by decide)

theorem Stamp.stem_chars (stamp : Stamp) : ∀ c ∈ stamp.stem, StemChar c := by
  have hstart : name_start.all (fun c => StemChar c) = true := by decide +kernel
  intro c hc
  rcases List.mem_append.mp hc with hc | hc
  · exact of_decide_eq_true (List.all_eq_true.mp hstart c hc)
  rcases List.mem_append.mp hc with hc | hc
  · exact .inl (JsonText.toDigits_digits _ c hc)
  rcases List.mem_cons.mp hc with rfl | hc
  · exact .inr (.inr rfl)
  rcases List.mem_append.mp hc with hc | hc
  · exact .inl (leftpad_digit hc)
  rcases List.mem_cons.mp hc with rfl | hc
  · exact .inr (.inr rfl)
  · exact .inl (JsonText.toDigits_digits _ c hc)

theorem Stamp.name_chars (stamp : Stamp) : ∀ c ∈ stamp.name, StemChar c ∨ c = '.' := by
  have hend : name_end.all (fun c => StemChar c ∨ c = '.') = true := by decide +kernel
  intro c hc
  rcases List.mem_append.mp hc with hc | hc
  · exact .inl (stamp.stem_chars c hc)
  · exact of_decide_eq_true (List.all_eq_true.mp hend c hc)

theorem Stamp.not_mem_name (stamp : Stamp) (hstem : ¬ StemChar c) (hdot : c ≠ '.') : c ∉ stamp.name := by
  intro hmem
  rcases stamp.name_chars c hmem with h | h
  · exact hstem h
  · exact hdot h

/-- The one dot of a name is in front of its ending. -/
theorem Stamp.name_dots (stamp : Stamp) : ¬ "..".toList <:+: stamp.name := by
  intro h
  have hcount : "..".toList.count '.' ≤ stamp.name.count '.' := h.sublist.count_le '.'
  have hstem : stamp.stem.count '.' = 0 := by
    apply List.count_eq_zero.mpr
    intro hmem
    exact absurd (stamp.stem_chars '.' hmem) (by decide)
  have hend : name_end.count '.' = 1 := by decide +kernel
  have htwo : "..".toList.count '.' = 2 := by decide +kernel
  rw [Stamp.name, List.count_append, hstem, hend, htwo] at hcount
  omega

/-- **Two moments have two names.** -/
theorem Stamp.name_inj {stamp stamp' : Stamp} (h : stamp.name = stamp'.name) : stamp = stamp' := by
  have hno : ∀ n, '_' ∉ Nat.toDigits 10 n := by
    intro n hmem
    exact absurd (JsonText.toDigits_digits n _ hmem) (by decide)
  have hnopad : ∀ n, '_' ∉ (Nat.toDigits 10 n).leftpad 6 '0' := by
    intro n hmem
    exact absurd (leftpad_digit hmem) (by decide)
  have hstem := List.append_cancel_right h
  have hrest := List.append_cancel_left hstem
  obtain ⟨hsec, hrest⟩ := Codes.cut_inj (hno _) (hno _) hrest
  obtain ⟨husec, hr⟩ := Codes.cut_inj (hnopad _) (hnopad _) hrest
  have hsame := And.intro (digits_inj hsec) (And.intro (leftpad_inj husec) (digits_inj hr))
  cases stamp
  cases stamp'
  rw [Stamp.mk.injEq]
  exact hsame

theorem Stamp.name_no_slash (stamp : Stamp) : '/' ∉ stamp.name := stamp.not_mem_name (by decide) (by decide)

theorem Stamp.name_is_name (stamp : Stamp) : IsName stamp.name ∧ stamp.name ≠ ['.', '.'] := by
  obtain ⟨rest, hrest⟩ : ∃ rest, stamp.name = 'r' :: rest := by
    have hstart : name_start = 'r' :: name_start.tail := by decide +kernel
    rw [Stamp.name, Stamp.stem, hstart]
    exact ⟨_, rfl⟩
  rw [hrest]
  refine ⟨⟨List.cons_ne_nil _ _, ?_⟩, ?_⟩
  · intro h
    exact absurd (List.cons.inj h).1 (by decide)
  · intro h
    exact absurd (List.cons.inj h).1 (by decide)

/-- A name has room behind a directory of 192 characters. -/
theorem Stamp.name_length (stamp : Stamp) : stamp.name.length ≤ 62 := by
  have hsec : (Nat.toDigits 10 stamp.tv_sec).length ≤ 20 := by
    apply (Nat.length_toDigits_le_iff (by decide) (by decide)).mpr
    exact stamp.tv_sec_lt.trans (by norm_num)
  have husec : (Nat.toDigits 10 stamp.tv_usec).length ≤ 6 :=
    (Nat.length_toDigits_le_iff (by decide) (by decide)).mpr stamp.tv_usec_lt
  have hr : (Nat.toDigits 10 stamp.r).length ≤ 10 := by
    apply (Nat.length_toDigits_le_iff (by decide) (by decide)).mpr
    exact stamp.r_lt.trans (by norm_num)
  have hstart : name_start.length = 19 := by decide +kernel
  have hend : name_end.length = 5 := by decide +kernel
  simp only [Stamp.name, Stamp.stem, List.length_append, List.length_cons, List.length_leftpad, hstart, hend]
  omega

/-- A path that fits in the buffer. -/
theorem temp_path_eq (hroom : dir.length ≤ 192) (stamp : Stamp) :
    temp_path dir stamp = dir ++ '/' :: stamp.name := by
  have hlength := stamp.name_length
  have happend : dir ++ "/".toList ++ stamp.name = dir ++ '/' :: stamp.name := by
    rw [List.append_assoc]
    rfl
  rw [temp_path, happend]
  apply List.take_of_length_le
  rw [List.length_append, List.length_cons]
  omega

/-! ## Where a name in a directory leads -/

theorem place_join (hdir : dir ≠ []) (hslash : '/' ∉ name) (hname : IsName name) (hdots : name ≠ ['.', '.']) :
    place (dir ++ '/' :: name) = { absolute := absolute dir, parts := parts dir ++ [name] } := by
  have habsolute : absolute (dir ++ '/' :: name) = absolute dir := by
    unfold absolute
    rw [List.head?_append_of_ne_nil _ hdir]
  have hwalk : walk (absolute dir) (parts dir) [name] = parts dir ++ [name] := by
    rw [walk_down (by simpa using hdots.symm)]
    simp [hname]
  rw [place, habsolute, parts, habsolute, segments_append, segments_solid hslash, walk_append]
  exact congrArg _ hwalk

/-- **In a directory with a short name no two moments have one path.** -/
theorem temp_place_inj (hdir : dir ≠ []) (hroom : dir.length ≤ 192) {stamp stamp' : Stamp}
    (h : place (temp_path dir stamp) = place (temp_path dir stamp')) : stamp = stamp' := by
  rw [temp_path_eq hroom, temp_path_eq hroom,
    place_join hdir stamp.name_no_slash stamp.name_is_name.1 stamp.name_is_name.2,
    place_join hdir stamp'.name_no_slash stamp'.name_is_name.1 stamp'.name_is_name.2] at h
  have hparts := (Place.mk.inj h).2
  exact Stamp.name_inj (List.cons.inj (List.append_cancel_left hparts)).1

/-- A path that ends in a name names what is there. -/
theorem node_of_name {disk : PdefDisk} {path : CStr} (hne : path ≠ []) (hname : IsName (final path)) :
    disk.node path = disk (place path) := by
  rw [PdefDisk.node, if_neg hne]
  cases disk (place path) with
  | none => rfl
  | some node =>
    apply Option.filter_some_pos
    exact decide_eq_true (.inr hname)

theorem node_some {disk : PdefDisk} {path : CStr} {node : Node} (h : disk.node path = some node) :
    disk (place path) = some node := by
  unfold PdefDisk.node at h
  split at h
  · cases h
  · exact (Option.filter_eq_some_iff.mp h).1

end Names

/-! ## The directory -/

theorem PdefSite.base_dir_eq (site : PdefSite) (disk : PdefDisk) :
    get_configured_pdef_dir (site.world disk) = site.base_dir := by
  rw [PdefSite.base_dir, non_empty_or, if_neg (configured_ne_nil _)]
  rfl

theorem PdefSite.base_dir_ne_nil (site : PdefSite) : site.base_dir ≠ [] := non_empty_or_ne_nil (by decide)

/-- Uploads go to one of the directories that are allowed. -/
theorem PdefSite.base_dir_mem (site : PdefSite) (disk : PdefDisk) :
    site.base_dir ∈ append_pdef_dirs (site.world disk) [] := by
  unfold append_pdef_dirs
  rw [if_neg List.not_mem_nil, List.nil_append, site.base_dir_eq disk]
  simp only
  split_ifs with hnew
  · exact List.mem_append_right _ (List.mem_singleton_self _)
  · by_contra hout
    exact hnew ⟨site.base_dir_ne_nil, hout⟩

/-! ## What an upload changes -/

section Uploads

variable {site : PdefSite} {moment : UploadMoment} {disk : PdefDisk} {res_head : http_res_head_para}
  {base_dir recv_body _method : CStr} {up : Uploaded}

theorem put_same (path : CStr) (node : Option Node) : (disk.put path node) (place path) = node :=
  Function.update_self _ _ _

theorem put_other {path : CStr} {p : Place} (h : p ≠ place path) (node : Option Node) :
    (disk.put path node) p = disk p :=
  Function.update_of_ne h _ _

theorem refused {code : ℤ} (hcode : code ≠ 200) (message : CStr) :
    (set_pdef_error disk res_head code message).disk = disk ∧
      (set_pdef_error disk res_head code message).res_head._response_code ≠ 200 :=
  ⟨rfl, hcode⟩

/-- The two ends of `store_pdef`. -/
theorem store_pdef_cases (h : store_pdef moment base_dir disk res_head recv_body = up) :
    (up.disk = disk ∧ up.res_head._response_code ≠ 200) ∨
      up.disk = disk.put (temp_path base_dir moment.stamp)
          (some (.file (moment.written recv_body) moment.mtime)) ∧
        (up.res_head._response_code ≠ 200 ∨
          up.send_body = uploaded_json (temp_path base_dir moment.stamp) recv_body) := by
  unfold store_pdef at h
  simp only at h
  split_ifs at h with hopen hbad
  · subst h
    exact .inl (refused (by decide) _)
  · subst h
    exact .inr ⟨rfl, .inl (refused (by decide) _).2⟩
  · subst h
    exact .inr ⟨rfl, .inr rfl⟩

/-- Before that, a directory may have been made where nothing was. -/
theorem store_in_dir_cases (h : store_in_dir moment base_dir disk res_head recv_body = up) :
    (up.disk = disk ∧ up.res_head._response_code ≠ 200) ∨
      ∃ disk' : PdefDisk, (∀ p, disk p ≠ none → disk' p = disk p) ∧
        store_pdef moment base_dir disk' res_head recv_body = up := by
  unfold store_in_dir at h
  split at h
  · split_ifs at h with hmkdir
    · subst h
      exact .inl (refused (by decide) _)
    · refine .inr ⟨_, ?_, h⟩
      intro p hp
      apply put_other
      rintro rfl
      exact hmkdir (.inr hp)
  · exact .inr ⟨disk, fun _ _ => rfl, h⟩
  · subst h
    exact .inl (refused (by decide) _)

/-- What an upload that has an outcome comes to. -/
theorem upload_cases (h : upload_perform site moment disk res_head _method recv_body = some up) :
    (up.disk = disk ∧ up.res_head._response_code ≠ 200) ∨
      ∃ proto, (pdef_parse_string (c_str recv_body)).1 = .accepted proto ∧ recv_body.length ≤ kMaxPdefSize ∧
        store_in_dir moment site.base_dir disk res_head recv_body = up := by
  unfold upload_perform at h
  split_ifs at h with hmethod hempty hlarge
  · cases h
    exact .inl (refused (by decide) _)
  · cases h
    exact .inl (refused (by decide) _)
  · cases h
    exact .inl (refused (by decide) _)
  split at h
  · cases h
  · cases h
    exact .inl (refused (by decide) _)
  · next proto hparse =>
    exact .inr ⟨proto, hparse, not_lt.mp hlarge, Option.some.inj h⟩

/-- An upload leaves everything but its own file. -/
theorem upload_frame (h : upload_perform site moment disk res_head _method recv_body = some up) {p : Place}
    {node : Node} (hp : p ≠ place (temp_path site.base_dir moment.stamp)) (hnode : disk p = some node) :
    up.disk p = some node := by
  have hne : disk p ≠ none := by
    rw [hnode]
    exact Option.some_ne_none _
  rcases upload_cases h with ⟨hsame, -⟩ | ⟨proto, -, -, hin⟩
  · rw [hsame, hnode]
  rcases store_in_dir_cases hin with ⟨hsame, -⟩ | ⟨disk', hkeeps, hstore⟩
  · rw [hsame, hnode]
  rcases store_pdef_cases hstore with ⟨hsame, -⟩ | ⟨hput, -⟩
  · rw [hsame, hkeeps p hne, hnode]
  · rw [hput, put_other hp, hkeeps p hne, hnode]

/-- **An upload that is accepted** is a PDEF, and its file is there. -/
theorem upload_ok (h : upload_perform site moment disk res_head _method recv_body = some up)
    (hok : up.res_head._response_code = 200) :
    (∃ proto, (pdef_parse_string (c_str recv_body)).1 = .accepted proto) ∧ recv_body.length ≤ kMaxPdefSize ∧
      up.disk (place (temp_path site.base_dir moment.stamp))
        = some (.file (moment.written recv_body) moment.mtime) ∧
      up.send_body = uploaded_json (temp_path site.base_dir moment.stamp) recv_body := by
  rcases upload_cases h with ⟨-, hcode⟩ | ⟨proto, hparse, hlength, hin⟩
  · exact absurd hok hcode
  refine ⟨⟨proto, hparse⟩, hlength, ?_⟩
  rcases store_in_dir_cases hin with ⟨-, hcode⟩ | ⟨disk', -, hstore⟩
  · exact absurd hok hcode
  rcases store_pdef_cases hstore with ⟨-, hcode⟩ | ⟨hput, hcode | hbody⟩
  · exact absurd hok hcode
  · exact absurd hok hcode
  · exact ⟨by rw [hput, put_same], hbody⟩

end Uploads

end RxNetCap.Query
