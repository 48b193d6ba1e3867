/-
The list of the PDEF files, and what asking for one of them gives:
`CRxUrlHandlerPdefManagement::handle_list` of `src/rxurlhandlers.cpp`, read together
with `handle_get`.

The list is well-formed JSON and names the regular files with the ending `.pdef` of
the directories, in the order that `readdir` gives (`ListWorld`). Each one can be
asked for by its path, but the list does not make the test of `is_safe_path`: a file
with two dots in a row somewhere in its path is listed and refused
(`listed_fetched`).
-/
import RxNetCap.Capture.Signature
import RxNetCap.Query.PdefGet
import RxNetCap.Query.Snapshot

set_option autoImplicit false

namespace RxNetCap.Query

open RxNetCap.Capture RxNetCap.Http RxNetCap.JsonText RxNetCap.Pdef
open scoped RxNetCap.Utf8

/-! ## The list -/

/-- `readdir` is what it gives for a directory that can be opened. -/
structure ListWorld extends PdefWorld where
  readdir : CStr → Option (List CStr)

structure Listed where
  name : CStr
  full_path : CStr
  st : Stat
  deriving DecidableEq

/-- One entry of a directory. The last `.pdef` of a name is at its end when some
`.pdef` is. -/
def list_entry (world : PdefWorld) (dir name : CStr) : Option Listed :=
  if name = ".".toList ∨ name = "..".toList then none
  else if ¬ ".pdef".toList <:+ name then none
  else
    let full_path := dir ++ "/".toList ++ name
    match world.stat (c_str full_path) with
    | none => none
    | some st => if st.regular then some { name, full_path, st } else none

def list_dir (world : ListWorld) (dir : CStr) : List Listed :=
  match world.readdir dir with
  | none => []
  | some names => names.filterMap (list_entry world.toPdefWorld dir)

def listing (world : ListWorld) : List Listed :=
  (append_pdef_dirs world.toPdefWorld []).flatMap (list_dir world)

def Listed.text (world : PdefWorld) (entry : Listed) : CStr :=
  "\x7b\"name\":".toList ++ json_text entry.name
    ++ (field "path" (json_text entry.full_path)
      ++ field "size" (Capture.decimal entry.st.size)
      ++ field "mtime" (quoted (world.format_mtime entry.st.mtime)))
    ++ "\x7d".toList

def handle_list (world : ListWorld) (res_head : http_res_head_para) : Handled :=
  let body := "\x7b\"status\":".toList ++ quoted "ok".toList
    ++ field "pdefs" (json_array ((listing world).map (Listed.text world.toPdefWorld))) ++ "\x7d".toList
  let (res_head, send_body) := set_json_response res_head 200 "OK".toList body
  { res_head, send_body }

/-! ## What the list says -/

def Listed.json (world : PdefWorld) (entry : Listed) : Json :=
  .object [named "name" (.string entry.name), named "path" (.string entry.full_path),
    named "size" (.number (Capture.decimal entry.st.size)),
    named "mtime" (.string (world.format_mtime entry.st.mtime))]

section Lists

variable {world : ListWorld} {entry : Listed}

theorem reads_no_elements : Reads (.array []) (json_array []) where
  valid := by decide
  starts := ⟨'[', "]".toList, by decide, rfl⟩
  reads := by
    intro rest _ n hn
    cases n with
    | zero => cases hn
    | succ n => rfl

theorem reads_listing (hmtime : ∀ t, IsName (world.format_mtime t))
    (hvalid : ∀ entry ∈ listing world, Utf8.Valid entry.name ∧ Utf8.Valid entry.full_path) :
    Reads (.array ((listing world).map (Listed.json world.toPdefWorld)))
      (json_array ((listing world).map (Listed.text world.toPdefWorld))) := by
  by_cases hnone : listing world = []
  · rw [hnone]
    exact reads_no_elements
  apply reads_list hnone
  intro entry hentry
  obtain ⟨hname, hpath⟩ := hvalid entry hentry
  refine reads_fields (by decide) (reads_json_text hname) ?_ (by decide)
  exact (fields_field (by decide) (reads_json_text hpath))
    |>.append (fields_field (by decide) (reads_decimal _))
    |>.append (fields_field (by decide) (reads_quoted (hmtime _)))

/-- What is listed is a regular file in one of the directories. -/
theorem listed_in (h : entry ∈ listing world) :
    ∃ dir ∈ append_pdef_dirs world.toPdefWorld [], entry.full_path = dir ++ '/' :: entry.name ∧
      world.stat (c_str entry.full_path) = some entry.st ∧ entry.st.regular = true := by
  obtain ⟨dir, hdir, hlisted⟩ := List.mem_flatMap.mp h
  refine ⟨dir, hdir, ?_⟩
  unfold list_dir at hlisted
  split at hlisted
  · cases hlisted
  · obtain ⟨name, -, hentry⟩ := List.mem_filterMap.mp hlisted
    unfold list_entry at hentry
    split_ifs at hentry with hdots hending
    simp only at hentry
    split at hentry
    · cases hentry
    · next st hstat =>
      split_ifs at hentry with hregular
      cases hentry
      exact ⟨by rw [List.append_assoc]; rfl, hstat, hregular⟩

end Lists

/-! ## Asking for a path -/

/-- What one asks for to get the file of a path. -/
def get_url (path : CStr) : CStr := "/api/pdef/get".toList ++ ('?' :: ("path".toList ++ '=' :: path))

/-- What `handle_get` answers with. -/
def get_answer (path content mtime : CStr) : Json :=
  .object [named "status" (.string "ok".toList), named "path" (.string path),
    named "size" (.number (Capture.decimal content.length)), named "mtime" (.string mtime),
    named "content" (.string content)]

section Asking

variable {world : PdefWorld} {path content : CStr} {st : Stat}

theorem get_params (hamp : '&' ∉ path) : parse_query_params (get_url path) = [("path".toList, path)] := by
  have hurl := List.all_eq_true.mp (by decide +kernel : "/api/pdef/get".toList.all (fun c => c ≠ '?') = true)
  have hword := List.all_eq_true.mp (by decide +kernel : "path".toList.all (fun c => c ≠ '=') = true)
  have hquery : (get_url path).dropWhile (· ≠ '?') = '?' :: ("path".toList ++ '=' :: path) := by
    unfold get_url
    exact (List.dropWhile_append_of_pos hurl).trans (List.dropWhile_cons_of_neg (by decide))
  have hsolid : '&' ∉ "path".toList ++ '=' :: path := by
    have hkey : '&' ∉ "path".toList := by decide +kernel
    simp only [List.mem_append, List.mem_cons, not_or]
    exact ⟨hkey, by decide, hamp⟩
  have hkey : ("path".toList ++ '=' :: path).takeWhile (· ≠ '=') = "path".toList := by
    rw [List.takeWhile_append_of_pos hword, List.takeWhile_cons_of_neg (by decide), List.append_nil]
  have hvalue : ("path".toList ++ '=' :: path).dropWhile (· ≠ '=') = '=' :: path :=
    (List.dropWhile_append_of_pos hword).trans (List.dropWhile_cons_of_neg (by decide))
  have hsome : ¬ ("path".toList ++ '=' :: path = [] ∨ "path".toList = []) := by
    have hkey : "path".toList ≠ [] := by decide +kernel
    rintro (h | h)
    · exact hkey (List.append_eq_nil_iff.mp h).1
    · exact hkey h
  unfold parse_query_params
  simp only [hquery, List.tail_cons, Paths.segments_solid hsolid, List.foldl_cons, List.foldl_nil]
  unfold add_query_param
  simp only [hkey, hvalue, if_neg hsome]
  exact Eq.refl _

theorem get_by_path (hamp : '&' ∉ path) (res_head : http_res_head_para) :
    handle_get world res_head (get_url path) = serve_pdef world res_head path := by
  have hlookup : (parse_query_params (get_url path)).lookup "path".toList = some path := by
    rw [get_params hamp]
    exact List.lookup_cons_self
  unfold handle_get
  simp only [hlookup]

/-- A path in one of the directories is safe when it has no two dots in a row. -/
theorem is_safe_iff {dir name : CStr} (hdir : dir ∈ append_pdef_dirs world []) (hne : dir ≠ []) :
    is_safe_path world (dir ++ '/' :: name) = true ↔ ¬ "..".toList <:+: dir ++ '/' :: name := by
  have hfront : dir_prefix dir <+: dir ++ '/' :: name := by
    unfold dir_prefix
    split_ifs
    · exact ⟨name, by rw [List.append_assoc, List.singleton_append]⟩
    · exact List.prefix_append _ _
  constructor
  · intro h
    exact (of_decide_eq_true h).2.1
  · intro h
    exact decide_eq_true ⟨List.append_ne_nil_of_left_ne_nil hne _, h, dir, hdir, hne, hfront⟩

/-- A file whose path is safe is answered with. -/
theorem serve_file (hsafe : is_safe_path world path = true) (hnul : '\x00' ∉ path)
    (hstat : world.stat path = some st) (hregular : st.regular = true) (hsize : st.size ≤ kMaxPdefSize)
    (hopen : world.open_file path = some content) (hread : world.read_bad path = false)
    (res_head : http_res_head_para) :
    let got := serve_pdef world res_head path
    got.res_head._response_code = 200 ∧ got.send_body = pdef_json world path st content := by
  have hsame := c_str_whole hnul
  have hread' : ¬ world.read_bad path = true := by simp [hread]
  rw [serve_pdef, if_neg (not_not.mpr hsafe), hsame, hstat]
  simp only [if_neg (not_not.mpr hregular), if_neg (not_lt.mpr hsize), hopen, if_neg hread']
  exact ⟨rfl, rfl⟩

theorem pdef_json_eq : pdef_json world path st content
    = "\x7b\"status\":".toList ++ quoted "ok".toList
      ++ (field "path" (json_text path) ++ field "size" (Capture.decimal content.length)
        ++ field "mtime" (quoted (world.format_mtime st.mtime)) ++ field "content" (json_text content))
      ++ "\x7d".toList := by
  have hquote : ['"'] = "\"".toList := by decide +kernel
  have hcons : ∀ l : CStr, '"' :: l = "\"".toList ++ l := fun _ => rfl
  have h1 : "\x7b\"status\":\"ok\",\"path\":\"".toList
      = "\x7b\"status\":".toList ++ "\"".toList ++ "ok".toList ++ "\"".toList ++ ",\"".toList ++ "path".toList
        ++ "\":".toList ++ "\"".toList := by decide +kernel
  have h2 : "\",\"size\":".toList = "\"".toList ++ (",\"".toList ++ "size".toList ++ "\":".toList) := by decide +kernel
  have h3 : ",\"mtime\":\"".toList = ",\"".toList ++ "mtime".toList ++ "\":".toList ++ "\"".toList := by
    decide +kernel
  have h4 : "\",\"content\":\"".toList
      = "\"".toList ++ ",\"".toList ++ "content".toList ++ "\":".toList ++ "\"".toList := by decide +kernel
  have h5 : "\"\x7d".toList = "\"".toList ++ "\x7d".toList := by decide +kernel
  unfold pdef_json quoted field json_text
  simp only [h1, h2, h3, h4, h5, hquote, hcons]
  simp only [List.append_assoc]
theorem reads_get (hpath : Utf8.Valid path) (hcontent : Utf8.Valid content)
    (hmtime : IsName (world.format_mtime st.mtime)) :
    Reads (get_answer path content (world.format_mtime st.mtime)) (pdef_json world path st content) := by
  rw [pdef_json_eq]
  refine reads_fields (by decide) (reads_quoted (by decide)) ?_ (by decide)
  exact (fields_field (by decide) (reads_json_text hpath))
    |>.append (fields_field (by decide) (reads_decimal _))
    |>.append (fields_field (by decide) (reads_quoted hmtime))
    |>.append (fields_field (by decide) (reads_json_text hcontent))

end Asking

/-! ## The directories -/

theorem configured_ne_nil (world : PdefWorld) : get_configured_pdef_dir world ≠ [] := by
  unfold get_configured_pdef_dir
  split
  · decide
  · exact non_empty_or_ne_nil (by decide)

theorem pdef_dir_ne_nil {world : PdefWorld} {dir : CStr} (h : dir ∈ append_pdef_dirs world []) : dir ≠ [] := by
  have hbuiltin : builtin_pdef_dir ≠ [] := by decide
  unfold append_pdef_dirs at h
  rw [if_neg List.not_mem_nil, List.nil_append] at h
  simp only at h
  split_ifs at h
  · rcases List.mem_append.mp h with h | h
    · rw [List.mem_singleton.mp h]
      exact hbuiltin
    · rw [List.mem_singleton.mp h]
      exact configured_ne_nil world
  · rw [List.mem_singleton.mp h]
    exact hbuiltin

/-- **The list is read back as what it lists**, and what it lists can be asked for
by its path: it is refused when there are two dots in a row in the path, and else
answered with, if it is not too large and can be read. -/
theorem listed_fetched (world : ListWorld) (hmtime : ∀ t, IsName (world.format_mtime t))
    (hvalid : ∀ entry ∈ listing world, Utf8.Valid entry.name ∧ Utf8.Valid entry.full_path) :
    decode (handle_list world {}).send_body = some (.object [named "status" (.string "ok".toList),
        named "pdefs" (.array ((listing world).map (Listed.json world.toPdefWorld)))]) ∧
      ∀ entry ∈ listing world, '&' ∉ entry.full_path → '\x00' ∉ entry.full_path →
        let got := handle_get world.toPdefWorld {} (get_url entry.full_path)
        ("..".toList <:+: entry.full_path → got.res_head._response_code = 403 ∧ got.opened = none) ∧
        ∀ content, ¬ "..".toList <:+: entry.full_path → entry.st.size ≤ kMaxPdefSize →
          world.open_file entry.full_path = some content → world.read_bad entry.full_path = false →
          Utf8.Valid content → got.res_head._response_code = 200 ∧
            decode got.send_body
              = some (get_answer entry.full_path content (world.format_mtime entry.st.mtime)) := by
  constructor
  · apply decode_reads
    exact reads_fields (by decide) (reads_quoted (by decide))
      (fields_field (by decide) (reads_listing hmtime hvalid)) (by decide)
  intro entry hentry hamp hnul
  obtain ⟨dir, hdir, hpath, hstat, hregular⟩ := listed_in hentry
  have hsafe : is_safe_path world.toPdefWorld entry.full_path = true ↔ ¬ "..".toList <:+: entry.full_path := by
    rw [hpath]
    exact is_safe_iff hdir (pdef_dir_ne_nil hdir)
  simp only [get_by_path hamp]
  constructor
  · intro hdots
    have hunsafe : ¬ is_safe_path world.toPdefWorld entry.full_path = true := fun h => hsafe.mp h hdots
    rw [serve_pdef, if_pos hunsafe]
    exact ⟨rfl, rfl⟩
  · intro content hdots hsize hopen hread hcontent
    rw [c_str_whole hnul] at hstat
    obtain ⟨hcode, htext⟩ := serve_file (hsafe.mpr hdots) hnul hstat hregular hsize hopen hread {}
    refine ⟨hcode, ?_⟩
    rw [htext]
    exact decode_reads (reads_get (hvalid entry hentry).2 hcontent (hmtime _))

/-- A directory with two PDEF files; one has two dots in its name. -/
def two_pdefs : ListWorld where
  stat path := if path = "config/protocols/game.pdef".toList ∨ path = "config/protocols/a..pdef".toList
    then some { regular := true, size := 2, mtime := 0 } else none
  open_file _ := some "ok".toList
  format_mtime _ := "1970-01-01T00:00:00Z".toList
  readdir dir := if dir = "config/protocols".toList
    then some [".".toList, "game.pdef".toList, "notes.txt".toList, "a..pdef".toList] else none

theorem two_pdefs_listed :
    decode (handle_list two_pdefs {}).send_body = some (.object [named "status" (.string "ok".toList),
        named "pdefs" (.array ((listing two_pdefs).map (Listed.json two_pdefs.toPdefWorld)))]) ∧
      (handle_get two_pdefs.toPdefWorld {}
        (get_url "config/protocols/a..pdef".toList)).res_head._response_code = 403 := by
  have hlisted : ∀ entry ∈ listing two_pdefs, Utf8.Valid entry.name ∧ Utf8.Valid entry.full_path := by
    decide +kernel
  have hentry : (⟨"a..pdef".toList, "config/protocols/a..pdef".toList, ⟨true, 2, 0⟩⟩ : Listed)
      ∈ listing two_pdefs := by decide +kernel
  have hmtime : IsName "1970-01-01T00:00:00Z".toList := by decide +kernel
  obtain ⟨hlist, hget⟩ := listed_fetched two_pdefs (fun _ => hmtime) hlisted
  have hrefused := (hget _ hentry (by decide +kernel) (by decide +kernel)).1 (by decide +kernel)
  exact ⟨hlist, hrefused.1⟩

end RxNetCap.Query
