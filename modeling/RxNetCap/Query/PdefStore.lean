/-
The PDEF files of a server over time: uploads, and `cleanup_pdef_temp_files` of
`src/rxcleanupthread.cpp`.

The cleanup takes away only what is too old, whatever `readdir` lists
(`cleanup_keeps`). So a file that was uploaded stays as it is until it is too old or
another upload has its name, and until then what the server says is its path leads
back to it: `handle_get` answers with its text, and a filter thread loads from it
the protocol that the upload was tested as (`upload_fetched`).
-/
import RxNetCap.Capture.FilterThread
import RxNetCap.Lib.Trace
import RxNetCap.Query.PdefUpload

set_option autoImplicit false

namespace RxNetCap.Query

open RxNetCap.Capture RxNetCap.Http RxNetCap.JsonText RxNetCap.Pdef
open scoped RxNetCap.Utf8

/-! ## The cleanup -/

/-- A call of `cleanup_pdef_temp_files`: what it was configured to, the time, what
`readdir` lists, and which files can be removed. -/
structure PdefCleanup where
  pdef_dir_ : CStr
  pdef_ttl_seconds_ : ℤ
  now : ℤ
  names : Option (List CStr)
  removes : CStr → Bool := fun _ => true

def PdefCleanup.path (call : PdefCleanup) (d_name : CStr) : CStr :=
  (if call.pdef_dir_ ≠ [] ∧ call.pdef_dir_.getLast? ≠ some '/' then call.pdef_dir_ ++ "/".toList
    else call.pdef_dir_) ++ d_name

/-- One entry of the directory. -/
def PdefCleanup.entry (call : PdefCleanup) (disk : PdefDisk) (d_name : CStr) : PdefDisk :=
  if d_name.head? = some '.' then disk
  else
    match disk.node (call.path d_name) with
    | some (.file _ mtime) =>
      if call.now - mtime ≥ call.pdef_ttl_seconds_ ∧ call.removes (call.path d_name) then
        disk.put (call.path d_name) none
      else disk
    | _ => disk

def cleanup_pdef_temp_files (call : PdefCleanup) (disk : PdefDisk) : PdefDisk :=
  if call.pdef_dir_ = [] ∨ call.pdef_ttl_seconds_ ≤ 0 then disk
  else
    match call.names with
    | none => disk
    | some names => names.foldl call.entry disk

section Cleanup

variable {call : PdefCleanup} {disk : PdefDisk} {p : Place} {content : CStr} {mtime : ℤ}

theorem entry_keeps (hfile : disk p = some (.file content mtime))
    (hyoung : call.now - mtime < call.pdef_ttl_seconds_) (d_name : CStr) :
    (call.entry disk d_name) p = some (.file content mtime) := by
  unfold PdefCleanup.entry
  by_cases hdot : d_name.head? = some '.'
  · rw [if_pos hdot]
    exact hfile
  rw [if_neg hdot]
  cases hnode : disk.node (call.path d_name) with
  | none => exact hfile
  | some node =>
    cases node with
    | directory => exact hfile
    | file content' mtime' =>
      simp only
      split_ifs with hold
      · rw [put_other, hfile]
        -- a file that is removed there is an old one
        rintro rfl
        rw [node_some hnode] at hfile
        cases hfile
        omega
      · exact hfile

/-- A file that is young stays. -/
theorem cleanup_keeps (hfile : disk p = some (.file content mtime))
    (hyoung : call.now - mtime < call.pdef_ttl_seconds_) :
    (cleanup_pdef_temp_files call disk) p = some (.file content mtime) := by
  have hall : ∀ (names : List CStr) (disk : PdefDisk), disk p = some (.file content mtime) →
      (names.foldl call.entry disk) p = some (.file content mtime) := by
    intro names
    induction names with
    | nil => exact fun _ h => h
    | cons d_name names ih => exact fun disk h => ih _ (entry_keeps h hyoung d_name)
  unfold cleanup_pdef_temp_files
  split_ifs with hoff
  · exact hfile
  cases call.names with
  | none => exact hfile
  | some names => exact hall names disk hfile

end Cleanup

/-! ## The files over time -/

inductive PdefEvent where
  | upload (moment : UploadMoment) (_method recv_body : CStr)
  | cleanup (call : PdefCleanup)

def PdefSite.step (site : PdefSite) (disk : PdefDisk) : PdefEvent → Option PdefDisk
  | .upload moment _method recv_body =>
    (upload_perform site moment disk {} _method recv_body).map Uploaded.disk
  | .cleanup call => some (cleanup_pdef_temp_files call disk)

def PdefSite.run (site : PdefSite) (disk : PdefDisk) (events : List PdefEvent) : Option PdefDisk :=
  Trace.run site.step disk events

/-- An event that neither has the name of an upload nor finds its file too old. -/
def PdefEvent.Spares (moment : UploadMoment) : PdefEvent → Prop
  | .upload moment' _ _ => moment'.stamp ≠ moment.stamp
  | .cleanup call => call.now - moment.mtime < call.pdef_ttl_seconds_

section Kept

variable {site : PdefSite} {moment : UploadMoment} {content : CStr}

theorem step_keeps (hroom : site.base_dir.length ≤ 192) {disk disk' : PdefDisk} {e : PdefEvent}
    (hspares : e.Spares moment)
    (hfile : disk (place (temp_path site.base_dir moment.stamp)) = some (.file content moment.mtime))
    (h : site.step disk e = some disk') :
    disk' (place (temp_path site.base_dir moment.stamp)) = some (.file content moment.mtime) := by
  cases e with
  | cleanup call =>
    cases h
    exact cleanup_keeps hfile hspares
  | upload moment' _method recv_body =>
    obtain ⟨up, hup, rfl⟩ := Option.map_eq_some_iff.mp h
    apply upload_frame hup _ hfile
    intro hplace
    exact hspares (temp_place_inj site.base_dir_ne_nil hroom hplace).symm

theorem run_keeps (hroom : site.base_dir.length ≤ 192) {events : List PdefEvent} :
    ∀ {disk disk' : PdefDisk}, (∀ e ∈ events, e.Spares moment) →
      disk (place (temp_path site.base_dir moment.stamp)) = some (.file content moment.mtime) →
      site.run disk events = some disk' →
      disk' (place (temp_path site.base_dir moment.stamp)) = some (.file content moment.mtime) := by
  induction events with
  | nil =>
    intro disk disk' _ hfile h
    cases h
    exact hfile
  | cons e events ih =>
    intro disk disk' hspares hfile h
    obtain ⟨disk₁, h₁, hrest⟩ := Trace.run_cons.mp h
    apply ih _ _ hrest
    · exact fun e' he' => hspares e' (List.mem_cons_of_mem _ he')
    · exact step_keeps hroom (hspares e List.mem_cons_self) hfile h₁

end Kept

/-! ## The way back -/

/-- What an upload is answered with. -/
def uploaded_answer (path body : CStr) : Json :=
  .object [named "status" (.string "ok".toList), named "path" (.string path),
    named "size" (.number (Capture.decimal body.length)),
    named "checksum" (.string (Nat.toDigits 16 (fnv1a64 body))), named "validated" (.bool true)]

section Back

variable {site : PdefSite} {disk : PdefDisk} {path body : CStr}

theorem hex_name (k : ℕ) : IsName (Nat.toDigits 16 k) := by
  have hdigit : ∀ d < 16, Plain (Nat.digitChar d) ∧ Utf8.Ascii (Nat.digitChar d) := by decide
  induction k using Nat.strong_induction_on with
  | h k ih =>
    rw [Nat.toDigits_eq_if (by decide)]
    split_ifs with hk
    · intro c hc
      rw [List.mem_singleton.mp hc]
      exact hdigit k hk
    · intro c hc
      rcases List.mem_append.mp hc with hc | hc
      · exact ih (k / 16) (by omega) c hc
      · rw [List.mem_singleton.mp hc]
        exact hdigit _ (Nat.mod_lt _ (by decide))

theorem reads_uploaded (hpath : Utf8.Valid path) : Reads (uploaded_answer path body) (uploaded_json path body) := by
  refine reads_fields (by decide) (reads_quoted (by decide)) ?_ (by decide)
  exact (fields_field (by decide) (reads_json_text hpath))
    |>.append (fields_field (by decide) (reads_decimal _))
    |>.append (fields_field (by decide) (reads_quoted (hex_name _)))
    |>.append (fields_field (by decide) (reads_json_bool true))

/-! ### The path of an upload -/

/-- The path of an upload passes the test of `handle_get`. -/
theorem temp_path_safe (hroom : site.base_dir.length ≤ 192) (hdots : ¬ "..".toList <:+: site.base_dir)
    (stamp : Stamp) : is_safe_path (site.world disk) (temp_path site.base_dir stamp) = true := by
  rw [temp_path_eq hroom, is_safe_iff (site.base_dir_mem disk) site.base_dir_ne_nil]
  intro h
  rcases Paths.infix_across (by decide) h with h | h
  · exact hdots h
  · exact stamp.name_dots h

theorem temp_path_no {c : Char} (hroom : site.base_dir.length ≤ 192) (hbase : c ∉ site.base_dir)
    (hc : ¬ StemChar c ∧ c ≠ '.' ∧ c ≠ '/') (stamp : Stamp) : c ∉ temp_path site.base_dir stamp := by
  rw [temp_path_eq hroom]
  intro hmem
  rcases List.mem_append.mp hmem with hmem | hmem
  · exact hbase hmem
  · rcases List.mem_cons.mp hmem with hslash | hmem
    · exact hc.2.2 hslash
    · exact stamp.not_mem_name hc.1 hc.2.1 hmem

theorem temp_path_valid (hroom : site.base_dir.length ≤ 192) (hvalid : Utf8.Valid site.base_dir)
    (stamp : Stamp) : Utf8.Valid (temp_path site.base_dir stamp) := by
  rw [temp_path_eq hroom]
  refine hvalid.append (Utf8.valid_ascii ?_)
  intro c hc
  rcases List.mem_cons.mp hc with rfl | hc
  · decide
  · rcases stamp.name_chars c hc with h | rfl
    · exact h.ascii
    · decide

end Back

/-- **An upload is fetched as it was sent**, by the path it is answered with, and a
capture that filters by that path loads the protocol that was tested, as long as its
file is not too old and no other upload comes at the same moment with the same
random number. -/
theorem upload_fetched (site : PdefSite) (hroom : site.base_dir.length ≤ 192)
    (hdots : ¬ "..".toList <:+: site.base_dir) (hamp : '&' ∉ site.base_dir) (hvalid : Utf8.Valid site.base_dir)
    {moment : UploadMoment} {disk disk' : PdefDisk} {body : CStr} {up : Uploaded} {events : List PdefEvent}
    (hup : upload_perform site moment disk {} "POST".toList body = some up)
    (hok : up.res_head._response_code = 200) (hwritten : moment.written body = body) (hbody : Utf8.Valid body)
    (hmtime : IsName (site.format_mtime moment.mtime)) (hrun : site.run up.disk events = some disk')
    (hspares : ∀ e ∈ events, e.Spares moment) :
    ∃ path proto, decode up.send_body = some (uploaded_answer path body) ∧
      (handle_get (site.world disk') {} (get_url path)).res_head._response_code = 200 ∧
      decode (handle_get (site.world disk') {} (get_url path)).send_body
        = some (get_answer path body (site.format_mtime moment.mtime)) ∧
      (pdef_parse_string (c_str body)).1 = .accepted proto ∧
      ∀ raw_msg world, raw_msg.pdef_inline_content = [] → raw_msg.pdef_file_path = path →
        world.pdef_file = (site.world disk').open_file path → load_pdef raw_msg world = .accepted proto := by
  obtain ⟨⟨proto, hparse⟩, hsize, hstored, hsend⟩ := upload_ok hup hok
  rw [hwritten] at hstored
  have hfile := run_keeps hroom hspares hstored hrun
  have hpath := temp_path_valid hroom hvalid moment.stamp
  have hne : temp_path site.base_dir moment.stamp ≠ [] := by
    rw [temp_path_eq hroom]
    exact List.append_ne_nil_of_left_ne_nil site.base_dir_ne_nil _
  have hname : Paths.IsName (Paths.final (temp_path site.base_dir moment.stamp)) := by
    rw [temp_path_eq hroom, Paths.final_join moment.stamp.name_no_slash]
    exact moment.stamp.name_is_name.1
  have hnode : disk'.node (temp_path site.base_dir moment.stamp) = some (.file body moment.mtime) :=
    (node_of_name hne hname).trans hfile
  have hnul := temp_path_no hroom (pdef_dirs_whole (site.base_dir_mem disk')) (by decide) moment.stamp
  have hopen : (site.world disk').open_file (temp_path site.base_dir moment.stamp) = some body :=
    congrArg (fun node => Option.bind node Node.content?) hnode
  have hstat : (site.world disk').stat (temp_path site.base_dir moment.stamp)
      = some (Node.file body moment.mtime).stat := congrArg (Option.map Node.stat) hnode
  obtain ⟨hcode, htext⟩ := serve_file (temp_path_safe hroom hdots moment.stamp) hnul hstat rfl hsize hopen rfl {}
  rw [← get_by_path (temp_path_no hroom hamp (by decide) moment.stamp)] at hcode htext
  refine ⟨_, proto, ?_, hcode, ?_, hparse, ?_⟩
  · rw [hsend]
    exact decode_reads (reads_uploaded hpath)
  · rw [htext]
    exact decode_reads (@reads_get (site.world disk') _ _ (Node.file body moment.mtime).stat hpath hbody hmtime)
  · intro raw_msg world hinline hpath' hworld
    rw [load_pdef, if_neg (not_not.mpr hinline), if_pos (hpath' ▸ hne), hworld, hopen]
    exact hparse

/-- A site whose uploads go to the default directory. -/
def small_site : PdefSite where
  format_mtime _ := "1970-01-01T00:00:00Z".toList

def small_moment : UploadMoment where
  stamp := ⟨1, 2, 3, by decide, by decide, by decide⟩
  mtime := 1

def small_pdef : CStr := "@protocol\x7bname=\"a\";\x7d".toList

/-- The cleanup of the same second. -/
def small_cleanup : PdefCleanup where
  pdef_dir_ := fallback_pdef_dir
  pdef_ttl_seconds_ := 3600
  now := 1
  names := some [small_moment.stamp.name]

theorem small_upload_fetched : ∃ up disk', upload_perform small_site small_moment (fun _ => none) {} "POST".toList
      small_pdef = some up ∧ small_site.run up.disk [.cleanup small_cleanup] = some disk' ∧
    ∃ path, decode (handle_get (small_site.world disk') {} (get_url path)).send_body
      = some (get_answer path small_pdef "1970-01-01T00:00:00Z".toList) := by
  have haccepted : ((pdef_parse_string (c_str small_pdef)).1.protocol?).isSome = true := by decide +kernel
  obtain ⟨proto, hproto⟩ := Option.isSome_iff_exists.mp haccepted
  have hparse := ParseResult.protocol?_eq_some.mp hproto
  have hbase : small_site.base_dir = fallback_pdef_dir := by decide +kernel
  have hup : upload_perform small_site small_moment (fun _ => none) {} "POST".toList small_pdef
      = some (store_in_dir small_moment small_site.base_dir (fun _ => none) {} small_pdef) := by
    unfold upload_perform
    rw [if_neg (by decide +kernel), if_neg (by decide +kernel), if_neg (by decide +kernel), hparse]
  have hok : (store_in_dir small_moment small_site.base_dir (fun _ => none) {} small_pdef).res_head._response_code
      = 200 := by decide +kernel
  have hspares : ∀ e ∈ [PdefEvent.cleanup small_cleanup], e.Spares small_moment := by
    intro e he
    rw [List.mem_singleton.mp he]
    exact (by decide : (1 : ℤ) - 1 < 3600)
  obtain ⟨path, proto', -, -, hget, -⟩ := upload_fetched small_site (by rw [hbase]; decide +kernel)
    (by rw [hbase]; decide +kernel) (by rw [hbase]; decide +kernel) (by rw [hbase]; decide +kernel) hup hok rfl
    (by decide +kernel) (by decide +kernel) rfl hspares
  exact ⟨_, _, hup, rfl, path, hget⟩

end RxNetCap.Query
