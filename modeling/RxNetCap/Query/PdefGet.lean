/-
A PDEF file over HTTP: `handle_get` of `src/rxurlhandlers.cpp`, with the path test
in front of it.

The file is named by its path or looked for by its name, and either way what was
found has to pass `is_safe_path`: no two dots in a row, and one of the allowed
directories with a slash at the front. That lets the directory itself pass, with a
slash or a dot behind it; but the handler opens regular files only, and a path
that ends so is a directory's (`AsksForDirectory`). So what it opens lies inside
(`opened_inside`).

What the handler meets is a `PdefWorld`: the configuration and the files. Paths
are given to the system as C strings.
-/
import Mathlib.Data.List.TakeWhile
import RxNetCap.Capture.Escape
import RxNetCap.Http.Cuts
import RxNetCap.Lib.Paths

set_option autoImplicit false

namespace RxNetCap.Query

open RxNetCap.Capture RxNetCap.Http RxNetCap.Paths RxNetCap.Pdef

/-! ## The query -/

def add_query_param (params : Headers) (token : CStr) : Headers :=
  let key := token.takeWhile (· ≠ '=')
  let value := (token.dropWhile (· ≠ '=')).tail
  if token = [] ∨ key = [] then params else params.set key value

def parse_query_params (url : CStr) : Headers :=
  (segments '&' (url.dropWhile (· ≠ '?')).tail).foldl add_query_param []

/-! ## The directories -/

/-- What is read of a `struct stat`. -/
structure Stat where
  regular : Bool
  size : ℕ
  mtime : ℤ
  deriving DecidableEq, Repr

/-- `server_config` is none without a configuration; with one, it is the string
`storage.temp_pdef_dir` of its text, if there is one. `open_file` is the content
of a file that can be opened, `read_bad` whether reading it fails. -/
structure PdefWorld where
  server_config : Option (Option CStr) := none
  stat : CStr → Option Stat
  open_file : CStr → Option CStr
  read_bad : CStr → Bool := fun _ => false
  format_mtime : ℤ → CStr

def fallback_pdef_dir : CStr := "/tmp/rxtracenetcap_pdef".toList

/-- `storage().temp_pdef_dir`: the default, or what `GetString()` gives. -/
def temp_pdef_dir (member : Option CStr) : CStr :=
  match member with
  | none => fallback_pdef_dir
  | some text => c_str text

def get_configured_pdef_dir (world : PdefWorld) : CStr :=
  match world.server_config with
  | none => fallback_pdef_dir
  | some member => non_empty_or (temp_pdef_dir member) fallback_pdef_dir

def builtin_pdef_dir : CStr := "config/protocols".toList

def append_pdef_dirs (world : PdefWorld) (out : List CStr) : List CStr :=
  let out := if builtin_pdef_dir ∈ out then out else out ++ [builtin_pdef_dir]
  let configured := get_configured_pdef_dir world
  if configured ≠ [] ∧ configured ∉ out then out ++ [configured] else out

/-- A directory with one slash at its end. -/
def dir_prefix (dir : CStr) : CStr := if dir.getLast? ≠ some '/' then dir ++ ['/'] else dir

def is_safe_path (world : PdefWorld) (path : CStr) : Bool :=
  path ≠ [] ∧ ¬ "..".toList <:+: path ∧
    ∃ dir ∈ append_pdef_dirs world [], dir ≠ [] ∧ dir_prefix dir <+: path

/-! ## The handler -/

/-- What the handler answers, and the path that it opens. -/
structure Handled where
  opened : Option CStr := none
  res_head : http_res_head_para
  send_body : CStr
  deriving DecidableEq

def set_json_response (res_head : http_res_head_para) (code : ℤ) (reason json_body : CStr) :
    http_res_head_para × CStr :=
  let _headers : Headers := []
  let _headers := _headers.set "Content-Type".toList "application/json".toList
  let _headers := _headers.set "Connection".toList "close".toList
  let _headers := _headers.set "Content-Length".toList (Capture.decimal json_body.length)
  ({ res_head with _response_code := code, _response_str := reason, _headers }, json_body)

def set_error_response (res_head : http_res_head_para) (code : ℤ) (message : String) :
    http_res_head_para × CStr :=
  let body := "\x7b\"error\":\"".toList ++ json_escape message.toList ++ "\"\x7d".toList
  set_json_response res_head code (if code = 200 then "OK".toList else "Error".toList) body

def refuse (res_head : http_res_head_para) (code : ℤ) (message : String) : Handled :=
  let (res_head, send_body) := set_error_response res_head code message
  { res_head, send_body }

def kMaxPdefSize : ℕ := 2 * 1024 * 1024

/-- The answer with the content. -/
def pdef_json (world : PdefWorld) (target_path : CStr) (st : Stat) (content : CStr) : CStr :=
  "\x7b\"status\":\"ok\",\"path\":\"".toList ++ json_escape target_path
    ++ "\",\"size\":".toList ++ Capture.decimal content.length
    ++ ",\"mtime\":\"".toList ++ world.format_mtime st.mtime
    ++ "\",\"content\":\"".toList ++ json_escape content ++ "\"\x7d".toList

/-- What comes once the path is known. -/
def serve_pdef (world : PdefWorld) (res_head : http_res_head_para) (target_path : CStr) : Handled :=
  if ¬ is_safe_path world target_path then refuse res_head 403 "Invalid path"
  else
    match world.stat (c_str target_path) with
    | none => refuse res_head 404 "File not found"
    | some st =>
      if ¬ st.regular then refuse res_head 400 "Not a regular file"
      else if st.size > kMaxPdefSize then refuse res_head 413 "File too large"
      else
        let opened := some (c_str target_path)
        match world.open_file (c_str target_path) with
        | none => { refuse res_head 500 "Failed to open file" with opened }
        | some content =>
          if world.read_bad (c_str target_path) then
            { refuse res_head 500 "Failed to read file" with opened }
          else
            let (res_head, send_body) :=
              set_json_response res_head 200 "OK".toList (pdef_json world target_path st content)
            { opened, res_head, send_body }

/-- The first directory with a regular file of the name. -/
def search_pdef (world : PdefWorld) (name : CStr) : Option CStr :=
  ((append_pdef_dirs world []).map fun dir => dir ++ "/".toList ++ name).find? fun candidate =>
    (world.stat (c_str candidate)).any Stat.regular

def handle_get (world : PdefWorld) (res_head : http_res_head_para) (url_path : CStr) : Handled :=
  let params := parse_query_params url_path
  match params.lookup "path".toList, params.lookup "name".toList with
  | some target_path, _ => serve_pdef world res_head target_path
  | none, some name =>
    match search_pdef world name with
    | none => refuse res_head 404 "PDEF not found"
    | some target_path => serve_pdef world res_head target_path
  | none, none => refuse res_head 400 "Missing 'name' or 'path' parameter"

/-! ## What is opened -/

/-- A path that does not end in a name asks for a directory: it is not the path of
a regular file. -/
def AsksForDirectory (stat : CStr → Option Stat) : Prop :=
  ∀ path st, ¬ IsName (final path) → stat path = some st → st.regular = false

section Opened

variable {world : PdefWorld} {res_head : http_res_head_para} {path : CStr}

/-- Only a path that passes the tests is opened. -/
theorem serve_pdef_opened {target_path : CStr}
    (h : (serve_pdef world res_head target_path).opened = some path) :
    path = c_str target_path ∧ is_safe_path world target_path = true ∧
      ∃ st, world.stat path = some st ∧ st.regular = true := by
  unfold serve_pdef at h
  split at h
  · cases h
  · next hsafe =>
    split at h
    · cases h
    · next st hstat =>
      split at h
      · cases h
      · next hregular =>
        have hpath : path = c_str target_path := by
          split at h
          · cases h
          · simp only at h
            split at h
            · cases h
              rfl
            · split at h
              · cases h
                rfl
              · cases h
                rfl
        rw [hpath]
        exact ⟨rfl, not_not.mp hsafe, st, hstat, not_not.mp hregular⟩

theorem handle_get_opened {url_path : CStr} (h : (handle_get world res_head url_path).opened = some path) :
    ∃ target_path, (serve_pdef world res_head target_path).opened = some path := by
  unfold handle_get at h
  simp only at h
  split at h
  · exact ⟨_, h⟩
  · split at h
    · cases h
    · exact ⟨_, h⟩
  · cases h

theorem c_str_no_nul (s : CStr) : '\x00' ∉ c_str s := by
  intro hmem
  have hne := List.mem_takeWhile_imp hmem
  simp at hne

/-- The allowed directories are C strings. -/
theorem pdef_dirs_whole {dir : CStr} (h : dir ∈ append_pdef_dirs world []) : '\x00' ∉ dir := by
  have hconfigured : '\x00' ∉ get_configured_pdef_dir world := by
    unfold get_configured_pdef_dir
    split
    · decide
    · next member _ =>
      unfold non_empty_or
      split
      · decide
      · cases member with
        | none => exact (by decide : '\x00' ∉ fallback_pdef_dir)
        | some text => exact c_str_no_nul text
  have hbuiltin : '\x00' ∉ builtin_pdef_dir := by decide
  unfold append_pdef_dirs at h
  rw [if_neg List.not_mem_nil, List.nil_append] at h
  simp only at h
  split at h
  · rcases List.mem_append.mp h with h | h
    · rw [List.mem_singleton.mp h]
      exact hbuiltin
    · rw [List.mem_singleton.mp h]
      exact hconfigured
  · rw [List.mem_singleton.mp h]
    exact hbuiltin

/-- What a directory with a slash stands in front of. -/
theorem dir_prefix_front (dir : CStr) :
    ∃ front, (dir = front ∨ dir = front ++ ['/']) ∧ dir_prefix dir = front ++ ['/'] := by
  unfold dir_prefix
  by_cases hslash : dir.getLast? = some '/'
  · obtain ⟨front, rfl⟩ := List.getLast?_eq_some_iff.mp hslash
    exact ⟨front, .inr rfl, if_neg (not_not.mpr hslash)⟩
  · exact ⟨dir, .inl rfl, if_pos hslash⟩

/-- **The handler opens nothing outside of the allowed directories**, whatever the
query is and whichever directory is configured. -/
theorem opened_inside (world : PdefWorld) (hstat : AsksForDirectory world.stat)
    (res_head : http_res_head_para) (url_path path : CStr)
    (h : (handle_get world res_head url_path).opened = some path) :
    ∃ dir ∈ append_pdef_dirs world [], Inside dir path := by
  obtain ⟨target_path, hserve⟩ := handle_get_opened h
  obtain ⟨rfl, hsafe, st, hst, hregular⟩ := serve_pdef_opened hserve
  obtain ⟨-, hdots, dir, hdir, hne, hprefix⟩ := of_decide_eq_true hsafe
  refine ⟨dir, hdir, ?_⟩
  obtain ⟨front, hfront, hslash⟩ := dir_prefix_front dir
  obtain ⟨behind, rfl⟩ := hprefix
  have hwhole : '\x00' ∉ dir_prefix dir := by
    have hnul := pdef_dirs_whole hdir
    unfold dir_prefix
    split
    · simpa using hnul
    · exact hnul
  rw [c_str_append hwhole, hslash, List.append_assoc, List.singleton_append] at hst ⊢
  have hsegments : ['.', '.'] ∉ segments '/' (c_str behind) := by
    intro hmem
    refine hdots ((infix_of_mem_segments hmem).trans ?_)
    exact (List.takeWhile_prefix _).isInfix.trans (List.suffix_append _ _).isInfix
  rw [inside_iff hne hfront hsegments]
  refine ⟨_, final_mem front (c_str behind), ?_⟩
  -- otherwise it would be a directory, which is not opened
  by_contra hname
  rw [hstat _ _ hname hst] at hregular
  cases hregular

end Opened

/-- A world with one file, in the built-in directory. -/
def one_pdef_world : PdefWorld where
  stat path := if path = "config/protocols//game.pdef".toList ∨ path = "config/protocols/game.pdef".toList
    then some { regular := true, size := 2, mtime := 0 } else none
  open_file _ := some "ok".toList
  format_mtime _ := "1970-01-01T00:00:00Z".toList

theorem opened_inside_one_pdef :
    (handle_get one_pdef_world {} "/api/pdef/get?path=config/protocols//game.pdef".toList).opened
        = some "config/protocols//game.pdef".toList ∧
      ∃ dir ∈ append_pdef_dirs one_pdef_world [], Inside dir "config/protocols//game.pdef".toList := by
  have hstat : AsksForDirectory one_pdef_world.stat := by
    intro path st hname hst
    unfold one_pdef_world at hst
    simp only at hst
    split at hst
    · next hpath =>
      rcases hpath with rfl | rfl
      · exact absurd (by decide) hname
      · exact absurd (by decide) hname
    · cases hst
  have hopened : (handle_get one_pdef_world {}
      "/api/pdef/get?path=config/protocols//game.pdef".toList).opened
        = some "config/protocols//game.pdef".toList := by decide
  exact ⟨hopened, opened_inside one_pdef_world hstat {} _ _ hopened⟩

end RxNetCap.Query
