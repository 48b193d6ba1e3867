/-
What the shell makes of the command line of a batch.

Each path is put between single quotes, and nothing in it is escaped. So the
line splits into `tar`, its option and the paths as long as no path has a single
quote in it (`batch_command_iff`). The paths come from the patterns, categories,
interfaces and processes that requests name (`expand_pattern_quotable`).
-/
import RxNetCap.Archive.Compress

set_option autoImplicit false

namespace RxNetCap.Archive

open RxNetCap.Capture RxNetCap.Pdef RxNetCap.Shell

/-- A text that single quotes keep as it is: without a single quote, and
without the character that ends a C string. -/
def Quotable (u : CStr) : Prop := '\'' ∉ u ∧ '\x00' ∉ u

instance (u : CStr) : Decidable (Quotable u) := inferInstanceAs (Decidable (_ ∧ _))

theorem quotable_append {u v : CStr} : Quotable (u ++ v) ↔ Quotable u ∧ Quotable v := by
  simp only [Quotable, List.mem_append, not_or]
  exact and_and_and_comm

/-! ## The line -/

theorem with_file_eq (command filename : CStr) :
    with_file command filename = command ++ quote_all [filename] := by
  simp [with_file, quote_all]

theorem foldl_with_file (command : CStr) (files : List CStr) :
    files.foldl with_file command = command ++ quote_all files := by
  induction files generalizing command with
  | nil => exact (List.append_nil command).symm
  | cons filename files ih =>
    rw [List.foldl_cons, ih, with_file_eq, List.append_assoc]
    simp [quote_all]

/-- The line of a batch is a head and paths in single quotes. -/
theorem batch_command_eq (archive_path : CStr) (files : List PendingFile) :
    batch_command archive_path files
      = "tar -czf".toList ++ quote_all (archive_path :: selected files) := by
  rw [batch_command, foldl_with_file, with_file_eq, List.append_assoc]
  simp [quote_all]

theorem tar_bare : Bare "tar -czf".toList ["tar".toList, "-czf".toList] where
  scanned := ⟨{ cur := some "-czf".toList, words := ["tar".toList] }, by decide, rfl, rfl⟩
  exact_weight := by decide

theorem c_str_eq {u : CStr} (h : '\x00' ∉ u) : c_str u = u := by
  refine List.takeWhile_eq_self_iff.mpr fun c hc => decide_eq_true ?_
  rintro rfl
  exact h hc

/-- A NUL makes a C string shorter. -/
theorem plain_c_str_lt {u : CStr} (h : '\x00' ∈ u) : plain (c_str u) < plain u := by
  have hsplit := List.takeWhile_append_dropWhile (p := fun c => decide (c ≠ '\x00')) (l := u)
  cases hrest : u.dropWhile (fun c => decide (c ≠ '\x00')) with
  | nil =>
    rw [hrest, List.append_nil] at hsplit
    have hnul := List.takeWhile_eq_self_iff.mp hsplit _ h
    exact absurd rfl (of_decide_eq_true hnul)
  | cons c rest =>
    have hc : c = '\x00' := by
      have hhead := List.head?_dropWhile_not (fun c => decide (c ≠ '\x00')) u
      rw [hrest, List.head?_cons] at hhead
      simpa using hhead
    have hwhole : plain u = plain (c_str u) + (1 + plain rest) := by
      rw [c_str]
      conv_lhs => rw [← hsplit, hrest, plain_append, plain_cons, hc]
      rfl
    omega

theorem nul_mem_quote_all {args : List CStr} :
    '\x00' ∈ quote_all args ↔ ∃ arg ∈ args, '\x00' ∈ arg := by
  simp [quote_all]

/-- **A line of quoted paths** splits into them when all of them are
quotable. -/
theorem tar_words_iff (paths : List CStr) :
    words_of (c_str ("tar -czf".toList ++ quote_all paths))
        = some ("tar".toList :: "-czf".toList :: paths)
      ↔ ∀ path ∈ paths, Quotable path := by
  by_cases hnul : '\x00' ∈ "tar -czf".toList ++ quote_all paths
  · -- the line is cut short
    refine iff_of_false (words_ne_of_short tar_bare (plain_c_str_lt hnul)) fun hall => ?_
    rcases List.mem_append.mp hnul with hmem | hmem
    · revert hmem
      decide
    · obtain ⟨path, hpath, hmem⟩ := nul_mem_quote_all.mp hmem
      exact (hall path hpath).2 hmem
  · have hnone : ∀ path ∈ paths, '\x00' ∉ path := fun path hpath hmem =>
      hnul (List.mem_append_right _ (nul_mem_quote_all.mpr ⟨path, hpath, hmem⟩))
    rw [c_str_eq hnul]
    refine (quoted_words_iff tar_bare).trans (forall₂_congr fun path hpath => ?_)
    exact (and_iff_left (hnone path hpath)).symm

/-! ## The archive -/

theorem number_quotable {u : CStr} (h : ∀ c ∈ u, NumberChar c) : Quotable u := by
  refine ⟨fun hmem => ?_, fun hmem => ?_⟩
  · rcases h _ hmem with hc | hc <;> revert hc <;> decide
  · rcases h _ hmem with hc | hc <;> revert hc <;> decide

theorem decimal_quotable (n : ℤ) : Quotable (decimal n) := number_quotable (decimal_chars n)

theorem zero_padded_quotable (width : ℕ) (n : ℤ) : Quotable (zero_padded width n) :=
  number_quotable (zero_padded_chars width n)

theorem timestamp_suffix_quotable (world : CompressWorld) : Quotable (timestamp_suffix world) := by
  simp only [timestamp_suffix, quotable_append, zero_padded_quotable, true_and, and_true]
  decide

theorem batch_archive_name_quotable (world : CompressWorld) (capture_id : ℤ) :
    Quotable (batch_archive_name world capture_id) := by
  have htext : Quotable "batch_".toList ∧ Quotable "_".toList ∧ Quotable ".tar.gz".toList := by decide
  unfold batch_archive_name
  rw [quotable_append, quotable_append, quotable_append, quotable_append]
  exact ⟨⟨⟨⟨htext.1, timestamp_suffix_quotable world⟩, htext.2.1⟩, decimal_quotable capture_id⟩,
    htext.2.2⟩

theorem with_slash_quotable {dir : CStr} : Quotable (with_slash dir) ↔ Quotable dir := by
  unfold with_slash
  split
  · rw [quotable_append]
    exact and_iff_left (by decide)
  · exact Iff.rfl

/-- **When a batch runs as written.** The command of a batch splits into `tar`,
its option, the archive and the selected files exactly when single quotes keep
the archive directory and the files as they are. -/
theorem batch_command_iff {world : CompressWorld} {config : CleanupConfig} {first : PendingFile}
    {rest : List PendingFile} {command : CStr}
    (passes : (compress_batch world config (first :: rest)).command = some command) :
    words_of command = some ("tar".toList :: "-czf".toList ::
        batch_archive_path world config first :: selected (first :: rest))
      ↔ Quotable config.archive_dir ∧ ∀ path ∈ selected (first :: rest), Quotable path := by
  have hcommand : command
      = c_str (batch_command (batch_archive_path world config first) (first :: rest)) := by
    simp only [compress_batch] at passes
    split at passes
    · cases passes
    · split at passes
      · cases passes
      · split at passes
        · exact (Option.some.inj passes).symm
        · exact (Option.some.inj passes).symm
  rw [hcommand, batch_command_eq, tar_words_iff, List.forall_mem_cons, batch_archive_path,
    quotable_append, with_slash_quotable]
  exact and_congr_left' (and_iff_left (batch_archive_name_quotable world first.capture_id))

/-! ## Where the paths come from -/

theorem Quotable.mono {u v : CStr} (h : Quotable v) (hsub : u ⊆ v) : Quotable u :=
  ⟨fun hmem => h.1 (hsub hmem), fun hmem => h.2 (hsub hmem)⟩

theorem collapse_subset (prev_slash : Bool) (u : CStr) : collapse_slashes prev_slash u ⊆ u := by
  induction u generalizing prev_slash with
  | nil => exact List.Subset.refl []
  | cons c u ih =>
    rw [collapse_slashes]
    split
    · split
      · exact List.Subset.trans (ih true) (List.subset_cons_self c u)
      · exact List.cons_subset_cons c (ih true)
    · exact List.cons_subset_cons c (ih false)

theorem insert_suffix_quotable {suffix out : CStr} (hsuffix : Quotable suffix)
    (hout : Quotable out) : Quotable (insert_suffix suffix out) := by
  rcases insert_suffix_cases suffix out with ⟨stem, extension, rfl, -, hinsert⟩ | ⟨-, hinsert⟩
  · obtain ⟨hstem, hextension⟩ := quotable_append.mp hout
    rw [hinsert]
    exact quotable_append.mpr ⟨quotable_append.mpr ⟨hstem, hsuffix⟩, hextension⟩
  · rw [hinsert]
    exact quotable_append.mpr ⟨hout, hsuffix⟩

theorem join_path_quotable {a b : CStr} (ha : Quotable a) (hb : Quotable b) :
    Quotable (join_path a b) := by
  unfold join_path
  split_ifs
  · exact ha
  · exact hb
  · exact hb
  · exact quotable_append.mpr ⟨ha, hb⟩
  · have hslash : Quotable ("/".toList ++ b) := quotable_append.mpr ⟨by decide, hb⟩
    exact quotable_append.mpr ⟨ha, hslash⟩

/-- The characters of a piece. -/
def piece_chars : Piece → CStr
  | .plain c => [c]
  | .placeholder key => key

theorem pieces_chars {p : Piece} {key : Option CStr} {u : CStr} (h : p ∈ pieces key u) :
    piece_chars p ⊆ key.getD [] ++ u := by
  induction key, u using pieces.induct with
  | case1 key =>
    rw [pieces] at h
    cases h
  | case2 c rest hopen ih =>
    rw [pieces, if_pos hopen] at h
    exact List.Subset.trans (ih h) (List.subset_cons_self c rest)
  | case3 c rest hplain ih =>
    rw [pieces, if_neg hplain] at h
    rcases List.mem_cons.mp h with rfl | h
    · exact List.cons_subset_cons c (List.nil_subset rest)
    · exact List.Subset.trans (ih h) (List.subset_cons_self c rest)
  | case4 key rest ih =>
    rw [pieces, if_pos rfl] at h
    rcases List.mem_cons.mp h with rfl | h
    · exact List.subset_append_left key _
    · exact List.Subset.trans (List.Subset.trans (ih h) (List.subset_cons_self _ rest))
        (List.subset_append_right key _)
  | case5 key c rest hinside ih =>
    rw [pieces, if_neg hinside] at h
    have hrest := ih h
    rw [Option.getD_some, List.append_assoc] at hrest
    exact hrest

/-- The texts of a context that requests have a say in. -/
structure QuotableNames (dc : CRxDumpCtx) : Prop where
  base_dir : Quotable dc.base_dir
  pattern : Quotable dc.pattern
  category : Quotable dc.category
  iface : Quotable dc.iface
  proc : Quotable dc.proc

theorem non_empty_or_quotable {text other : CStr} (htext : Quotable text) (hother : Quotable other) :
    Quotable (non_empty_or text other) := by
  unfold non_empty_or
  split
  · exact hother
  · exact htext

theorem piece_text_quotable {world : OpenWorld} {dc : CRxDumpCtx} (h : QuotableNames dc) {p : Piece}
    (hp : Quotable (piece_chars p)) : Quotable (dc.piece_text world p) := by
  have hany : Quotable "any".toList := by decide
  cases p with
  | plain c => exact hp
  | placeholder key =>
    simp only [CRxDumpCtx.piece_text, CRxDumpCtx.placeholder_text]
    split_ifs
    · simp only [quotable_append, zero_padded_quotable, and_self]
    · simp only [quotable_append, zero_padded_quotable, and_self]
    · exact decimal_quotable _
    · exact h.iface
    · exact non_empty_or_quotable h.proc hany
    · exact decimal_quotable _
    · exact hany
    · exact zero_padded_quotable _ _
    · exact h.category
    · exact hp

/-- **A name** is quotable when the texts it is made of are. -/
theorem expand_pattern_quotable (world : OpenWorld) {dc : CRxDumpCtx} (h : QuotableNames dc) :
    Quotable (expand_pattern world dc) := by
  have hsuffix : Quotable dc.suffix := by
    have hport : Quotable dc.port_suffix := quotable_append.mpr ⟨by decide, decimal_quotable _⟩
    refine quotable_append.mpr ⟨?_, ?_⟩
    · split
      · exact hport
      · decide
    · split
      · decide
      · decide
  have hpattern : Quotable (non_empty_or dc.pattern default_pattern) :=
    non_empty_or_quotable h.pattern (by decide)
  have htext : Quotable (dc.parts.flatMap (dc.piece_text world)) := by
    have hpiece : ∀ p ∈ dc.parts, Quotable (dc.piece_text world p) := fun p hp =>
      piece_text_quotable h (hpattern.mono (pieces_chars hp))
    constructor
    · intro hmem
      obtain ⟨p, hp, hmem⟩ := List.mem_flatMap.mp hmem
      exact (hpiece p hp).1 hmem
    · intro hmem
      obtain ⟨p, hp, hmem⟩ := List.mem_flatMap.mp hmem
      exact (hpiece p hp).2 hmem
  rw [CRxDumpCtx.expand_pattern_eq]
  exact join_path_quotable h.base_dir
    (insert_suffix_quotable hsuffix (htext.mono (collapse_subset false _)))

/-! ## Two batches -/

/-- The file that the capture of a request is written to, with its pattern. -/
def captured_file (file_pattern : CStr) : PendingFile where
  capture_id := 1000
  file :=
    { file_path := initial_file
        { capture_id := 1000
          spec := { iface := "eth0".toList, output_pattern := file_pattern } }
        { prepare := { start_time := 1 }, turns := fun _ => { now_sec := 1 } }
      file_size := 0
      file_ready_ts := 0 }

/-- A batch of one file. -/
theorem batch_command_iff_one : ∃ command,
    (compress_batch {} {} [captured_file "a b.pcap".toList]).command = some command ∧
    words_of command = some ("tar".toList :: "-czf".toList ::
      batch_archive_path {} {} (captured_file "a b.pcap".toList)
        :: selected [captured_file "a b.pcap".toList]) := by
  have hpasses : (compress_batch {} {} [captured_file "a b.pcap".toList]).command.isSome = true := by
    decide +kernel
  obtain ⟨command, passes⟩ := Option.isSome_iff_exists.mp hpasses
  refine ⟨command, passes, (batch_command_iff passes).mpr ⟨by decide, ?_⟩⟩
  decide +kernel

/-- A pattern that closes the quotes ends the command and begins another. -/
theorem pattern_ends_command : ∃ command,
    (compress_batch {} {} [captured_file "a'; reboot; '.pcap".toList]).command = some command ∧
    words_of command ≠ some ("tar".toList :: "-czf".toList ::
      batch_archive_path {} {} (captured_file "a'; reboot; '.pcap".toList)
        :: selected [captured_file "a'; reboot; '.pcap".toList]) := by
  have hpasses : ((compress_batch {} {} [captured_file "a'; reboot; '.pcap".toList]).command.any
      fun command => words_of command = none) = true := by
    decide +kernel
  obtain ⟨command, passes, hnone⟩ := (Option.any_eq_true _ _).mp hpasses
  refine ⟨command, passes, ?_⟩
  rw [of_decide_eq_true hnone]
  exact (Option.some_ne_none _).symm

end RxNetCap.Archive
