/-
The name of the filtered file against the name the capture would have without a
filter.

While a capture runs with a PDEF file, its raw files are called `name_raw.pcap`,
and the filter thread takes the `_raw` out again. The one side puts the suffix
before the last dot of the name, the other removes the first `_raw.pcap` of the
whole path. The two undo each other as long as there is none in front of the
suffix (`filtered_path_raw_iff`), and there is a suffix at all: the context of a
capture has the PDEF file only, so a filter given inline leaves the raw file the
name that the filtered one ought to get.
-/
import RxNetCap.Capture.EndianText
import RxNetCap.Capture.Naming
import RxNetCap.Capture.Session

set_option autoImplicit false

namespace RxNetCap.Capture

open RxNetCap.Pdef RxNetCap.Search

/-! ## Taking the suffix out -/

/-- The name gets longer by the extension, or shorter by the suffix. -/
theorem filtered_path_length (s : CStr) :
    (filtered_path s).length = s.length + 9 ∨ (filtered_path s).length + 4 = s.length := by
  unfold filtered_path
  cases hfind : find "_raw.pcap".toList s with
  | none =>
    left
    rw [List.length_append]
    rfl
  | some n =>
    right
    obtain ⟨before, after, rfl, rfl⟩ :=
      ((find_eq_some (by decide)).mp hfind).occurs.split (by decide)
    simp only [List.length_append, List.length_take, List.length_drop, String.length_toList]
    have hlong : "_raw.pcap".length = 9 := rfl
    have hshort : ".pcap".length = 5 := rfl
    omega

/-- **The suffix is taken out** exactly when it is the first of the path. -/
theorem filtered_path_raw_iff (stem : CStr) :
    filtered_path (stem ++ "_raw.pcap".toList) = stem ++ ".pcap".toList
      ↔ ¬ "_raw.pcap".toList <:+: stem := by
  have hfirst : FirstAt "_raw.pcap".toList (stem ++ "_raw.pcap".toList) stem.length
      ↔ ¬ "_raw.pcap".toList <:+: stem := firstAt_end (by decide : '_' ∉ "raw.pcap".toList)
  constructor
  · intro heq
    have hend : Occurs "_raw.pcap".toList (stem ++ "_raw.pcap".toList) stem.length := by
      have hat := occurs_at stem "_raw.pcap".toList []
      rwa [List.append_nil] at hat
    unfold filtered_path at heq
    cases hfind : find "_raw.pcap".toList (stem ++ "_raw.pcap".toList) with
    | none => exact absurd hend ((find_eq_none (by decide)).mp hfind _)
    | some n =>
      have hat := (find_eq_some (by decide)).mp hfind
      rw [← hfirst]
      obtain rfl | hlt : n = stem.length ∨ n < stem.length := by
        have hle : ¬ stem.length < n := fun h => hat.first _ h hend
        omega
      · exact hat
      · -- an earlier one leaves a dot where the name has the first letter of the suffix
        exfalso
        rw [hfind] at heq
        have hletter : stem[n]? = some '_' := by
          have hstart := hat.occurs 0 (by decide)
          rwa [Nat.add_zero, List.getElem?_append_left hlt] at hstart
        have hdot := congrArg (fun t : CStr => t[n]?) heq
        simp only at hdot
        have htake : ((stem ++ "_raw.pcap".toList).take n).length = n := by
          rw [List.length_take, List.length_append]
          omega
        rw [List.append_assoc, List.getElem?_append_right (by omega), htake, Nat.sub_self,
          List.getElem?_append_left hlt, hletter] at hdot
        cases hdot
  · intro hnone
    unfold filtered_path
    rw [(find_eq_some (by decide)).mpr (hfirst.mpr hnone)]
    simp only
    rw [List.take_left, List.drop_eq_nil_of_le (by rw [List.length_append]; rfl), List.append_nil]

/-! ## Paths -/

/-- The name under the directory. -/
def CRxDumpCtx.name (world : OpenWorld) (dc : CRxDumpCtx) : CStr :=
  insert_suffix dc.suffix (dc.filling world)

/-- The context without a protocol filter. -/
def CRxDumpCtx.unfiltered (dc : CRxDumpCtx) : CRxDumpCtx := { dc with protocol_filter_path := [] }

/-- What a path has in front of a name that is not empty: nothing, or a directory. -/
theorem join_path_front (base s : CStr) :
    ∃ dir, (dir = [] ∨ dir.getLast? = some '/') ∧
      ∀ t, t ≠ [] → SameRoot s t → join_path base t = dir ++ t := by
  unfold SameRoot
  by_cases hroot : s.head? = some '/'
  · refine ⟨[], .inl rfl, fun t ht hsame => ?_⟩
    rw [join_path, if_neg ht, if_pos (hsame.mp hroot), List.nil_append]
  · by_cases hbase : base = []
    · refine ⟨[], .inl rfl, fun t ht hsame => ?_⟩
      rw [join_path, if_neg ht, if_neg (mt hsame.mpr hroot), if_pos hbase, List.nil_append]
    · by_cases hslash : base.getLast? = some '/'
      · refine ⟨base, .inr hslash, fun t ht hsame => ?_⟩
        rw [join_path, if_neg ht, if_neg (mt hsame.mpr hroot), if_neg hbase, if_pos hslash]
      · refine ⟨base ++ ['/'], .inr List.getLast?_concat, fun t ht hsame => ?_⟩
        rw [join_path, if_neg ht, if_neg (mt hsame.mpr hroot), if_neg hbase, if_neg hslash,
          List.append_assoc, List.singleton_append]

/-- The extension of a path is that of its name. -/
theorem name_ends {dir name stem : CStr} (hdir : dir = [] ∨ dir.getLast? = some '/')
    (h : dir ++ name = stem ++ ".pcap".toList) :
    ∃ front, name = front ++ ".pcap".toList ∧ stem = dir ++ front := by
  rcases List.append_eq_append_iff.mp h with ⟨front, hstem, hend⟩ | ⟨front, hdir', hend⟩
  · exact ⟨front, hend, hstem⟩
  · cases front using List.reverseRecOn with
    | nil =>
      rw [List.append_nil] at hdir'
      rw [List.nil_append] at hend
      exact ⟨[], hend.symm, by rw [hdir', List.append_nil]⟩
    | append_singleton front c =>
      -- the directory would end inside the extension
      have hslash : c = '/' := by
        rcases hdir with rfl | hlast
        · simp at hdir'
        · rw [hdir', ← List.append_assoc, List.getLast?_concat, Option.some.injEq] at hlast
          exact hlast
      have hmem : c ∈ ".pcap".toList := by
        rw [hend]
        simp
      rw [hslash] at hmem
      exact absurd hmem (by decide)

section Names

variable {world : OpenWorld} {dc : CRxDumpCtx}

/-- With a PDEF file the name gets one more suffix. -/
theorem name_filtered (h : dc.protocol_filter_path ≠ []) :
    dc.name world = insert_suffix "_raw".toList (dc.unfiltered.name world) := by
  have hsuffix : dc.suffix = dc.unfiltered.suffix ++ "_raw".toList := by
    have hnone : ¬ dc.unfiltered.protocol_filter_path ≠ [] := fun hne => hne rfl
    unfold CRxDumpCtx.suffix
    rw [if_pos h, if_neg hnone, List.append_nil]
    rfl
  unfold CRxDumpCtx.name
  rw [hsuffix, ← insert_suffix_append dc.unfiltered.suffix_chars.1]
  rfl

/-- With a PDEF file. -/
theorem filtered_path_expand_iff (hfilter : dc.protocol_filter_path ≠ []) {stem : CStr}
    (hpcap : expand_pattern world dc.unfiltered = stem ++ ".pcap".toList) :
    filtered_path (expand_pattern world dc) = expand_pattern world dc.unfiltered ↔
      dc.unfiltered.name world ≠ [] ∧ ¬ "_raw.pcap".toList <:+: stem := by
  have hraw : expand_pattern world dc
      = join_path dc.base_dir (insert_suffix "_raw".toList (dc.unfiltered.name world)) := by
    rw [← name_filtered hfilter]
    exact dc.expand_pattern_eq world
  have hplain : expand_pattern world dc.unfiltered
      = join_path dc.base_dir (dc.unfiltered.name world) := dc.unfiltered.expand_pattern_eq world
  by_cases hname : dc.unfiltered.name world = []
  · -- the raw file lies in a directory of the name that the other one would have
    refine iff_of_false (fun heq => ?_) fun h => h.1 hname
    rw [hname, insert_suffix_plain List.not_mem_nil, List.nil_append] at hraw
    rw [hname, join_path, if_pos rfl, hpcap] at hplain
    have hlong := filtered_path_length (expand_pattern world dc)
    have hslash : dc.base_dir.getLast? ≠ some '/' := by
      have hlast : ".pcap".toList.getLast? = some 'p' := rfl
      rw [← hplain, List.getLast?_append, hlast]
      exact fun h => absurd h (by decide : some 'p' ≠ some '/')
    have hlength : (expand_pattern world dc).length = dc.base_dir.length + 5 := by
      rw [hraw, join_path, if_neg (by decide), if_neg (by decide), if_neg (by rw [← hplain]; simp),
        if_neg hslash, List.length_append]
      rfl
    rw [heq, hpcap, hplain] at hlong
    omega
  · obtain ⟨dir, hdir, hjoin⟩ := join_path_front dc.base_dir (dc.unfiltered.name world)
    rw [hpcap, hjoin _ hname (SameRoot.refl _)] at hplain
    obtain ⟨front, hfront, hstem⟩ := name_ends hdir hplain.symm
    have hsuffix : insert_suffix "_raw".toList (dc.unfiltered.name world)
        = front ++ "_raw.pcap".toList := by
      rw [hfront]
      exact (insert_suffix_dot (by decide : '.' ∉ "pcap".toList) _ _).trans (List.append_assoc ..)
    have hne : insert_suffix "_raw".toList (dc.unfiltered.name world) ≠ [] := by
      rw [hsuffix]
      simp
    rw [hraw, hjoin _ hne (insert_suffix_root (by decide) _).symm, hsuffix, ← List.append_assoc,
      ← hstem, hpcap, filtered_path_raw_iff]
    exact (and_iff_right hname).symm

end Names

/-- The context with which a job names its segments. -/
def CRxCaptureJob.segment_context (world : PrepareWorld) (job : CRxCaptureJob) (seq : ℤ) :
    CRxDumpCtx :=
  { job.new_context world with seq }

/-- **The filtered file gets the name the user asked for** exactly when the filter
comes from a file, the pattern gives a name, and no `_raw.pcap` stands before the
end of the path. -/
theorem filtered_name_iff (prepare_world : PrepareWorld) (world : OpenWorld) (job : CRxCaptureJob)
    (seq : ℤ) (stem : CStr)
    (hpcap : expand_pattern world (job.segment_context prepare_world seq).unfiltered
      = stem ++ ".pcap".toList) :
    filtered_path (expand_pattern world (job.segment_context prepare_world seq))
        = expand_pattern world (job.segment_context prepare_world seq).unfiltered ↔
      job.cfg_.protocol_filter ≠ [] ∧
        (job.segment_context prepare_world seq).unfiltered.name world ≠ [] ∧
        ¬ "_raw.pcap".toList <:+: stem := by
  by_cases hfilter : job.cfg_.protocol_filter = []
  · -- the raw file already has the name
    have hsame : (job.segment_context prepare_world seq).unfiltered
        = job.segment_context prepare_world seq := by
      unfold CRxDumpCtx.unfiltered CRxCaptureJob.segment_context CRxCaptureJob.new_context
      rw [hfilter]
    rw [hsame]
    refine iff_of_false (fun heq => ?_) fun h => h.1 hfilter
    have hlong := filtered_path_length (expand_pattern world (job.segment_context prepare_world seq))
    rw [heq] at hlong
    omega
  · rw [filtered_path_expand_iff hfilter hpcap]
    exact (and_iff_right hfilter).symm

/-- A capture into one file, with a filter from a file or inline. -/
def one_file_job (protocol_filter protocol_filter_inline : CStr) : CRxCaptureJob where
  cfg_ := { file_pattern := "a.pcap".toList, protocol_filter, protocol_filter_inline }
  parent_task_info_ := { base_dir := "/data".toList }

theorem filtered_name_iff_one_file :
    filtered_path (expand_pattern {} ((one_file_job "g.pdef".toList []).segment_context {} 0))
      = "/data/a.pcap".toList := by
  have hpcap : expand_pattern {} ((one_file_job "g.pdef".toList []).segment_context {} 0).unfiltered
      = "/data/a".toList ++ ".pcap".toList := by decide
  have hiff := filtered_name_iff {} {} (one_file_job "g.pdef".toList []) 0 "/data/a".toList hpcap
  rw [hiff.mpr (by decide), hpcap]
  rfl

/-- An inline filter leaves the raw file without the suffix. -/
theorem inline_filter_misnamed :
    expand_pattern {} ((one_file_job [] "@protocol".toList).segment_context {} 0).unfiltered
        = "/data/a.pcap".toList ∧
      filtered_path (expand_pattern {} ((one_file_job [] "@protocol".toList).segment_context {} 0))
        ≠ expand_pattern {} ((one_file_job [] "@protocol".toList).segment_context {} 0).unfiltered := by
  decide

end RxNetCap.Capture
