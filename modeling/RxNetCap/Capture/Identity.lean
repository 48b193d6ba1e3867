/-
Whether the identity of a process capture depends on the order of `/proc`.

The processes that a name stands for come in the order in which they are
listed, and one of them may be listed twice. The ports go through a `std::set`
and the process ids are sorted and made unique, so the filter, the port, the key
and the ids in the signature are functions of the *set* of processes
(`listening_ports_congr`, `matched_pids_congr`). The network namespace is the
one exception: it is taken from the process that happens to come first. So the
identity is that of the set exactly when the request names a namespace itself,
or the processes share one.
-/
import RxNetCap.Capture.Request

set_option autoImplicit false

namespace RxNetCap.Capture

open RxNetCap.Pdef

/-! ## The same processes -/

/-- The same elements, in whatever order and however often. -/
def SameSet {α : Type} (l l' : List α) : Prop := ∀ x, x ∈ l' ↔ x ∈ l

/-- A sorted list without repetitions is a function of the set of its elements. -/
theorem sorted_congr {l l' : List ℤ} (h : SameSet l l') :
    l'.dedup.insertionSort (· ≤ ·) = l.dedup.insertionSort (· ≤ ·) := by
  have hperm : l'.dedup.Perm l.dedup := by
    refine (List.perm_ext_iff_of_nodup (List.nodup_dedup _) (List.nodup_dedup _)).mpr fun x => ?_
    rw [List.mem_dedup, List.mem_dedup, h]
  have hsorted : (l'.dedup.insertionSort (· ≤ ·)).Perm (l.dedup.insertionSort (· ≤ ·)) :=
    ((List.perm_insertionSort _ _).trans hperm).trans (List.perm_insertionSort _ _).symm
  exact hsorted.eq_of_sortedLE List.sortedLE_insertionSort List.sortedLE_insertionSort

variable {matched matched' : List SProcessInfo}

theorem listening_ports_congr (h : SameSet matched matched') :
    listening_ports matched' = listening_ports matched := by
  refine sorted_congr fun port => ?_
  simp only [List.mem_filter, List.mem_flatMap, h _]

theorem matched_pids_congr (h : SameSet matched matched') :
    matched_pids matched' = matched_pids matched := by
  refine sorted_congr fun pid => ?_
  simp only [List.mem_filter, List.mem_map, h _]

theorem auto_filter_congr (h : SameSet matched matched') (start_msg : SRxStartCaptureMsg) :
    auto_filter matched' start_msg = auto_filter matched start_msg := by
  rw [auto_filter, auto_filter, listening_ports_congr h]

theorem signature_congr (h : SameSet matched matched') (spec : CaptureSpec)
    (config : CaptureConfigSnapshot) :
    build_capture_signature spec config matched' = build_capture_signature spec config matched := by
  have htarget (fields : JsonFields) :
      append_target_fields spec matched' fields = append_target_fields spec matched fields := by
    rw [append_target_fields, append_target_fields, matched_pids_congr h]
  rw [build_capture_signature, build_capture_signature, capture_signature_fields,
    capture_signature_fields, htarget]

/-! ## The namespace -/

/-- The namespace of the capture. -/
def first_namespace (start_msg : SRxStartCaptureMsg) (matched : List SProcessInfo) : CStr :=
  non_empty_or start_msg.netns_path ((matched.head?.map (·.netns_path)).getD [])

theorem auto_filter_netns_path (matched : List SProcessInfo) (start_msg : SRxStartCaptureMsg) :
    (auto_filter matched start_msg).netns_path = start_msg.netns_path := by
  unfold auto_filter
  split
  · split <;> rfl
  · rfl

theorem infer_port_netns_path (start_msg : SRxStartCaptureMsg) :
    (infer_port start_msg).netns_path = start_msg.netns_path := by
  unfold infer_port
  split
  · dsimp only
    split <;> rfl
  · rfl

/-- Apart from the processes, the spec goes by their namespace only. -/
theorem capture_spec_congr {start_msg : SRxStartCaptureMsg} {config : CaptureConfigSnapshot}
    (h : first_namespace start_msg matched' = first_namespace start_msg matched) :
    capture_spec_of start_msg matched' config = capture_spec_of start_msg matched config := by
  rw [first_namespace, first_namespace] at h
  rw [capture_spec_of, capture_spec_of, h]

/-- Where the namespace is theirs in common, all of a set of processes have it. -/
theorem first_namespace_congr {start_msg : SRxStartCaptureMsg} (h : SameSet matched matched')
    (hshared : start_msg.netns_path = [] → ∀ p ∈ matched, ∀ q ∈ matched,
      p.netns_path = q.netns_path) :
    first_namespace start_msg matched' = first_namespace start_msg matched := by
  rw [first_namespace, first_namespace]
  by_cases hnamed : start_msg.netns_path = []
  · cases matched' with
    | nil =>
      have hnil : matched = [] := List.eq_nil_iff_forall_not_mem.mpr fun p hp =>
        List.not_mem_nil ((h p).mpr hp)
      rw [hnil]
    | cons q matched' =>
      have hq : q ∈ matched := (h q).mp List.mem_cons_self
      cases matched with
      | nil => exact absurd hq List.not_mem_nil
      | cons p matched =>
        have hsame : q.netns_path = p.netns_path := hshared hnamed q hq p List.mem_cons_self
        show non_empty_or _ q.netns_path = non_empty_or _ p.netns_path
        rw [hsame]
  · rw [non_empty_or, non_empty_or, if_neg hnamed, if_neg hnamed]

/-! ## The request -/

/-- The five things that a capture is told apart by. -/
structure CaptureIdentity where
  filter : CStr
  port_filter : ℤ
  key : CStr
  netns_path : CStr
  signature : CStr
  deriving DecidableEq, Repr

def StartRequest.identity (request : StartRequest) : CaptureIdentity where
  filter := request.spec.filter
  port_filter := request.spec.port_filter
  key := request.key
  netns_path := request.spec.netns_path
  signature := request.signature

/-- What the rest of `prepare_start` makes of the processes. -/
def request_for (world : RequestWorld) (start_msg : SRxStartCaptureMsg)
    (matched : List SProcessInfo) : StartRequest :=
  let keyed := infer_port (auto_filter matched start_msg)
  let start_msg := with_defaults world keyed
  let config := config_for world start_msg
  let spec := capture_spec_of start_msg matched config
  let signature := hex16 (fnv (build_capture_signature spec config matched))
  { start_msg, key := generate_task_key keyed, signature, sid := signature ++ world.timestamp, spec,
    config }

theorem prepare_start_eq (world : RequestWorld) (start_msg : SRxStartCaptureMsg) :
    prepare_start world start_msg
      = (resolve_target_processes world start_msg).map (request_for world start_msg) := by
  rw [prepare_start]
  cases resolve_target_processes world start_msg <;> rfl

theorem request_for_netns_path (world : RequestWorld) (start_msg : SRxStartCaptureMsg)
    (matched : List SProcessInfo) :
    (request_for world start_msg matched).spec.netns_path = first_namespace start_msg matched := by
  have hkept : (with_defaults world (infer_port (auto_filter matched start_msg))).netns_path
      = start_msg.netns_path :=
    (infer_port_netns_path _).trans (auto_filter_netns_path matched start_msg)
  rw [first_namespace, ← hkept]
  rfl

theorem request_for_congr (world : RequestWorld) {start_msg : SRxStartCaptureMsg}
    (h : SameSet matched matched')
    (hfirst : first_namespace start_msg matched' = first_namespace start_msg matched) :
    request_for world start_msg matched' = request_for world start_msg matched := by
  rw [request_for, request_for, auto_filter_congr h]
  generalize hkeyed : infer_port (auto_filter matched start_msg) = keyed
  have hkept : (with_defaults world keyed).netns_path = start_msg.netns_path := by
    rw [← hkeyed]
    exact (infer_port_netns_path _).trans (auto_filter_netns_path matched start_msg)
  have hnamespace : first_namespace (with_defaults world keyed) matched'
      = first_namespace (with_defaults world keyed) matched := by
    rw [first_namespace, first_namespace, hkept]
    exact hfirst
  rw [capture_spec_congr hnamespace, signature_congr h]

/-! ## Two listings -/

/-- The same world but for the order in which processes are listed, and how
often. -/
structure Relisted (world world' : RequestWorld) : Prop where
  processes (name : CStr) : SameSet (world.find_processes name) (world'.find_processes name)
  others : world' = { world with find_processes := world'.find_processes }

/-- The request names a namespace, or it is not about the processes of a name,
or they share one. -/
def OneNamespace (world : RequestWorld) (start_msg : SRxStartCaptureMsg) : Prop :=
  start_msg.capture_mode = .PROCESS → start_msg.netns_path = [] →
    ∀ p ∈ world.find_processes start_msg.proc_name, ∀ q ∈ world.find_processes start_msg.proc_name,
      p.netns_path = q.netns_path

theorem request_for_relisted {world world' : RequestWorld} (h : Relisted world world')
    (start_msg : SRxStartCaptureMsg) :
    request_for world' start_msg = request_for world start_msg := by
  rw [h.others]
  rfl

/-- In another order the whole request is the same, if there is one namespace. -/
theorem prepare_start_relisted {world world' : RequestWorld} {start_msg : SRxStartCaptureMsg}
    (h : Relisted world world') (hone : OneNamespace world start_msg) :
    prepare_start world' start_msg = prepare_start world start_msg := by
  rw [prepare_start_eq, prepare_start_eq, request_for_relisted h]
  cases hmode : start_msg.capture_mode
  case PROCESS =>
    have hsame := h.processes start_msg.proc_name
    have hempty : world'.find_processes start_msg.proc_name = [] ↔
        world.find_processes start_msg.proc_name = [] := by
      rw [List.eq_nil_iff_forall_not_mem, List.eq_nil_iff_forall_not_mem]
      exact forall_congr' fun p => not_congr (hsame p)
    simp only [resolve_target_processes, hmode]
    by_cases hnone : world.find_processes start_msg.proc_name = []
    · rw [if_pos (hempty.mpr hnone), if_pos hnone]
    · rw [if_neg (mt hempty.mp hnone), if_neg hnone, Option.map_some, Option.map_some,
        request_for_congr world hsame (first_namespace_congr hsame (hone hmode))]
  case PID =>
    have hinfo : world'.process_info = world.process_info := by rw [h.others]
    simp only [resolve_target_processes, hmode, hinfo]
  all_goals simp only [resolve_target_processes, hmode]

/-- The world in which a process is listed once more, in front. -/
def RequestWorld.listing (world : RequestWorld) (q : SProcessInfo) (proc_name : CStr) :
    RequestWorld :=
  { world with
    find_processes := fun name =>
      if name = proc_name then q :: world.find_processes name else world.find_processes name }

theorem listing_relisted {world : RequestWorld} {q : SProcessInfo} {proc_name : CStr}
    (hq : q ∈ world.find_processes proc_name) : Relisted world (world.listing q proc_name) where
  processes name p := by
    show p ∈ (if name = proc_name then q :: world.find_processes name
      else world.find_processes name) ↔ _
    split
    · rename_i hname
      subst hname
      rw [List.mem_cons, or_iff_right_of_imp fun hp => hp ▸ hq]
    · rfl
  others := rfl

/-- **The identity of a capture is that of the set of its processes exactly
when there is one namespace**: only then every order of the processes, with
whatever repetitions, gives the filter, the port, the key, the namespace and the
signature. -/
theorem identity_relisted_iff (world : RequestWorld) (start_msg : SRxStartCaptureMsg) :
    (∀ world', Relisted world world' →
      (prepare_start world' start_msg).map StartRequest.identity
        = (prepare_start world start_msg).map StartRequest.identity) ↔
      OneNamespace world start_msg := by
  constructor
  · intro hsame hmode hnamed
    -- each process can come first
    have hfirst (q : SProcessInfo) (hq : q ∈ world.find_processes start_msg.proc_name) :
        some q.netns_path
          = (prepare_start world start_msg).map fun request => request.identity.netns_path := by
      have hrelisted := listing_relisted hq
      have hrun := congrArg (Option.map CaptureIdentity.netns_path) (hsame _ hrelisted)
      rw [Option.map_map, Option.map_map] at hrun
      refine Eq.trans ?_ hrun
      have hresolve : resolve_target_processes (world.listing q start_msg.proc_name) start_msg
          = some (q :: world.find_processes start_msg.proc_name) := by
        simp [resolve_target_processes, hmode, RequestWorld.listing]
      rw [prepare_start_eq, hresolve, Option.map_some, Option.map_some]
      refine congrArg some (Eq.symm ?_)
      refine (request_for_netns_path _ _ _).trans ?_
      rw [first_namespace, hnamed]
      rfl
    intro p hp q hq
    exact Option.some.inj ((hfirst p hp).trans (hfirst q hq).symm)
  · intro hone world' h
    rw [prepare_start_relisted h hone]

/-- A web server of two processes, each in a namespace of its own. -/
def nginx (order : List (ℤ × String)) : RequestWorld where
  find_processes _ := order.map fun p =>
    { pid := p.1, listening_ports := [80], netns_path := p.2.toList }

/-- Their order decides on the namespace and the signature. -/
theorem two_namespaces :
    let start_msg : SRxStartCaptureMsg := { capture_mode := .PROCESS, proc_name := "nginx".toList }
    let world := nginx [(7, "net:[1]"), (9, "net:[2]")]
    let world' := nginx [(9, "net:[2]"), (7, "net:[1]")]
    Relisted world world' ∧
      (prepare_start world' start_msg).map (·.identity.netns_path)
        ≠ (prepare_start world start_msg).map (·.identity.netns_path) ∧
      (prepare_start world' start_msg).map (·.identity.signature)
        ≠ (prepare_start world start_msg).map (·.identity.signature) := by
  refine ⟨⟨fun name p => ?_, rfl⟩, by decide +kernel, by decide +kernel⟩
  simp [nginx, or_comm]

end RxNetCap.Capture
