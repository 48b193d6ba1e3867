/-
Where a byte order that is written back comes from.

The path of the PDEF file travels with the raw file and back with the byte
order that the packets settled, beside the inline text, which `handle_raw_file`
prefers. `Sourced O` says that every byte order on its way, noted or written
back is one that `O` allows for its file; every step keeps it as long as the
filter threads report nothing else (`Step.sourced`). They report another one
when a path comes with an inline text, or is longer than the buffer of the
report (`Attributed`).
-/
import RxNetCap.Capture.Writeback

set_option autoImplicit false

namespace RxNetCap.Capture

open RxNetCap.Mailbox RxNetCap.Tally RxNetCap.Pdef RxNetCap.Runtime

/-! ## Detection -/

/-- The packets of the raw file settle the byte order of a protocol in
automatic mode. -/
def Settles (pdef : ProtocolDef) (world : FilterWorld) (d : EndianType) : Prop :=
  ∃ packets kept pdef', world.raw_pcap = some packets ∧
    filter_packets packets pdef = some (kept, pdef') ∧
    pdef'.endian_mode = .AUTO ∧ pdef'.detected_endian = d ∧ d ≠ .UNKNOWN

/-- A filter thread has parsed the file and settled its byte order with the
packets of a capture. The file that is opened is named by the characters before
a NUL. -/
structure Detects (pdef_path : CStr) (d : EndianType) (event : Event) : Prop where
  parsed : ∃ thread sender raw_msg world pdef,
    event = .filter thread sender (.raw_file raw_msg) world ∧
    raw_msg.pdef_inline_content = [] ∧ c_str raw_msg.pdef_file_path = pdef_path ∧
    pdef_parse_file raw_msg.pdef_file_path world.pdef_file = .accepted pdef ∧ Settles pdef world d

/-- The condition on an event: when the byte order of a protocol is settled and
a path came with the raw file, the protocol is that of the file, and the path
fits the report. -/
def Attributed : Event → Prop
  | .filter _ _ (.raw_file raw_msg) world =>
    ∀ pdef d, load_pdef raw_msg world = .accepted pdef → Settles pdef world d →
      raw_msg.pdef_file_path ≠ [] →
      raw_msg.pdef_inline_content = [] ∧ (c_str raw_msg.pdef_file_path).length ≤ 255
  | _ => True

/-! ## Sources -/

/-- Every byte order that waits to be written is one that `O` allows. -/
def Learned (O : CStr → EndianType → Prop) (usage : UsageMap) : Prop :=
  ∀ p info, usage.lookup p = some info → info.writeback_needed = true → O p info.detected_endian

/-- Every byte order on its way to the manager, noted in it or written back is
one that `O` allows for its file. -/
structure Sourced (O : CStr → EndianType → Prop) (s : System) : Prop where
  letters : ∀ route msg, (route, Msg.endian_detected msg) ∈ s.letters →
    msg.pdef_file_path ≠ [] → O msg.pdef_file_path msg.detected_endian
  learned : Learned O s.manager.pdef_usage_map
  written : ∀ w ∈ s.manager.writebacks, O w.pdef_path w.endian

section Sources

variable {O O' : CStr → EndianType → Prop} {usage : UsageMap} {p : CStr} {s s' : System}

theorem Sourced.mono (h : Sourced O s) (hO : ∀ p d, O p d → O' p d) : Sourced O' s where
  letters route msg hmem hpath := hO _ _ (h.letters route msg hmem hpath)
  learned p info hinfo hneeded := hO _ _ (h.learned p info hinfo hneeded)
  written w hmem := hO _ _ (h.written w hmem)

theorem Learned.insert (h : Learned O usage) {info : PDEFUsageInfo}
    (hinfo : info.writeback_needed = true → O p info.detected_endian) :
    Learned O (usage.insert p info) := by
  intro q other hother hneeded
  by_cases hq : q = p
  · subst hq
    rw [AList.lookup_insert] at hother
    obtain rfl := Option.some.inj hother
    exact hinfo hneeded
  · rw [AList.lookup_insert_ne hq] at hother
    exact h q other hother hneeded

theorem Learned.getD (h : Learned O usage) (p : CStr)
    (hneeded : ((usage.lookup p).getD {}).writeback_needed = true) :
    O p ((usage.lookup p).getD {}).detected_endian := by
  cases hinfo : usage.lookup p with
  | none =>
    rw [hinfo] at hneeded
    cases hneeded
  | some info =>
    rw [hinfo] at hneeded
    exact h p info hinfo hneeded

theorem Learned.start (h : Learned O usage) (capture_id : ℤ) (p : CStr) :
    Learned O (track_pdef_usage_start capture_id p usage) := by
  unfold track_pdef_usage_start
  split
  · exact h
  · exact h.insert fun hneeded => h.getD p hneeded

theorem Learned.leave (h : Learned O usage) (capture_id : ℤ) (p : CStr) :
    Learned O (track_pdef_usage_end capture_id p usage) := by
  unfold track_pdef_usage_end
  split
  · exact h
  · split
    · exact h
    · next info hinfo => exact h.insert fun hneeded => h p info hinfo hneeded

theorem Learned.mark (h : Learned O usage) (p : CStr) : Learned O (mark_written p usage) := by
  unfold mark_written
  split
  · exact h
  · next info hinfo => exact h.insert fun hneeded => h p info hinfo hneeded

theorem Learned.learn (h : Learned O usage) {d : EndianType} (hd : O p d) :
    Learned O (usage.insert p (learn_usage_endian d ((usage.lookup p).getD {}))) := by
  apply h.insert
  unfold learn_usage_endian
  split
  · exact fun _ => hd
  · exact fun hneeded => h.getD p hneeded

/-- What the manager notes and has written back. -/
structure Files (O : CStr → EndianType → Prop) (m : Manager) : Prop where
  learned : Learned O m.pdef_usage_map
  written : ∀ w ∈ m.writebacks, O w.pdef_path w.endian

theorem Sourced.files (h : Sourced O s) : Files O s.manager := ⟨h.learned, h.written⟩

/-- What is written back was noted. -/
theorem Files.try_writeback {m : Manager} (h : Files O m) (pdef_path : CStr)
    (writeback_ok : Bool) : Files O (try_writeback_pdef_endian pdef_path writeback_ok m) := by
  unfold try_writeback_pdef_endian
  split
  · exact h
  · next d hdue =>
    obtain ⟨info, hinfo, hneeded, -, -, rfl⟩ := writeback_due_some _ _ hdue
    refine ⟨?_, fun w hmem => ?_⟩
    · dsimp only
      split
      · exact h.learned.mark pdef_path
      · exact h.learned
    · rcases List.mem_append.mp hmem with hmem | hmem
      · exact h.written w hmem
      · rw [List.mem_singleton.mp hmem]
        exact h.learned pdef_path info hinfo hneeded

/-- **One message.** The manager notes and writes back what it is told. -/
theorem manager_handle_files (cfg : Config) (msg : Msg) (world : ManagerWorld) {m : Manager}
    (h : Files O m) (htold : ∀ told, msg = .endian_detected told → told.pdef_file_path ≠ [] →
      O told.pdef_file_path told.detected_endian) :
    Files O (manager_handle_msg cfg msg world m).1 := by
  -- clearing a cooldown leaves the files alone
  have hcleared : ∀ (capture_id : ℤ) (task_mgr : CRxSafeTaskMgr) (status : ECaptureTaskStatus),
      Files O (clear_module_cooldown_for_capture capture_id
        ({ m with task_mgr }.notice capture_id status)) := by
    intro capture_id task_mgr status
    obtain ⟨last, hlast⟩ := clear_module_cooldown_eq capture_id
      ({ m with task_mgr }.notice capture_id status)
    rw [hlast]
    exact ⟨h.learned, h.written⟩
  cases msg with
  | started msg => exact ⟨h.learned, h.written⟩
  | file_ready msg =>
    simp only [manager_handle_msg, handle_capture_file_ready_v2]
    split
    · exact h
    · split
      · exact ⟨h.learned, h.written⟩
      · exact ⟨h.learned, h.written⟩
  | finished msg => exact hcleared _ _ _
  | failed msg => exact hcleared _ _ _
  | raw_file msg =>
    have hstart := h.learned.start msg.capture_id msg.pdef_file_path
    simp only [manager_handle_msg, handle_capture_raw_file_v2]
    split
    · exact ⟨hstart.leave _ _, h.written⟩
    · split
      · exact ⟨hstart, h.written⟩
      · exact ⟨hstart, h.written⟩
  | filtered_file msg =>
    simp only [manager_handle_msg, handle_capture_filtered_file_v2]
    split
    · exact hcleared _ _ _
    · obtain ⟨hlearned, hwritten⟩ := hcleared msg.capture_id
        ((m.task_mgr.append_capture_files msg.capture_id
          (filtered_files msg world)).2.set_capture_finished msg.capture_id world.now_usec
            msg.total_packets msg.file_size msg.filtered_pcap_path).2 .COMPLETED
      refine Files.try_writeback ?_ _ _
      exact ⟨hlearned.leave msg.capture_id msg.pdef_file_path, hwritten⟩
  | endian_detected msg =>
    simp only [manager_handle_msg, handle_pdef_endian_detected]
    split
    · exact h
    · next hpath =>
      split
      · exact ⟨h.learned.insert fun hneeded => h.learned.getD _ hneeded, h.written⟩
      · refine Files.try_writeback ?_ _ _
        exact ⟨h.learned.learn (htold msg rfl hpath), h.written⟩
  | file_enqueue msg => exact h

/-! ## Letters -/

/-- No byte order is reported. -/
def NoReport (sent : Mail) : Prop := ∀ letter ∈ sent, ∀ msg, letter.2 ≠ .endian_detected msg

theorem noReport_nil : NoReport [] := by
  intro letter hmem
  simp at hmem

theorem noReport_put {msg : Msg} (h : ∀ told, msg ≠ .endian_detected told) (threads : List ℕ)
    (sender target : ℕ) : NoReport (put_obj_msg threads sender target msg) := by
  intro letter hmem
  rw [mem_put_obj_msg hmem]
  exact h

/-- What a worker sends reports on its capture. -/
theorem noReport_of_reporting {c : ℤ} {sent : Mail} (h : Reporting c sent) : NoReport sent := by
  intro letter hmem msg hmsg
  have hcapture := h letter hmem
  rw [hmsg] at hcapture
  cases hcapture

theorem noReport_managed (cfg : Config) (msg : Msg) (world : ManagerWorld) (m : Manager) :
    NoReport (manager_handle_msg cfg msg world m).2 := by
  cases msg with
  | raw_file raw =>
    simp only [manager_handle_msg, handle_capture_raw_file_v2]
    split
    · exact noReport_nil
    · split
      · exact noReport_nil
      · exact noReport_put (fun _ => Msg.noConfusion) _ _ _
  | file_ready ready =>
    simp only [manager_handle_msg, handle_capture_file_ready_v2]
    split
    · exact noReport_nil
    · split
      · exact noReport_nil
      · exact noReport_put (fun _ => Msg.noConfusion) _ _ _
  | _ => exact noReport_nil

end Sources

/-! ## Steps -/

section Steps

variable {cfg : Config} {O : CStr → EndianType → Prop} {s s' : System} {event : Event}

/-- A filter thread reports the byte order of the file that it parsed, if the
condition on the event holds. -/
theorem filter_reports {threads : List ℕ} {thread sender : ℕ} {raw_msg : SRxCaptureRawFileMsgV2}
    {world : FilterWorld} {result : Filtering}
    (h : handle_raw_file threads thread raw_msg world = some result)
    (hattributed : Attributed (.filter thread sender (.raw_file raw_msg) world)) {route : Route}
    {told : SRxPdefEndianMsg} (hmem : (route, Msg.endian_detected told) ∈ result.sent) :
    Detects told.pdef_file_path told.detected_endian
      (.filter thread sender (.raw_file raw_msg) world) := by
  rcases handle_raw_file_sends h with hnone | ⟨pdef, packets, kept, pdef', hpdef, hraw, hfilter, hsent⟩
  · rw [hnone] at hmem
    simp at hmem
  · rw [hsent, send_filtered] at hmem
    rcases List.mem_append.mp hmem with hmem | hmem
    · cases (Prod.mk.inj (mem_put_obj_msg hmem)).2
    · split at hmem
      · next hreport =>
        obtain ⟨hauto, hdetected, hpath⟩ := hreport
        have hsettles : Settles pdef world pdef'.detected_endian :=
          ⟨packets, kept, pdef', hraw, hfilter, hauto, rfl, hdetected⟩
        obtain ⟨hinline, hshort⟩ := hattributed pdef _ hpdef hsettles hpath
        have htold := (Prod.mk.inj (mem_put_obj_msg hmem)).2
        obtain rfl := Msg.endian_detected.inj htold
        have hname : cstr 256 (c_str raw_msg.pdef_file_path) = c_str raw_msg.pdef_file_path :=
          List.take_of_length_le hshort
        rw [load_pdef, if_neg (not_not.mpr hinline), if_pos hpath] at hpdef
        exact ⟨thread, sender, raw_msg, world, pdef, rfl, hinline, hname.symm, hpdef, hsettles⟩
      · simp at hmem

/-- Letters that report nothing, behind what was left. -/
theorem Sourced.posted {m : Manager} {rest sent : Mail} (h : Sourced O s)
    (hrest : ∀ letter ∈ rest, letter ∈ s.letters) (hsent : NoReport sent) (hfiles : Files O m)
    (phase : ℤ → Phase) : Sourced O ⟨m, rest ++ sent, phase⟩ where
  letters route msg hmem hpath := by
    rcases List.mem_append.mp hmem with hmem | hmem
    · exact h.letters route msg (hrest _ hmem) hpath
    · exact absurd rfl (hsent _ hmem msg)
  learned := hfiles.learned
  written := hfiles.written

theorem Sourced.launched (h : Sourced O s) {outcome : Option Dispatch × Manager}
    (houtcome : Outcome cfg s.manager outcome) : Sourced O (s.launch cfg outcome) := by
  obtain ⟨husage, hwritebacks⟩ := launch_files houtcome
  refine ⟨?_, ?_, ?_⟩
  · rw [launch_letters]
    exact h.letters
  · rw [husage]
    exact h.learned
  · rw [hwritebacks]
    exact h.written

/-- **One step** adds no byte order from elsewhere, if what a filter thread
reports is allowed. -/
theorem Step.sourced (h : Step cfg s event s') (hsourced : Sourced O s)
    (hevent : Attributed event) (hO : ∀ p d, Detects p d event → O p d) : Sourced O s' := by
  have hall : ∀ letter ∈ s.letters, letter ∈ s.letters := fun _ hmem => hmem
  cases h with
  | start start_msg world =>
    exact hsourced.launched (handle_start_outcome cfg start_msg world s.manager)
  | alert alert world now =>
    exact hsourced.launched (handle_alert_outcome cfg alert world now s.manager)
  | tick => exact ⟨hsourced.letters, hsourced.learned, hsourced.written⟩
  | abort phase =>
    exact hsourced.posted hall (noReport_of_reporting (Reporting.worker rfl _ _ _))
      hsourced.files _
  | begin _ _ _ phase =>
    exact hsourced.posted hall (noReport_of_reporting (Reporting.worker rfl _ _ _))
      hsourced.files _
  | finish _ phase => exact hsourced.posted hall (noReport_of_reporting (Reporting.result _ _ _ _)) hsourced.files _
  | @manager sender msg rest world takes =>
    refine hsourced.posted (fun _ => takes.mem_of_rest) (noReport_managed cfg msg world s.manager)
      (manager_handle_files cfg msg world hsourced.files ?_) s.phase
    rintro told rfl hpath
    exact hsourced.letters _ told takes.mem hpath
  | @filter thread sender msg rest world result running takes handled =>
    refine ⟨?_, hsourced.learned, hsourced.written⟩
    intro route told hmem hpath
    rcases List.mem_append.mp hmem with hmem | hmem
    · exact hsourced.letters route told (takes.mem_of_rest hmem) hpath
    · rcases filter_handle_cases handled with hnone | ⟨raw, rfl, hraw⟩
      · rw [hnone] at hmem
        simp at hmem
      · exact hO _ _ (filter_reports hraw hevent hmem)

end Steps

/-! ## Every run -/

/-- Some step of the run parsed the file and settled its byte order. -/
def DetectedIn (history : List Entry) (pdef_path : CStr) (d : EndianType) : Prop :=
  ∃ entry ∈ history, Detects pdef_path d entry.event

/-- **A byte order that is written back was detected with the file** in every
run in which, whenever packets settle the byte order of a protocol and a path
came with the raw file, the protocol is that of the file. -/
theorem writeback_origin {cfg : Config} {history : List Entry} {s : System}
    (h : Run cfg history s) (hattributed : ∀ entry ∈ history, Attributed entry.event) :
    ∀ w ∈ s.manager.writebacks, DetectedIn history w.pdef_path w.endian := by
  have hsourced : Sourced (DetectedIn history) s := by
    induction h with
    | start =>
      refine ⟨fun _ _ hmem => ?_, fun _ _ hinfo => ?_, fun _ hmem => ?_⟩
      · simp at hmem
      · cases hinfo
      · simp at hmem
    | @step history s s' event run step ih =>
      have hbefore := ih fun entry hmem => hattributed entry (List.mem_append_left _ hmem)
      have hlast : (⟨s, event, s'⟩ : Entry) ∈ history ++ [⟨s, event, s'⟩] :=
        List.mem_append_right _ (by simp)
      refine step.sourced (hbefore.mono ?_) (hattributed _ hlast) fun p d hdetects =>
        ⟨_, hlast, hdetects⟩
      rintro p d ⟨entry, hmem, hdetects⟩
      exact ⟨entry, List.mem_append_left _ hmem, hdetects⟩
  exact hsourced.written

/-- A raw file that comes to a filter thread has no inline text, and its path
fits the report. -/
def Event.plain : Event → Bool
  | .filter _ _ (.raw_file raw_msg) _ =>
    raw_msg.pdef_inline_content = [] ∧ (c_str raw_msg.pdef_file_path).length ≤ 255
  | _ => true

theorem attributed_of_plain {event : Event} (h : event.plain = true) : Attributed event := by
  unfold Attributed
  split
  · intro pdef d _ _ _
    exact of_decide_eq_true h
  · trivial

/-- A raw file that comes to a filter thread has an inline text. -/
def Event.inlined : Event → Bool
  | .filter _ _ (.raw_file raw_msg) _ => raw_msg.pdef_inline_content ≠ []
  | _ => true

theorem not_detects_of_inlined {event : Event} (h : event.inlined = true) (p : CStr)
    (d : EndianType) : ¬ Detects p d event := by
  rintro ⟨thread, sender, raw_msg, world, pdef, rfl, hinline, -⟩
  exact of_decide_eq_true h hinline

set_option maxRecDepth 100000 in
/-- A capture with the file alone. -/
theorem writeback_origin_game : ∃ history s, Run one_of_each history s ∧
    (∀ entry ∈ history, Attributed entry.event) ∧
    s.manager.writebacks = [⟨"game.pdef".toList, .BIG, true⟩] ∧
    ∀ w ∈ s.manager.writebacks, DetectedIn history w.pdef_path w.endian := by
  have hreached : ∃ history s, Run one_of_each history s ∧
      (history.all fun entry => entry.event.plain) = true ∧
      s.manager.writebacks = [⟨"game.pdef".toList, .BIG, true⟩] :=
    run_of_replay one_of_each
      (filtered_capture game_request ⟨some auto_pdef, some [udp_packet], true, 0⟩
        ++ [.manager 3 {}, .manager 3 { writeback_ok := true }]) (by decide +kernel)
  obtain ⟨history, s, hrun, hplain, hwritebacks⟩ := hreached
  have hattributed : ∀ entry ∈ history, Attributed entry.event := fun entry hmem =>
    attributed_of_plain (List.all_eq_true.mp hplain entry hmem)
  exact ⟨history, s, hrun, hattributed, hwritebacks, writeback_origin hrun hattributed⟩

set_option maxRecDepth 100000 in
/-- With an inline text beside the path, the byte order of the text is written
to the file, which no filter thread has parsed. -/
theorem inline_order_written_to_file : ∃ history s, Run one_of_each history s ∧
    s.manager.writebacks = [⟨"game.pdef".toList, .BIG, true⟩] ∧
    ¬ DetectedIn history "game.pdef".toList .BIG := by
  have hreached : ∃ history s, Run one_of_each history s ∧
      (history.all fun entry => entry.event.inlined) = true ∧
      s.manager.writebacks = [⟨"game.pdef".toList, .BIG, true⟩] :=
    run_of_replay one_of_each
      (filtered_capture { game_request with protocol_filter_inline := auto_pdef }
          ⟨none, some [udp_packet], true, 0⟩
        ++ [.manager 3 {}, .manager 3 { writeback_ok := true }]) (by decide +kernel)
  obtain ⟨history, s, hrun, hinlined, hwritebacks⟩ := hreached
  refine ⟨history, s, hrun, hwritebacks, ?_⟩
  rintro ⟨entry, hmem, hdetects⟩
  exact not_detects_of_inlined (List.all_eq_true.mp hinlined entry hmem) _ _ hdetects

end RxNetCap.Capture
