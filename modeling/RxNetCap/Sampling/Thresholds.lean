/-
The thresholds of the sample thread: `load_config`, `sample_and_check` and
`emit_alert` of `src/rxsamplethread.cpp`.

The thread keeps nothing from one sample to the next, and the counters of the
system count from its start. So a decision is about the whole time since then, and
in one case about the time since the previous sample as well: when the counters are
on the same side of the threshold as their growth is (`decides_current_iff`).
-/
import RxNetCap.Config.Strategy
import RxNetCap.Sampling.Readings

set_option autoImplicit false

namespace RxNetCap.Sampling

open RxNetCap.Pdef RxNetCap.Capture RxNetCap.Config RxNetCap.Rounding

/-! ## Alerts -/

/-- What the manager is sent. -/
structure SRxSampleMsg where
  stats : SRxSystemStats := {}
  cpu_hit : Bool := false
  mem_hit : Bool := false
  net_hit : Bool := false
  module_name : CStr := []
  capture_hint : CStr := []
  capture_category : CStr := []
  capture_duration_sec : ℤ := 0
  cooldown_sec : ℤ := 0
  cpu_threshold : ℤ := 0
  mem_threshold : ℤ := 0
  net_threshold : ℤ := 0
  deriving DecidableEq

/-- The thread, with what it has loaded. -/
structure CRxSampleThread where
  thr : SRxThresholds := {}
  modules : List CRxSampleModule := []

def CRxSampleThread.load_config (thread : CRxSampleThread) (cfg : Option Strategy) : CRxSampleThread :=
  match cfg with
  | some cfg => { thr := cfg.thresholds, modules := cfg.sample_modules }
  | none => { thread with modules := [] }

/-- Which of three thresholds are exceeded. -/
structure Hits where
  cpu_hit : Bool
  mem_hit : Bool
  net_hit : Bool
  deriving DecidableEq

/-- `threshold > 0 && value > threshold` -/
def exceeds (threshold : ℤ) (value : ℚ) : Bool := threshold > 0 ∧ value > threshold

def hits (thr : SRxThresholds) (s : SRxSystemStats) : Hits where
  cpu_hit := exceeds thr.cpu_pct_gt s.cpu_percent
  mem_hit := exceeds thr.mem_pct_gt s.memory_percent
  net_hit := exceeds thr.net_rx_kbps_gt s.network_rx_kbps

def Hits.any (h : Hits) : Bool := h.cpu_hit || h.mem_hit || h.net_hit

/-- An alert, if anything is exceeded. -/
def alert_if (emit_alert : Hits → SRxSampleMsg) (h : Hits) : Option SRxSampleMsg :=
  if h.any then some (emit_alert h) else none

/-- The thresholds of a module. -/
def thresholds_of (module : CRxSampleModule) : SRxThresholds where
  cpu_pct_gt := module.cpu_pct_gt
  mem_pct_gt := module.mem_pct_gt
  net_rx_kbps_gt := module.net_rx_kbps_gt

/-- `emit_alert` for a module. -/
def module_alert (stats : SRxSystemStats) (module : CRxSampleModule) (h : Hits) : SRxSampleMsg where
  stats := stats
  cpu_hit := h.cpu_hit
  mem_hit := h.mem_hit
  net_hit := h.net_hit
  module_name := module.name
  capture_hint := module.capture_hint
  capture_category := module.capture_category
  capture_duration_sec := module.capture_duration_sec
  cooldown_sec := module.cooldown_sec
  cpu_threshold := module.cpu_pct_gt
  mem_threshold := module.mem_pct_gt
  net_threshold := module.net_rx_kbps_gt

/-- `emit_alert` without a module. -/
def default_alert (cfg : Option Strategy) (stats : SRxSystemStats) (thr : SRxThresholds) (h : Hits) :
    SRxSampleMsg where
  stats := stats
  cpu_hit := h.cpu_hit
  mem_hit := h.mem_hit
  net_hit := h.net_hit
  module_name := "default".toList
  cpu_threshold := thr.cpu_pct_gt
  mem_threshold := thr.mem_pct_gt
  net_threshold := thr.net_rx_kbps_gt
  capture_duration_sec := (cfg.map fun cfg => cfg.defaults.duration_sec).getD 0
  capture_category := (cfg.map fun cfg => cfg.defaults.category).getD []

/-- What `sample_and_check` does with the statistics: the alerts. -/
def check (thread : CRxSampleThread) (cfg : Option Strategy) (s : SRxSystemStats) : List SRxSampleMsg :=
  if thread.modules ≠ [] then
    thread.modules.filterMap fun module => alert_if (module_alert s module) (hits (thresholds_of module) s)
  else (alert_if (default_alert cfg s thread.thr) (hits thread.thr s)).toList

def sample_and_check (thread : CRxSampleThread) (cfg : Option Strategy) (files : SystemFiles) :
    List SRxSampleMsg :=
  check thread cfg (sample_system_stats files)

/-- What is decided with an alert: all of it but the statistics that go with it. -/
def SRxSampleMsg.decision (msg : SRxSampleMsg) : SRxSampleMsg := { msg with stats := {} }

/-! ## The current load -/

/-- The devices but the loopback device. -/
def outside (devices : List NetDevice) : List NetDevice :=
  devices.filter fun device => device.name ≠ "lo".toList

/-- The load since the previous reading, in exact arithmetic. -/
def current_load (prev cur : Reading) : SRxSystemStats where
  cpu_percent := 100 * ((cur.times.busy - prev.times.busy : ℚ) / (cur.times.total - prev.times.total))
  memory_percent := (sample_system_stats cur.files).memory_percent
  network_rx_kbps :=
    (received (outside cur.devices) - received (outside prev.devices) : ℚ) / 1024 / SAMPLE_INTERVAL_SEC
  network_tx_kbps := (sample_system_stats cur.files).network_tx_kbps
  timestamp := cur.now

/-- The counters do not decrease. -/
structure Grows (prev cur : Reading) : Prop where
  user : prev.times.user ≤ cur.times.user
  nice : prev.times.nice ≤ cur.times.nice
  system : prev.times.system ≤ cur.times.system
  idle : prev.times.idle ≤ cur.times.idle
  devices : ∀ device ∈ prev.devices, ∀ device' ∈ cur.devices, device.name = device'.name →
    device.rx_bytes ≤ device'.rx_bytes

/-- The thresholds in use. -/
def CRxSampleThread.thresholds (thread : CRxSampleThread) : List SRxThresholds :=
  if thread.modules ≠ [] then thread.modules.map thresholds_of else [thread.thr]

/-- The counters since the start are on the same side of the thresholds as their
growth since the previous reading. -/
structure SameSide (prev cur : Reading) (thr : SRxThresholds) : Prop where
  cpu : 0 < thr.cpu_pct_gt →
    (percent (cur.times.busy % 2 ^ 64) (cur.times.total % 2 ^ 64) > thr.cpu_pct_gt ↔
      100 * (cur.times.busy - prev.times.busy : ℤ)
        > thr.cpu_pct_gt * (cur.times.total - prev.times.total : ℤ))
  net : 0 < thr.net_rx_kbps_gt →
    ((received cur.devices % 2 ^ 64 : ℕ) > 15360 * thr.net_rx_kbps_gt ↔
      (received (outside cur.devices) - received (outside prev.devices) : ℤ) > 15360 * thr.net_rx_kbps_gt)

/-! ## Decisions -/

theorem exceeds_eq_iff {threshold : ℤ} {value value' : ℚ} :
    exceeds threshold value = exceeds threshold value'
      ↔ (0 < threshold → (value > threshold ↔ value' > threshold)) := by
  unfold exceeds
  rw [decide_eq_decide]
  exact and_congr_right_iff

/-- With the same memory, the other two values matter. -/
theorem hits_eq_iff {thr : SRxThresholds} {s s' : SRxSystemStats}
    (hmem : s.memory_percent = s'.memory_percent) :
    hits thr s = hits thr s' ↔
      (0 < thr.cpu_pct_gt → (s.cpu_percent > thr.cpu_pct_gt ↔ s'.cpu_percent > thr.cpu_pct_gt)) ∧
        (0 < thr.net_rx_kbps_gt →
          (s.network_rx_kbps > thr.net_rx_kbps_gt ↔ s'.network_rx_kbps > thr.net_rx_kbps_gt)) := by
  rw [← exceeds_eq_iff, ← exceeds_eq_iff, hits, hits, hmem, Hits.mk.injEq]
  exact ⟨fun h => ⟨h.1, h.2.2⟩, fun h => ⟨h.1, rfl, h.2⟩⟩

/-- The module that an alert was sent for. -/
def alert_module (msg : SRxSampleMsg) : CRxSampleModule where
  name := msg.module_name
  cpu_pct_gt := msg.cpu_threshold
  mem_pct_gt := msg.mem_threshold
  net_rx_kbps_gt := msg.net_threshold
  capture_hint := msg.capture_hint
  capture_duration_sec := msg.capture_duration_sec
  cooldown_sec := msg.cooldown_sec
  capture_category := msg.capture_category

/-- Two lists of results are the same only if each element has the same result,
where a result tells which element it is of. -/
theorem filterMap_eq_iff {α β : Type} {l : List α} {f g : α → Option β} {key : β → α}
    (hf : ∀ a b, f a = some b → key b = a) (hg : ∀ a b, g a = some b → key b = a) :
    l.filterMap f = l.filterMap g ↔ ∀ a ∈ l, f a = g a := by
  constructor
  · intro h a ha
    have htransfer : ∀ {f g : α → Option β}, (∀ a b, f a = some b → key b = a) →
        (∀ a b, g a = some b → key b = a) → l.filterMap f = l.filterMap g →
        ∀ b, f a = some b → g a = some b := by
      intro f g hf hg h b hb
      have hmem : b ∈ l.filterMap g := h ▸ List.mem_filterMap.mpr ⟨a, ha, hb⟩
      obtain ⟨a', -, hb'⟩ := List.mem_filterMap.mp hmem
      rwa [← hg a' b hb', hf a b hb] at hb'
    cases hfa : f a with
    | some b => exact (htransfer hf hg h b hfa).symm
    | none =>
      cases hga : g a with
      | none => rfl
      | some b =>
        rw [htransfer hg hf h.symm b hga] at hfa
        cases hfa
  · intro h
    exact List.filterMap_congr h

theorem alert_if_eq_iff {emit_alert : Hits → SRxSampleMsg}
    (hemit : ∀ h h', emit_alert h = emit_alert h' → h = h') {h h' : Hits} :
    alert_if emit_alert h = alert_if emit_alert h' ↔ h = h' := by
  refine ⟨fun heq => ?_, fun heq => by rw [heq]⟩
  have hnone : ∀ h : Hits, ¬ h.any = true → h = ⟨false, false, false⟩ := by
    rintro ⟨cpu_hit, mem_hit, net_hit⟩ hany
    simp only [Hits.any, Bool.or_eq_true, not_or, Bool.not_eq_true] at hany
    rw [hany.1.1, hany.1.2, hany.2]
  unfold alert_if at heq
  split_ifs at heq with hany hany'
  · exact hemit h h' (Option.some.inj heq)
  · rw [hnone h hany, hnone h' ‹_›]

theorem module_alert_inj (module : CRxSampleModule) (h h' : Hits)
    (heq : module_alert {} module h = module_alert {} module h') : h = h' := by
  obtain ⟨cpu_hit, mem_hit, net_hit⟩ := h
  obtain ⟨cpu_hit', mem_hit', net_hit'⟩ := h'
  cases heq
  rfl

theorem default_alert_inj (cfg : Option Strategy) (thr : SRxThresholds) (h h' : Hits)
    (heq : default_alert cfg {} thr h = default_alert cfg {} thr h') : h = h' := by
  obtain ⟨cpu_hit, mem_hit, net_hit⟩ := h
  obtain ⟨cpu_hit', mem_hit', net_hit'⟩ := h'
  simp only [default_alert, SRxSampleMsg.mk.injEq] at heq
  rw [heq.2.1, heq.2.2.1, heq.2.2.2.1]

/-- An alert tells which module it is of. -/
theorem alert_module_eq {module : CRxSampleModule} {h : Hits} {msg : SRxSampleMsg}
    (hmsg : alert_if (module_alert {} module) h = some msg) : alert_module msg = module := by
  obtain ⟨-, heq⟩ := Option.ite_none_right_eq_some.mp hmsg
  cases heq
  rfl

theorem module_decisions (modules : List CRxSampleModule) (s : SRxSystemStats) :
    (modules.filterMap fun module =>
      alert_if (module_alert s module) (hits (thresholds_of module) s)).map SRxSampleMsg.decision
      = modules.filterMap fun module =>
        alert_if (module_alert {} module) (hits (thresholds_of module) s) := by
  rw [List.map_filterMap]
  refine List.filterMap_congr fun module _ => ?_
  unfold alert_if
  split_ifs <;> rfl

theorem default_decision (cfg : Option Strategy) (thr : SRxThresholds) (s : SRxSystemStats) :
    (alert_if (default_alert cfg s thr) (hits thr s)).toList.map SRxSampleMsg.decision
      = (alert_if (default_alert cfg {} thr) (hits thr s)).toList := by
  unfold alert_if
  split_ifs <;> rfl

/-- **Decisions are the same** when the same thresholds are exceeded. -/
theorem decisions_eq_iff (thread : CRxSampleThread) (cfg : Option Strategy) (s s' : SRxSystemStats) :
    (check thread cfg s).map SRxSampleMsg.decision = (check thread cfg s').map SRxSampleMsg.decision
      ↔ ∀ thr ∈ thread.thresholds, hits thr s = hits thr s' := by
  unfold check CRxSampleThread.thresholds
  by_cases hnone : thread.modules ≠ []
  · rw [if_pos hnone, if_pos hnone, if_pos hnone, module_decisions, module_decisions,
      filterMap_eq_iff (fun _ _ => alert_module_eq) (fun _ _ => alert_module_eq)]
    simp only [alert_if_eq_iff (module_alert_inj _), List.forall_mem_map]
  · rw [if_neg hnone, if_neg hnone, if_neg hnone, default_decision, default_decision,
      List.forall_mem_singleton, ← alert_if_eq_iff (default_alert_inj cfg thread.thr)]
    constructor
    · intro h
      have hhead := congrArg List.head? h
      rwa [Option.head?_toList, Option.head?_toList] at hhead
    · exact fun h => congrArg Option.toList h

/-! ## Numbers -/

/-- **The rate is compared as it is**: an `int` has so few bits that the rounding
never takes a rate to the other side of it. -/
theorem rate_gt_iff {threshold : ℤ} (hpos : 0 < threshold) (hint : threshold < 2 ^ 31) (bytes : ℕ) :
    rate bytes > threshold ↔ (bytes : ℤ) > 15360 * threshold := by
  obtain ⟨t, rfl⟩ := Int.eq_ofNat_of_zero_le hpos.le
  have ht : t < 2 ^ 31 := by exact_mod_cast hint
  have hbits : 0 < 53 := by decide
  have hinterval : ((SAMPLE_INTERVAL_SEC : ℕ) : ℚ) = 15 := rfl
  simp only [gt_iff_lt, Int.cast_natCast]
  unfold rate double
  rw [hinterval]
  constructor
  · intro h
    by_contra hle
    have hbytes : (bytes : ℚ) ≤ ((15360 * t : ℕ) : ℚ) := by
      have hnat : bytes ≤ 15360 * t := by omega
      exact_mod_cast hnat
    have hfirst : nearest 53 bytes ≤ ((15360 * t : ℕ) : ℚ) :=
      nearest_le hbits (fits_nat (by omega)) hbytes
    have hsecond : nearest 53 (nearest 53 bytes / 1024) ≤ ((15 * t : ℕ) : ℚ) := by
      refine nearest_le hbits (fits_nat (by omega)) ?_
      rw [div_le_iff₀ (by norm_num)]
      push_cast at hfirst ⊢
      linarith
    have hthird : nearest 53 (nearest 53 (nearest 53 bytes / 1024) / 15) ≤ (t : ℚ) := by
      refine nearest_le hbits (fits_nat (by omega)) ?_
      rw [div_le_iff₀ (by norm_num)]
      push_cast at hsecond ⊢
      linarith
    exact absurd h (not_lt.mpr hthird)
  · intro h
    have hbytes : ((15360 * t + 1 : ℕ) : ℚ) ≤ (bytes : ℚ) := by
      have hnat : 15360 * t + 1 ≤ bytes := by omega
      exact_mod_cast hnat
    have hfirst : ((15360 * t + 1 : ℕ) : ℚ) ≤ nearest 53 bytes :=
      le_nearest hbits (fits_nat (by omega)) hbytes
    have hsecond : ((15360 * t + 1 : ℕ) : ℚ) * 2 ^ (-10 : ℤ) ≤ nearest 53 (nearest 53 bytes / 1024) := by
      refine le_nearest hbits ⟨15360 * t + 1, -10, by omega, rfl⟩ ?_
      rw [le_div_iff₀ (by norm_num)]
      have hscale : (2 : ℚ) ^ (-10 : ℤ) = 1 / 1024 := by norm_num
      calc ((15360 * t + 1 : ℕ) : ℚ) * 2 ^ (-10 : ℤ) * 1024 = ((15360 * t + 1 : ℕ) : ℚ) := by
            rw [hscale]
            ring
        _ ≤ nearest 53 bytes := hfirst
    have hthird : ((2 ^ 14 * t + 1 : ℕ) : ℚ) * 2 ^ (-14 : ℤ)
        ≤ nearest 53 (nearest 53 (nearest 53 bytes / 1024) / 15) := by
      refine le_nearest hbits ⟨2 ^ 14 * t + 1, -14, by omega, rfl⟩ ?_
      rw [le_div_iff₀ (by norm_num)]
      refine le_trans ?_ hsecond
      push_cast
      norm_num
      linarith
    refine lt_of_lt_of_le ?_ hthird
    push_cast
    norm_num
    linarith

theorem percent_zero (part : ℕ) : percent part 0 = 0 := by
  have hzero : double 0 = 0 := nearest_zero le_rfl
  rw [percent, Nat.cast_zero, hzero, div_zero, hzero, zero_mul, hzero]

theorem reading_percent (times : CpuTimes) :
    cpu_percent times.text = percent (times.busy % 2 ^ 64) (times.total % 2 ^ 64) := by
  rw [cpu_percent_text]
  by_cases htotal : times.total % 2 ^ 64 > 0
  · rw [if_pos htotal]
  · rw [if_neg htotal, Nat.eq_zero_of_not_pos htotal, percent_zero]

theorem Grows.busy {prev cur : Reading} (h : Grows prev cur) : prev.times.busy ≤ cur.times.busy :=
  Nat.add_le_add (Nat.add_le_add h.user h.nice) h.system

/-- The exact percentage of a growth is compared without a division. -/
theorem growth_gt_iff {prev cur : Reading} (h : Grows prev cur) {threshold : ℤ} (hpos : 0 < threshold) :
    100 * ((cur.times.busy - prev.times.busy : ℚ) / (cur.times.total - prev.times.total)) > threshold ↔
      100 * (cur.times.busy - prev.times.busy : ℤ)
        > threshold * (cur.times.total - prev.times.total : ℤ) := by
  have hbusy := h.busy
  have hidle : prev.times.idle.val ≤ cur.times.idle.val := h.idle
  have htotal : ∀ times : CpuTimes, times.total = times.busy + times.idle.val := fun _ => rfl
  obtain ⟨busy, hbusy⟩ := Nat.exists_eq_add_of_le hbusy
  obtain ⟨idle, hidle⟩ := Nat.exists_eq_add_of_le hidle
  have hgrowth : (cur.times.busy - prev.times.busy : ℚ) = busy ∧
      (cur.times.total - prev.times.total : ℚ) = busy + idle := by
    rw [htotal, htotal, hbusy, hidle]
    push_cast
    constructor <;> ring
  have hgrowth' : (cur.times.busy - prev.times.busy : ℤ) = busy ∧
      (cur.times.total - prev.times.total : ℤ) = busy + idle := by
    rw [htotal, htotal, hbusy, hidle]
    push_cast
    constructor <;> ring
  rw [hgrowth.1, hgrowth.2, hgrowth'.1, hgrowth'.2]
  rcases Nat.eq_zero_or_pos (busy + idle) with hzero | hsome
  · -- the counters stand still
    obtain ⟨rfl, rfl⟩ := Nat.add_eq_zero_iff.mp hzero
    have hthreshold : ¬ (0 : ℚ) > threshold := not_lt.mpr (by exact_mod_cast hpos.le)
    simp [hpos.le]
  · have hsome' : (0 : ℚ) < (busy : ℚ) + idle := by exact_mod_cast hsome
    rw [gt_iff_lt, gt_iff_lt, ← mul_div_assoc, lt_div_iff₀ hsome']
    exact_mod_cast Iff.rfl

/-! ## Whole runs -/

/-- The thresholds are `int`s. -/
structure Ints (thr : SRxThresholds) : Prop where
  cpu : thr.cpu_pct_gt < 2 ^ 31
  mem : thr.mem_pct_gt < 2 ^ 31
  net : thr.net_rx_kbps_gt < 2 ^ 31

/-- Each reading but the first, with the one before it. -/
def successive (readings : List Reading) : List (Reading × Reading) := readings.zip readings.tail

/-- The exact rate of a growth is compared without a division, too. -/
theorem growth_rate_gt_iff (prev cur : Reading) (threshold : ℤ) :
    (current_load prev cur).network_rx_kbps > threshold ↔
      (received (outside cur.devices) - received (outside prev.devices) : ℤ) > 15360 * threshold := by
  have hload : (current_load prev cur).network_rx_kbps
      = (received (outside cur.devices) - received (outside prev.devices) : ℚ) / 1024 / SAMPLE_INTERVAL_SEC :=
    mk_network_rx_kbps _ _ _ _ _
  have hinterval : ((SAMPLE_INTERVAL_SEC : ℕ) : ℚ) = 15 := rfl
  have hscale : (threshold : ℚ) * 15 * 1024 = 15360 * threshold := by ring
  rw [hload, hinterval, gt_iff_lt, gt_iff_lt, lt_div_iff₀ (by norm_num), lt_div_iff₀ (by norm_num), hscale]
  exact_mod_cast Iff.rfl

/-- One sample. -/
theorem hits_current_iff {prev cur : Reading} (hgrows : Grows prev cur) {thr : SRxThresholds}
    (hints : Ints thr) :
    hits thr (sample_system_stats cur.files) = hits thr (current_load prev cur) ↔ SameSide prev cur thr := by
  obtain ⟨hcpu, hnet⟩ := reading_stats cur
  have hmem : (sample_system_stats cur.files).memory_percent = (current_load prev cur).memory_percent :=
    (mk_memory_percent _ _ _ _ _).symm
  rw [hits_eq_iff hmem, hcpu, hnet, reading_percent]
  constructor
  · rintro ⟨h, h'⟩
    refine ⟨fun hpos => (h hpos).trans (growth_gt_iff hgrows hpos), fun hpos => ?_⟩
    rw [← growth_rate_gt_iff, ← rate_gt_iff hpos hints.net]
    exact h' hpos
  · intro h
    refine ⟨fun hpos => (h.cpu hpos).trans (growth_gt_iff hgrows hpos).symm, fun hpos => ?_⟩
    rw [growth_rate_gt_iff, rate_gt_iff hpos hints.net]
    exact h.net hpos

/-- **When the decisions are about the current load**: in every run of readings,
each sample after the first decides by what happened since the one before it if
and only if all the counters are on the same side of every threshold as their
growth is. -/
theorem decides_current_iff (thread : CRxSampleThread) (hints : ∀ thr ∈ thread.thresholds, Ints thr)
    (readings : List Reading) (hgrows : ∀ pair ∈ successive readings, Grows pair.1 pair.2) :
    (∀ pair ∈ successive readings, ∀ cfg,
      (sample_and_check thread cfg pair.2.files).map SRxSampleMsg.decision
        = (check thread cfg (current_load pair.1 pair.2)).map SRxSampleMsg.decision) ↔
      ∀ pair ∈ successive readings, ∀ thr ∈ thread.thresholds, SameSide pair.1 pair.2 thr := by
  have hpair : ∀ pair ∈ successive readings, ∀ cfg,
      ((sample_and_check thread cfg pair.2.files).map SRxSampleMsg.decision
        = (check thread cfg (current_load pair.1 pair.2)).map SRxSampleMsg.decision ↔
      ∀ thr ∈ thread.thresholds, SameSide pair.1 pair.2 thr) := by
    intro pair hmem cfg
    rw [sample_and_check, decisions_eq_iff]
    exact forall₂_congr fun thr hthr => hits_current_iff (hgrows pair hmem) (hints thr hthr)
  constructor
  · exact fun h pair hmem => (hpair pair hmem none).mp (h pair hmem none)
  · exact fun h pair hmem cfg => (hpair pair hmem cfg).mpr (h pair hmem)

/-- A thread with one module, which is about the network. -/
def network_thread : CRxSampleThread where
  modules := [{ name := "net".toList, net_rx_kbps_gt := 1 }]

def network_reading (rx_bytes : Counter) : Reading where
  times := { user := 0, nice := 0, system := 0, idle := 0, others := [] }
  devices := [{
    name := "eth0".toList
    rx_bytes := rx_bytes
    rx_others := Vector.replicate 7 0
    tx_bytes := 0
    tx_others := Vector.replicate 7 0
    name_chars := by
      have hall : ("eth0".toList.all fun c => c ≠ ':' ∧ is_space c = false) = true := by decide
      exact fun c hc => of_decide_eq_true (List.all_eq_true.mp hall c hc)
    name_length := by decide }]
  meminfo := none
  now := 0

theorem network_ints : ∀ thr ∈ network_thread.thresholds, Ints thr := by
  intro thr hthr
  obtain rfl := List.mem_singleton.mp hthr
  exact ⟨by decide, by decide, by decide⟩

theorem network_grows {rx_bytes rx_bytes' : Counter} (h : rx_bytes ≤ rx_bytes') :
    Grows (network_reading rx_bytes) (network_reading rx_bytes') where
  user := le_rfl
  nice := le_rfl
  system := le_rfl
  idle := le_rfl
  devices := by
    intro device hdevice device' hdevice' _
    obtain rfl := List.mem_singleton.mp hdevice
    obtain rfl := List.mem_singleton.mp hdevice'
    exact h

theorem received_network (rx_bytes : Counter) : received (network_reading rx_bytes).devices = rx_bytes.val ∧
    received (outside (network_reading rx_bytes).devices) = rx_bytes.val := by
  have hone : outside (network_reading rx_bytes).devices = (network_reading rx_bytes).devices := rfl
  rw [hone, and_self]
  exact Nat.add_zero rx_bytes.val

/-- A run that meets the condition: all bytes came since the previous sample. -/
theorem first_burst_current :
    (sample_and_check network_thread none (network_reading 20000).files).map SRxSampleMsg.decision
      = (check network_thread none (current_load (network_reading 0) (network_reading 20000))).map
          SRxSampleMsg.decision := by
  refine (decides_current_iff network_thread network_ints [network_reading 0, network_reading 20000] ?_).mpr ?_
    (network_reading 0, network_reading 20000) List.mem_cons_self none
  · intro pair hpair
    obtain rfl := List.mem_singleton.mp hpair
    exact network_grows (by decide)
  · intro pair hpair thr hthr
    obtain rfl := List.mem_singleton.mp hpair
    obtain rfl := List.mem_singleton.mp hthr
    refine ⟨fun hpos => absurd hpos (by decide), fun _ => ?_⟩
    rw [(received_network 20000).1, (received_network 20000).2, (received_network 0).2]
    decide

/-- Nothing is received any more, and the alert is sent again. -/
theorem idle_network_alert :
    (∀ pair ∈ successive [network_reading 20000, network_reading 20000], Grows pair.1 pair.2) ∧
      ¬ ∀ pair ∈ successive [network_reading 20000, network_reading 20000], ∀ cfg,
        (sample_and_check network_thread cfg pair.2.files).map SRxSampleMsg.decision
          = (check network_thread cfg (current_load pair.1 pair.2)).map SRxSampleMsg.decision := by
  refine ⟨fun pair hpair => ?_, fun h => ?_⟩
  · obtain rfl := List.mem_singleton.mp hpair
    exact network_grows le_rfl
  have hdecisions := h (network_reading 20000, network_reading 20000) List.mem_cons_self none
  rw [sample_and_check, decisions_eq_iff] at hdecisions
  have hthr : thresholds_of { name := "net".toList, net_rx_kbps_gt := 1 } ∈ network_thread.thresholds :=
    List.mem_cons_self
  have hside := ((hits_current_iff (network_grows le_rfl) (network_ints _ hthr)).mp (hdecisions _ hthr)).net
    (by decide)
  rw [(received_network 20000).1, (received_network 20000).2] at hside
  revert hside
  decide

end RxNetCap.Sampling
