/-
What the sample thread reads of the system: `sample_system_stats` of
`src/rxsamplethread.cpp`, and the files that it reads.

`/proc/stat` and `/proc/net/dev` are written by the system: a `CpuTimes` is the
first line of the one and a `NetDevice` a line of the other, in the columns in
which they stand there. A line longer than the buffer comes in pieces, and the
counters that are wanted are always in the first (`fgets_line`, `scan_device`).
A `double` is a number of 53 bits (`RxNetCap.Lib.Rounding`).
-/
import RxNetCap.Lib.Rounding
import RxNetCap.Capture.Request
import Mathlib.Data.Nat.Digits.Defs

set_option autoImplicit false

namespace RxNetCap.Sampling

open RxNetCap.Pdef RxNetCap.Capture RxNetCap.Rounding

/-! ## Scanning -/

/-- What `fgets` gives with a buffer of `size`, until the end; `piece` is what was
read of the next one. -/
def fgets_all (size : ℕ) (piece : CStr) : CStr → List CStr
  | [] => if piece = [] then [] else [piece]
  | c :: rest =>
    if c = '\n' ∨ piece.length + 2 = size then (piece ++ [c]) :: fgets_all size [] rest
    else fgets_all size (piece ++ [c]) rest

/-- Whether a number is negative, and what stands behind its sign. -/
def scan_sign : CStr → Bool × CStr
  | '-' :: rest => (true, rest)
  | '+' :: rest => (false, rest)
  | text => (false, text)

/-- `%lu` -/
def scan_lu (text : CStr) : Option (ℕ × CStr) :=
  let (negative, text) := scan_sign (text.dropWhile is_space)
  let digits := text.takeWhile Char.isDigit
  if digits = [] then none
  else
    let value := Nat.ofDigitChars 10 digits 0
    some (if value ≥ 2 ^ 64 then 2 ^ 64 - 1 else if negative then (2 ^ 64 - value) % 2 ^ 64 else value,
      text.dropWhile Char.isDigit)

/-- The numbers that as many `%lu` read, up to the first that reads none. -/
def scan_lus : ℕ → CStr → List ℕ
  | 0, _ => []
  | n + 1, text =>
    match scan_lu text with
    | some (value, rest) => value :: scan_lus n rest
    | none => []

/-- `cpu %lu %lu %lu %lu` -/
def scan_cpu (text : CStr) : List ℕ := if "cpu".toList <+: text then scan_lus 4 (text.drop 3) else []

/-- `%63[^:]:` and ten numbers, of which the last may be missing. -/
def scan_dev_line (line : CStr) : Option (CStr × ℕ × ℕ) :=
  let iface := (line.take 63).takeWhile (· ≠ ':')
  match line.drop iface.length with
  | ':' :: rest =>
    match scan_lus 10 rest with
    | r_bytes :: _ :: _ :: _ :: _ :: _ :: _ :: _ :: t_bytes :: _ =>
      if iface = [] then none else some (iface, r_bytes, t_bytes)
    | _ => none
  | _ => none

/-! ## The readings -/

structure SRxSystemStats where
  cpu_percent : ℚ := 0
  memory_percent : ℚ := 0
  network_rx_kbps : ℚ := 0
  network_tx_kbps : ℚ := 0
  timestamp : ℤ := 0
  deriving DecidableEq

section Fields

variable (cpu mem rx tx : ℚ) (now : ℤ)

theorem mk_cpu_percent : (SRxSystemStats.mk cpu mem rx tx now).cpu_percent = cpu := rfl

theorem mk_memory_percent : (SRxSystemStats.mk cpu mem rx tx now).memory_percent = mem := rfl

theorem mk_network_rx_kbps : (SRxSystemStats.mk cpu mem rx tx now).network_rx_kbps = rx := rfl

end Fields

/-- The files, where they can be opened, and the clock. -/
structure SystemFiles where
  proc_stat : Option CStr
  proc_meminfo : Option CStr
  proc_net_dev : Option CStr
  now : ℤ

def SAMPLE_INTERVAL_SEC : ℕ := 15

/-- `double` -/
def double (x : ℚ) : ℚ := nearest 53 x

/-- A part of a whole in percent. -/
def percent (part whole : ℕ) : ℚ := double (double (double part / double whole) * 100)

/-- Bytes, as kilobytes in a second. -/
def rate (bytes : ℕ) : ℚ := double (double (double bytes / 1024) / SAMPLE_INTERVAL_SEC)

def cpu_percent (text : CStr) : ℚ :=
  match scan_cpu text with
  | [user, nice, system, idle] =>
    let total := (user + nice + system + idle) % 2 ^ 64
    if total > 0 then percent ((total + (2 ^ 64 - idle)) % 2 ^ 64) total else 0
  | _ => 0

/-- The memory that there is and that is available, as the lines say. -/
def scan_meminfo (mem_total mem_available : ℕ) : List CStr → ℕ × ℕ
  | [] => (mem_total, mem_available)
  | line :: rest =>
    if "MemTotal:".toList <+: line then
      scan_meminfo (((scan_lu (line.drop 9)).map Prod.fst).getD mem_total) mem_available rest
    else if "MemAvailable:".toList <+: line then
      (mem_total, ((scan_lu (line.drop 13)).map Prod.fst).getD mem_available)
    else scan_meminfo mem_total mem_available rest

def memory_percent (text : CStr) : ℚ :=
  let (mem_total, mem_available) := scan_meminfo 0 0 (fgets_all 256 [] text)
  if mem_total > 0 then percent ((mem_total + (2 ^ 64 - mem_available)) % 2 ^ 64) mem_total else 0

/-- Add a line to the bytes that were received and sent. -/
def count_line (bytes : ℕ × ℕ) (line : CStr) : ℕ × ℕ :=
  match scan_dev_line line with
  | some (iface, r_bytes, t_bytes) =>
    if iface ≠ "lo".toList then ((bytes.1 + r_bytes) % 2 ^ 64, (bytes.2 + t_bytes) % 2 ^ 64) else bytes
  | none => bytes

def network_bytes (lines : List CStr) : ℕ × ℕ := lines.foldl count_line (0, 0)

def sample_system_stats (files : SystemFiles) : SRxSystemStats :=
  let stats : SRxSystemStats :=
    { cpu_percent := (files.proc_stat.map cpu_percent).getD 0
      memory_percent := (files.proc_meminfo.map memory_percent).getD 0
      timestamp := files.now }
  match files.proc_net_dev.map (fgets_all 256 []) with
  | some (_ :: _ :: lines) =>
    { stats with
      network_rx_kbps := rate (network_bytes lines).1
      network_tx_kbps := rate (network_bytes lines).2 }
  | _ => stats

/-! ## The files -/

/-- The text in a column. -/
def pad (width : ℕ) (text : CStr) : CStr := List.replicate (width - text.length) ' ' ++ text

/-- A column and the blank in front of it. -/
def column (entry : ℕ × ℕ) : CStr := ' ' :: pad entry.1 (Nat.toDigits 10 entry.2)

/-- A counter of the system. -/
abbrev Counter := Fin (2 ^ 64)

/-- The first line of `/proc/stat`, with what stands behind the four times. -/
structure CpuTimes where
  user : Counter
  nice : Counter
  system : Counter
  idle : Counter
  others : CStr

def CpuTimes.columns (times : CpuTimes) : List (ℕ × ℕ) :=
  [(0, times.user.val), (0, times.nice.val), (0, times.system.val), (0, times.idle.val)]

def CpuTimes.text (times : CpuTimes) : CStr :=
  "cpu".toList ++ (' ' :: (times.columns.flatMap column ++ ' ' :: times.others))

/-- A line of `/proc/net/dev`. The counters are the bytes that were received, seven
others, the bytes that were sent, and seven others. -/
structure NetDevice where
  name : CStr
  rx_bytes : Counter
  rx_others : Vector Counter 7
  tx_bytes : Counter
  tx_others : Vector Counter 7
  name_chars : ∀ c ∈ name, c ≠ ':' ∧ is_space c = false
  name_length : name.length < 16

def NetDevice.rx_columns (device : NetDevice) : List (ℕ × ℕ) :=
  (7, device.rx_bytes.val) :: [7, 4, 4, 4, 5, 10, 9].zip (device.rx_others.toList.map Fin.val)
    ++ [(8, device.tx_bytes.val)]

def NetDevice.tx_columns (device : NetDevice) : List (ℕ × ℕ) :=
  [7, 4, 4, 4, 5, 7, 10].zip (device.tx_others.toList.map Fin.val)

def NetDevice.line (device : NetDevice) : CStr :=
  pad 6 device.name ++ ':' :: (device.rx_columns.flatMap column ++ device.tx_columns.flatMap column)

def dev_header : List CStr :=
  ["Inter-|   Receive                                                |  Transmit".toList,
    (" face |bytes    packets errs drop fifo frame compressed multicast"
      ++ "|bytes    packets errs drop fifo colls carrier compressed").toList]

def dev_text (devices : List NetDevice) : CStr :=
  (dev_header ++ devices.map NetDevice.line).flatMap fun line => line ++ ['\n']

/-! ## What is read of the files -/

/-! ### Numbers -/

/-- What stands behind a number: it does not go on there. -/
def Ends (rest : CStr) : Prop := ∀ c ∈ rest.head?, c.isDigit = false

theorem space_not_digit {c : Char} (h : c.isDigit = true) : is_space c = false := by
  rw [is_space, decide_eq_false_iff_not]
  rintro (rfl | rfl | rfl | rfl | rfl | rfl) <;> revert h <;> decide

theorem toDigits_isDigit {n : ℕ} : ∀ c ∈ Nat.toDigits 10 n, c.isDigit = true :=
  fun _ hc => Nat.isDigit_of_mem_toDigits (by decide) (by decide) hc

theorem span_digits (n : ℕ) {rest : CStr} (hrest : Ends rest) :
    (Nat.toDigits 10 n ++ rest).takeWhile Char.isDigit = Nat.toDigits 10 n ∧
      (Nat.toDigits 10 n ++ rest).dropWhile Char.isDigit = rest := by
  have hstop : rest.takeWhile Char.isDigit = [] ∧ rest.dropWhile Char.isDigit = rest := by
    cases rest with
    | nil => exact ⟨rfl, rfl⟩
    | cons c rest =>
      have hc := hrest c rfl
      exact ⟨List.takeWhile_cons_of_neg (by simp [hc]), List.dropWhile_cons_of_neg (by simp [hc])⟩
  rw [List.takeWhile_append_of_pos toDigits_isDigit, List.dropWhile_append_of_pos toDigits_isDigit, hstop.1,
    hstop.2, List.append_nil]
  exact ⟨rfl, rfl⟩

/-- A number of 64 bits is read as itself. -/
theorem scan_digits (blanks : ℕ) {n : ℕ} (hn : n < 2 ^ 64) {rest : CStr} (hrest : Ends rest) :
    scan_lu (List.replicate blanks ' ' ++ (Nat.toDigits 10 n ++ rest)) = some (n, rest) := by
  obtain ⟨c, digits, hdigits⟩ := List.exists_cons_of_ne_nil (Nat.toDigits_ne_nil (n := n) (b := 10))
  have hc : c.isDigit = true := toDigits_isDigit c (hdigits ▸ List.mem_cons_self)
  have hblanks : (List.replicate blanks ' ' ++ (Nat.toDigits 10 n ++ rest)).dropWhile is_space
      = Nat.toDigits 10 n ++ rest := by
    rw [List.dropWhile_append_of_pos (by
      intro d hd
      rw [List.eq_of_mem_replicate hd]
      rfl), hdigits, List.cons_append]
    exact List.dropWhile_cons_of_neg (by simp [space_not_digit hc])
  obtain ⟨htake, hdrop⟩ := span_digits n hrest
  have hsign : scan_sign (Nat.toDigits 10 n ++ rest) = (false, Nat.toDigits 10 n ++ rest) := by
    rw [hdigits, List.cons_append, scan_sign] <;>
      · rintro rest' heq
        rw [(List.cons.inj heq).1] at hc
        cases hc
  have hvalue : ¬ n ≥ 2 ^ 64 := not_le.mpr hn
  unfold scan_lu
  simp only [hblanks, hsign, htake, hdrop, Nat.ofDigitChars_ten_toDigits, if_neg Nat.toDigits_ne_nil,
    if_neg hvalue]
  rfl

theorem scan_column (entry : ℕ × ℕ) (hn : entry.2 < 2 ^ 64) {rest : CStr} (hrest : Ends rest) :
    scan_lu (column entry ++ rest) = some (entry.2, rest) := by
  have htext : column entry ++ rest
      = List.replicate (entry.1 - (Nat.toDigits 10 entry.2).length + 1) ' '
        ++ (Nat.toDigits 10 entry.2 ++ rest) := by
    simp [column, pad, List.replicate_succ]
  rw [htext]
  exact scan_digits _ hn hrest

theorem ends_column (entry : ℕ × ℕ) (rest : CStr) : Ends (column entry ++ rest) := by
  intro c hc
  cases hc
  rfl

theorem ends_columns (entries : List (ℕ × ℕ)) {rest : CStr} (hrest : Ends rest) :
    Ends (entries.flatMap column ++ rest) := by
  cases entries with
  | nil => exact hrest
  | cons entry entries =>
    rw [List.flatMap_cons, List.append_assoc]
    exact ends_column entry _

theorem scan_columns (entries : List (ℕ × ℕ)) (hentries : ∀ entry ∈ entries, entry.2 < 2 ^ 64) {rest : CStr}
    (hrest : Ends rest) (more : ℕ) :
    scan_lus (entries.length + more) (entries.flatMap column ++ rest)
      = entries.map Prod.snd ++ scan_lus more rest := by
  induction entries with
  | nil =>
    rw [List.length_nil, Nat.zero_add]
    rfl
  | cons entry entries ih =>
    have hread := scan_column entry (hentries entry List.mem_cons_self) (ends_columns entries hrest)
    rw [List.length_cons, Nat.succ_add, List.flatMap_cons, List.append_assoc, scan_lus, hread,
      List.map_cons, List.cons_append, ← ih fun e he => hentries e (List.mem_cons_of_mem _ he)]

/-! ### The times -/

theorem scan_blank (n : ℕ) (text : CStr) : scan_lus n (' ' :: text) = scan_lus n text := by
  cases n with
  | zero => rfl
  | succ n =>
    have hblank : (' ' :: text).dropWhile is_space = text.dropWhile is_space :=
      List.dropWhile_cons_of_pos rfl
    rw [scan_lus, scan_lus, scan_lu, scan_lu, hblank]

theorem ends_blank (rest : CStr) : Ends (' ' :: rest) := by
  intro c hc
  cases hc
  rfl

theorem scan_times (times : CpuTimes) :
    scan_cpu times.text = [times.user.val, times.nice.val, times.system.val, times.idle.val] := by
  have hentries : ∀ entry ∈ times.columns, entry.2 < 2 ^ 64 := by
    simp only [CpuTimes.columns, List.forall_mem_cons]
    exact ⟨times.user.isLt, times.nice.isLt, times.system.isLt, times.idle.isLt, nofun⟩
  have hread := scan_columns times.columns hentries (ends_blank times.others) 0
  rw [CpuTimes.text, scan_cpu, if_pos (List.prefix_append _ _)]
  change scan_lus 4 (' ' :: _) = _
  rw [scan_blank]
  exact hread

/-! ### Lines -/

/-- A line gives one piece or more; the first has as much of it as there is room
for, and the others have only what stands behind that. -/
theorem fgets_line {size : ℕ} (body : CStr) (hbody : '\n' ∉ body) (rest : CStr) :
    ∀ piece : CStr, piece.length + 2 ≤ size →
      ∃ pieces, fgets_all size piece (body ++ '\n' :: rest)
          = (piece ++ body ++ ['\n']).take (size - 1) :: pieces ++ fgets_all size [] rest ∧
        ∀ p ∈ pieces, p ≠ [] ∧ ∀ c ∈ p, c ∈ (piece ++ body ++ ['\n']).drop (size - 1) := by
  induction body with
  | nil =>
    intro piece hroom
    refine ⟨[], ?_, nofun⟩
    rw [List.nil_append, fgets_all, if_pos (.inl rfl), List.append_nil, List.take_of_length_le (by
      rw [List.length_append, List.length_singleton]
      omega)]
    rfl
  | cons c body ih =>
    intro piece hroom
    have hc : c ≠ '\n' := fun heq => hbody (heq ▸ List.mem_cons_self)
    have ih := ih fun hmem => hbody (List.mem_cons_of_mem _ hmem)
    have hsplit : piece ++ c :: body ++ ['\n'] = piece ++ [c] ++ (body ++ ['\n']) := by simp
    rw [List.cons_append, fgets_all]
    by_cases hfull : piece.length + 2 = size
    · -- the buffer is full
      obtain ⟨pieces, hpieces, hchars⟩ := ih [] (by
        rw [List.length_nil]
        omega)
      have hlength : (piece ++ [c]).length = size - 1 := by
        rw [List.length_append, List.length_singleton]
        omega
      refine ⟨(body ++ ['\n']).take (size - 1) :: pieces, ?_, ?_⟩
      · rw [if_pos (.inr hfull), hpieces, hsplit, List.take_left' hlength]
        simp
      · rw [hsplit, List.drop_left' hlength]
        intro p hp
        rcases List.mem_cons.mp hp with rfl | hp
        · refine ⟨fun hnil => ?_, fun d hd => List.mem_of_mem_take hd⟩
          rcases List.take_eq_nil_iff.mp hnil with hzero | hnil
          · omega
          · exact List.append_ne_nil_of_right_ne_nil _ (List.cons_ne_nil _ _) hnil
        · exact ⟨(hchars p hp).1, fun d hd => List.mem_of_mem_drop ((hchars p hp).2 d hd)⟩
    · obtain ⟨pieces, hpieces, hchars⟩ := ih (piece ++ [c]) (by
        rw [List.length_append, List.length_singleton]
        omega)
      refine ⟨pieces, ?_, ?_⟩
      · rw [if_neg (not_or.mpr ⟨hc, hfull⟩), hpieces]
        simp
      · have hwhole : piece ++ [c] ++ body ++ ['\n'] = piece ++ c :: body ++ ['\n'] := by simp
        rw [← hwhole]
        exact hchars

/-- A line that fits is one piece. -/
theorem fgets_short {size : ℕ} {body : CStr} (hbody : '\n' ∉ body) (hlength : body.length + 2 ≤ size)
    (rest : CStr) :
    fgets_all size [] (body ++ '\n' :: rest) = (body ++ ['\n']) :: fgets_all size [] rest := by
  have hroom : ([] : CStr).length + 2 ≤ size := by
    rw [List.length_nil]
    omega
  obtain ⟨pieces, hpieces, hchars⟩ := fgets_line body hbody rest [] hroom
  have hwhole : (body ++ ['\n']).length ≤ size - 1 := by
    rw [List.length_append, List.length_singleton]
    omega
  rw [List.nil_append, List.drop_eq_nil_of_le hwhole] at hchars
  rw [List.nil_append, List.take_of_length_le hwhole] at hpieces
  have hnone : pieces = [] := by
    refine List.eq_nil_iff_forall_not_mem.mpr fun p hp => ?_
    obtain ⟨c, rest, rfl⟩ := List.exists_cons_of_ne_nil (hchars p hp).1
    exact absurd ((hchars _ hp).2 c List.mem_cons_self) List.not_mem_nil
  rw [hpieces, hnone]
  rfl

/-! ### Devices -/

/-- The name as it stands in the line. -/
def NetDevice.iface (device : NetDevice) : CStr := pad 6 device.name

theorem six_le_iface (device : NetDevice) : 6 ≤ device.iface.length := by
  rw [NetDevice.iface, pad, List.length_append, List.length_replicate]
  omega

/-- **No line is that of `lo`**: the name of the loopback device has blanks in front. -/
theorem iface_not_lo (device : NetDevice) : device.iface ≠ "lo".toList := by
  intro h
  have hsix := six_le_iface device
  rw [h] at hsix
  exact absurd hsix (by decide)

theorem column_length {entry : ℕ × ℕ} (hwidth : entry.1 ≤ 20) (hn : entry.2 < 2 ^ 64) :
    (column entry).length ≤ 21 := by
  have hdigits : (Nat.toDigits 10 entry.2).length ≤ 20 :=
    (Nat.length_toDigits_le_iff (by decide) (by decide)).mpr (lt_trans hn (by decide))
  rw [column, pad, List.length_cons, List.length_append, List.length_replicate]
  omega

theorem columns_length {entries : List (ℕ × ℕ)} (h : ∀ entry ∈ entries, entry.1 ≤ 20 ∧ entry.2 < 2 ^ 64) :
    (entries.flatMap column).length ≤ 21 * entries.length := by
  induction entries with
  | nil => exact le_rfl
  | cons entry entries ih =>
    have hentry := h entry List.mem_cons_self
    have hcolumn := column_length hentry.1 hentry.2
    have hcolumns := ih fun e he => h e (List.mem_cons_of_mem _ he)
    rw [List.flatMap_cons, List.length_append, List.length_cons]
    omega

theorem mem_zip_counters {widths : List ℕ} {counters : List Counter} (hwidths : ∀ w ∈ widths, w ≤ 20) :
    ∀ entry ∈ widths.zip (counters.map Fin.val), entry.1 ≤ 20 ∧ entry.2 < 2 ^ 64 := by
  intro entry hentry
  obtain ⟨hwidth, hcounter⟩ := List.of_mem_zip hentry
  obtain ⟨counter, -, heq⟩ := List.mem_map.mp hcounter
  exact ⟨hwidths _ hwidth, heq ▸ counter.isLt⟩

theorem rx_columns_small (device : NetDevice) :
    ∀ entry ∈ device.rx_columns, entry.1 ≤ 20 ∧ entry.2 < 2 ^ 64 := by
  intro entry hentry
  rw [NetDevice.rx_columns, List.cons_append, List.mem_cons, List.mem_append, List.mem_singleton] at hentry
  rcases hentry with rfl | hentry | rfl
  · exact ⟨(by decide : 7 ≤ 20), device.rx_bytes.isLt⟩
  · exact mem_zip_counters (by decide) entry hentry
  · exact ⟨(by decide : 8 ≤ 20), device.tx_bytes.isLt⟩

theorem rx_columns_length (device : NetDevice) : device.rx_columns.length = 9 := by
  simp [NetDevice.rx_columns]

theorem seven_of_length {α : Type} {l : List α} (h : l.length = 7) :
    ∃ a b c d e f g, l = [a, b, c, d, e, f, g] := by
  match l, h with
  | [a, b, c, d, e, f, g], _ => exact ⟨a, b, c, d, e, f, g, rfl⟩

/-- The seven counters between the received and the sent bytes are read, but not used. -/
theorem rx_columns_values (device : NetDevice) : ∃ a b c d e f g : ℕ,
    device.rx_columns.map Prod.snd = [device.rx_bytes.val, a, b, c, d, e, f, g, device.tx_bytes.val] := by
  obtain ⟨a, b, c, d, e, f, g, hothers⟩ := seven_of_length device.rx_others.length_toList
  refine ⟨a, b, c, d, e, f, g, ?_⟩
  rw [NetDevice.rx_columns, hothers]
  rfl

theorem iface_chars (device : NetDevice) : ∀ c ∈ device.iface, c ≠ ':' ∧ c ≠ '\n' := by
  intro c hc
  rcases List.mem_append.mp hc with hblank | hname
  · rw [List.eq_of_mem_replicate hblank]
    decide
  · obtain ⟨hcolon, hspace⟩ := device.name_chars c hname
    refine ⟨hcolon, ?_⟩
    rintro rfl
    cases hspace

theorem iface_length (device : NetDevice) : device.iface.length < 16 := by
  have hname := device.name_length
  rw [NetDevice.iface, pad, List.length_append, List.length_replicate]
  omega

/-- The name and the first nine counters are always in the first piece. -/
theorem first_piece (device : NetDevice) : ∃ rest, Ends rest ∧ (device.line ++ ['\n']).take 255
    = device.iface ++ ':' :: (device.rx_columns.flatMap column ++ rest) := by
  have hname := iface_length device
  have hcolumns := columns_length (rx_columns_small device)
  rw [rx_columns_length] at hcolumns
  obtain ⟨room, hroom⟩ : ∃ room, 255
      = (device.iface ++ ':' :: device.rx_columns.flatMap column).length + (room + 1) := by
    refine ⟨255 - (device.iface ++ ':' :: device.rx_columns.flatMap column).length - 1, ?_⟩
    rw [List.length_append, List.length_cons]
    omega
  have hline : device.line ++ ['\n'] = (device.iface ++ ':' :: device.rx_columns.flatMap column)
      ++ (device.tx_columns.flatMap column ++ ['\n']) := by
    simp [NetDevice.line, NetDevice.iface]
  refine ⟨(device.tx_columns.flatMap column ++ ['\n']).take (room + 1), ?_, ?_⟩
  · intro c hc
    rw [List.head?_take, if_neg (Nat.succ_ne_zero room)] at hc
    exact ends_columns device.tx_columns (by
      intro c hc
      cases hc
      rfl) c hc
  · rw [hline, hroom, List.take_length_add_append]
    simp

/-- **A line is read as what it says**, however long it is. -/
theorem scan_device (device : NetDevice) : scan_dev_line ((device.line ++ ['\n']).take 255)
    = some (device.iface, device.rx_bytes.val, device.tx_bytes.val) := by
  obtain ⟨rest, hrest, hpiece⟩ := first_piece device
  have hname : ((device.iface ++ ':' :: (device.rx_columns.flatMap column ++ rest)).take 63).takeWhile
      (· ≠ ':') = device.iface := by
    obtain ⟨room, hroom⟩ : ∃ room, 63 = device.iface.length + (room + 1) :=
      ⟨63 - device.iface.length - 1, by
        have hlength := iface_length device
        omega⟩
    rw [hroom, List.take_length_add_append, List.take_succ_cons, List.takeWhile_append_of_pos (by
      intro c hc
      simp [(iface_chars device c hc).1])]
    simp
  have hread := scan_columns device.rx_columns (fun e he => (rx_columns_small device e he).2) hrest 1
  obtain ⟨a, b, c, d, e, f, g, hvalues⟩ := rx_columns_values device
  rw [rx_columns_length, hvalues] at hread
  have hnonempty : device.iface ≠ [] := by
    intro hnil
    have hsix := six_le_iface device
    rw [hnil] at hsix
    cases hsix
  rw [hpiece, scan_dev_line]
  simp only [hname, List.drop_left, hread, List.cons_append, if_neg hnonempty]

/-- A piece that has no colon is not the line of a device. -/
theorem scan_other {piece : CStr} (h : ':' ∉ piece) : scan_dev_line piece = none := by
  simp only [scan_dev_line]
  split
  · next rest heq => exact absurd (List.mem_of_mem_drop (heq ▸ List.mem_cons_self)) h
  · rfl

theorem column_chars {c : Char} {entries : List (ℕ × ℕ)} (h : c ∈ entries.flatMap column) :
    c = ' ' ∨ c.isDigit = true := by
  obtain ⟨entry, -, hc⟩ := List.mem_flatMap.mp h
  rcases List.mem_cons.mp hc with hblank | hc
  · exact .inl hblank
  rcases List.mem_append.mp hc with hblank | hdigit
  · exact .inl (List.eq_of_mem_replicate hblank)
  · exact .inr (toDigits_isDigit c hdigit)

theorem column_char_ne {c d : Char} {entries : List (ℕ × ℕ)} (h : c ∈ entries.flatMap column)
    (hblank : d ≠ ' ') (hdigit : d.isDigit = false) : c ≠ d := by
  rintro rfl
  rcases column_chars h with heq | heq
  · exact hblank heq
  · rw [hdigit] at heq
    cases heq

theorem line_no_newline (device : NetDevice) : '\n' ∉ device.line := by
  intro h
  rcases List.mem_append.mp h with h | h
  · exact (iface_chars device _ h).2 rfl
  rcases List.mem_cons.mp h with h | h
  · cases h
  rw [← List.flatMap_append] at h
  exact column_char_ne h (by decide) (by decide) rfl

/-- The other pieces of a line have no colon. -/
theorem other_pieces (device : NetDevice) : ':' ∉ (device.line ++ ['\n']).drop 255 := by
  intro h
  have hline : device.line ++ ['\n'] = (device.iface ++ [':'])
      ++ ((device.rx_columns ++ device.tx_columns).flatMap column ++ ['\n']) := by
    simp [NetDevice.line, NetDevice.iface]
  have hname := iface_length device
  have hfirst : (device.iface ++ [':']).length ≤ 255 := by
    rw [List.length_append, List.length_singleton]
    omega
  rw [hline, List.drop_append, List.drop_eq_nil_of_le hfirst, List.nil_append] at h
  rcases List.mem_append.mp (List.mem_of_mem_drop h) with h | h
  · exact column_char_ne h (by decide) (by decide) rfl
  · simp at h

/-- What every interface has received. -/
def received (devices : List NetDevice) : ℕ := (devices.map fun device => device.rx_bytes.val).sum

theorem foldl_others (pieces : List CStr) (h : ∀ p ∈ pieces, ':' ∉ p) (bytes : ℕ × ℕ) :
    pieces.foldl count_line bytes = bytes := by
  induction pieces with
  | nil => rfl
  | cons p pieces ih =>
    rw [List.foldl_cons, count_line, scan_other (h p List.mem_cons_self)]
    exact ih fun q hq => h q (List.mem_cons_of_mem _ hq)

theorem count_devices (devices : List NetDevice) (bytes : ℕ × ℕ) :
    ((fgets_all 256 [] ((devices.map NetDevice.line).flatMap fun line => line ++ ['\n'])).foldl count_line
      bytes).1 % 2 ^ 64 = (bytes.1 + received devices) % 2 ^ 64 := by
  induction devices generalizing bytes with
  | nil => rfl
  | cons device devices ih =>
    obtain ⟨pieces, hpieces, hchars⟩ := fgets_line device.line (line_no_newline device)
      ((devices.map NetDevice.line).flatMap fun line => line ++ ['\n']) [] (by decide : 0 + 2 ≤ 256)
    have hothers : ∀ p ∈ pieces, ':' ∉ p := fun p hp hcolon =>
      other_pieces device ((hchars p hp).2 ':' hcolon)
    have htext : ((device :: devices).map NetDevice.line).flatMap (fun line => line ++ ['\n'])
        = device.line ++ '\n' :: (devices.map NetDevice.line).flatMap fun line => line ++ ['\n'] := by simp
    have hfirst : count_line bytes ((device.line ++ ['\n']).take 255)
        = ((bytes.1 + device.rx_bytes.val) % 2 ^ 64, (bytes.2 + device.tx_bytes.val) % 2 ^ 64) := by
      rw [count_line, scan_device]
      exact if_pos (iface_not_lo device)
    rw [htext, hpieces, List.cons_append, List.foldl_cons, List.foldl_append, foldl_others pieces hothers]
    change (List.foldl count_line (count_line bytes ((device.line ++ ['\n']).take 255)) _).1 % 2 ^ 64 = _
    rw [hfirst, ih]
    change ((bytes.1 + device.rx_bytes.val) % 2 ^ 64 + received devices) % 2 ^ 64
      = (bytes.1 + (device.rx_bytes.val + received devices)) % 2 ^ 64
    rw [Nat.mod_add_mod, Nat.add_assoc]

theorem count_line_lt {bytes : ℕ × ℕ} (h : bytes.1 < 2 ^ 64) (line : CStr) :
    (count_line bytes line).1 < 2 ^ 64 := by
  unfold count_line
  split
  · split
    · exact Nat.mod_lt _ (by decide)
    · exact h
  · exact h

theorem network_bytes_lt (lines : List CStr) : (network_bytes lines).1 < 2 ^ 64 := by
  have hfold : ∀ bytes : ℕ × ℕ, bytes.1 < 2 ^ 64 → (lines.foldl count_line bytes).1 < 2 ^ 64 := by
    induction lines with
    | nil => exact fun _ h => h
    | cons line lines ih => exact fun _ h => ih _ (count_line_lt h line)
  exact hfold (0, 0) (by decide)

/-! ### A reading -/

/-- What the system says at one time. -/
structure Reading where
  times : CpuTimes
  devices : List NetDevice
  meminfo : Option CStr
  now : ℤ

def Reading.files (reading : Reading) : SystemFiles where
  proc_stat := some reading.times.text
  proc_meminfo := reading.meminfo
  proc_net_dev := some (dev_text reading.devices)
  now := reading.now

/-- What was not idle, of the four times. -/
def CpuTimes.busy (times : CpuTimes) : ℕ := times.user + times.nice + times.system

def CpuTimes.total (times : CpuTimes) : ℕ := times.busy + times.idle

theorem cpu_percent_text (times : CpuTimes) : cpu_percent times.text
    = if times.total % 2 ^ 64 > 0 then percent (times.busy % 2 ^ 64) (times.total % 2 ^ 64) else 0 := by
  have hbusy : (times.total % 2 ^ 64 + (2 ^ 64 - times.idle.val)) % 2 ^ 64 = times.busy % 2 ^ 64 := by
    have hidle := times.idle.isLt
    unfold CpuTimes.total
    omega
  rw [cpu_percent, scan_times]
  change (if times.total % 2 ^ 64 > 0 then _ else 0) = _
  rw [← hbusy]
  rfl

theorem dev_text_lines (devices : List NetDevice) : ∃ first second lines,
    fgets_all 256 [] (dev_text devices) = first :: second :: lines ∧
      (network_bytes lines).1 = received devices % 2 ^ 64 := by
  obtain ⟨first, second, hheader, hfirst, hsecond⟩ : ∃ first second, dev_header = [first, second] ∧
      ('\n' ∉ first ∧ first.length + 2 ≤ 256) ∧ ('\n' ∉ second ∧ second.length + 2 ≤ 256) :=
    ⟨_, _, rfl, by decide +kernel, by decide +kernel⟩
  have htext : dev_text devices = first ++ '\n' :: (second ++ '\n' ::
      (devices.map NetDevice.line).flatMap fun line => line ++ ['\n']) := by
    simp [dev_text, hheader]
  have hbytes := count_devices devices (0, 0)
  rw [Nat.zero_add] at hbytes
  refine ⟨first ++ ['\n'], second ++ ['\n'],
    fgets_all 256 [] ((devices.map NetDevice.line).flatMap fun line => line ++ ['\n']), ?_, ?_⟩
  · rw [htext, fgets_short hfirst.1 hfirst.2, fgets_short hsecond.1 hsecond.2]
  · rw [← Nat.mod_eq_of_lt (network_bytes_lt _)]
    exact hbytes

/-- **The statistics of a reading**: the time since the start that was not idle, and
the bytes that all devices have received since then. -/
theorem reading_stats (reading : Reading) :
    (sample_system_stats reading.files).cpu_percent = cpu_percent reading.times.text ∧
      (sample_system_stats reading.files).network_rx_kbps = rate (received reading.devices % 2 ^ 64) := by
  obtain ⟨first, second, lines, hlines, hbytes⟩ := dev_text_lines reading.devices
  have hpieces : reading.files.proc_net_dev.map (fgets_all 256 []) = some (first :: second :: lines) :=
    congrArg some hlines
  have hcpu : (reading.files.proc_stat.map cpu_percent).getD 0 = cpu_percent reading.times.text := by
    rw [Reading.files, Option.map_some, Option.getD_some]
  have hstats : sample_system_stats reading.files =
      { cpu_percent := (reading.files.proc_stat.map cpu_percent).getD 0
        memory_percent := (reading.files.proc_meminfo.map memory_percent).getD 0
        network_rx_kbps := rate (network_bytes lines).1
        network_tx_kbps := rate (network_bytes lines).2
        timestamp := reading.files.now } := by
    unfold sample_system_stats
    generalize (reading.files.proc_stat.map cpu_percent).getD 0 = cpu
    generalize (reading.files.proc_meminfo.map memory_percent).getD 0 = mem
    rw [hpieces]
  rw [hstats]
  exact ⟨(mk_cpu_percent _ _ _ _ _).trans hcpu, (mk_network_rx_kbps _ _ _ _ _).trans (congrArg rate hbytes)⟩

end RxNetCap.Sampling
