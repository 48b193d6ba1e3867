/-
A capture hint as it is written, and as it is read.

A hint is written as `key:value` pairs with commas between them, and a value
that has a blank, a separator, a colon or an equals sign in it is put in
quotes. The reader turns every comma and semicolon into a blank and takes the
hint apart at the blanks *before* it looks at quotes; so quotes protect a colon
and an equals sign, but neither a blank nor a separator. No key and no value
that is read has one in it (`decoded_clean`), and a hint whose keys and values
have none is read back as it was written, into the fields of the request as well
(`hint_read_back_iff`).
-/
import Mathlib.Data.List.TakeWhile
import RxNetCap.Capture.Sample

set_option autoImplicit false

namespace RxNetCap.Capture

open RxNetCap.Tally RxNetCap.Pdef

/-! ## Written hints -/

/-- Keys that stand for one setting. -/
def synonyms : List (List CStr) :=
  [target_keys.map Prod.fst, ["protocol".toList, "protocol_filter".toList],
    ["ip".toList, "ip_filter".toList], ["port".toList, "port_filter".toList],
    ["duration".toList, "duration_sec".toList]]

def is_quote (c : Char) : Bool := c = '"' ∨ c = '\x27'

/-- The pairs of a hint. -/
structure CaptureHint where
  pairs : List (CStr × CStr)
  distinct : (pairs.map Prod.fst).Nodup
  lower : ∀ p ∈ pairs, to_lower_copy p.1 = p.1
  one_each : ∀ group ∈ synonyms, ∀ p ∈ pairs, ∀ q ∈ pairs, p.1 ∈ group → q.1 ∈ group → p.1 = q.1
  nonempty : ∀ p ∈ pairs, p.2 ≠ []
  unquoted : ∀ p ∈ pairs, p.2.any is_quote = false
  no_blank_ends : ∀ p ∈ pairs, p.2.head? ≠ some ' ' ∧ p.2.getLast? ≠ some ' '

def needs_quotes (value : CStr) : Bool :=
  value.any fun c => c = ' ' ∨ c = ',' ∨ c = ';' ∨ c = ':' ∨ c = '='

def written_value (value : CStr) : CStr :=
  if needs_quotes value then '"' :: (value ++ ['"']) else value

def written_pair (p : CStr × CStr) : CStr := p.1 ++ ':' :: written_value p.2

def CaptureHint.text (hint : CaptureHint) : CStr := [','].intercalate (hint.pairs.map written_pair)

/-! ## What the reader takes apart -/

/-- A character at which the reader takes a hint apart. -/
def splits (c : Char) : Bool := is_space c ∨ c = ',' ∨ c = ';'

/-- A character that ends a key. -/
def ends_key (c : Char) : Bool := splits c ∨ c = ':' ∨ c = '='

/-- A key that can be read. -/
def CleanKey (key : CStr) : Prop := ∀ c ∈ key, ends_key c = false

/-- A value that can be read. -/
def CleanValue (value : CStr) : Prop := ∀ c ∈ value, splits c = false

/-- Commas and semicolons as blanks. -/
def blank_out (hint : CStr) : CStr := hint.map fun c => if c = ',' ∨ c = ';' then ' ' else c

theorem splits_of_ends_key {c : Char} (h : ends_key c = false) : splits c = false := by
  simp only [ends_key, decide_eq_false_iff_not, not_or] at h
  exact Bool.eq_false_iff.mpr h.1

theorem is_space_of_splits {c : Char} (h : splits c = false) : is_space c = false := by
  simp only [splits, decide_eq_false_iff_not, not_or] at h
  exact Bool.eq_false_iff.mpr h.1

theorem splits_of_blank_out {hint : CStr} {c : Char} (hmem : c ∈ blank_out hint)
    (hspace : is_space c = false) : splits c = false := by
  obtain ⟨d, -, hd⟩ := List.mem_map.mp hmem
  by_cases hsep : d = ',' ∨ d = ';'
  · rw [if_pos hsep] at hd
    subst hd
    exact absurd hspace (by decide)
  · rw [if_neg hsep] at hd
    subst hd
    rw [not_or] at hsep
    simp [splits, hspace, hsep]

theorem blank_out_clean {value : CStr} (h : CleanValue value) : blank_out value = value := by
  refine (List.map_congr_left fun c hc => ?_).trans (List.map_id value)
  have hsplits := h c hc
  simp only [splits, decide_eq_false_iff_not, not_or] at hsplits
  exact if_neg (not_or.mpr hsplits.2)

/-! ### Tokens -/

theorem tokens_word {word : CStr} (h : ∀ c ∈ word, is_space c = false) :
    ∀ (token rest : CStr), tokens token (word ++ rest) = tokens (token ++ word) rest := by
  induction word with
  | nil => intro token rest; rw [List.append_nil, List.nil_append]
  | cons c word ih =>
    intro token rest
    have hc := h c List.mem_cons_self
    rw [List.cons_append, tokens, if_neg (by rw [hc]; decide),
      ih (fun d hd => h d (List.mem_cons_of_mem c hd)), List.append_assoc, List.singleton_append]

/-- Words with one blank between them come back one by one. -/
theorem tokens_intercalate (words : List CStr) (hne : ∀ w ∈ words, w ≠ [])
    (h : ∀ w ∈ words, ∀ c ∈ w, is_space c = false) : tokens [] ([' '].intercalate words) = words := by
  induction words with
  | nil => rfl
  | cons w words ih =>
    have hw := tokens_word (h w List.mem_cons_self) []
    have hword := hne w List.mem_cons_self
    cases words with
    | nil =>
      have hend := hw []
      rw [List.append_nil, List.nil_append, tokens, if_neg hword] at hend
      rw [List.intercalate_singleton, hend]
    | cons w' words =>
      rw [List.intercalate_cons_cons, List.append_assoc, hw, List.nil_append, List.singleton_append,
        tokens, if_pos (by decide), if_neg hword, ih (fun v hv => hne v (List.mem_cons_of_mem w hv))
          fun v hv => h v (List.mem_cons_of_mem w hv)]

/-- A token has no blank in it, and nothing that is not in the text. -/
theorem mem_tokens (text : CStr) : ∀ (token : CStr), ∀ t ∈ tokens token text, ∀ c ∈ t,
    c ∈ token ∨ (c ∈ text ∧ is_space c = false) := by
  induction text with
  | nil =>
    intro token t ht c hc
    rw [tokens] at ht
    split at ht
    · cases ht
    · rw [List.mem_singleton.mp ht] at hc
      exact .inl hc
  | cons d rest ih =>
    intro token t ht c hc
    have hlater {token' : CStr} (hnew : ∀ e ∈ token', e ∈ token ∨ (e = d ∧ is_space d = false))
        (hmem : t ∈ tokens token' rest) : c ∈ token ∨ (c ∈ d :: rest ∧ is_space c = false) := by
      rcases ih token' t hmem c hc with h | ⟨h, hspace⟩
      · rcases hnew c h with h | ⟨rfl, hspace⟩
        · exact .inl h
        · exact .inr ⟨List.mem_cons_self, hspace⟩
      · exact .inr ⟨List.mem_cons_of_mem d h, hspace⟩
    rw [tokens] at ht
    by_cases hspace : is_space d = true
    · rw [if_pos hspace] at ht
      by_cases hempty : token = []
      · rw [if_pos hempty] at ht
        exact hlater (fun e he => absurd he List.not_mem_nil) ht
      · rw [if_neg hempty] at ht
        rcases List.mem_cons.mp ht with rfl | ht
        · exact .inl hc
        · exact hlater (fun e he => absurd he List.not_mem_nil) ht
    · rw [if_neg hspace] at ht
      refine hlater (fun e he => ?_) ht
      rcases List.mem_append.mp he with he | he
      · exact .inl he
      · exact .inr ⟨List.mem_singleton.mp he, Bool.eq_false_iff.mpr hspace⟩

/-! ### One pair -/

theorem trim_of_no_space {value : CStr} (h : ∀ c ∈ value, is_space c = false) :
    trim_copy value = value := by
  have hdrop {l : CStr} (hl : ∀ c ∈ l, is_space c = false) : l.dropWhile is_space = l := by
    cases l with
    | nil => rfl
    | cons c l =>
      exact List.dropWhile_cons_of_neg (by rw [hl c List.mem_cons_self]; decide)
  rw [trim_copy, hdrop h, hdrop (fun c hc => h c (List.mem_reverse.mp hc)), List.reverse_reverse]

theorem mem_trim {value : CStr} {c : Char} (h : c ∈ trim_copy value) : c ∈ value := by
  rw [trim_copy, List.mem_reverse] at h
  have hback := List.mem_reverse.mp ((List.dropWhile_sublist _).subset h)
  exact (List.dropWhile_sublist _).subset hback

theorem strip_quotes_quoted (value : CStr) : strip_quotes_copy ('"' :: (value ++ ['"'])) = value := by
  have hlast : ('"' :: (value ++ ['"'])).getLast? = some '"' := by
    rw [← List.cons_append, List.getLast?_concat]
  have hlength : ('"' :: (value ++ ['"'])).length ≥ 2 := by
    rw [List.length_cons, List.length_append]
    exact Nat.succ_le_succ (Nat.le_add_left 1 _)
  rw [strip_quotes_copy, List.head?_cons, hlast]
  dsimp only
  rw [if_pos ⟨hlength, .inl ⟨rfl, rfl⟩⟩, List.tail_cons, List.dropLast_concat]

theorem strip_quotes_plain {value : CStr} (h : value.any is_quote = false) :
    strip_quotes_copy value = value := by
  rw [strip_quotes_copy]
  split
  · rename_i first last hfirst hlast
    rw [if_neg]
    rintro ⟨-, hquotes⟩
    have hquote := Bool.eq_false_iff.mpr (List.any_eq_false.mp h first (List.mem_of_head? hfirst))
    rcases hquotes with ⟨rfl, -⟩ | ⟨rfl, -⟩
    · exact absurd hquote (by decide)
    · exact absurd hquote (by decide)
  · rfl

theorem mem_strip_quotes {value : CStr} {c : Char} (h : c ∈ strip_quotes_copy value) : c ∈ value := by
  rw [strip_quotes_copy] at h
  split at h
  · split at h
    · exact List.mem_of_mem_tail ((List.dropLast_sublist _).subset h)
    · exact h
  · exact h

/-- A written value has the blanks and separators of the value. -/
theorem written_value_clean {value : CStr} (h : CleanValue value) : CleanValue (written_value value) := by
  rw [written_value]
  split
  · intro c hc
    rcases List.mem_cons.mp hc with rfl | hc
    · rfl
    · rcases List.mem_append.mp hc with hc | hc
      · exact h c hc
      · rw [List.mem_singleton.mp hc]
        rfl
  · exact h

theorem strip_quotes_written {value : CStr} (h : value.any is_quote = false) :
    strip_quotes_copy (written_value value) = value := by
  rw [written_value]
  split
  · exact strip_quotes_quoted value
  · exact strip_quotes_plain h

/-- A pair that is written is noted. -/
theorem add_pair_written (result : HintPairs) {p : CStr × CStr} (hkey : CleanKey p.1)
    (hlower : to_lower_copy p.1 = p.1) (hvalue : CleanValue p.2)
    (hunquoted : p.2.any is_quote = false) :
    add_pair result (written_pair p) = result.insert p.1 p.2 := by
  have hsep (c : Char) (hc : c ∈ p.1) : decide (decide (c = ':' ∨ c = '=') = false) = true := by
    have hends := hkey c hc
    simp only [ends_key, decide_eq_false_iff_not, not_or] at hends
    simp [hends.2]
  have hdrop (l : CStr) :
      (':' :: l).dropWhile (fun c => decide (decide (c = ':' ∨ c = '=') = false)) = ':' :: l := rfl
  have htake (l : CStr) :
      (':' :: l).takeWhile (fun c => decide (decide (c = ':' ∨ c = '=') = false)) = [] := rfl
  have hclean := written_value_clean hvalue
  rw [add_pair, written_pair]
  dsimp only
  rw [List.dropWhile_append_of_pos hsep, List.takeWhile_append_of_pos hsep, hdrop, htake,
    List.append_nil]
  dsimp only
  rw [trim_of_no_space fun c hc => is_space_of_splits (splits_of_ends_key (hkey c hc)), hlower,
    trim_of_no_space fun c hc => is_space_of_splits (hclean c hc), strip_quotes_written hunquoted]

/-! ## What the reader comes to -/

/-- Every character that ends a key has a small code. -/
theorem ends_key_of_le {c : Char} (h : 62 ≤ c.toNat) : ends_key c = false := by
  rw [Bool.eq_false_iff]
  intro hends
  simp only [ends_key, splits, is_space, decide_eq_true_eq] at hends
  rcases hends with ((rfl | rfl | rfl | rfl | rfl | rfl) | rfl | rfl) | rfl | rfl
  all_goals exact absurd h (by decide)

theorem ends_key_toLower {c : Char} (h : ends_key c = false) : ends_key c.toLower = false := by
  delta Char.toLower
  split
  · rename_i hupper
    refine ends_key_of_le ?_
    have hlow : 65 ≤ c.val.toNat := UInt32.le_iff_toNat_le.mp hupper.1
    have hhigh : c.val.toNat ≤ 90 := UInt32.le_iff_toNat_le.mp hupper.2
    show 62 ≤ (c.val + ('a'.val - 'A'.val)).toNat
    have hshift : ('a'.val - 'A'.val).toNat = 32 := by decide
    rw [UInt32.toNat_add, hshift, Nat.mod_eq_of_lt (by omega)]
    omega
  · exact h

/-- A store with clean keys and values only. -/
def Clean (pairs : HintPairs) : Prop :=
  ∀ key value, pairs.lookup key = some value → CleanKey key ∧ CleanValue value

theorem Clean.insert {pairs : HintPairs} (h : Clean pairs) {key value : CStr} (hkey : CleanKey key)
    (hvalue : CleanValue value) : Clean (pairs.insert key value) := by
  intro key' value' hlookup
  by_cases hsame : key' = key
  · subst hsame
    rw [AList.lookup_insert] at hlookup
    rw [← Option.some.inj hlookup]
    exact ⟨hkey, hvalue⟩
  · rw [AList.lookup_insert_ne hsame] at hlookup
    exact h key' value' hlookup

theorem add_pair_clean {result : HintPairs} (h : Clean result) {token : CStr}
    (htoken : CleanValue token) : Clean (add_pair result token) := by
  rw [add_pair]
  dsimp only
  split
  · exact h
  · rename_i c value hvalue
    refine h.insert (fun d hd => ?_) fun d hd => htoken d ?_
    · obtain ⟨e, he, rfl⟩ := List.mem_map.mp hd
      have hfront := mem_trim he
      have hword := List.mem_takeWhile_imp hfront
      have hsplits := htoken e ((List.takeWhile_sublist _).subset hfront)
      refine ends_key_toLower ?_
      simp only [decide_eq_true_eq, decide_eq_false_iff_not] at hword
      simp [ends_key, hsplits, hword]
    · have hrest : c :: value ⊆ token := hvalue ▸ (List.dropWhile_sublist _).subset
      exact hrest (List.mem_cons_of_mem c (mem_trim (mem_strip_quotes hd)))

/-- **No key and no value that is read has a blank or a separator in it.** -/
theorem decoded_clean (hint : CStr) : Clean (parse_capture_hint_pairs hint) := by
  have hrun (words : List CStr) : ∀ result, Clean result → (∀ w ∈ words, CleanValue w) →
      Clean (words.foldl add_pair result) := by
    induction words with
    | nil => exact fun result h _ => h
    | cons w words ih =>
      intro result h hwords
      exact ih _ (add_pair_clean h (hwords w List.mem_cons_self))
        fun v hv => hwords v (List.mem_cons_of_mem w hv)
  refine hrun _ _ (fun key value h => ?_) fun w hw c hc => ?_
  · rw [AList.lookup_empty] at h
    cases h
  · rcases mem_tokens (blank_out hint) [] w hw c hc with h | ⟨h, hspace⟩
    · cases h
    · exact splits_of_blank_out h hspace

/-- Pairs with different keys, noted one after another. -/
theorem lookup_noted (pairs : List (CStr × CStr)) (hdistinct : (pairs.map Prod.fst).Nodup)
    (result : HintPairs) (key value : CStr) :
    (pairs.foldl (fun r p => r.insert p.1 p.2) result).lookup key = some value ↔
      (key, value) ∈ pairs ∨ (key ∉ pairs.map Prod.fst ∧ result.lookup key = some value) := by
  induction pairs generalizing result with
  | nil => simp
  | cons p pairs ih =>
    rw [List.map_cons, List.nodup_cons] at hdistinct
    rw [List.foldl_cons, ih hdistinct.2]
    by_cases hkey : key = p.1
    · subst hkey
      have hnone (v : CStr) : (p.1, v) ∉ pairs := fun h =>
        hdistinct.1 (List.mem_map.mpr ⟨_, h, rfl⟩)
      rw [AList.lookup_insert]
      simp [hnone, hdistinct.1, Prod.ext_iff, eq_comm]
    · rw [AList.lookup_insert_ne hkey]
      have hp : (key, value) ≠ p := fun h => hkey (congrArg Prod.fst h)
      simp [hkey, hp]

variable {hint : CaptureHint}

/-- All that is in a hint can be read. -/
def CaptureHint.Readable (hint : CaptureHint) : Prop :=
  ∀ p ∈ hint.pairs, CleanKey p.1 ∧ CleanValue p.2

/-- The words of a readable hint are its pairs. -/
theorem tokens_text (h : hint.Readable) :
    tokens [] (blank_out hint.text) = hint.pairs.map written_pair := by
  have hword : ∀ w ∈ hint.pairs.map written_pair, CleanValue w := by
    intro w hw c hc
    obtain ⟨p, hp, rfl⟩ := List.mem_map.mp hw
    rcases List.mem_append.mp hc with hc | hc
    · exact splits_of_ends_key ((h p hp).1 c hc)
    · rcases List.mem_cons.mp hc with rfl | hc
      · rfl
      · exact written_value_clean (h p hp).2 c hc
  have hjoined (words : List CStr) (hwords : ∀ w ∈ words, CleanValue w) :
      blank_out ([','].intercalate words) = [' '].intercalate words := by
    induction words with
    | nil => rfl
    | cons w words ih =>
      have hw := blank_out_clean (hwords w List.mem_cons_self)
      cases words with
      | nil => rw [List.intercalate_singleton, List.intercalate_singleton, hw]
      | cons w' words =>
        rw [List.intercalate_cons_cons, List.intercalate_cons_cons, ← ih fun v hv =>
          hwords v (List.mem_cons_of_mem w hv)]
        rw [blank_out, List.map_append, List.map_append, ← blank_out, hw]
        rfl
  rw [CaptureHint.text, hjoined _ hword]
  refine tokens_intercalate _ (fun w hw => ?_) fun w hw c hc => is_space_of_splits (hword w hw c hc)
  obtain ⟨p, -, rfl⟩ := List.mem_map.mp hw
  exact List.append_ne_nil_of_right_ne_nil _ (List.cons_ne_nil _ _)

/-- A readable hint is decoded to its pairs. -/
theorem decoded_readable (h : hint.Readable) (key value : CStr) :
    (parse_capture_hint_pairs hint.text).lookup key = some value ↔ (key, value) ∈ hint.pairs := by
  have hfold (pairs : List (CStr × CStr)) (hpairs : ∀ p ∈ pairs, p ∈ hint.pairs) :
      ∀ result : HintPairs, (pairs.map written_pair).foldl add_pair result
        = pairs.foldl (fun r p => r.insert p.1 p.2) result := by
    induction pairs with
    | nil => exact fun _ => rfl
    | cons p pairs ih =>
      intro result
      have hp := hpairs p List.mem_cons_self
      rw [List.map_cons, List.foldl_cons, List.foldl_cons,
        add_pair_written result (h p hp).1 (hint.lower p hp) (h p hp).2 (hint.unquoted p hp)]
      exact ih (fun q hq => hpairs q (List.mem_cons_of_mem p hq)) _
  have hparse : parse_capture_hint_pairs hint.text
      = hint.pairs.foldl (fun r p => r.insert p.1 p.2) ∅ := by
    rw [← hfold hint.pairs (fun p hp => hp), ← tokens_text h]
    rfl
  rw [hparse, lookup_noted _ hint.distinct]
  simp

/-! ## The request -/

/-- The keys whose value is the name of the target, with its mode and its field. -/
def target_fields : List (CStr × ECaptureMode × (SRxStartCaptureMsg → CStr)) :=
  [("process".toList, .PROCESS, SRxStartCaptureMsg.proc_name),
    ("proc".toList, .PROCESS, SRxStartCaptureMsg.proc_name),
    ("container".toList, .CONTAINER, SRxStartCaptureMsg.container_id),
    ("container_id".toList, .CONTAINER, SRxStartCaptureMsg.container_id),
    ("iface".toList, .INTERFACE, SRxStartCaptureMsg.iface),
    ("interface".toList, .INTERFACE, SRxStartCaptureMsg.iface)]

/-- The other keys whose value is a text, with its field. -/
def text_fields : List (CStr × (SRxStartCaptureMsg → CStr)) :=
  [("netns".toList, SRxStartCaptureMsg.netns_path),
    ("filter".toList, SRxStartCaptureMsg.filter),
    ("protocol".toList, SRxStartCaptureMsg.protocol_filter),
    ("protocol_filter".toList, SRxStartCaptureMsg.protocol_filter),
    ("ip".toList, SRxStartCaptureMsg.ip_filter),
    ("ip_filter".toList, SRxStartCaptureMsg.ip_filter),
    ("category".toList, SRxStartCaptureMsg.category)]

/-- The texts of a hint get into the request of an alert: the target, with
which there is a request, and the others, if there is one. -/
structure Carried (hint : CaptureHint) (alert : SRxSampleMsg)
    (strategy : Option CRxStrategyConfigManager) : Prop where
  target : ∀ entry ∈ target_fields, ∀ value, (entry.1, value) ∈ hint.pairs →
    ∃ msg, prepare_capture_from_sample alert strategy = some msg ∧
      msg.capture_mode = entry.2.1 ∧ entry.2.2 msg = value
  text : ∀ msg, prepare_capture_from_sample alert strategy = some msg →
    ∀ entry ∈ text_fields, ∀ value, (entry.1, value) ∈ hint.pairs → entry.2 msg = value

/-- The target is looked up under one key. -/
theorem pairs_target_of_mem {pairs : HintPairs} {key value : CStr} {mode : ECaptureMode}
    (hvalue : pairs.lookup key = some value) (targets : List (CStr × ECaptureMode))
    (hmem : (key, mode) ∈ targets) (hmode : ∀ entry ∈ targets, entry.1 = key → entry.2 = mode)
    (hothers : ∀ entry ∈ targets, entry.1 ≠ key → pairs.lookup entry.1 = none) :
    pairs_target pairs targets = some (mode, value) := by
  induction targets with
  | nil => cases hmem
  | cons entry targets ih =>
    rw [pairs_target]
    by_cases hkey : entry.1 = key
    · rw [hkey, hvalue, hmode entry List.mem_cons_self hkey]
    · rw [hothers entry List.mem_cons_self hkey]
      refine ih ?_ (fun e he => hmode e (List.mem_cons_of_mem entry he))
        fun e he => hothers e (List.mem_cons_of_mem entry he)
      rcases List.mem_cons.mp hmem with rfl | hmem
      · exact absurd rfl hkey
      · exact hmem

theorem text_pair_of_lookup {pairs : HintPairs} {key value : CStr} (h : pairs.lookup key = some value)
    (default : CStr) : text_pair pairs key default = value := by
  rw [text_pair, h, Option.getD_some]

theorem text_pair_of_none {pairs : HintPairs} {key : CStr} (h : pairs.lookup key = none)
    (default : CStr) : text_pair pairs key default = default := by
  rw [text_pair, h, Option.getD_none]

section Carrying

variable {alert : SRxSampleMsg} {strategy : Option CRxStrategyConfigManager}
  (hdecoded : ∀ key value, (parse_capture_hint_pairs alert.capture_hint).lookup key = some value ↔
    (key, value) ∈ hint.pairs)

include hdecoded

/-- A synonym of a key that is there is not. -/
theorem lookup_synonym {group : List CStr} (hgroup : group ∈ synonyms) {key key' value : CStr}
    (hmem : (key, value) ∈ hint.pairs) (hkey : key ∈ group) (hkey' : key' ∈ group)
    (hne : key' ≠ key) : (parse_capture_hint_pairs alert.capture_hint).lookup key' = none := by
  cases hlookup : (parse_capture_hint_pairs alert.capture_hint).lookup key' with
  | none => rfl
  | some value' =>
    have hmem' := (hdecoded key' value').mp hlookup
    exact absurd (hint.one_each group hgroup _ hmem' _ hmem hkey' hkey) hne

theorem hint_target_of_mem {key value : CStr} {mode : ECaptureMode} (hkey : (key, mode) ∈ target_keys)
    (hmem : (key, value) ∈ hint.pairs) : hint_target alert.capture_hint = some (mode, value) := by
  have hnodup : ∀ entry ∈ target_keys, ∀ entry' ∈ target_keys, entry.1 = entry'.1 → entry.2 = entry'.2 := by
    decide
  have htarget := pairs_target_of_mem ((hdecoded key value).mpr hmem) target_keys hkey
    (fun entry hentry hsame => hnodup entry hentry (key, mode) hkey hsame)
    fun entry hentry hne => lookup_synonym hdecoded (List.mem_cons_self) hmem
      (List.mem_map.mpr ⟨_, hkey, rfl⟩) (List.mem_map.mpr ⟨_, hentry, rfl⟩) hne
  rw [hint_target, htarget]
  rfl

/-- With a target there is a request, and it has the target. -/
theorem prepare_of_target {key value : CStr} {mode : ECaptureMode} (hkey : (key, mode) ∈ target_keys)
    (hmem : (key, value) ∈ hint.pairs) {request : SRxStartCaptureMsg}
    (hrequest : target_request mode value = some request) :
    ∃ msg, prepare_capture_from_sample alert strategy = some msg ∧
      msg.capture_mode = request.capture_mode ∧ msg.proc_name = request.proc_name ∧
      msg.container_id = request.container_id ∧ msg.iface = request.iface := by
  have hvalue : value ≠ [] := hint.nonempty _ hmem
  have htarget_value : (if mode = .INTERFACE then non_empty_or value
      (((strategy.map fun cfg => cfg.defaults).map fun defaults => defaults.iface).getD [])
      else value) = value := by
    split
    · exact if_neg hvalue
    · rfl
  rw [prepare_capture_from_sample, hint_target_of_mem hdecoded hkey hmem]
  dsimp only [Option.bind_eq_bind, Option.bind_some]
  rw [htarget_value, hrequest]
  exact ⟨_, rfl, rfl, rfl, rfl, rfl⟩

/-- What is decoded as it was written gets into the request. -/
theorem carried_of_decoded : Carried hint alert strategy where
  target entry hentry value hmem := by
    have hvalue : value ≠ [] := hint.nonempty _ hmem
    have hprocess : target_request .PROCESS value
        = some { capture_mode := .PROCESS, proc_name := value } := if_neg hvalue
    have hcontainer : target_request .CONTAINER value
        = some { capture_mode := .CONTAINER, container_id := value } := if_neg hvalue
    have hinterface : target_request .INTERFACE value
        = some { capture_mode := .INTERFACE, iface := value } := if_neg hvalue
    simp only [target_fields, List.mem_cons, List.not_mem_nil, or_false] at hentry
    rcases hentry with rfl | rfl | rfl | rfl | rfl | rfl
    · obtain ⟨msg, hmsg, hmode, hfield, -⟩ := prepare_of_target hdecoded (by decide) hmem hprocess
      exact ⟨msg, hmsg, hmode, hfield⟩
    · obtain ⟨msg, hmsg, hmode, hfield, -⟩ := prepare_of_target hdecoded (by decide) hmem hprocess
      exact ⟨msg, hmsg, hmode, hfield⟩
    · obtain ⟨msg, hmsg, hmode, -, hfield, -⟩ := prepare_of_target hdecoded (by decide) hmem hcontainer
      exact ⟨msg, hmsg, hmode, hfield⟩
    · obtain ⟨msg, hmsg, hmode, -, hfield, -⟩ := prepare_of_target hdecoded (by decide) hmem hcontainer
      exact ⟨msg, hmsg, hmode, hfield⟩
    · obtain ⟨msg, hmsg, hmode, -, -, hfield⟩ := prepare_of_target hdecoded (by decide) hmem hinterface
      exact ⟨msg, hmsg, hmode, hfield⟩
    · obtain ⟨msg, hmsg, hmode, -, -, hfield⟩ := prepare_of_target hdecoded (by decide) hmem hinterface
      exact ⟨msg, hmsg, hmode, hfield⟩
  text msg hmsg entry hentry value hmem := by
    have hvalue : value ≠ [] := hint.nonempty _ hmem
    have hlookup := (hdecoded entry.1 value).mpr hmem
    unfold prepare_capture_from_sample at hmsg
    obtain ⟨target, -, hmsg⟩ := Option.bind_eq_some_iff.mp hmsg
    obtain ⟨request, -, hmsg⟩ := Option.bind_eq_some_iff.mp hmsg
    rw [← Option.some.inj hmsg]
    simp only [text_fields, List.mem_cons, List.not_mem_nil, or_false] at hentry
    rcases hentry with rfl | rfl | rfl | rfl | rfl | rfl | rfl
    · exact text_pair_of_lookup hlookup _
    · exact text_pair_of_lookup hlookup _
    · have hgroup : ["protocol".toList, "protocol_filter".toList] ∈ synonyms := by decide
      have hnone : (parse_capture_hint_pairs alert.capture_hint).lookup "protocol_filter".toList = none :=
        lookup_synonym hdecoded hgroup hmem (by decide) (by decide) (by decide)
      exact (text_pair_of_none hnone _).trans (text_pair_of_lookup hlookup _)
    · exact text_pair_of_lookup hlookup _
    · have hgroup : ["ip".toList, "ip_filter".toList] ∈ synonyms := by decide
      have hnone : (parse_capture_hint_pairs alert.capture_hint).lookup "ip_filter".toList = none :=
        lookup_synonym hdecoded hgroup hmem (by decide) (by decide) (by decide)
      exact (text_pair_of_none hnone _).trans (text_pair_of_lookup hlookup _)
    · exact text_pair_of_lookup hlookup _
    · have hcategory : text_pair (parse_capture_hint_pairs alert.capture_hint) "category".toList
          alert.capture_category = value := text_pair_of_lookup hlookup _
      show sample_category _ alert _ = value
      rw [sample_category, hcategory]
      exact if_neg hvalue

end Carrying

/-- **A hint is read back as it was written exactly when nothing in it has a
blank or a separator** (or, in a key, a colon or an equals sign), quoted or
not. -/
theorem hint_read_back_iff (hint : CaptureHint) :
    ((∀ key value, (parse_capture_hint_pairs hint.text).lookup key = some value ↔
        (key, value) ∈ hint.pairs) ∧
      ∀ (alert : SRxSampleMsg) (strategy : Option CRxStrategyConfigManager),
        alert.capture_hint = hint.text → Carried hint alert strategy) ↔
      hint.Readable := by
  constructor
  · rintro ⟨hdecoded, -⟩ p hp
    exact decoded_clean hint.text p.1 p.2 ((hdecoded p.1 p.2).mpr hp)
  · intro h
    refine ⟨decoded_readable h, fun alert strategy htext => carried_of_decoded ?_⟩
    rw [htext]
    exact decoded_readable h

/-- The hint of a filter with blanks. -/
def tcp_hint : CaptureHint where
  pairs := [("iface".toList, "eth0".toList), ("filter".toList, "tcp port 80".toList)]
  distinct := by decide
  lower := by decide
  one_each := by decide
  nonempty := by decide
  unquoted := by decide
  no_blank_ends := by decide

/-- The capture gets the first word of the filter, with a quote in front. -/
theorem tcp_filter_cut :
    tcp_hint.text = "iface:eth0,filter:\"tcp port 80\"".toList ∧
      (parse_capture_hint_pairs tcp_hint.text).lookup "filter".toList = some "\"tcp".toList ∧
      (prepare_capture_from_sample { capture_hint := tcp_hint.text } none).map (·.filter)
        = some "\"tcp".toList := by
  decide +kernel

end RxNetCap.Capture
