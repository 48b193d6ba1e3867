/-
The text that `writeback_pdef_endian` of `src/rxreloadthread.cpp` makes of a
PDEF text.

The reload thread has a writer of its own. It leaves a text alone that has an
`endian` with a blank behind it, and inserts a line behind the first brace after
the first `protocol` with a blank behind it. The line is the one of the old
syntax: there is no `=` in it, and its comment starts with `#`, at which the
lexer stops with an error. So no text is loadable after it (`writeback_keeps_iff`),
unless the brace is in the string of a name and the line is lost in it.
-/
import RxNetCap.Capture.EndianText
import RxNetCap.Capture.Naming
import RxNetCap.Pdef.Insertion

set_option autoImplicit false

namespace RxNetCap.Capture

open RxNetCap.Search RxNetCap.Pdef

/-! ## The function -/

/-- What `localtime_r` fills in, with the seconds. -/
structure LocalTime extends Tm where
  tm_sec : ℕ := 0
  deriving DecidableEq, Repr

/-- `strftime` with `"%Y-%m-%d %H:%M:"`, the seconds left out. -/
def minutes (tm : Tm) : CStr :=
  decimal (tm.tm_year + 1900) ++ '-' :: (zero_padded 2 (tm.tm_mon + 1)
    ++ '-' :: (zero_padded 2 tm.tm_mday ++ ' ' :: (zero_padded 2 tm.tm_hour
    ++ ':' :: (zero_padded 2 tm.tm_min ++ [':']))))

/-- The line up to the seconds. -/
def line_stem (tm : LocalTime) (detected_endian : EndianType) : CStr :=
  "\n    endian ".toList ++ endian_str detected_endian ++ ";  # auto-detected on ".toList
    ++ minutes tm.toTm

def line_ending (tm : LocalTime) : CStr := zero_padded 2 tm.tm_sec ++ ['\n']

/-- `endian_line`; the buffers of the time and of the line are never too small. -/
def dated_line (tm : LocalTime) (detected_endian : EndianType) : CStr :=
  line_stem tm detected_endian ++ line_ending tm

/-- The text that is written, if one is. -/
def writeback_pdef_endian (tm : LocalTime) (detected_endian : EndianType) (content : CStr) :
    Option CStr := do
  if (find "endian ".toList content).isSome then none
  let protocol_pos ← find "protocol ".toList content
  let brace_pos ← find_from ['\x7b'] protocol_pos content
  return content.take (brace_pos + 1) ++ dated_line tm detected_endian
    ++ content.drop (brace_pos + 1)

/-! ## Where the line goes -/

/-- The brace between `front` and `post` is the one the line goes behind. -/
structure Insertion (content front post : CStr) : Prop where
  eq : content = front ++ '\x7b' :: post
  unset : ∀ n, ¬ Occurs "endian ".toList content n
  brace : ∃ n, FirstAt "protocol ".toList content n ∧ n ≤ front.length ∧ '\x7b' ∉ front.drop n

theorem Insertion.take_drop {content front post : CStr} (h : Insertion content front post) :
    content.take (front.length + 1) = front ++ ['\x7b'] ∧ content.drop (front.length + 1) = post := by
  have hsplit : content = (front ++ ['\x7b']) ++ post := by
    rw [h.eq, List.append_assoc]
    rfl
  have hlength : front.length + 1 = (front ++ ['\x7b']).length := by rw [List.length_append]; rfl
  rw [hsplit, hlength]
  exact ⟨List.take_left, List.drop_left⟩

/-- The brace is the one that is found. -/
theorem brace_pos_iff {content : CStr} {n brace_pos : ℕ} (hn : n ≤ content.length) :
    find_from ['\x7b'] n content = some brace_pos ↔
      ∃ front post, content = front ++ '\x7b' :: post ∧ n ≤ front.length ∧ '\x7b' ∉ front.drop n ∧
        brace_pos = front.length := by
  rw [find_from_eq_some]
  constructor
  · rintro ⟨between, post, hsplit, hnot, rfl⟩
    have hlength : (content.take n).length = n := List.length_take_of_le hn
    refine ⟨content.take n ++ between, post, ?_, ?_, ?_, ?_⟩
    · rw [List.append_assoc, ← hsplit, List.take_append_drop]
    · rw [List.length_append, hlength]
      exact Nat.le_add_right _ _
    · rw [List.drop_left' hlength]
      exact hnot
    · rw [List.length_append, hlength]
  · rintro ⟨front, post, rfl, hle, hnot, rfl⟩
    refine ⟨front.drop n, post, List.drop_append_of_le_length hle, hnot, ?_⟩
    rw [List.length_drop]
    omega

/-- **What the writer does**: it inserts the line where there is a place for it. -/
theorem writeback_pdef_endian_eq_some {tm : LocalTime} {d : EndianType} {content new : CStr} :
    writeback_pdef_endian tm d content = some new ↔
      ∃ front post, Insertion content front post ∧
        new = front ++ '\x7b' :: (dated_line tm d ++ post) := by
  have hendian : "endian ".toList ≠ [] := by decide
  have hprotocol : "protocol ".toList ≠ [] := by decide
  have hline {front post : CStr} (h : Insertion content front post) :
      content.take (front.length + 1) ++ dated_line tm d ++ content.drop (front.length + 1)
        = front ++ '\x7b' :: (dated_line tm d ++ post) := by
    rw [h.take_drop.1, h.take_drop.2]
    simp only [List.append_assoc, List.cons_append, List.nil_append]
  rw [writeback_pdef_endian]
  by_cases hset : (find "endian ".toList content).isSome
  · rw [if_pos hset]
    refine iff_of_false nofun ?_
    rintro ⟨front, post, hplace, -⟩
    obtain ⟨n, hfind⟩ := Option.isSome_iff_exists.mp hset
    exact hplace.unset n ((find_eq_some hendian).mp hfind).occurs
  · rw [if_neg hset]
    have hunset := (find_eq_none hendian).mp (Option.not_isSome_iff_eq_none.mp hset)
    simp only [Option.bind_eq_bind, Option.pure_def, Option.bind_eq_some_iff, Option.some.injEq]
    constructor
    · rintro ⟨n, hfind, brace_pos, hbrace, rfl⟩
      have hfirst := (find_eq_some hprotocol).mp hfind
      obtain ⟨before, after, hsplit, rfl⟩ := hfirst.occurs.split hprotocol
      have hn : before.length ≤ content.length := by
        rw [hsplit, List.length_append, List.length_append]
        omega
      obtain ⟨front, post, heq, hle, hnot, rfl⟩ := (brace_pos_iff hn).mp hbrace
      have hplace : Insertion content front post := ⟨heq, hunset, _, hfirst, hle, hnot⟩
      exact ⟨front, post, hplace, hline hplace⟩
    · rintro ⟨front, post, hplace, rfl⟩
      obtain ⟨n, hfirst, hle, hnot⟩ := hplace.brace
      have hn : n ≤ content.length := by
        rw [hplace.eq, List.length_append]
        omega
      refine ⟨n, (find_eq_some hprotocol).mpr hfirst, front.length, ?_, hline hplace⟩
      exact (brace_pos_iff hn).mpr ⟨front, post, hplace.eq, hle, hnot, rfl⟩

/-! ## The line -/

theorem plain_of_digit {c : Char} (h : c.isDigit = true) : is_plain c = true := by
  have hdigit : is_digit c = true := by
    rw [Char.isDigit, Bool.and_eq_true, decide_eq_true_eq, decide_eq_true_eq] at h
    rw [is_digit, Bool.and_eq_true, decide_eq_true_eq, decide_eq_true_eq]
    exact h
  rw [is_plain, is_alnum, hdigit, Bool.or_true]
  rfl

theorem number_all {u : CStr} (h : ∀ c ∈ u, NumberChar c) :
    u.all fun c => is_plain c || is_stray c := by
  refine List.all_eq_true.mpr fun c hc => ?_
  rcases h c hc with hdigit | rfl
  · rw [plain_of_digit hdigit, Bool.true_or]
  · rfl

theorem line_opening : "\n    endian ".toList = '\n' :: "    endian ".toList ∧
    ("\n    endian ".toList.all fun c => is_plain c || is_stray c) = true ∧
    (";  # auto-detected on ".toList.all fun c => is_plain c || is_stray c) = true := by
  decide

theorem endian_str_plain (d : EndianType) :
    ((endian_str d).all fun c => is_plain c || is_stray c) = true := by
  cases d <;> decide

theorem minutes_all (tm : Tm) : ((minutes tm).all fun c => is_plain c || is_stray c) = true := by
  have hmark : (is_plain '-' || is_stray '-') = true ∧ (is_plain ' ' || is_stray ' ') = true ∧
      (is_plain ':' || is_stray ':') = true := by decide
  simp only [minutes, List.all_append, List.all_cons, List.all_nil, hmark,
    number_all (decimal_chars _), number_all (zero_padded_chars _ _), Bool.true_and]

/-- The line begins with a newline, and has no character that a string does not
take; in the stem the lexer stops, and behind the stem there are only digits. -/
theorem dated_line_spoils (tm : LocalTime) (d : EndianType) :
    Spoils (line_stem tm d) (line_ending tm) := by
  obtain ⟨hopening, hplain, hcomment⟩ := line_opening
  refine ⟨?_, ?_, ?_, ?_⟩
  · unfold line_stem
    rw [hopening, List.cons_append, List.cons_append, List.cons_append, List.head?_cons]
  · unfold line_stem
    rw [List.all_append, List.all_append, List.all_append, hplain, hcomment, endian_str_plain,
      minutes_all, Bool.and_true, Bool.and_true, Bool.and_true]
  · refine ⟨"\n    endian ".toList ++ endian_str d ++ ";  # auto-detected on ".toList
      ++ (decimal (tm.tm_year + 1900) ++ '-' :: (zero_padded 2 (tm.tm_mon + 1)
        ++ '-' :: (zero_padded 2 tm.tm_mday ++ ' ' :: (zero_padded 2 tm.tm_hour
          ++ ':' :: zero_padded 2 tm.tm_min)))), ':', ?_, rfl⟩
    unfold line_stem minutes
    simp only [List.append_assoc, List.cons_append]
  · have hdigits : (zero_padded 2 tm.tm_sec).all is_plain := by
      refine List.all_eq_true.mpr fun c hc => plain_of_digit ?_
      have hnot : ¬ ((tm.tm_sec : ℤ) < 0) := Int.not_lt.mpr (Int.natCast_nonneg _)
      rw [zero_padded, if_neg hnot] at hc
      exact leftpad_digit hc
    rw [line_ending, List.all_append, hdigits]
    rfl

/-! ## What the rewritten text is worth -/

/-- The mode of a text in which the byte order is written. -/
def written_mode (detected_endian : EndianType) : EndianMode :=
  if detected_endian = .BIG then .BIG else .LITTLE

/-- A load in big-endian order. -/
def Instruction.unordered (ins : Instruction) : Instruction :=
  match ins.opcode with
  | .LOAD_U16_LE | .LOAD_U32_LE | .LOAD_U64_LE | .LOAD_I16_LE | .LOAD_I32_LE | .LOAD_I64_LE =>
    swap_endian ins
  | _ => ins

/-- The same filter, whatever the byte order of its loads. -/
structure SameFilter (rule rule' : FilterRule) : Prop where
  name : rule'.name = rule.name
  struct_name : rule'.struct_name = rule.struct_name
  code : rule'.bytecode.elems.map Instruction.unordered
    = rule.bytecode.elems.map Instruction.unordered
  min_packet_size : rule'.min_packet_size = rule.min_packet_size
  sliding_window : rule'.sliding_window = rule.sliding_window
  sliding_max_offset : rule'.sliding_max_offset = rule.sliding_max_offset

/-- The text is accepted with the byte order, and with the structs and the
filters of `proto`. -/
def Reloads (d : EndianType) (proto : ProtocolDef) (content : CStr) : Prop :=
  ∃ proto', (pdef_parse_string content).1 = .accepted proto' ∧
    proto'.endian_mode = written_mode d ∧
    ((structs_of proto').map fun s => s.shape.untagged)
      = ((structs_of proto).map fun s => s.shape.untagged) ∧
    List.Forall₂ SameFilter (rules_of proto) (rules_of proto')

theorem Reloads.of_same {d : EndianType} {proto : ProtocolDef} {content content' : CStr}
    (hsame : SameLex content content') (h : Reloads d proto content) : Reloads d proto content' := by
  obtain ⟨proto', haccepted, hkeeps⟩ := h
  obtain ⟨name, hagain⟩ := accepted_of_same hsame.1 hsame.2 haccepted
  exact ⟨{ proto' with name := name }, hagain, hkeeps⟩

/-- The text with blanks in the place of the line, up to the seconds. -/
def blanked (tm : LocalTime) (d : EndianType) (front post : CStr) : CStr :=
  front ++ '\x7b' :: (List.replicate (line_stem tm d).length ' ' ++ (line_ending tm ++ post))

/-- **When the reload thread keeps a file loadable**: only where it writes
nothing, or where the brace is in a string that the line makes too long for a
token, and the rest of the string that falls out of it sets the byte order. -/
theorem writeback_keeps_iff {source : CStr} {proto : ProtocolDef}
    (h : (pdef_parse_string source).1 = .accepted proto) (hauto : proto.endian_mode = .AUTO)
    (tm : LocalTime) (d : EndianType) :
    (∀ new, writeback_pdef_endian tm d source = some new → Reloads d proto new) ↔
      ∀ front post, Insertion source front post →
        Overlong source post (line_stem tm d).length (line_ending tm).length ∧
          Reloads d proto (blanked tm d front post) := by
  have hmode : written_mode d ≠ .AUTO := by cases d <;> decide
  have hlines {front post : CStr} : front ++ '\x7b' :: (dated_line tm d ++ post)
      = front ++ '\x7b' :: (line_stem tm d ++ (line_ending tm ++ post)) := by
    rw [dated_line, List.append_assoc]
  constructor
  · intro hkeeps front post hplace
    have hnew := hkeeps _ (writeback_pdef_endian_eq_some.mpr ⟨front, post, hplace, rfl⟩)
    rw [hlines] at hnew
    obtain ⟨proto', haccepted, hwritten, -⟩ := id hnew
    rcases lex_inserted (dated_line_spoils tm d) post _ front (Nat.lt_succ_self _)
      with ⟨herror, -⟩ | ⟨hsame, -⟩ | ⟨hsame, hlong⟩
    · rw [accepted_last haccepted] at herror
      cases herror
    · -- the line is lost in the string, and nothing sets the byte order
      rw [← hplace.eq] at hsame
      obtain ⟨name, hagain⟩ := accepted_of_same hsame.1 hsame.2 h
      rw [haccepted] at hagain
      injection hagain with hproto
      rw [hproto] at hwritten
      exact absurd (hwritten.symm.trans hauto) hmode
    · rw [← hplace.eq] at hlong
      exact ⟨hlong, hnew.of_same hsame.symm⟩
  · intro hcondition new hwrite
    obtain ⟨front, post, hplace, rfl⟩ := writeback_pdef_endian_eq_some.mp hwrite
    obtain ⟨hlong, hblank⟩ := hcondition front post hplace
    rw [hlines]
    rw [hplace.eq] at hlong
    rcases lex_inserted (dated_line_spoils tm d) post _ front (Nat.lt_succ_self _)
      with ⟨-, hnot⟩ | ⟨-, hnot⟩ | ⟨hsame, -⟩
    · exact absurd hlong hnot
    · exact absurd hlong hnot
    · exact hblank.of_same hsame

def automatic_text : CStr := "@protocol \x7b endian = auto; \x7d".toList

/-- A text that names its byte order is left alone. -/
theorem automatic_text_kept : ∃ proto, (pdef_parse_string automatic_text).1 = .accepted proto ∧
    proto.endian_mode = .AUTO ∧
    ∀ new, writeback_pdef_endian {} .BIG automatic_text = some new → Reloads .BIG proto new := by
  have hparse : (pdef_parse_string automatic_text).1.protocol?.map (·.endian_mode) = some .AUTO := by
    decide +kernel
  obtain ⟨proto, hproto, hauto⟩ := Option.map_eq_some_iff.mp hparse
  have haccepted := ParseResult.protocol?_eq_some.mp hproto
  refine ⟨proto, haccepted, hauto, (writeback_keeps_iff haccepted hauto {} .BIG).mpr ?_⟩
  intro front post hplace
  refine absurd ?_ (hplace.unset 12)
  unfold Occurs
  decide +kernel

def named_text : CStr := "@protocol \x7b name = \"a\"; \x7d".toList

/-- Any other one is not: no text with the line in it is loaded. -/
theorem named_text_lost : ∃ proto new, (pdef_parse_string named_text).1 = .accepted proto ∧
    proto.endian_mode = .AUTO ∧ writeback_pdef_endian {} .BIG named_text = some new ∧
    ¬ Reloads .BIG proto new := by
  have hparse : (pdef_parse_string named_text).1.protocol?.map (·.endian_mode) = some .AUTO := by
    decide +kernel
  have hwrite : (writeback_pdef_endian {} .BIG named_text).map
      (fun new => (pdef_parse_string new).1.protocol?) = some none := by
    decide +kernel
  obtain ⟨proto, hproto, hauto⟩ := Option.map_eq_some_iff.mp hparse
  obtain ⟨new, hnew, hnone⟩ := Option.map_eq_some_iff.mp hwrite
  refine ⟨proto, new, ParseResult.protocol?_eq_some.mp hproto, hauto, hnew, ?_⟩
  rintro ⟨proto', haccepted, -⟩
  rw [haccepted] at hnone
  cases hnone

end RxNetCap.Capture
