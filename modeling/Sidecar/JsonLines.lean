import Sidecar.Lib.Json
import Sidecar.Lines
import Sidecar.Rotation

/-!
# JSON log lines

With `LOG_FORMAT` unset or anything but `LOGFMT` each line is an object with the members `time`,
`level` and `msg`, and the strings are what `serde_json::to_string` makes of them: of that only the
grammar is used here, that it writes every string as a JSON string without control characters in it.
Any log is then read back, line by line, as the messages that were printed, whatever is in them
(`json_log_reads_back`); Logfmt has this only for messages without bare newlines. A rotating file
takes up whole lines, so each of its files can be read on its own and together they are read back as
the latest messages (`rotated_log_reads_back`).
-/

namespace Sidecar

namespace Logger

open Chain

/-- `toJson` writes strings as JSON strings. -/
def WritesJson (toJson : String → String) : Prop := ∀ s, Json.Token s.toList (toJson s).toList

/-- The line of a message that is enabled. -/
def lineOf (toJson : String → String) (l : Logger) (m : Message) : String :=
  l.format.line toJson (timestamp m.clock l.utc) m.level m.msg

section Json

variable {toJson : String → String} (hjson : WritesJson toJson) {l : Logger}
  (hformat : l.format = .json)
include hjson hformat

theorem writesLine (m : Message) : Json.WritesLine (record l m) (lineOf toJson l m).toList := by
  have hkey : ∀ key ∈ ["time", "level", "msg"], Json.quote key.toList = '"' ::
      (key.toList ++ ['"']) := by decide
  have htime := hkey "time" (by decide) ▸ Json.token_quote "time".toList
  have hlevel := hkey "level" (by decide) ▸ Json.token_quote "level".toList
  have hmsg := hkey "msg" (by decide) ▸ Json.token_quote "msg".toList
  refine ⟨_, ?_,
    .cons htime (hjson _) (.cons hlevel (hjson m.level.name) (.one hmsg (hjson m.msg)))⟩
  rw [lineOf, hformat]
  simp [Format.line]

theorem readLog_lineOf (m : Message) : Json.readLog (lineOf toJson l m) = some [record l m] :=
  Json.readLog_line (writesLine hjson hformat m)

/-- **A JSON log loses nothing.** What is printed is one line for each enabled message, without
control characters but the newlines at the ends of the lines, and it is read back as these
messages. -/
theorem json_log_reads_back (ms : List Message) :
    Json.readLog (printed toJson l ms) = some (records l ms) ∧
      (printed toJson l ms).toList.count '\n' = (records l ms).length ∧
      ∀ c ∈ (printed toJson l ms).toList, c.toNat < 0x20 → c = '\n' := by
  induction ms with
  | nil => exact ⟨rfl, rfl, fun c hc => absurd hc List.not_mem_nil⟩
  | cons m ms ih =>
    obtain ⟨hread, hcount, hcontrol⟩ := ih
    by_cases hm : Enabled l m
    · have hrecords : records l (m :: ms) = record l m :: records l ms := by
        simp [records, hm]
      obtain ⟨text, htext, hplain⟩ := (writesLine hjson hformat m).plain
      have hnewline : '\n' ∉ text := fun h => absurd (hplain _ h) (by decide)
      have hprinted : printed toJson l (m :: ms) = lineOf toJson l m ++ printed toJson l ms := by
        rw [printed, emit_text hm, lineOf]
      rw [hprinted, hrecords]
      refine ⟨Json.readLog_append (readLog_lineOf hjson hformat m) hread, ?_, fun c hc hlow => ?_⟩
      · rw [String.toList_append, htext, List.count_append, List.count_append,
          List.count_eq_zero_of_not_mem hnewline,
          List.count_singleton_self, hcount, List.length_cons]
        omega
      · rw [String.toList_append, htext, List.mem_append, List.mem_append, List.mem_singleton] at hc
        rcases hc with (hc | hc) | hc
        · exact absurd (hplain c hc) (Nat.not_le_of_lt hlow)
        · exact hc
        · exact hcontrol c hc hlow
    · have hrecords : records l (m :: ms) = records l ms := by
        simp [records, hm]
      rw [printed, emit_text_of_not_enabled hm, String.empty_append, hrecords]
      exact ⟨hread, hcount, hcontrol⟩

end Json

/-- `serde_json::to_string` of a string. -/
def sampleToJson (s : String) : String := String.ofList (Json.quote s.toList)

theorem sampleToJson_writes : WritesJson sampleToJson := by
  intro s
  rw [sampleToJson, String.toList_ofList]
  exact Json.token_quote s.toList

def sampleLogger (sink : Option RotatingFile) : Logger := ⟨.info, .json, true, sink⟩

def sampleMessages : List Message :=
  [⟨sampleClock, .info, "a\nb"⟩, ⟨sampleClock, .debug, "c"⟩, ⟨sampleClock, .error, "\"\x01"⟩]

theorem json_log_reads_back_sample :
    (Json.readLog (printed sampleToJson (sampleLogger none) sampleMessages)).map
      (·.map (·.lookup "msg")) =
      some [some "a\nb", some "\"\x01"] := by
  rw [(json_log_reads_back sampleToJson_writes rfl sampleMessages).1]
  decide

/-! ## The rotating file -/

/-- The line that goes to the file. -/
def Output.line : Output → Option Line
  | .file _ text => some ⟨(utf8 text).dropLast⟩
  | _ => none

/-- What the calls hand to the file, one after the other. -/
def handed (toJson : String → String) (l : Logger) (ms : List Message) : List Line :=
  ms.filterMap fun m => (emit toJson (some l) m.clock m.level m.msg).line

/-- The file can be read on its own. -/
def ReadsAs (bytes : Bytes) (records : List (List (String × String))) : Prop :=
  ∃ text, bytes = utf8 text ∧ Json.readLog text = some records

section Rotating

variable {toJson : String → String} {l : Logger} {f : RotatingFile}

theorem handed_bytes (hsink : l.sink = some f) (ms : List Message) :
    (handed toJson l ms).map Line.bytes = (ms.filter (Enabled l ·)).map fun m =>
      utf8 (lineOf toJson l m) := by
  have hbytes : ∀ m, Line.bytes ⟨(utf8 (lineOf toJson l m)).dropLast⟩ =
      utf8 (lineOf toJson l m) := by
    intro m
    obtain ⟨line, hline⟩ := line_bytes toJson l.format (timestamp m.clock l.utc) m.level m.msg
    rw [lineOf, hline, Line.bytes, Line.bytes, List.dropLast_concat]
  induction ms with
  | nil => rfl
  | cons m ms ih =>
    unfold handed at ih ⊢
    by_cases hm : Enabled l m
    · have hlevel : ¬ m.level.severity < l.level.severity := Nat.not_lt_of_le hm
      have hemit : (emit toJson (some l) m.clock m.level m.msg).line =
          some ⟨(utf8 (lineOf toJson l m)).dropLast⟩ := by
        simp only [emit, if_neg hlevel, hsink, Output.line, lineOf]
      rw [List.filterMap_cons, hemit, List.map_cons, ih, hbytes,
        List.filter_cons_of_pos (by simpa using hm),
        List.map_cons]
    · have hlevel : m.level.severity < l.level.severity := Nat.lt_of_not_le hm
      have hemit : (emit toJson (some l) m.clock m.level m.msg).line = none := by
        simp only [emit, if_pos hlevel, Output.line]
      rw [List.filterMap_cons, hemit, ih, List.filter_cons_of_neg (by simpa using hm)]

/-- The log of the start reads as its files do, and a missing one as nothing. -/
theorem start_readAs (hb : 0 < f.backup_count) {folder : Folder}
    {before : List (List (List (String × String)))}
    (h : List.Forall₂ ReadsAs (f.files folder) before) :
    ∃ closed current, (f.log folder).ReadAs ReadsAs closed current ∧
    closed.flatten ++ current = before.flatten := by
  rw [files_eq hb] at h
  cases hcurrent : folder f.path with
  | none =>
    rw [hcurrent, Option.toList_none, List.append_nil] at h
    refine ⟨before, [], ⟨h, ?_⟩, List.append_nil _⟩
    rw [RotatingFile.log, hcurrent]
    exact ⟨"", rfl, rfl⟩
  | some bytes =>
    rw [hcurrent, Option.toList_some] at h
    have hclosed := List.forall₂_take (f.log folder).closed.length h
    have hlast := List.forall₂_drop (f.log folder).closed.length h
    rw [List.take_left] at hclosed
    rw [List.drop_left] at hlast
    obtain ⟨c, rest, hc, hnil, hdrop⟩ := List.forall₂_cons_left_iff.1 hlast
    obtain rfl := List.forall₂_nil_left_iff.1 hnil
    refine ⟨_, c, ⟨hclosed, ?_⟩, ?_⟩
    · rw [RotatingFile.log, hcurrent]
      exact hc
    · conv_rhs => rw [← List.take_append_drop (f.log folder).closed.length before, hdrop]
      simp

/-- **A rotated log can be read.** After any run without failures every file of the chain reads on
its own, and together they read as the last of the records that were there and the messages that
were printed since, the latest of them included. -/
theorem rotated_log_reads_back (hjson : WritesJson toJson) (hformat : l.format = .json)
    (hsink : l.sink = some f) (hmax : 0 < f.max_bytes) (hb : 0 < f.backup_count) {folder : Folder}
    {before : List (List (List (String × String)))}
    (hbefore : List.Forall₂ ReadsAs (f.files folder) before) (ms : List Message) :
    ∃ s, f.run ((handed toJson l ms).map fun line => (.none, line)) (f.start folder) = .ok s ∧
      ∃ parts, List.Forall₂ ReadsAs (f.files s.folder) parts ∧
      parts.flatten <:+ before.flatten ++ records l ms ∧
        (records l ms ≠ [] → parts.flatten ≠ []) := by
  obtain ⟨closed, current, hread, hall⟩ := start_readAs hb hbefore
  obtain ⟨s, hrun, htail, -⟩ := run_tail hmax hb rfl (start_tail hb folder) (handed toJson l ms)
  have hnew : ∀ m, ReadsAs (utf8 (lineOf toJson l m)) [record l m] := fun m =>
    ⟨_, rfl, readLog_lineOf hjson hformat m⟩
  have hmore : ∀ bytes rs m, ReadsAs bytes rs →
      ReadsAs (bytes ++ utf8 (lineOf toJson l m)) (rs ++ [record l m]) := by
    rintro _ rs m ⟨text, rfl, htext⟩
    exact ⟨text ++ lineOf toJson l m, by simp [utf8],
      Json.readLog_append htext (readLog_lineOf hjson hformat m)⟩
  obtain ⟨closed', current', hread', hall', hne⟩ :=
    hread.fill f.max_bytes.toNat _ (record l) hnew hmore (ms.filter (Enabled l ·))
  rw [handed_bytes hsink] at htail
  obtain ⟨kept, hkept, hparts⟩ := htail.readAs hread'
  refine ⟨s, hrun, kept ++ [current'], hparts, ?_, fun hsome => ?_⟩
  · obtain ⟨dropped, rfl⟩ := hkept
    refine ⟨dropped.flatten, ?_⟩
    rw [records, ← hall, ← hall']
    simp
  · have hcurrent := hne fun hnil => hsome (by rw [records, hnil, List.map_nil])
    simp [hcurrent]

theorem rotated_log_reads_back_sample :
    ∃ s, sampleLog.run
      ((handed sampleToJson (sampleLogger (some sampleLog)) sampleMessages).map fun line =>
        (.none, line)) (sampleLog.start fun _ => none) = .ok s ∧
      ∃ parts, List.Forall₂ ReadsAs (sampleLog.files s.folder) parts ∧ parts.flatten ≠ [] := by
  have hsink : (sampleLogger (some sampleLog)).sink = some sampleLog := rfl
  have hempty : List.Forall₂ ReadsAs (sampleLog.files fun _ => none) [] := .nil
  obtain ⟨s, hrun, parts, hparts, -, hne⟩ :=
    rotated_log_reads_back sampleToJson_writes rfl hsink (by decide)
      (by decide) hempty sampleMessages
  exact ⟨s, hrun, parts, hparts, hne (by decide)⟩

end Rotating

end Logger

end Sidecar
