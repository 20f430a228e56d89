import Sidecar.Lib.Logfmt
import Sidecar.Lib.Text
import Sidecar.Logger
import Sidecar.Sys

/-!
# Log lines

`emit` of logger.rs up to the write: the level filter, the time stamp and the line in either format.
What `serde_json::to_string` makes of a string is the parameter `toJson`; the time stamps that
chrono makes are a `Clock`, of which only `Clock.IsPlain` is used.

In Logfmt the value of `msg` is quoted when it is empty or has a space, an equals sign or a quote in
it, and only then is a newline escaped. Any line is read back to the message it was built for, but
one with a bare newline in it is more than one line (`count_newline_line`); a log is read line by
line as the messages that were printed exactly when there is none (`logfmt_log_reads_back`).
-/

namespace Sidecar

def Level.severity : Level → ℕ
  | .debug => 10
  | .info => 20
  | .warning => 30
  | .error => 40
  | .critical => 50

def Level.name : Level → String
  | .debug => "DEBUG"
  | .info => "INFO"
  | .warning => "WARNING"
  | .error => "ERROR"
  | .critical => "CRITICAL"

namespace Logger

/-! ## Time stamps -/

/-- What chrono writes of the time as `%Y-%m-%dT%H:%M:%S%.6f%:z`, in either time zone. -/
structure Clock where
  utcNow : String
  localNow : String

def timestamp (clock : Clock) (utc : Bool) : String :=
  if utc then clock.utcNow else clock.localNow

/-! ## Lines -/

inductive Format
  | json
  | logfmt
  deriving DecidableEq

def needsQuotes (v : String) : Prop :=
  v = "" ∨ ' ' ∈ v.toList ∨ '=' ∈ v.toList ∨ '"' ∈ v.toList

instance (v : String) : Decidable (needsQuotes v) := inferInstanceAs (Decidable (_ ∨ _))

def logfmtValue (v : String) : String :=
  if needsQuotes v then
    let escaped := Text.replace (Text.replace (Text.replace v '\\' "\\\\") '"' "\\\"") '\n' "\\n"
    "\"" ++ escaped ++ "\""
  else v

/-- The line that `emit` builds. -/
def Format.line (toJson : String → String) (format : Format) (ts : String) (level : Level)
    (msg : String) : String :=
  match format with
  | .json =>
    "\x7b\"time\": " ++ toJson ts ++ ", \"level\": " ++ toJson level.name ++
      ", \"msg\": " ++ toJson msg ++
      "\x7d\n"
  | .logfmt => "time=" ++ ts ++ " level=" ++ level.name ++ " msg=" ++ logfmtValue msg ++ "\n"

end Logger

/-- Without a file the sink is stderr. -/
structure Logger where
  level : Level
  format : Logger.Format
  utc : Bool
  sink : Option Logger.RotatingFile

namespace Logger

/-- Where `emit` hands what to. -/
inductive Output
  | nothing
  | stderr (text : String)
  | file (settings : RotatingFile) (line : String)

/-- `logger` is what `init` has set. -/
def emit (toJson : String → String) (logger : Option Logger) (clock : Clock) (level : Level)
    (msg : String) : Output :=
  match logger with
  | none => .stderr (level.name ++ " " ++ msg ++ "\n")
  | some l =>
    if level.severity < l.level.severity then .nothing
    else
      let line := l.format.line toJson (timestamp clock l.utc) level msg
      match l.sink with
      | none => .stderr line
      | some settings => .file settings line

/-! ## Bytes -/

def utf8 (s : String) : Bytes := s.toByteArray.data.toList

theorem utf8_append_newline (text : String) : utf8 (text ++ "\n") = Line.bytes ⟨utf8 text⟩ := by
  have hnewline : utf8 "\n" = [10] := rfl
  simpa [utf8, Line.bytes] using hnewline

/-- What is written to the log file is a text and a line feed, in either format. -/
theorem line_bytes (toJson : String → String) (format : Format) (ts : String) (level : Level)
    (msg : String) :
    ∃ line : Line, utf8 (format.line toJson ts level msg) = line.bytes := by
  cases format with
  | json =>
    have hbrace : "\x7d\n" = "\x7d" ++ "\n" := rfl
    rw [Format.line, hbrace, ← String.append_assoc]
    exact ⟨_, utf8_append_newline _⟩
  | logfmt => exact ⟨_, utf8_append_newline _⟩

/-! ## Values -/

/-- A backslash is replaced first, so that those of the other replacements are not doubled. -/
theorem toList_replaced (v : String) :
    (Text.replace (Text.replace (Text.replace v '\\' "\\\\") '"' "\\\"") '\n' "\\n").toList
      = Logfmt.quoted.write v.toList := by
  simp only [Text.toList_replace, List.flatMap_assoc, Code.write]
  refine List.flatMap_congr fun c _ => ?_
  show _ = Code.escape '\\' Logfmt.letter c
  unfold Code.escape
  by_cases hbackslash : c = '\\'
  · subst hbackslash
    rfl
  by_cases hquote : c = '"'
  · subst hquote
    rfl
  by_cases hnewline : c = '\n'
  · subst hnewline
    rfl
  simp [Logfmt.letter, hbackslash, hquote, hnewline]

theorem toList_logfmtValue (v : String) :
    (logfmtValue v).toList = if needsQuotes v then Logfmt.quote v.toList else v.toList := by
  unfold logfmtValue
  split
  · rw [String.toList_append, String.toList_append, toList_replaced]
    rfl
  · rfl

theorem writes_logfmtValue (v : String) : Logfmt.Writes v.toList (logfmtValue v).toList := by
  rw [toList_logfmtValue]
  split
  · exact .quoted _
  · next h =>
    obtain ⟨-, hspace, -, hquote⟩ : v ≠ "" ∧ ' ' ∉ v.toList ∧ '=' ∉ v.toList ∧ '"' ∉ v.toList := by
      simpa [needsQuotes] using h
    exact .bare hspace fun hhead => hquote (List.mem_of_mem_head? hhead)

theorem count_newline_logfmtValue (v : String) :
    (logfmtValue v).toList.count '\n' = if needsQuotes v then 0 else v.toList.count '\n' := by
  rw [toList_logfmtValue]
  split
  · exact List.count_eq_zero_of_not_mem (Logfmt.newline_not_mem_quote _)
  · rfl

/-! ## Time stamps and level names -/

/-- No character of the text separates fields or lines, or starts a quoted value. -/
def Plain (text : String) : Prop := ∀ c ∈ text.toList, c ≠ ' ' ∧ c ≠ '\n' ∧ c ≠ '"'

instance (text : String) : Decidable (Plain text) := List.decidableBAll ..

theorem Plain.writes {text : String} (h : Plain text) : Logfmt.Writes text.toList text.toList := by
  refine .bare (fun hspace => (h _ hspace).1 rfl) fun hhead => ?_
  exact (h _ (List.mem_of_mem_head? hhead)).2.2 rfl

theorem Plain.count_newline {text : String} (h : Plain text) : text.toList.count '\n' = 0 :=
  List.count_eq_zero_of_not_mem fun hnewline => (h _ hnewline).2.1 rfl

/-- Digits, signs, colons, a point and the letter between the date and the time. -/
def Clock.IsPlain (clock : Clock) : Prop := Plain clock.utcNow ∧ Plain clock.localNow

instance (clock : Clock) : Decidable clock.IsPlain := inferInstanceAs (Decidable (_ ∧ _))

theorem Clock.IsPlain.timestamp {clock : Clock} (h : clock.IsPlain) (utc : Bool) :
    Plain (timestamp clock utc) := by
  cases utc
  · exact h.2
  · exact h.1

theorem plain_name (level : Level) : Plain level.name := by
  cases level <;> decide

/-! ## Reading a line -/

/-- The line has exactly one newline, which ends it. -/
def OneLine (line : String) : Prop := line.toList.count '\n' = 1 ∧ line.toList.getLast? = some '\n'

instance (line : String) : Decidable (OneLine line) := inferInstanceAs (Decidable (_ ∧ _))

def msgField (line : String) : Option String := (Logfmt.read line).bind (·.lookup "msg")

variable (toJson : String → String) (clock : Clock) (utc : Bool) (level : Level) (msg : String)

theorem toList_line :
    (Format.logfmt.line toJson (timestamp clock utc) level msg).toList =
      "time".toList ++ '=' :: ((timestamp clock utc).toList ++ ' ' :: ("level".toList ++ '=' ::
        (level.name.toList ++ ' ' :: ("msg".toList ++ '=' :: (logfmtValue msg).toList)))) ++
          ['\n'] := by
  simp [Format.line]

section

variable {clock}

theorem read_line (hclock : clock.IsPlain) :
    Logfmt.read (Format.logfmt.line toJson (timestamp clock utc) level msg) =
      some [("time", timestamp clock utc), ("level", level.name), ("msg", msg)] := by
  refine Logfmt.read_of_writes (toList_line toJson clock utc level msg) ?_
  have htime : Logfmt.IsKey "time".toList := by decide
  have hlevel : Logfmt.IsKey "level".toList := by decide
  have hmsg : Logfmt.IsKey "msg".toList := by decide
  exact .cons htime (hclock.timestamp utc).writes
    (.cons hlevel (plain_name level).writes (.one hmsg (writes_logfmtValue msg)))

theorem msgField_line (hclock : clock.IsPlain) :
    msgField (Format.logfmt.line toJson (timestamp clock utc) level msg) = some msg := by
  rw [msgField, read_line toJson utc level msg hclock]
  rfl

/-- How many newlines of the message are left as they are. -/
def bareNewlines (msg : String) : ℕ := if needsQuotes msg then 0 else msg.toList.count '\n'

theorem bareNewlines_eq_zero {msg : String} :
    bareNewlines msg = 0 ↔ ('\n' ∈ msg.toList → needsQuotes msg) := by
  unfold bareNewlines
  split
  · next h => exact iff_of_true rfl fun _ => h
  · next h => rw [List.count_eq_zero, imp_iff_not h]

theorem count_newline_line (hclock : clock.IsPlain) :
    (Format.logfmt.line toJson (timestamp clock utc) level msg).toList.count '\n'
      = bareNewlines msg + 1 := by
  rw [toList_line, bareNewlines, ← count_newline_logfmtValue]
  simp [(hclock.timestamp utc).count_newline, (plain_name level).count_newline]

theorem oneLine_iff (hclock : clock.IsPlain) :
    OneLine (Format.logfmt.line toJson (timestamp clock utc) level msg) ↔
      ('\n' ∈ msg.toList → needsQuotes msg) := by
  have hlast : (Format.logfmt.line toJson (timestamp clock utc) level msg).toList.getLast?
      = some '\n' := by
    rw [toList_line, List.getLast?_concat]
  rw [OneLine, count_newline_line toJson utc level msg hclock, Nat.succ_inj, bareNewlines_eq_zero]
  exact and_iff_left hlast

/-- A line of Logfmt is one line, is read back to what it was built from and shares its `msg` with
the line of no other message exactly when the message has no newline or is quoted. -/
theorem logfmt_line_reads_back (hclock : clock.IsPlain) :
    (OneLine (Format.logfmt.line toJson (timestamp clock utc) level msg) ∧
      Logfmt.read (Format.logfmt.line toJson (timestamp clock utc) level msg) =
        some [("time", timestamp clock utc), ("level", level.name), ("msg", msg)] ∧
      ∀ (clock' : Clock) (utc' : Bool) (level' : Level) (msg' : String),
        clock'.IsPlain → msg' ≠ msg →
        msgField (Format.logfmt.line toJson (timestamp clock' utc') level' msg') ≠
          msgField (Format.logfmt.line toJson (timestamp clock utc) level msg)) ↔
      ('\n' ∈ msg.toList → needsQuotes msg) := by
  rw [← oneLine_iff toJson utc level msg hclock]
  constructor
  · rintro ⟨hone, -⟩
    exact hone
  · intro hone
    refine ⟨hone, read_line toJson utc level msg hclock, ?_⟩
    intro clock' utc' level' msg' hclock' hne hfield
    rw [msgField_line toJson utc' level' msg' hclock', msgField_line toJson utc level msg hclock]
      at hfield
    exact hne (Option.some.inj hfield)

end

def sampleClock : Clock := ⟨"2025-03-09T14:05:07.000250+00:00", "2025-03-09T15:05:07.000250+01:00"⟩

theorem sampleClock_isPlain : sampleClock.IsPlain := by decide

/-- A newline in a quoted message. -/
theorem logfmt_line_reads_back_sample :
    Logfmt.read (Format.logfmt.line id (timestamp sampleClock true) .info "a b\nc") =
      some [("time", timestamp sampleClock true), ("level", "INFO"), ("msg", "a b\nc")] :=
  ((logfmt_line_reads_back id true .info "a b\nc" sampleClock_isPlain).mpr (by decide)).2.1

/-- The newline of a message without a space, an equals sign or a quote is left as it is. -/
theorem newline_breaks_logfmt_line :
    (Format.logfmt.line id (timestamp sampleClock true) .info "a\nb").toList.count '\n' = 2 ∧
      ¬ OneLine (Format.logfmt.line id (timestamp sampleClock true) .info "a\nb") := by
  rw [count_newline_line id true .info "a\nb" sampleClock_isPlain,
    oneLine_iff id true .info "a\nb" sampleClock_isPlain]
  decide

/-! ## Reading a log -/

/-- The arguments of one call of `emit`, and when it is made. -/
structure Message where
  clock : Clock
  level : Level
  msg : String

def Output.text : Output → String
  | .nothing => ""
  | .stderr text => text
  | .file _ line => line

/-- What the calls hand to the sink, one after the other. -/
def printed (toJson : String → String) (l : Logger) : List Message → String
  | [] => ""
  | m :: ms => (emit toJson (some l) m.clock m.level m.msg).text ++ printed toJson l ms

def Enabled (l : Logger) (m : Message) : Prop := l.level.severity ≤ m.level.severity

instance (l : Logger) (m : Message) : Decidable (Enabled l m) := inferInstanceAs (Decidable (_ ≤ _))

def record (l : Logger) (m : Message) : List (String × String) :=
  [("time", timestamp m.clock l.utc), ("level", m.level.name), ("msg", m.msg)]

def records (l : Logger) (ms : List Message) : List (List (String × String)) :=
  (ms.filter (Enabled l ·)).map (record l)

variable {toJson} {l : Logger}

theorem emit_text {m : Message} (h : Enabled l m) :
    (emit toJson (some l) m.clock m.level m.msg).text =
      l.format.line toJson (timestamp m.clock l.utc) m.level m.msg := by
  have hlevel : ¬ m.level.severity < l.level.severity := Nat.not_lt_of_le h
  simp only [emit, if_neg hlevel]
  split <;> rfl

theorem emit_text_of_not_enabled {m : Message} (h : ¬ Enabled l m) :
    (emit toJson (some l) m.clock m.level m.msg).text = "" := by
  have hlevel : m.level.severity < l.level.severity := Nat.lt_of_not_le h
  simp only [emit, if_pos hlevel, Output.text]

theorem OneLine.split {line : String} (h : OneLine line) :
    ∃ text, line.toList = text ++ ['\n'] ∧ '\n' ∉ text := by
  obtain ⟨text, htext⟩ := List.getLast?_eq_some_iff.mp h.2
  refine ⟨text, htext, ?_⟩
  have hcount := h.1
  rw [htext, List.count_append, List.count_singleton_self, Nat.add_eq_right] at hcount
  exact List.count_eq_zero.mp hcount

section

variable (hformat : l.format = .logfmt)

include hformat

theorem count_newline_printed (ms : List Message) (hclock : ∀ m ∈ ms, m.clock.IsPlain) :
    (printed toJson l ms).toList.count '\n' =
      (records l ms).length + ((ms.filter (Enabled l ·)).map (bareNewlines ·.msg)).sum := by
  induction ms with
  | nil => rfl
  | cons m ms ih =>
    obtain ⟨hhead, htail⟩ := List.forall_mem_cons.mp hclock
    have ih := ih htail
    by_cases hm : Enabled l m
    · have hline := count_newline_line toJson l.utc m.level m.msg hhead
      rw [printed, emit_text hm, hformat, String.toList_append, List.count_append, hline, ih]
      simp only [records, hm, decide_true, List.filter_cons_of_pos, List.map_cons, List.length_cons,
        List.sum_cons]
      omega
    · rw [printed, emit_text_of_not_enabled hm, String.empty_append, ih]
      simp [records, hm]

theorem readLog_printed (ms : List Message) (hclock : ∀ m ∈ ms, m.clock.IsPlain)
    (h : ∀ m ∈ ms, Enabled l m → '\n' ∈ m.msg.toList → needsQuotes m.msg) :
    Logfmt.readLog (printed toJson l ms) = some (records l ms) := by
  induction ms with
  | nil => rfl
  | cons m ms ih =>
    obtain ⟨hhead, htail⟩ := List.forall_mem_cons.mp hclock
    have hms := ih htail fun m' hm' => h m' (List.mem_cons_of_mem _ hm')
    by_cases hm : Enabled l m
    · have hone := (oneLine_iff toJson l.utc m.level m.msg hhead).mpr
        (h m List.mem_cons_self hm)
      obtain ⟨text, hline, htext⟩ := hone.split
      have hrecords : records l (m :: ms) = record l m :: records l ms := by
        simp [records, hm]
      rw [printed, emit_text hm, hformat, hrecords]
      have hread := read_line toJson l.utc m.level m.msg hhead
      exact Logfmt.readLog_append hline htext hread hms
    · have hrecords : records l (m :: ms) = records l ms := by
        simp [records, hm]
      rw [printed, emit_text_of_not_enabled hm, String.empty_append, hrecords]
      exact hms

/-- A log of Logfmt is read as exactly the messages that got past the level filter, one record for
each, when none of them has a newline that is left as it is. -/
theorem logfmt_log_reads_back (ms : List Message) (hclock : ∀ m ∈ ms, m.clock.IsPlain) :
    Logfmt.readLog (printed toJson l ms) = some (records l ms) ↔
      ∀ m ∈ ms, Enabled l m → '\n' ∈ m.msg.toList → needsQuotes m.msg := by
  refine ⟨fun h m hmem hm => ?_, readLog_printed hformat ms hclock⟩
  have hle := Logfmt.count_newline_le_of_readLog h
  rw [count_newline_printed hformat ms hclock] at hle
  have hsum : ((ms.filter (Enabled l ·)).map (bareNewlines ·.msg)).sum = 0 := by omega
  have hzero := List.sum_eq_zero_iff.mp hsum (bareNewlines m.msg)
    (List.mem_map_of_mem (List.mem_filter.mpr ⟨hmem, by simpa using hm⟩))
  exact bareNewlines_eq_zero.mp hzero

end

/-- One message has a newline, which is quoted, and one is below the level. -/
theorem logfmt_log_reads_back_sample :
    (Logfmt.readLog (printed id ⟨.info, .logfmt, true, none⟩
      [⟨sampleClock, .info, "a b\nc"⟩, ⟨sampleClock, .debug, "d"⟩,
        ⟨sampleClock, .error, "e=f"⟩])).map (·.map (·.lookup "msg")) =
      some [some "a b\nc", some "e=f"] := by
  rw [(logfmt_log_reads_back rfl _ (by decide)).mpr (by decide)]
  decide

end Logger

end Sidecar
