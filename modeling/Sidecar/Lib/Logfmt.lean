import Mathlib.Data.List.TakeDrop
import Sidecar.Lib.Code

/-!
# Logfmt

A line is a list of fields `key=value` separated by a space. A value that starts with a double quote
runs to the next quote that is not escaped, with `\\`, `\"` and `\n` standing for a backslash, a
quote and a newline; any other value runs to the next space and is taken verbatim.
-/

namespace Logfmt

def letter : Char → Option Char
  | '\\' => some '\\'
  | '"' => some '"'
  | '\n' => some 'n'
  | _ => none

def named : Char → Option Char
  | '\\' => some '\\'
  | '"' => some '"'
  | 'n' => some '\n'
  | _ => none

theorem named_letter (a b : Char) (h : letter a = some b) : named b = some a := by
  unfold letter at h
  split at h <;> cases h <;> rfl

/-- What stands between the quotes of a value. -/
def quoted : Code Char Char := .escaping '\\' rfl named_letter

def quote (v : List Char) : List Char := '"' :: (quoted.write v ++ ['"'])

abbrev Field := List Char × List Char

def readValue : List Char → Option (List Char × List Char)
  | '"' :: text => quoted.readTo '"' text
  | text => some (text.span (· ≠ ' '))

def readField (text : List Char) : Option (Field × List Char) :=
  match text.span (fun c => c ≠ '=' ∧ c ≠ ' ') with
  | (key, '=' :: text) => (readValue text).map fun (value, rest) => ((key, value), rest)
  | _ => none

/-- At most `n` fields. -/
def readFields : ℕ → List Char → Option (List Field)
  | 0, _ => none
  | n + 1, text =>
    match readField text with
    | some (field, []) => some [field]
    | some (field, ' ' :: rest) => (readFields n rest).map (field :: ·)
    | _ => none

/-- The fields of a line, which ends in a newline. -/
def readLine (line : List Char) : Option (List (String × String)) :=
  match line.getLast? with
  | some '\n' =>
    let text := line.dropLast
    (readFields (text.length + 1) text).map
    (·.map fun (key, value) => (String.ofList key, String.ofList value))
  | _ => none

def read (line : String) : Option (List (String × String)) := readLine line.toList

/-- The lines of a text, each with its newline. -/
def cut : List Char → List (List Char)
  | [] => []
  | c :: text =>
    if c = '\n' then ['\n'] :: cut text
    else match cut text with
      | [] => [[c]]
      | line :: lines => (c :: line) :: lines

def readLines : List (List Char) → Option (List (List (String × String)))
  | [] => some []
  | line :: lines =>
    match readLine line, readLines lines with
    | some fields, some records => some (fields :: records)
    | _, _ => none

/-- The fields of every line of a log. -/
def readLog (log : String) : Option (List (List (String × String))) := readLines (cut log.toList)

/-! ## Lines as they may be written -/

/-- The text is a way to write the value. -/
inductive Writes : List Char → List Char → Prop
  | bare {v : List Char} : ' ' ∉ v → v.head? ≠ some '"' → Writes v v
  | quoted (v : List Char) : Writes v (quote v)

def IsKey (key : List Char) : Prop := ∀ c ∈ key, c ≠ '=' ∧ c ≠ ' '

instance (key : List Char) : Decidable (IsKey key) := List.decidableBAll ..

inductive WritesFields : List Field → List Char → Prop
  | one {key v text : List Char} : IsKey key → Writes v text → WritesFields [(key, v)]
    (key ++ '=' :: text)
  | cons {key v text : List Char} {fields : List Field} {rest : List Char} :
      IsKey key → Writes v text →
    WritesFields fields rest →
    WritesFields ((key, v) :: fields) (key ++ '=' :: (text ++ ' ' :: rest))

theorem head?_quoted_word (a : Char) : (quoted.word a).head? ≠ some '"' := by
  show (Code.escape '\\' letter a).head? ≠ some '"'
  unfold Code.escape
  split
  · simp
  · next h =>
    rintro ha
    obtain rfl : a = '"' := by simpa using ha
    cases h

theorem span_append_of_all {p : Char → Bool} {l rest : List Char} (hl : ∀ c ∈ l, p c = true)
    (hrest : ∀ c ∈ rest.head?, p c = false) : (l ++ rest).span p = (l, rest) := by
  rw [List.span_eq_takeWhile_dropWhile, List.takeWhile_append_of_pos hl,
    List.dropWhile_append_of_pos hl]
  rcases rest with _ | ⟨c, rest⟩
  · simp
  · have hc : p c = false := hrest c rfl
    simp [hc]

theorem readValue_of_writes {v text : List Char} (h : Writes v text) (rest : List Char)
    (hrest : ∀ c ∈ rest.head?, c = ' ') : readValue (text ++ rest) = some (v, rest) := by
  cases h with
  | quoted =>
    have hread := quoted.readTo_write head?_quoted_word v rest
    simpa [quote, readValue] using hread
  | bare hspace hquote =>
    have hspan : (v ++ rest).span (· ≠ ' ') = (v, rest) := by
      refine span_append_of_all ?_ ?_
      · intro c hc
        simpa using ne_of_mem_of_not_mem hc hspace
      · intro c hc
        simpa using hrest c hc
    have hhead : ∀ text, v ++ rest ≠ '"' :: text := by
      rintro text htext
      rcases v with _ | ⟨c, v⟩
      · have hc := hrest '"' (by simp [show rest = '"' :: text from htext])
        exact absurd hc (by decide)
      · obtain ⟨rfl, -⟩ := List.cons.inj htext
        exact hquote rfl
    unfold readValue
    split
    · next htext => exact absurd htext (hhead _)
    · rw [hspan]

theorem readField_of_writes {key v text : List Char} (hkey : IsKey key) (h : Writes v text)
    (rest : List Char) (hrest : ∀ c ∈ rest.head?, c = ' ') :
    readField (key ++ '=' :: (text ++ rest)) = some ((key, v), rest) := by
  have hspan : (key ++ '=' :: (text ++ rest)).span (fun c => c ≠ '=' ∧ c ≠ ' ')
      = (key, '=' :: (text ++ rest)) :=
    span_append_of_all (fun c hc => by simpa using hkey c hc) (by simp)
  unfold readField
  rw [hspan]
  simp only [readValue_of_writes h rest hrest, Option.map_some]

theorem readFields_of_writes {fields : List Field} {text : List Char}
    (h : WritesFields fields text) :
    ∀ n, fields.length ≤ n → readFields n text = some fields := by
  induction h with
  | @one key v text hkey hv =>
    intro n hn
    obtain ⟨n, rfl⟩ := Nat.exists_eq_succ_of_ne_zero (Nat.ne_of_gt hn)
    have hfield := readField_of_writes hkey hv [] (by simp)
    rw [List.append_nil] at hfield
    simp only [readFields, hfield]
  | @cons key v text fields rest hkey hv _ ih =>
    intro n hn
    obtain ⟨n, rfl⟩ := Nat.exists_eq_succ_of_ne_zero (Nat.ne_of_gt (Nat.zero_lt_of_lt hn))
    have hfield := readField_of_writes hkey hv (' ' :: rest) (by simp)
    simp only [readFields, hfield, ih n (Nat.le_of_succ_le_succ hn), Option.map_some]

theorem length_le_of_writes {fields : List Field} {text : List Char}
    (h : WritesFields fields text) :
    fields.length ≤ text.length := by
  induction h with
  | one =>
    simp only [List.length_append, List.length_cons, List.length_nil]
    omega
  | cons =>
    simp only [List.length_append, List.length_cons]
    omega

theorem read_of_writes {line : String} {text : List Char} {fields : List (String × String)}
    (hline : line.toList = text ++ ['\n'])
    (h : WritesFields (fields.map fun (key, v) => (key.toList, v.toList)) text) :
    read line = some fields := by
  have hfields :=
    readFields_of_writes h (text.length + 1) (Nat.le_succ_of_le (length_le_of_writes h))
  unfold read readLine
  rw [hline, List.getLast?_concat, List.dropLast_concat]
  simp [hfields, Function.comp_def]

/-! ## Newlines -/

theorem newline_not_mem_quote (v : List Char) : '\n' ∉ quote v := by
  have hword : ∀ a, '\n' ∉ quoted.word a := by
    intro a
    show '\n' ∉ Code.escape '\\' letter a
    unfold Code.escape
    split
    · next b hb =>
      have hnamed := named_letter a b hb
      rintro hmem
      obtain rfl : b = '\n' := by simpa [eq_comm] using hmem
      cases hnamed
    · next h =>
      rintro hmem
      obtain rfl : a = '\n' := by simpa [eq_comm] using hmem
      cases h
  simp [quote, Code.mem_write, hword]

/-! ## Logs -/

theorem cut_append_newline {text : List Char} (h : '\n' ∉ text) (rest : List Char) :
    cut (text ++ '\n' :: rest) = (text ++ ['\n']) :: cut rest := by
  induction text with
  | nil => simp [cut]
  | cons c text ih =>
    obtain ⟨hc, htext⟩ := List.ne_and_not_mem_of_not_mem_cons h
    rw [List.cons_append, cut, if_neg hc.symm, ih htext]
    rfl

/-- Every newline ends a line. -/
theorem count_newline_le_length_cut (text : List Char) : text.count '\n' ≤ (cut text).length := by
  induction text with
  | nil => exact Nat.zero_le _
  | cons c text ih =>
    unfold cut
    split
    · next hc =>
      rw [hc, List.count_cons_self, List.length_cons]
      exact Nat.succ_le_succ ih
    · next hc =>
      rw [List.count_cons_of_ne hc]
      split
      · next hcut =>
        rw [hcut] at ih
        exact Nat.le_trans ih (Nat.zero_le _)
      · next line lines hcut =>
        rw [hcut] at ih
        exact ih

theorem length_of_readLines {lines : List (List Char)} {records : List (List (String × String))}
    (h : readLines lines = some records) : records.length = lines.length := by
  induction lines generalizing records with
  | nil =>
    cases h
    rfl
  | cons line lines ih =>
    unfold readLines at h
    split at h
    · next fields records' _ hlines =>
      cases h
      rw [List.length_cons, List.length_cons, ih hlines]
    · cases h

/-- A log that is read as so many records has no more newlines. -/
theorem count_newline_le_of_readLog {log : String} {records : List (List (String × String))}
    (h : readLog log = some records) : log.toList.count '\n' ≤ records.length := by
  rw [length_of_readLines h]
  exact count_newline_le_length_cut _

theorem readLog_append {line log : String} {text : List Char} {fields : List (String × String)}
    {records : List (List (String × String))} (hline : line.toList = text ++ ['\n'])
    (htext : '\n' ∉ text) (hread : read line = some fields) (hlog : readLog log = some records) :
    readLog (line ++ log) = some (fields :: records) := by
  have hcut : cut (line ++ log).toList = line.toList :: cut log.toList := by
    rw [String.toList_append, hline, List.append_assoc]
    exact cut_append_newline htext log.toList
  have hfields : readLine line.toList = some fields := hread
  have hrecords : readLines (cut log.toList) = some records := hlog
  rw [readLog, hcut, readLines, hfields, hrecords]

end Logfmt
