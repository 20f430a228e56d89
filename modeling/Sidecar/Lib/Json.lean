import Sidecar.Lib.Logfmt

/-!
# JSON strings, objects and logs

A string is quoted; a quote, a backslash and the control characters are escaped, by a letter or by
their number, and nothing else is. The reader of strings takes every escape of the grammar, pairs of
surrogates too, and that of objects white space between any two tokens. A log has one object of
string members on each line.
-/

namespace Json

/-! ## Strings -/

def letter : Char → Option Char
  | '"' => some '"'
  | '\\' => some '\\'
  | '\x08' => some 'b'
  | '\t' => some 't'
  | '\n' => some 'n'
  | '\x0c' => some 'f'
  | '\r' => some 'r'
  | _ => none

def named : Char → Option Char
  | '"' => some '"'
  | '\\' => some '\\'
  | '/' => some '/'
  | 'b' => some '\x08'
  | 't' => some '\t'
  | 'n' => some '\n'
  | 'f' => some '\x0c'
  | 'r' => some '\r'
  | _ => none

theorem named_letter {a b : Char} (h : letter a = some b) : named b = some a ∧ b ≠ 'u' ∧
    0x20 ≤ b.toNat := by
  unfold letter at h
  split at h <;> cases h <;> decide

def hexDigit (n : ℕ) : Char := "0123456789abcdef".toList.getD n '0'

def hexValue (c : Char) : Option ℕ :=
  if '0' ≤ c ∧ c ≤ '9' then some (c.toNat - '0'.toNat)
  else if 'a' ≤ c ∧ c ≤ 'f' then some (c.toNat - 'a'.toNat + 10)
  else if 'A' ≤ c ∧ c ≤ 'F' then some (c.toNat - 'A'.toNat + 10)
  else none

theorem hexDigit_all : ∀ n, n < 16 → hexValue (hexDigit n) = some n ∧
    0x20 ≤ (hexDigit n).toNat := by decide

/-- A character within a string; what has no letter is written by its number. -/
def word (c : Char) : List Char :=
  match letter c with
  | some b => ['\\', b]
  | none =>
    if c.toNat < 0x20
      then ['\\', 'u', '0', '0', hexDigit (c.toNat / 16), hexDigit (c.toNat % 16)] else [c]

/-- Four digits. -/
def unit : List Char → Option (ℕ × List Char)
  | p :: q :: r :: s :: rest => do
    let x ← hexValue p
    let y ← hexValue q
    let z ← hexValue r
    let t ← hexValue s
    some (((x * 16 + y) * 16 + z) * 16 + t, rest)
  | _ => none

/-- The second half of a pair of surrogates. -/
def lowSurrogate : List Char → Option (ℕ × List Char)
  | '\\' :: 'u' :: rest => (unit rest).filter fun (n, _) => 0xDC00 ≤ n ∧ n ≤ 0xDFFF
  | _ => none

def numbered (text : List Char) : Option (Char × List Char) := do
  let (n, rest) ← unit text
  if 0xD800 ≤ n ∧ n ≤ 0xDBFF then
    let (m, rest) ← lowSurrogate rest
    some (Char.ofNat (0x10000 + (n - 0xD800) * 0x400 + (m - 0xDC00)), rest)
  else if 0xDC00 ≤ n ∧ n ≤ 0xDFFF then none
  else some (Char.ofNat n, rest)

def next : List Char → Option (Char × List Char)
  | [] => none
  | c :: text =>
    if c = '\\' then
      match text with
      | [] => none
      | b :: rest => if b = 'u' then numbered rest else (named b).map (·, rest)
    else if c.toNat < 0x20 then none
    else some (c, text)

theorem word_ne_nil (c : Char) : word c ≠ [] := by
  unfold word
  split
  · exact List.cons_ne_nil _ _
  · split <;> exact List.cons_ne_nil _ _

theorem numbered_control {n : ℕ} (h : n < 0x20) (rest : List Char) :
    numbered ('0' :: '0' :: hexDigit (n / 16) :: hexDigit (n % 16) :: rest) =
      some (Char.ofNat n, rest) := by
  have hzero : hexValue '0' = some 0 := rfl
  obtain ⟨hhigh, -⟩ := hexDigit_all (n / 16) (by omega)
  obtain ⟨hlow, -⟩ := hexDigit_all (n % 16) (by omega)
  have hunit : unit ('0' :: '0' :: hexDigit (n / 16) :: hexDigit (n % 16) :: rest) =
      some (n, rest) := by
    have hn : n / 16 * 16 + n % 16 = n := by omega
    simp [unit, hzero, hhigh, hlow, hn]
  have hplain : ¬(0xD800 ≤ n ∧ n ≤ 0xDBFF) ∧ ¬(0xDC00 ≤ n ∧ n ≤ 0xDFFF) := by omega
  simp only [numbered, hunit, Option.bind_eq_bind, Option.bind_some, if_neg hplain.1,
    if_neg hplain.2]

theorem next_word (c : Char) (rest : List Char) : next (word c ++ rest) = some (c, rest) := by
  unfold word
  split
  · next b hb =>
    obtain ⟨hnamed, hu, -⟩ := named_letter hb
    simp [next, hu, hnamed]
  · next hnone =>
    split
    · next hcontrol =>
      have hread := numbered_control hcontrol rest
      rw [Char.ofNat_toNat] at hread
      simpa [next] using hread
    · next hplain =>
      have hne : c ≠ '\\' := by
        rintro rfl
        cases hnone
      simp [next, hne, hplain]

/-- What stands between the quotes. -/
def chars : Code Char Char := ⟨word, next, word_ne_nil, next_word⟩

theorem head?_word (c : Char) : (chars.word c).head? ≠ some '"' := by
  show (word c).head? ≠ some '"'
  unfold word
  split
  · simp
  · next hnone =>
    split
    · simp
    · rintro hc
      obtain rfl : c = '"' := by simpa using hc
      cases hnone

/-- Nothing below the space is written as it is. -/
theorem le_toNat_of_mem_word {c x : Char} (h : x ∈ word c) : 0x20 ≤ x.toNat := by
  unfold word at h
  split at h
  · next b hb =>
    obtain ⟨-, -, hle⟩ := named_letter hb
    rcases List.mem_cons.1 h with rfl | h
    · decide
    · rwa [List.mem_singleton.1 h]
  · split at h
    · next hcontrol =>
      have hhigh := (hexDigit_all (c.toNat / 16) (by omega)).2
      have hlow := (hexDigit_all (c.toNat % 16) (by omega)).2
      simp only [List.mem_cons, List.not_mem_nil, or_false] at h
      rcases h with rfl | rfl | rfl | rfl | rfl | rfl
      · decide
      · decide
      · decide
      · decide
      · exact hhigh
      · exact hlow
    · next hplain =>
      rw [List.mem_singleton.1 h]
      exact Nat.le_of_not_lt hplain

def quote (s : List Char) : List Char := '"' :: (chars.write s ++ ['"'])

def readString : List Char → Option (List Char × List Char)
  | '"' :: text => chars.readTo '"' text
  | _ => none

/-- The text is a way to write the string: it is read back, and no control character is in it. -/
structure Token (s text : List Char) : Prop where
  reads : ∀ rest, readString (text ++ rest) = some (s, rest)
  plain : ∀ c ∈ text, 0x20 ≤ c.toNat

theorem token_quote (s : List Char) : Token s (quote s) where
  reads rest := by
    have hread := chars.readTo_write head?_word s rest
    simpa [quote, readString] using hread
  plain x hx := by
    rw [quote, List.mem_cons, List.mem_append, List.mem_singleton] at hx
    rcases hx with rfl | hx | rfl
    · decide
    · obtain ⟨c, -, hc⟩ := chars.mem_write.1 hx
      exact le_toNat_of_mem_word hc
    · decide

theorem Token.head {s text : List Char} (h : Token s text) : ∃ text', text = '"' :: text' := by
  have hread := h.reads []
  rw [List.append_nil] at hread
  unfold readString at hread
  split at hread
  · exact ⟨_, rfl⟩
  · cases hread

/-! ## Objects -/

def isSpace (c : Char) : Bool := c == ' ' || c == '\n' || c == '\r' || c == '\t'

def skip (text : List Char) : List Char := text.dropWhile isSpace

abbrev Field := List Char × List Char

def readMember (text : List Char) : Option (Field × List Char) := do
  let (key, rest) ← readString (skip text)
  match skip rest with
  | ':' :: rest => do
    let (value, rest) ← readString (skip rest)
    some ((key, value), rest)
  | _ => none

/-- At most `n` members, and the brace after them. -/
def readMembers : ℕ → List Char → Option (List Field × List Char)
  | 0, _ => none
  | n + 1, text => do
    let (member, rest) ← readMember text
    match skip rest with
    | '}' :: rest => some ([member], rest)
    | ',' :: rest => (readMembers n rest).map fun (members, rest) => (member :: members, rest)
    | _ => none

/-- An object of string members, and nothing after it. -/
def readObject (text : List Char) : Option (List Field) :=
  match skip text with
  | '{' :: rest =>
    match skip rest with
    | '}' :: after => if skip after = [] then some [] else none
    | _ =>
      match readMembers rest.length rest with
      | some (members, after) => if skip after = [] then some members else none
      | none => none
  | _ => none

/-- Members as they may be written, and the brace after them. -/
inductive WritesMembers : List Field → List Char → Prop
  | one {key value k v : List Char} : Token key k → Token value v →
    WritesMembers [(key, value)] (k ++ ':' :: ' ' :: (v ++ ['}']))
  | cons {key value k v : List Char} {fields : List Field} {text : List Char} : Token key k →
      Token value v →
    WritesMembers fields text →
    WritesMembers ((key, value) :: fields) (k ++ ':' :: ' ' :: (v ++ ',' :: ' ' :: text))

theorem skip_space (text : List Char) : skip (' ' :: text) = skip text := by
  have hspace : isSpace ' ' = true := by decide
  simp [skip, hspace]

theorem Token.skip {s text : List Char} (h : Token s text) (rest : List Char) :
    Json.skip (text ++ rest) = text ++ rest := by
  have hquote : isSpace '"' = false := by decide
  obtain ⟨text', rfl⟩ := h.head
  simp [Json.skip, hquote]

theorem readMember_of_tokens {key value k v : List Char} (hk : Token key k) (hv : Token value v)
    (rest : List Char) :
    readMember (k ++ ':' :: ' ' :: (v ++ rest)) = some ((key, value), rest) := by
  have hcolon : ∀ text, skip (':' :: text) = ':' :: text := fun _ => rfl
  rw [readMember, hk.skip, hk.reads, Option.bind_eq_bind, Option.bind_some]
  simp only [hcolon, skip_space, hv.skip, hv.reads, Option.bind_some]

theorem readMembers_space (n : ℕ) (text : List Char) :
    readMembers n (' ' :: text) = readMembers n text := by
  cases n with
  | zero => rfl
  | succ n => simp only [readMembers, readMember, skip_space]

theorem readMembers_of_writes {fields : List Field} {text : List Char}
    (h : WritesMembers fields text) :
    ∀ n, fields.length ≤ n → readMembers n text = some (fields, []) := by
  induction h with
  | @one key value k v hk hv =>
    intro n hn
    obtain ⟨n, rfl⟩ := Nat.exists_eq_succ_of_ne_zero (Nat.ne_of_gt hn)
    have hbrace : skip ['}'] = ['}'] := rfl
    rw [readMembers, readMember_of_tokens hk hv, Option.bind_eq_bind, Option.bind_some]
    simp only [hbrace]
  | @cons key value k v fields text hk hv _ ih =>
    intro n hn
    obtain ⟨n, rfl⟩ := Nat.exists_eq_succ_of_ne_zero (Nat.ne_of_gt (Nat.zero_lt_of_lt hn))
    have hcomma : ∀ text, skip (',' :: text) = ',' :: text := fun _ => rfl
    have hread := ih n (Nat.le_of_succ_le_succ hn)
    rw [readMembers, readMember_of_tokens hk hv, Option.bind_eq_bind, Option.bind_some]
    simp only [hcomma, readMembers_space, hread, Option.map_some]

theorem length_le_of_writes {fields : List Field} {text : List Char}
    (h : WritesMembers fields text) :
    fields.length ≤ text.length := by
  induction h with
  | one =>
    simp only [List.length_append, List.length_cons, List.length_nil]
    omega
  | cons =>
    simp only [List.length_append, List.length_cons]
    omega

theorem WritesMembers.head {fields : List Field} {text : List Char}
    (h : WritesMembers fields text) :
    ∃ text', text = '"' :: text' := by
  cases h with
  | one hk =>
    obtain ⟨k', rfl⟩ := hk.head
    exact ⟨_, rfl⟩
  | cons hk =>
    obtain ⟨k', rfl⟩ := hk.head
    exact ⟨_, rfl⟩

theorem readObject_of_writes {fields : List Field} {text : List Char}
    (h : WritesMembers fields text) :
    readObject ('{' :: text) = some fields := by
  have hread := readMembers_of_writes h text.length (length_le_of_writes h)
  have hopen : skip ('{' :: text) = '{' :: text := rfl
  obtain ⟨text', htext⟩ := h.head
  have hquote : skip text = '"' :: text' := by
    rw [htext]
    rfl
  unfold readObject
  simp only [hopen, hquote, hread]
  rfl

theorem WritesMembers.plain {fields : List Field} {text : List Char}
    (h : WritesMembers fields text) :
    ∀ c ∈ text, 0x20 ≤ c.toNat := by
  induction h with
  | one hk hv =>
    intro c hc
    simp only [List.mem_append, List.mem_cons, List.not_mem_nil, or_false] at hc
    rcases hc with hc | rfl | rfl | hc | rfl
    · exact hk.plain c hc
    · decide
    · decide
    · exact hv.plain c hc
    · decide
  | cons hk hv _ ih =>
    intro c hc
    simp only [List.mem_append, List.mem_cons] at hc
    rcases hc with hc | rfl | rfl | hc | rfl | rfl | hc
    · exact hk.plain c hc
    · decide
    · decide
    · exact hv.plain c hc
    · decide
    · decide
    · exact ih c hc

/-! ## Logs -/

/-- The members of a line, which ends in a newline. -/
def readLine (line : List Char) : Option (List (String × String)) :=
  match line.getLast? with
  | some '\n' => (readObject line.dropLast).map
      (·.map fun (key, value) => (String.ofList key, String.ofList value))
  | _ => none

def readLines : List (List Char) → Option (List (List (String × String)))
  | [] => some []
  | line :: lines =>
    match readLine line, readLines lines with
    | some fields, some records => some (fields :: records)
    | _, _ => none

/-- The members of every line of a log. -/
def readLog (log : String) : Option (List (List (String × String))) :=
  readLines (Logfmt.cut log.toList)

/-- A line as it may be written. -/
def WritesLine (fields : List (String × String)) (line : List Char) : Prop :=
  ∃ text, line = '{' :: text ++ ['\n'] ∧
    WritesMembers (fields.map fun (key, v) => (key.toList, v.toList)) text

theorem WritesLine.plain {fields : List (String × String)} {line : List Char}
    (h : WritesLine fields line) :
    ∃ text, line = text ++ ['\n'] ∧ ∀ c ∈ text, 0x20 ≤ c.toNat := by
  obtain ⟨text, rfl, hmembers⟩ := h
  refine ⟨'{' :: text, rfl, fun c hc => ?_⟩
  rcases List.mem_cons.1 hc with rfl | hc
  · decide
  · exact hmembers.plain c hc

theorem readLine_of_writes {fields : List (String × String)} {line : List Char}
    (h : WritesLine fields line) :
    readLine line = some fields := by
  obtain ⟨text, rfl, hmembers⟩ := h
  have hread := readObject_of_writes hmembers
  unfold readLine
  rw [List.getLast?_concat, List.dropLast_concat]
  simp [hread, Function.comp_def]

/-- A text of whole lines is cut on its own. -/
theorem cut_append {text : List Char} (h : ∀ line ∈ Logfmt.cut text, line.getLast? = some '\n')
    (text' : List Char) :
    Logfmt.cut (text ++ text') = Logfmt.cut text ++ Logfmt.cut text' := by
  induction text with
  | nil => rfl
  | cons c text ih =>
    rw [List.cons_append, Logfmt.cut, Logfmt.cut]
    rw [Logfmt.cut] at h
    by_cases hc : c = '\n'
    · rw [if_pos hc] at h
      rw [if_pos hc, if_pos hc, ih fun line hline => h line (List.mem_cons_of_mem _ hline)]
      rfl
    · rw [if_neg hc] at h
      rw [if_neg hc, if_neg hc]
      cases hcut : Logfmt.cut text with
      | nil =>
        rw [hcut] at h
        have hlast := h [c] List.mem_cons_self
        rw [List.getLast?_singleton] at hlast
        exact absurd (Option.some.inj hlast) hc
      | cons line lines =>
        rw [hcut] at h ih
        have hline := h (c :: line) List.mem_cons_self
        rcases List.eq_nil_or_concat line with rfl | ⟨line, x, rfl⟩
        · rw [List.getLast?_singleton] at hline
          exact absurd (Option.some.inj hline) hc
        rw [List.concat_eq_append, ← List.cons_append, List.getLast?_concat] at hline
        rw [ih fun line' hline' => ?_]
        · rfl
        rcases List.mem_cons.1 hline' with rfl | hline'
        · rw [List.concat_eq_append, List.getLast?_concat, hline]
        · exact h line' (List.mem_cons_of_mem _ hline')

theorem readLines_append {lines lines' : List (List Char)}
    {records records' : List (List (String × String))}
    (h : readLines lines = some records) (h' : readLines lines' = some records') :
    readLines (lines ++ lines') = some (records ++ records') := by
  induction lines generalizing records with
  | nil =>
    cases h
    exact h'
  | cons line lines ih =>
    unfold readLines at h
    split at h
    · next fields rest hline hlines =>
      cases h
      rw [List.cons_append, readLines, hline, ih hlines]
      rfl
    · cases h

theorem whole_of_readLines {lines : List (List Char)} {records : List (List (String × String))}
    (h : readLines lines = some records) : ∀ line ∈ lines, line.getLast? = some '\n' := by
  induction lines generalizing records with
  | nil => exact fun _ hline => absurd hline List.not_mem_nil
  | cons line lines ih =>
    unfold readLines at h
    split at h
    · next fields rest hline hlines =>
      intro line' hline'
      rcases List.mem_cons.1 hline' with rfl | hline'
      · unfold readLine at hline
        split at hline
        · next hlast => exact hlast
        · cases hline
      · exact ih hlines line' hline'
    · cases h

/-- **Logs are read one after the other.** -/
theorem readLog_append {log log' : String} {records records' : List (List (String × String))}
    (h : readLog log = some records) (h' : readLog log' = some records') :
    readLog (log ++ log') = some (records ++ records') := by
  unfold readLog
  rw [String.toList_append, cut_append (whole_of_readLines h)]
  exact readLines_append h h'

/-- **A line is read back.** -/
theorem readLog_line {line : String} {fields : List (String × String)}
    (hline : WritesLine fields line.toList) :
    readLog line = some [fields] := by
  obtain ⟨text, htext, hplain⟩ := hline.plain
  have hnewline : '\n' ∉ text := fun h => absurd (hplain _ h) (by decide)
  have hcut : Logfmt.cut line.toList = [line.toList] := by
    rw [htext]
    exact Logfmt.cut_append_newline hnewline []
  rw [readLog, hcut, readLines, readLine_of_writes hline]
  rfl

end Json
