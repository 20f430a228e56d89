import Mathlib.Data.List.TakeWhile
import Mathlib.Tactic.Common

/-!
# Character sets

A character set writes strings as bytes and reads them, and what it reads it writes in no other way.
It may be unable to write a string faithfully. Bytes with a mark between them, written for two
strings in whatever way, are read as these strings exactly when the first has no such mark and the
bytes of each are read as it (`split_iff`).
-/

structure Charset where
  encode : String → List UInt8
  decode : List UInt8 → Option String
  encode_of_decode : ∀ {bytes : List UInt8} {s : String}, decode bytes = some s → encode s = bytes

namespace Charset

/-- The string is read back. -/
def Faithful (cs : Charset) (s : String) : Prop := cs.decode (cs.encode s) = some s

instance (cs : Charset) (s : String) : Decidable (cs.Faithful s) :=
  inferInstanceAs (Decidable (_ = _))

/-- The byte stands for the character and nothing else. -/
def Marks (cs : Charset) (c : Char) (b : UInt8) : Prop := ∀ s, b ∈ cs.encode s ↔ c ∈ s.toList

section Split

variable (cs : Charset) (b : UInt8)

/-- What is before and after the first mark. -/
def split (bytes : List UInt8) : Option (String × String) :=
  match bytes.dropWhile (· ≠ b) with
  | [] => none
  | _ :: rest => do
    let s ← cs.decode (bytes.takeWhile (· ≠ b))
    let t ← cs.decode rest
    some (s, t)

variable {cs b}

theorem not_mem_of_split {c : Char} (hmark : cs.Marks c b) {bytes : List UInt8} {s t : String}
    (h : cs.split b bytes = some (s, t)) : c ∉ s.toList := by
  unfold split at h
  split at h
  · cases h
  · next rest hrest =>
    obtain ⟨s', hs, h⟩ := Option.bind_eq_some_iff.1 h
    obtain ⟨t', ht, h⟩ := Option.bind_eq_some_iff.1 h
    cases h
    rw [← hmark s, cs.encode_of_decode hs]
    intro hmem
    have hne := List.mem_takeWhile_imp hmem
    simp at hne

theorem split_of_not_mem {bytes : List UInt8} (hb : b ∉ bytes) (rest : List UInt8) :
    cs.split b (bytes ++ b :: rest) =
      (cs.decode bytes).bind fun s => (cs.decode rest).map (s, ·) := by
  have hne : ∀ x ∈ bytes, decide (x ≠ b) = true := fun x hx =>
    decide_eq_true (ne_of_mem_of_not_mem hx hb)
  have hdrop : (bytes ++ b :: rest).dropWhile (· ≠ b) = b :: rest := by
    rw [List.dropWhile_append_of_pos hne]
    simp
  have htake : (bytes ++ b :: rest).takeWhile (· ≠ b) = bytes := by
    rw [List.takeWhile_append_of_pos hne]
    simp
  unfold split
  rw [hdrop]
  dsimp only
  rw [htake]
  cases cs.decode bytes with
  | none => rfl
  | some s => cases cs.decode rest <;> rfl

/-- **When two strings are read back.** -/
theorem split_iff {c : Char} (hmark : cs.Marks c b) {s t : String} {bytes rest : List UInt8}
    (hbytes : b ∈ bytes ↔ c ∈ s.toList) :
    cs.split b (bytes ++ b :: rest) = some (s, t) ↔
      c ∉ s.toList ∧ cs.decode bytes = some s ∧ cs.decode rest = some t := by
  by_cases hs : c ∈ s.toList
  · refine iff_of_false (fun h => ?_) fun h => h.1 hs
    exact not_mem_of_split hmark h hs
  · rw [split_of_not_mem (fun hb => hs (hbytes.1 hb)), and_iff_right hs]
    constructor
    · intro h
      obtain ⟨s', hs', h⟩ := Option.bind_eq_some_iff.1 h
      obtain ⟨t', ht', h⟩ := Option.map_eq_some_iff.1 h
      cases h
      exact ⟨hs', ht'⟩
    · rintro ⟨hs', ht'⟩
      rw [hs', ht']
      rfl

end Split

/-! ## Latin-1 -/

/-- What is not in Latin-1 becomes a question mark. -/
def latin1Byte (c : Char) : UInt8 := if c.toNat ≤ 0xFF then UInt8.ofNat c.toNat else 63

def latin1Char (b : UInt8) : Char := Char.ofNat b.toNat

theorem toNat_latin1Char (b : UInt8) : (latin1Char b).toNat = b.toNat := by
  have hb := b.toNat_lt
  have hvalid : b.toNat.isValidChar := .inl (by omega)
  rw [latin1Char, Char.ofNat, dif_pos hvalid]
  rfl

theorem latin1Byte_char (b : UInt8) : latin1Byte (latin1Char b) = b := by
  have hb := b.toNat_lt
  rw [latin1Byte, toNat_latin1Char, if_pos (by omega), UInt8.ofNat_toNat]

theorem latin1Char_byte {c : Char} : latin1Char (latin1Byte c) = c ↔ c.toNat ≤ 0xFF := by
  constructor
  · intro h
    have hb := (latin1Byte c).toNat_lt
    rw [← h, toNat_latin1Char]
    omega
  · intro h
    have hbyte : (UInt8.ofNat c.toNat).toNat = c.toNat := by
      rw [UInt8.toNat_ofNat']
      omega
    rw [latin1Byte, if_pos h, latin1Char, hbyte, Char.ofNat_toNat]

def latin1 : Charset where
  encode s := s.toList.map latin1Byte
  decode bytes := some (String.ofList (bytes.map latin1Char))
  encode_of_decode := by
    rintro bytes s h
    cases h
    rw [String.toList_ofList, List.map_map]
    exact List.map_id'' latin1Byte_char bytes

theorem latin1_faithful {s : String} : latin1.Faithful s ↔ ∀ c ∈ s.toList, c.toNat ≤ 0xFF := by
  have hread : latin1.Faithful s ↔ (s.toList.map latin1Byte).map latin1Char = s.toList := by
    unfold Faithful latin1
    dsimp only
    rw [Option.some_inj, ← String.toList_inj, String.toList_ofList]
  rw [hread, List.map_map]
  conv_lhs => rw [← List.map_id s.toList, List.map_map, List.map_inj_left]
  exact forall₂_congr fun c _ => latin1Char_byte

theorem latin1_marks {c : Char} (hc : c.toNat ≤ 0xFF) (hne : c ≠ '?') :
    latin1.Marks c (latin1Byte c) := by
  intro s
  have hinj : ∀ {x : Char}, latin1Byte x = latin1Byte c → x = c := by
    intro x h
    by_cases hx : x.toNat ≤ 0xFF
    · rw [← latin1Char_byte.2 hx, h, latin1Char_byte.2 hc]
    · have hmark : latin1Byte c = latin1Byte '?' := by
        rw [← h, latin1Byte, if_neg hx]
        rfl
      have hchar := congrArg latin1Char hmark
      rw [latin1Char_byte.2 hc] at hchar
      exact absurd hchar hne
  constructor
  · intro h
    obtain ⟨x, hx, hb⟩ := List.mem_map.1 h
    rwa [← hinj hb]
  · exact fun h => List.mem_map_of_mem h

/-! ## UTF-8 -/

theorem utf8_toList (s : String) :
    s.toByteArray.data.toList = s.toList.flatMap String.utf8EncodeChar := by
  conv_lhs => rw [← String.ofList_toList (s := s), String.toByteArray_ofList, List.utf8Encode]
  exact List.toList_data_toByteArray

def utf8 : Charset where
  encode s := s.toByteArray.data.toList
  decode bytes := String.fromUTF8? ⟨bytes.toArray⟩
  encode_of_decode := by
    intro bytes s h
    unfold String.fromUTF8? at h
    split at h
    · cases h
      rfl
    · cases h

theorem utf8_faithful (s : String) : utf8.Faithful s := by
  have hvalid : (⟨s.toByteArray.data.toList.toArray⟩ : ByteArray).IsValidUTF8 := s.isValidUTF8
  unfold Faithful utf8 String.fromUTF8?
  dsimp only
  rw [dif_pos hvalid]
  rfl

/-- A byte of seven bits is a character of its own. -/
theorem mem_utf8EncodeChar {x : Char} {n : ℕ} (hn : n < 128) :
    UInt8.ofNat n ∈ String.utf8EncodeChar x ↔ x.toNat = n := by
  have heq : ∀ m, UInt8.ofNat n = UInt8.ofNat m ↔ n = m % 256 := by
    intro m
    rw [← UInt8.toNat_inj, UInt8.toNat_ofNat', UInt8.toNat_ofNat']
    omega
  have hx : x.toNat = x.val.toNat := rfl
  unfold String.utf8EncodeChar
  dsimp only
  split
  · rw [List.mem_singleton, heq]
    omega
  · split
    · simp only [List.mem_cons, List.not_mem_nil, or_false, heq]
      omega
    · split <;>
      · simp only [List.mem_cons, List.not_mem_nil, or_false, heq]
        omega

theorem utf8_marks {c : Char} (hc : c.toNat < 128) : utf8.Marks c (UInt8.ofNat c.toNat) := by
  intro s
  have hbytes : utf8.encode s = s.toList.flatMap String.utf8EncodeChar := utf8_toList s
  rw [hbytes, List.mem_flatMap]
  constructor
  · rintro ⟨x, hx, hb⟩
    rwa [← Char.toNat_inj.1 ((mem_utf8EncodeChar hc).1 hb)]
  · exact fun h => ⟨c, h, (mem_utf8EncodeChar hc).2 rfl⟩

end Charset
