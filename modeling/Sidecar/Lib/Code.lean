import Mathlib.Data.List.Basic

/-!
# Codes that are read from the left

A code writes every symbol as a word and reads one symbol off the front of a text. What is written
up to a closing symbol that starts no word is read back, whatever comes after it.
-/

structure Code (α β : Type*) where
  word : α → List β
  /-- The symbol that a text starts with, and the rest of the text. -/
  next : List β → Option (α × List β)
  word_ne_nil : ∀ a, word a ≠ []
  next_word : ∀ a rest, next (word a ++ rest) = some (a, rest)

namespace Code

variable {α β : Type*} (c : Code α β)

def write (l : List α) : List β := l.flatMap c.word

@[simp] theorem write_nil : c.write [] = [] := rfl

@[simp] theorem write_cons (a : α) (l : List α) : c.write (a :: l) = c.word a ++ c.write l :=
  List.flatMap_cons ..

theorem mem_write {b : β} {l : List α} : b ∈ c.write l ↔ ∃ a ∈ l, b ∈ c.word a :=
  List.mem_flatMap

theorem length_le_length_write (l : List α) : l.length ≤ (c.write l).length := by
  induction l with
  | nil => exact Nat.le_refl _
  | cons a l ih =>
    have hword : 0 < (c.word a).length := List.length_pos_iff.mpr (c.word_ne_nil a)
    rw [write_cons, List.length_append, List.length_cons]
    omega

section Closed

variable [DecidableEq β]

/-- Reads at most `n` symbols up to `close`. -/
def scan (close : β) : ℕ → List β → Option (List α × List β)
  | 0, _ => none
  | _ + 1, [] => none
  | n + 1, b :: text =>
    if b = close then some ([], text)
    else match c.next (b :: text) with
      | none => none
      | some (a, rest) => (scan close n rest).map fun (l, after) => (a :: l, after)

/-- Reads up to `close`; a text has no more words than symbols. -/
def readTo (close : β) (text : List β) : Option (List α × List β) := c.scan close text.length text

variable {close : β}

theorem scan_write (hclose : ∀ a, (c.word a).head? ≠ some close) (l : List α) (rest : List β) :
    ∀ n, l.length < n → c.scan close n (c.write l ++ close :: rest) = some (l, rest) := by
  induction l with
  | nil =>
    intro n hn
    obtain ⟨n, rfl⟩ := Nat.exists_eq_succ_of_ne_zero (Nat.ne_of_gt hn)
    simp [scan]
  | cons a l ih =>
    intro n hn
    obtain ⟨n, rfl⟩ := Nat.exists_eq_succ_of_ne_zero (Nat.ne_of_gt (Nat.zero_lt_of_lt hn))
    have hnext := c.next_word a (c.write l ++ close :: rest)
    have hhead := hclose a
    rw [write_cons, List.append_assoc]
    rcases hword : c.word a with _ | ⟨b, word⟩
    · exact absurd hword (c.word_ne_nil a)
    · rw [hword] at hnext hhead
      have hb : b ≠ close := fun h => hhead (congrArg some h)
      rw [List.cons_append] at hnext ⊢
      simp [scan, hb, hnext, ih n (Nat.lt_of_succ_lt_succ hn)]

theorem readTo_write (hclose : ∀ a, (c.word a).head? ≠ some close) (l : List α) (rest : List β) :
    c.readTo close (c.write l ++ close :: rest) = some (l, rest) := by
  have hlength := c.length_le_length_write l
  refine c.scan_write hclose l rest _ ?_
  rw [List.length_append, List.length_cons]
  omega

end Closed

/-! ## Escaping -/

section Escaping

variable (mark : α) (letter named : α → Option α)

/-- Symbols that have a letter are written as `mark` and the letter, all others as they are. -/
def escape (a : α) : List α :=
  match letter a with
  | some b => [mark, b]
  | none => [a]

def unescape [DecidableEq α] : List α → Option (α × List α)
  | [] => none
  | [a] => if a = mark then none else some (a, [])
  | a :: b :: rest => if a = mark then (named b).map (·, rest) else some (a, b :: rest)

variable {mark letter named}

theorem escape_ne_nil (a : α) : escape mark letter a ≠ [] := by
  unfold escape
  split <;> simp

theorem unescape_escape [DecidableEq α] (hmark : (letter mark).isSome)
    (hnamed : ∀ a b, letter a = some b → named b = some a) (a : α) (rest : List α) :
    unescape mark named (escape mark letter a ++ rest) = some (a, rest) := by
  unfold escape
  split
  · next b hb => simp [unescape, hnamed a b hb]
  · next hnone =>
    have hne : a ≠ mark := by
      rintro rfl
      simp [hnone] at hmark
    rcases rest with _ | ⟨b, rest⟩ <;> simp [unescape, hne]

/-- `named` takes a letter back to its symbol, and the mark itself is escaped. -/
def escaping [DecidableEq α] (mark : α) (hmark : (letter mark).isSome)
    (hnamed : ∀ a b, letter a = some b → named b = some a) : Code α α where
  word := escape mark letter
  next := unescape mark named
  word_ne_nil := escape_ne_nil
  next_word := unescape_escape hmark hnamed

end Escaping

end Code
