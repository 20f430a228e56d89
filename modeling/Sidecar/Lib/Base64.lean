import Mathlib.Data.List.Basic

/-!
# Base64

The standard alphabet with padding: three bytes are four digits of six bits each, and what is left
at the end is padded with `=`. The reader takes nothing else: a text whose length is no multiple of
four, a padding that does not end it and bits that do not belong to a byte are errors. What is
written is read back (`decode_encode`).
-/

namespace Base64

def alphabet : List Char :=
  "ABCDEFGHIJKLMNOPQRSTUVWXYZabcdefghijklmnopqrstuvwxyz0123456789+/".toList

def digit (n : ℕ) : Char := alphabet.getD n '='

def value (c : Char) : Option ℕ := alphabet.idxOf? c

theorem value_digit_all : ∀ n, n < 64 → value (digit n) = some n ∧ digit n ≠ '=' := by decide

theorem value_digit {n : ℕ} (h : n < 64) : value (digit n) = some n := (value_digit_all n h).1

theorem digit_ne_pad {n : ℕ} (h : n < 64) : digit n ≠ '=' := (value_digit_all n h).2

def encode : List UInt8 → List Char
  | [] => []
  | [a] => [digit (a.toNat / 4), digit (a.toNat % 4 * 16), '=', '=']
  | [a, b] =>
    [digit (a.toNat / 4), digit (a.toNat % 4 * 16 + b.toNat / 16), digit (b.toNat % 16 * 4), '=']
  | a :: b :: c :: rest =>
    digit (a.toNat / 4) :: digit (a.toNat % 4 * 16 + b.toNat / 16) ::
      digit (b.toNat % 16 * 4 + c.toNat / 64) ::
      digit (c.toNat % 64) :: encode rest

/-- The bytes of four digits. -/
def first (x y : ℕ) : UInt8 := UInt8.ofNat (x * 4 + y / 16)

def second (y z : ℕ) : UInt8 := UInt8.ofNat (y % 16 * 16 + z / 4)

def third (z t : ℕ) : UInt8 := UInt8.ofNat (z % 4 * 64 + t)

/-- The digits before the padding. -/
def decodeTail (p q r : Char) : Option (List UInt8) := do
  let x ← value p
  let y ← value q
  if r = '=' then
    if y % 16 = 0 then some [first x y] else none
  else
    let z ← value r
    if z % 4 = 0 then some [first x y, second y z] else none

def decode : List Char → Option (List UInt8)
  | [] => some []
  | p :: q :: r :: s :: rest =>
    if s = '=' then if rest = [] then decodeTail p q r else none
    else do
      let x ← value p
      let y ← value q
      let z ← value r
      let t ← value s
      let bytes ← decode rest
      some (first x y :: second y z :: third z t :: bytes)
  | _ => none

theorem ofNat_of_eq {a : UInt8} {n : ℕ} (h : n = a.toNat) : UInt8.ofNat n = a := by
  rw [h, UInt8.ofNat_toNat]

/-- **What is written is read back.** -/
theorem decode_encode (bytes : List UInt8) : decode (encode bytes) = some bytes := by
  induction bytes using encode.induct with
  | case1 => rfl
  | case2 a =>
    have ha := a.toNat_lt
    have hx := value_digit (n := a.toNat / 4) (by omega)
    have hy := value_digit (n := a.toNat % 4 * 16) (by omega)
    have hpad : a.toNat % 4 * 16 % 16 = 0 := by omega
    have hfirst : first (a.toNat / 4) (a.toNat % 4 * 16) = a := ofNat_of_eq (by omega)
    simp [encode, decode, decodeTail, hx, hy, hpad, hfirst]
  | case3 a b =>
    have ha := a.toNat_lt
    have hb := b.toNat_lt
    have hx := value_digit (n := a.toNat / 4) (by omega)
    have hy := value_digit (n := a.toNat % 4 * 16 + b.toNat / 16) (by omega)
    have hz := value_digit (n := b.toNat % 16 * 4) (by omega)
    have hne := digit_ne_pad (n := b.toNat % 16 * 4) (by omega)
    have hpad : b.toNat % 16 * 4 % 4 = 0 := by omega
    have hfirst : first (a.toNat / 4) (a.toNat % 4 * 16 + b.toNat / 16) = a :=
      ofNat_of_eq (by omega)
    have hsecond : second (a.toNat % 4 * 16 + b.toNat / 16) (b.toNat % 16 * 4) = b :=
      ofNat_of_eq (by omega)
    simp [encode, decode, decodeTail, hx, hy, hz, hne, hpad, hfirst, hsecond]
  | case4 a b c rest ih =>
    have ha := a.toNat_lt
    have hb := b.toNat_lt
    have hc := c.toNat_lt
    have hx := value_digit (n := a.toNat / 4) (by omega)
    have hy := value_digit (n := a.toNat % 4 * 16 + b.toNat / 16) (by omega)
    have hz := value_digit (n := b.toNat % 16 * 4 + c.toNat / 64) (by omega)
    have ht := value_digit (n := c.toNat % 64) (by omega)
    have hne := digit_ne_pad (n := c.toNat % 64) (by omega)
    have hfirst : first (a.toNat / 4) (a.toNat % 4 * 16 + b.toNat / 16) = a :=
      ofNat_of_eq (by omega)
    have hsecond : second (a.toNat % 4 * 16 + b.toNat / 16) (b.toNat % 16 * 4 + c.toNat / 64) = b :=
      ofNat_of_eq (by omega)
    have hthird : third (b.toNat % 16 * 4 + c.toNat / 64) (c.toNat % 64) = c :=
      ofNat_of_eq (by omega)
    simp [encode, decode, hx, hy, hz, ht, hne, hfirst, hsecond, hthird, ih]

end Base64
