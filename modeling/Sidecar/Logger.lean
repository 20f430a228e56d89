import Mathlib.Data.Nat.Basic
import Sidecar.Lib.Chain

/-!
# The log file

`Sink::RotatingFile` of logger.rs: what `init` opens and what `emit` does with a line that is to be
written. The files are those of the folder the log is in, and of every call that `emit` makes it is
given whether it fails (`Faults`). The open file is the one at `path` or, when the path could not be
opened again after a rollover, `/dev/null`; files that have been renamed are never open.

Opening `/dev/null` is unwrapped, and a panic aborts the process: `emit` is then the files it
leaves.
-/

namespace Sidecar.Logger

open Chain

abbrev Bytes := List UInt8

abbrev Folder := String → Option Bytes

/-- What both formats print: a text and a line feed. -/
structure Line where
  text : Bytes
  deriving DecidableEq

def Line.bytes (line : Line) : Bytes := line.text ++ [10]

theorem Line.bytes_ne_nil (line : Line) : line.bytes ≠ [] := by
  unfold Line.bytes
  simp

/-- The settings of `Sink::RotatingFile`. -/
structure RotatingFile where
  path : String
  max_bytes : UInt64
  backup_count : UInt32
  deriving DecidableEq

/-- The settings as `init` reads them; `maxBytes` and `backupCount` are what `as_u64` makes of
them. -/
def RotatingFile.ofHandler (filename : String) (maxBytes backupCount : Option UInt64) :
    RotatingFile where
  path := filename
  max_bytes := maxBytes.getD 0
  backup_count := (backupCount.getD 0).toUInt32

def bak (path : String) (i : ℕ) : String := s!"{path}.{i}"

/-- The log is number 0 of its chain. -/
def name (path : String) : ℕ → String
  | 0 => path
  | i + 1 => bak path (i + 1)

theorem bak_injective (path : String) : (bak path).Injective := by
  intro i j h
  have hrepr : i.repr = j.repr := by simpa [bak] using h
  have hdigits : Nat.toDigits 10 i = Nat.toDigits 10 j := by
    rw [← Nat.toList_repr, hrepr, Nat.toList_repr]
  rw [← Nat.ofDigitChars_ten_toDigits (n := i), hdigits, Nat.ofDigitChars_ten_toDigits]

theorem bak_ne (path : String) (i : ℕ) : bak path i ≠ path := by
  intro h
  have hlen := congrArg String.length h
  have hdot : ".".length = 1 := rfl
  simp only [bak, String.length_append, toString, hdot] at hlen
  omega

theorem name_injective (path : String) : (name path).Injective := by
  intro i j h
  rcases i with _ | i <;> rcases j with _ | j
  · rfl
  · exact absurd h.symm (bak_ne path _)
  · exact absurd h (bak_ne path _)
  · exact bak_injective path h

/-- What the open file is. -/
inductive Target
  | log
  | null
  deriving DecidableEq

structure Sink (path : String) where
  folder : Folder
  file : Target
  opened : file = .log → (folder path).isSome

/-- Which calls of one `emit` fail: of the renames `rename 0` is that of the log and `rename i` that
of backup `i`; `write` is after how many bytes the write fails. -/
structure Faults where
  metadata : Bool
  remove : Bool
  rename : ℕ → Bool
  null : Bool
  reopen : Bool
  write : Option ℕ

def Faults.none : Faults := ⟨false, false, fun _ => false, false, false, .none⟩

variable {path : String}

/-- `create(true).append(true).open(path)` -/
def Sink.create (folder : Folder) (path : String) : Sink path where
  folder := Function.update folder path (some ((folder path).getD []))
  file := .log
  opened _ := by simp

/-- The file that `init` opens; if it cannot, the process exits with code 2. -/
def RotatingFile.start (l : RotatingFile) (folder : Folder) : Sink l.path :=
  Sink.create folder l.path

/-- `f.metadata()`; `/dev/null` has length 0. -/
def Sink.size (s : Sink path) (ft : Faults) : ℕ :=
  if ft.metadata then 0
  else match s.file with
    | .log => ((s.folder path).map List.length).getD 0
    | .null => 0

/-- Whether `emit` rolls over. Both lengths are below 2^63, so that their sum fits a `u64`. -/
def RotatingFile.rolls (l : RotatingFile) (ft : Faults) (line : Line) (s : Sink l.path) : Bool :=
  0 < l.max_bytes && (l.max_bytes.toNat < s.size ft + line.bytes.length && 0 < l.backup_count)

/-- `for i in (1..k + 1).rev()`: rename backup `i` to `i + 1`. -/
def shiftBackups (ft : Faults) (path : String) : ℕ → Folder → Folder
  | 0, folder => folder
  | k + 1, folder => shiftBackups ft path k
      (if ft.rename (k + 1) then folder else rename folder (bak path (k + 1))
        (bak path (k + 1 + 1)))

/-- The rollover of `emit`. -/
def RotatingFile.rollover (l : RotatingFile) (ft : Faults) (s : Sink l.path) :
    Except Folder (Sink l.path) :=
  let folder := if ft.remove then s.folder else remove s.folder (bak l.path l.backup_count.toNat)
  let folder := shiftBackups ft l.path (l.backup_count.toNat - 1) folder
  -- the old handle is only dropped once /dev/null is open
  if ft.null then .error folder
  else
    let folder := if ft.rename 0 then folder else rename folder l.path (bak l.path 1)
    .ok (if ft.reopen then ⟨folder, .null, nofun⟩ else Sink.create folder l.path)

/-- `write_all` on the open file. -/
def Sink.write (s : Sink path) (bytes : Bytes) : Sink path where
  folder :=
    if s.file = .log
      then Function.update s.folder path ((s.folder path).map (· ++ bytes)) else s.folder
  file := s.file
  opened h := by simpa [h] using s.opened h

/-- Everything `emit` does before it writes. -/
def RotatingFile.rotate (l : RotatingFile) (ft : Faults) (line : Line) (s : Sink l.path) :
    Except Folder (Sink l.path) :=
  if l.rolls ft line s then l.rollover ft s else .ok s

def RotatingFile.emit (l : RotatingFile) (ft : Faults) (line : Line) (s : Sink l.path) :
    Except Folder (Sink l.path) :=
  (l.rotate ft line s).map (·.write ((ft.write.map line.bytes.take).getD line.bytes))

/-! ## What the calls leave -/

@[simp] theorem Sink.create_folder_self (folder : Folder) :
    (Sink.create folder path).folder path = some ((folder path).getD []) := Function.update_self ..

theorem Sink.create_folder_of_ne (folder : Folder) {p : String} (h : p ≠ path) :
    (Sink.create folder path).folder p = folder p := Function.update_of_ne h ..

@[simp] theorem Sink.create_file (folder : Folder) : (Sink.create folder path).file = .log := rfl

theorem Sink.write_log {s : Sink path} (h : s.file = .log) (bytes : Bytes) :
    (s.write bytes).folder path = (s.folder path).map (· ++ bytes) := by
  simp [Sink.write, h]

theorem Sink.write_of_ne (s : Sink path) (bytes : Bytes) {p : String} (hp : p ≠ path) :
    (s.write bytes).folder p = s.folder p := by
  simp only [Sink.write]
  split
  · exact Function.update_of_ne hp ..
  · rfl

theorem Sink.write_null {s : Sink path} (h : s.file = .null) (bytes : Bytes) :
    (s.write bytes).folder = s.folder := by
  simp [Sink.write, h]

theorem emit_of_rotate {l : RotatingFile} {ft : Faults} {line : Line} {s r : Sink l.path}
    (h : l.rotate ft line s = .ok r) (hw : ft.write = none) :
    l.emit ft line s = .ok (r.write line.bytes) := by
  simp [RotatingFile.emit, h, hw, Except.map]

/-- The open file is `/dev/null` after an `emit` that failed to open the log again, and stays so as
long as no other rollover succeeds. -/
theorem rotate_file {l : RotatingFile} {ft : Faults} {line : Line} {s r : Sink l.path}
    (h : l.rotate ft line s = .ok r) :
    r.file = .null ↔ if l.rolls ft line s = true then ft.reopen = true else s.file = .null := by
  unfold RotatingFile.rotate at h
  split at h
  · next hrolls =>
    dsimp only [RotatingFile.rollover] at h
    split at h
    · cases h
    · cases h
      rw [if_pos hrolls]
      cases ft.reopen <;> simp
  · next hrolls =>
    cases h
    rw [if_neg hrolls]

end Sidecar.Logger
