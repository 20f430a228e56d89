import Mathlib.Data.List.Forall2
import Mathlib.Data.List.Infix
import Mathlib.Logic.Function.Basic

/-!
# A numbered chain of files

A folder maps names to contents. `rename` moves a file over another and leaves everything when
there is none to move. A chain is a family of distinct names, 0 the youngest, and `shift` moves
each file of it one number up, the oldest first, so that no move meets a file that is still to be
moved (`shift_slot`), with gaps or without.

`Log` is what such a chain stands for: the files ever closed, in order, and the one that is being
filled. Nothing is lost from it (`Log.fill_flatten`) and its files stay within the limit that
closes them (`Log.fill_bounded`). A chain keeps the tail of a log (`Tail`), both when a line is
appended to file 0 (`Tail.append`) and when the files are shifted first (`Tail.shift`).
-/

namespace Chain

section Folder

variable {κ α : Type*} [DecidableEq κ]

def remove (fs : κ → Option α) (a : κ) : κ → Option α := Function.update fs a none

/-- What is at `a` is at `b` afterwards; a missing `a` changes nothing. -/
def rename (fs : κ → Option α) (a b : κ) : κ → Option α :=
  if (fs a).isSome then Function.update (Function.update fs a none) b (fs a) else fs

/-- A move to a free name: a missing file leaves the target missing. -/
theorem rename_free {fs : κ → Option α} {a b : κ} (hab : a ≠ b) (hb : fs b = none) (c : κ) :
    rename fs a b c = if c = b then fs a else if c = a then none else fs c := by
  unfold rename
  by_cases ha : (fs a).isSome = true
  · simp [ha, Function.update_apply]
  · have ha : fs a = none := by simpa using ha
    by_cases hcb : c = b
    · subst hcb; simp [ha, hb]
    · by_cases hca : c = a
      · subst hca; simp [ha]
      · simp [ha, hcb, hca]

/-- Move `n - 1` to `n`, then `n - 2` to `n - 1`, down to 0 to 1. -/
def shift (name : ℕ → κ) : ℕ → (κ → Option α) → κ → Option α
  | 0, fs => fs
  | n + 1, fs => shift name n (rename fs (name n) (name (n + 1)))

variable {name : ℕ → κ}

theorem shift_of_ne {n : ℕ} {fs : κ → Option α} {c : κ} (hc : ∀ j ≤ n, c ≠ name j) :
    shift name n fs c = fs c := by
  induction n generalizing fs with
  | zero => rfl
  | succ n ih =>
    rw [shift, ih (fun j hj => hc j (by omega)), rename]
    split
    · simp [hc n (by omega), hc (n + 1) (by omega)]
    · rfl

/-- With the oldest name free, every file is found one number up and number 0 is free. -/
theorem shift_slot (hname : name.Injective) {n : ℕ} {fs : κ → Option α} (hn : fs (name n) = none) :
    shift name n fs (name 0) = none ∧ ∀ j < n, shift name n fs (name (j + 1)) = fs (name j) := by
  induction n generalizing fs with
  | zero => exact ⟨hn, fun j hj => absurd hj (Nat.not_lt_zero j)⟩
  | succ n ih =>
    have hmove := rename_free (hname.ne (Nat.succ_ne_self n).symm) hn
    have hfree : rename fs (name n) (name (n + 1)) (name n) = none := by
      simp [hmove, hname.eq_iff]
    obtain ⟨hzero, hup⟩ := ih hfree
    refine ⟨hzero, fun j hj => ?_⟩
    rcases Nat.lt_succ_iff_lt_or_eq.1 hj with hlt | rfl
    · rw [shift, hup j hlt, hmove]
      simp [hname.eq_iff, show j ≠ n + 1 by omega, show j ≠ n by omega]
    · rw [shift, shift_of_ne (fun i hi => hname.ne (by omega)), hmove, if_pos rfl]

end Folder

section Held

variable {α : Type*}

/-- The files at the numbers `n`, …, 0 that exist, the oldest first. -/
def held (s : ℕ → Option α) : ℕ → List α
  | 0 => (s 0).toList
  | n + 1 => (s (n + 1)).toList ++ held s n

theorem held_suffix_succ (s : ℕ → Option α) (n : ℕ) : held s n <:+ held s (n + 1) :=
  List.suffix_append ..

/-- One number up, with a new file at 0. -/
theorem held_succ {s s' : ℕ → Option α} {n : ℕ} (h : ∀ j ≤ n, s' (j + 1) = s j) :
    held s' (n + 1) = held s n ++ (s' 0).toList := by
  induction n with
  | zero => simp [held, h 0 le_rfl]
  | succ n ih =>
    rw [held, ih (fun j hj => h j (by omega)), h (n + 1) le_rfl, held, List.append_assoc]

end Held

/-- A log nothing is ever deleted from: its closed files, the oldest first, and the current one. -/
structure Log (β : Type*) where
  closed : List (List β)
  current : List β

namespace Log

variable {β : Type*}

def files (l : Log β) : List (List β) := l.closed ++ [l.current]

/-- A line that does not fit the current file closes it and begins the next one. -/
def add (limit : ℕ) (l : Log β) (line : List β) : Log β :=
  if limit < l.current.length + line.length then ⟨l.files, line⟩ else ⟨l.closed, l.current ++ line⟩

def fill (limit : ℕ) (l : Log β) (lines : List (List β)) : Log β := lines.foldl (add limit) l

variable {limit : ℕ} {l : Log β}

theorem add_flatten (line : List β) :
    (l.add limit line).files.flatten = l.files.flatten ++ line := by
  unfold add
  split <;> simp [files]

theorem fill_flatten (lines : List (List β)) :
    (l.fill limit lines).files.flatten = l.files.flatten ++ lines.flatten := by
  induction lines generalizing l with
  | nil => simp [fill]
  | cons line lines ih =>
    have hstep := ih (l := l.add limit line)
    rw [add_flatten, List.append_assoc] at hstep
    exact hstep

theorem add_current (line : List β) : ∃ c, (l.add limit line).current = c ++ line := by
  unfold add
  split
  · exact ⟨[], rfl⟩
  · exact ⟨l.current, rfl⟩

theorem fill_concat (lines : List (List β)) (line : List β) :
    l.fill limit (lines ++ [line]) = (l.fill limit lines).add limit line := by
  simp [fill, List.foldl_append]

/-- Every file is within the limit, but for those that `P` allows. -/
def Bounded (limit : ℕ) (P : List β → Prop) (files : List (List β)) : Prop :=
  ∀ c ∈ files, c.length ≤ limit ∨ P c

theorem add_bounded {P : List β → Prop} {line : List β} (hl : Bounded limit P l.files)
    (hline : P line) : Bounded limit P (l.add limit line).files := by
  intro c hc
  unfold add at hc
  split at hc
  · rcases List.mem_append.1 hc with hold | hnew
    · exact hl c hold
    · rw [List.mem_singleton.1 hnew]
      exact .inr hline
  · next hfits =>
    rcases List.mem_append.1 hc with hold | hnew
    · exact hl c (List.mem_append_left _ hold)
    · rw [List.mem_singleton.1 hnew, List.length_append]
      exact .inl (by omega)

theorem fill_bounded {P : List β → Prop} {lines : List (List β)} (hl : Bounded limit P l.files)
    (hlines : ∀ line ∈ lines, P line) : Bounded limit P (l.fill limit lines).files := by
  induction lines generalizing l with
  | nil => exact hl
  | cons line lines ih =>
    exact ih (add_bounded hl (hlines line List.mem_cons_self))
      (fun m hm => hlines m (List.mem_cons_of_mem _ hm))

end Log

section Tail

variable {β : Type*} {s s' : ℕ → Option (List β)} {l : Log β} {n : ℕ}

/-- The files at 0 to `n` are the last files of the log, and file 0 is the current one. -/
structure Tail (n : ℕ) (s : ℕ → Option (List β)) (l : Log β) : Prop where
  current : s 0 = some l.current
  suffix : held s n <:+ l.files

theorem Tail.start (hzero : s 0 = some l.current)
    (hclosed : l.closed = held (fun j => s (j + 1)) n) :
    Tail (n + 1) s l where
  current := hzero
  suffix := by
    rw [held_succ (s := fun j => s (j + 1)) (fun j _ => rfl), hzero, Log.files, hclosed]
    exact List.suffix_rfl

theorem Tail.append (h : Tail (n + 1) s l) (line : List β) (hzero : s' 0 = some (l.current ++ line))
    (hrest : ∀ j ≤ n, s' (j + 1) = s (j + 1)) : Tail (n + 1) s' ⟨l.closed, l.current ++ line⟩ where
  current := hzero
  suffix := by
    obtain ⟨dropped, hdropped⟩ := h.suffix
    rw [held_succ (s := fun j => s (j + 1)) (fun j _ => rfl), h.current, Log.files,
      ← List.append_assoc]
      at hdropped
    have hclosed := List.append_cancel_right hdropped
    rw [held_succ hrest, hzero, Log.files, ← hclosed, List.append_assoc]
    exact List.suffix_append ..

theorem Tail.shift (h : Tail (n + 1) s l) (line : List β) (hzero : s' 0 = some line)
    (hrest : ∀ j ≤ n, s' (j + 1) = s j) : Tail (n + 1) s' ⟨l.files, line⟩ where
  current := hzero
  suffix := by
    obtain ⟨dropped, hdropped⟩ := (held_suffix_succ s n).trans h.suffix
    rw [held_succ hrest, hzero, Log.files, ← hdropped, List.append_assoc]
    exact List.suffix_append ..

end Tail

/-! ## Logs that can be read -/

section ReadAs

variable {β γ δ : Type*} (R : List β → List γ → Prop)

/-- The files of the log read as these records. -/
structure Log.ReadAs (l : Log β) (closed : List (List γ)) (current : List γ) : Prop where
  closed : List.Forall₂ R l.closed closed
  current : R l.current current

variable {R} (limit : ℕ) {l : Log β} {closed : List (List γ)} {current : List γ}
  (write : δ → List β) (read : δ → γ)
  (hnew : ∀ d, R (write d) [read d]) (hmore : ∀ c xs d, R c xs → R (c ++ write d) (xs ++ [read d]))
include hnew hmore

theorem Log.ReadAs.add (h : l.ReadAs R closed current) (d : δ) :
    ∃ closed' current', (l.add limit (write d)).ReadAs R closed' current' ∧
      closed'.flatten ++ current' = closed.flatten ++ current ++ [read d] ∧ current' ≠ [] := by
  unfold Log.add
  split
  · have hfiles : List.Forall₂ R l.files (closed ++ [current]) :=
      List.rel_append h.closed (.cons h.current .nil)
    exact ⟨_, _, ⟨hfiles, hnew d⟩, by simp, by simp⟩
  · exact ⟨_, _, ⟨h.closed, hmore _ _ d h.current⟩, by simp, by simp⟩

/-- What is written is read after what was there, and the last line is in the current file. -/
theorem Log.ReadAs.fill (h : l.ReadAs R closed current) (ds : List δ) :
    ∃ closed' current', (l.fill limit (ds.map write)).ReadAs R closed' current' ∧
      closed'.flatten ++ current' = closed.flatten ++ current ++ ds.map read ∧
      (ds ≠ [] → current' ≠ []) := by
  induction ds using List.reverseRecOn with
  | nil => exact ⟨closed, current, h, by simp, fun hne => absurd rfl hne⟩
  | append_singleton ds d ih =>
    obtain ⟨closed', current', hread, hall, -⟩ := ih
    obtain ⟨closed'', current'', hread', hall', hne⟩ := hread.add limit write read hnew hmore d
    refine ⟨closed'', current'', ?_, ?_, fun _ => hne⟩
    · rw [List.map_append, List.map_singleton, Log.fill_concat]
      exact hread'
    · rw [hall', hall]
      simp

omit hnew hmore in
/-- The files that are left read as the last of the records, those of the current file among
them. -/
theorem Tail.readAs {s : ℕ → Option (List β)} {n : ℕ} (h : Tail n s l)
    (hread : l.ReadAs R closed current) :
    ∃ kept, kept <:+ closed ∧ List.Forall₂ R (held s n) (kept ++ [current]) := by
  obtain ⟨dropped, hdropped⟩ := h.suffix
  obtain ⟨older, holder⟩ : ∃ older, held s n = older ++ [l.current] := by
    cases n with
    | zero => exact ⟨[], by rw [held, h.current]; rfl⟩
    | succ n =>
      refine ⟨held (fun j => s (j + 1)) n, ?_⟩
      rw [held_succ (s := fun j => s (j + 1)) (fun j _ => rfl), h.current]
      rfl
  rw [holder, Log.files, ← List.append_assoc] at hdropped
  have hclosed := List.append_cancel_right hdropped
  have hkept := hread.closed
  rw [← hclosed] at hkept
  refine ⟨closed.drop dropped.length, List.drop_suffix _ _, ?_⟩
  rw [holder]
  exact List.rel_append (by simpa using List.forall₂_drop dropped.length hkept)
    (.cons hread.current .nil)

end ReadAs

end Chain
