import Sidecar.Logger

/-!
# Failed rollovers

A rollover that cannot open the path again leaves the open file on `/dev/null` (`rotate_file`),
where a later `emit` has size 0 to add its line to: it rolls over again only when the line alone is
too long, and drops the line otherwise. A line reaches the log exactly when the open file is not
parked there or the line rolls over, and `/dev/null` can be opened when it does (`recorded_iff`).
-/

namespace Sidecar.Logger

open Chain

/-- One call of `emit` in a run. -/
structure Emission (path : String) where
  before : Sink path
  faults : Faults
  line : Line

/-- The calls of a run, up to the one that aborts. -/
def RotatingFile.emissions (l : RotatingFile) : List (Faults × Line) → Sink l.path →
    List (Emission l.path)
  | [], _ => []
  | e :: es, s => ⟨s, e.1, e.2⟩ ::
      match l.emit e.1 e.2 s with
      | .ok s' => l.emissions es s'
      | .error _ => []

variable {l : RotatingFile}

/-- The line ends up in the log: it is appended to the file at the path, as the rollover has left
it. -/
def Recorded (l : RotatingFile) (e : Emission l.path) : Prop :=
  ∃ r c, l.rotate e.faults e.line e.before = .ok r ∧ r.folder l.path = some c ∧
    ∃ s, l.emit e.faults e.line e.before = .ok s ∧ s.folder l.path = some (c ++ e.line.bytes)

/-- The open file is the log, or a rollover is due, which then finds `/dev/null`. -/
def Writable (l : RotatingFile) (e : Emission l.path) : Prop :=
  if l.rolls e.faults e.line e.before = true then e.faults.null = false else e.before.file = .log

instance (e : Emission l.path) : Decidable (Writable l e) := by
  unfold Writable
  infer_instance

theorem rotate_isOk {ft : Faults} {line : Line} {s : Sink l.path} :
    (∃ r, l.rotate ft line s = .ok r) ↔ (l.rolls ft line s = true → ft.null = false) := by
  unfold RotatingFile.rotate
  split
  · next hrolls =>
    dsimp only [RotatingFile.rollover]
    cases hnull : ft.null <;> simp [hrolls]
  · next hrolls => simp [hrolls]

theorem write_appends {path : String} {r : Sink path} {c : Bytes} (hc : r.folder path = some c)
    (line : Line) :
    (r.write line.bytes).folder path = some (c ++ line.bytes) ↔ r.file = .log := by
  cases hfile : r.file with
  | log => simp [Sink.write_log hfile, hc]
  | null => simp [Sink.write_null hfile, hc, line.bytes_ne_nil]

/-- When the path can be opened and writes succeed. -/
theorem recorded_iff {e : Emission l.path} (hwrite : e.faults.write = none)
    (hopen : e.faults.reopen = false) :
    Recorded l e ↔ Writable l e := by
  have hfile {r} (hr : l.rotate e.faults e.line e.before = .ok r) :
      r.file = .log ↔ (l.rolls e.faults e.line e.before = true ∨ e.before.file = .log) := by
    have hnull := rotate_file hr
    rw [hopen] at hnull
    cases hrf : r.file <;> cases hbf : e.before.file <;> simp_all
  unfold Writable
  constructor
  · rintro ⟨r, c, hr, hc, s, hs, hsc⟩
    rw [emit_of_rotate hr hwrite] at hs
    cases hs
    have hlog := (hfile hr).1 ((write_appends hc e.line).1 hsc)
    split
    · next hrolls => exact rotate_isOk.1 ⟨r, hr⟩ hrolls
    · next hrolls => exact hlog.resolve_left hrolls
  · intro h
    obtain ⟨r, hr⟩ : ∃ r, l.rotate e.faults e.line e.before = .ok r := by
      refine rotate_isOk.2 fun hrolls => ?_
      rwa [if_pos hrolls] at h
    have hlog : r.file = .log := by
      refine (hfile hr).2 ?_
      split at h
      · exact .inl ‹_›
      · exact .inr h
    obtain ⟨c, hc⟩ := Option.isSome_iff_exists.1 (r.opened hlog)
    exact ⟨r, c, hr, hc, _, emit_of_rotate hr hwrite, (write_appends hc e.line).2 hlog⟩

theorem emissions_faults {es : List (Faults × Line)} {s : Sink l.path} {e : Emission l.path}
    (h : e ∈ l.emissions es s) : (e.faults, e.line) ∈ es := by
  induction es generalizing s with
  | nil => cases h
  | cons f es ih =>
    rw [RotatingFile.emissions, List.mem_cons] at h
    rcases h with rfl | h
    · exact List.mem_cons_self
    · cases hemit : l.emit f.1 f.2 s with
      | ok s' =>
        rw [hemit] at h
        exact List.mem_cons_of_mem _ (ih h)
      | error folder =>
        rw [hemit] at h
        cases h

/-- In a run whose writes succeed the log misses no line emitted while the path could be opened, if
and only if each of them found the log open, or a rollover due in which `/dev/null` could be
opened. -/
theorem failed_rollover_recorded_iff (l : RotatingFile) (s : Sink l.path)
    (es : List (Faults × Line)) (hwrite : ∀ e ∈ es, e.1.write = none) :
    (∀ e ∈ l.emissions es s, e.faults.reopen = false → Recorded l e) ↔
      ∀ e ∈ l.emissions es s, e.faults.reopen = false → Writable l e := by
  refine forall₃_congr fun e he hopen => ?_
  exact recorded_iff (hwrite _ (emissions_faults he)) hopen

/-- At most ten bytes and one backup. -/
def sampleParked : RotatingFile := .ofHandler "app.log" (some 10) (some 1)

/-- A log of eight bytes. -/
def sampleFolder : Folder :=
  fun p => if p = "app.log" then some [97, 98, 99, 100, 101, 102, 103, 10] else none

def reopenFails : Faults := { Faults.none with reopen := true }

/-- The rename of the log fails in the rollover, which loses nothing. -/
theorem failed_rollover_recorded_sample :
    let es := [({ Faults.none with rename := fun i => i == 0 }, ⟨[104, 105, 106]⟩)]
    let run := sampleParked.emissions es (sampleParked.start sampleFolder)
    run.length = 1 ∧ ∀ e ∈ run, e.faults.reopen = false → Recorded sampleParked e :=
  ⟨by decide +kernel, (failed_rollover_recorded_iff sampleParked _ _ (by decide)).2
    (by decide +kernel)⟩

/-- The path cannot be opened again in a rollover, and the next line is lost although it could
be. -/
theorem failed_rollover_silences :
    ¬∀ e ∈ sampleParked.emissions [(reopenFails, ⟨[104, 105, 106]⟩), (.none, ⟨[107, 108, 109]⟩)]
      (sampleParked.start sampleFolder), e.faults.reopen = false → Recorded sampleParked e := by
  intro h
  have hsecond := h _ (List.mem_cons_of_mem _ List.mem_cons_self) rfl
  have hwritable := (recorded_iff rfl rfl).1 hsecond
  revert hwritable
  decide +kernel

end Sidecar.Logger
