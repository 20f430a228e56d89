import Sidecar.Logger

/-!
# Rotation

The log and its backups are a chain, and when no call fails the rollover shifts it (`rollover_eq`).
Over any run they are the tail of a log nothing is deleted from, in which a file is closed when the
next line does not fit (`emit_tail`), and so the tail of what was there and has been emitted since
(`rotation_keeps_tail`).
-/

namespace Sidecar.Logger

open Chain

/-- The files of the chain that exist: the backups, the oldest first, and the log. -/
def RotatingFile.files (l : RotatingFile) (folder : Folder) : List Bytes :=
  held (fun i => folder (name l.path i)) l.backup_count.toNat

/-- The log that the chain stands for at the start; a missing file is an empty one. -/
def RotatingFile.log (l : RotatingFile) (folder : Folder) : Log UInt8 where
  closed := held (fun i => folder (bak l.path (i + 1))) (l.backup_count.toNat - 1)
  current := (folder l.path).getD []

def RotatingFile.run (l : RotatingFile) (es : List (Faults × Line)) (s : Sink l.path) :
    Except Folder (Sink l.path) :=
  es.foldlM (fun s e => l.emit e.1 e.2 s) s

variable {l : RotatingFile}

theorem shiftBackups_rename (path : String) (k : ℕ) (folder : Folder) :
    rename (shiftBackups .none path k folder) path (bak path 1) = shift (name path)
      (k + 1) folder := by
  induction k generalizing folder with
  | zero => rfl
  | succ k ih => exact ih _

theorem rollover_eq (hb : 0 < l.backup_count) (s : Sink l.path) :
    l.rollover .none s = .ok (Sink.create
      (shift (name l.path) l.backup_count.toNat
        (remove s.folder (name l.path l.backup_count.toNat))) l.path) := by
  have hpos : 0 < l.backup_count.toNat := UInt32.lt_iff_toNat_lt.1 hb
  obtain ⟨n, hn⟩ := Nat.exists_eq_add_of_lt hpos
  rw [Nat.zero_add] at hn
  unfold RotatingFile.rollover
  simp only [Faults.none, Bool.false_eq_true, if_false, hn, Nat.add_sub_cancel]
  rw [← shiftBackups_rename]
  rfl

/-- After a rollover the log is empty, every other file is one number up, and the rest is as it
was. -/
theorem rollover_slots (hb : 0 < l.backup_count) (s : Sink l.path) :
    ∃ r, l.rollover .none s = .ok r ∧ r.file = .log ∧ r.folder l.path = some [] ∧
      (∀ j < l.backup_count.toNat, r.folder (name l.path (j + 1)) = s.folder (name l.path j)) ∧
      ∀ i > l.backup_count.toNat, r.folder (bak l.path i) = s.folder (bak l.path i) := by
  set b := l.backup_count.toNat with hbdef
  have hinj := name_injective l.path
  have hfree : remove s.folder (name l.path b) (name l.path b) = none := Function.update_self ..
  obtain ⟨hzero, hup⟩ := shift_slot hinj hfree
  refine ⟨_, rollover_eq hb s, rfl, ?_, fun j hj => ?_, fun i hi => ?_⟩
  · rw [Sink.create_folder_self]
    exact congrArg (fun c => some (c.getD [])) hzero
  · exact (Sink.create_folder_of_ne _ (bak_ne l.path (j + 1))).trans
      ((hup j hj).trans (Function.update_of_ne (hinj.ne hj.ne) ..))
  · obtain ⟨i, rfl⟩ := Nat.exists_eq_add_of_lt hi
    rw [Sink.create_folder_of_ne _ (bak_ne l.path _)]
    have hne : ∀ j ≤ b, name l.path (b + i + 1) ≠ name l.path j := fun j hj => hinj.ne (by omega)
    exact (shift_of_ne hne).trans (Function.update_of_ne (hne b le_rfl) ..)

/-- One `emit` without failures adds its line to the log that the chain is the tail of. -/
theorem emit_tail (hmax : 0 < l.max_bytes) (hb : 0 < l.backup_count) {s : Sink l.path}
    {log : Log UInt8} (hfile : s.file = .log)
    (htail : Tail l.backup_count.toNat (fun i => s.folder (name l.path i)) log) (line : Line) :
    ∃ r, l.emit .none line s = .ok r ∧ r.file = .log ∧
      Tail l.backup_count.toNat (fun i => r.folder (name l.path i))
        (log.add l.max_bytes.toNat line.bytes) ∧
      ∀ i > l.backup_count.toNat, r.folder (bak l.path i) = s.folder (bak l.path i) := by
  have hcur : s.folder l.path = some log.current := htail.current
  obtain ⟨n, hn⟩ := Nat.exists_eq_add_of_lt (UInt32.lt_iff_toNat_lt.1 hb)
  have hn : l.backup_count.toNat = n + 1 := by rw [hn]; simp
  have hsize : s.size .none = log.current.length := by simp [Sink.size, Faults.none, hfile, hcur]
  have hrolls : l.rolls .none line s = true ↔ l.max_bytes.toNat < log.current.length +
      line.bytes.length := by
    simp [RotatingFile.rolls, hmax, hb, hsize]
  by_cases hlong : l.max_bytes.toNat < log.current.length + line.bytes.length
  · obtain ⟨r, hr, hrfile, hzero, hup, habove⟩ := rollover_slots hb s
    have hrot : l.rotate .none line s = .ok r := by
      rw [RotatingFile.rotate, if_pos (hrolls.2 hlong), hr]
    refine ⟨_, emit_of_rotate hrot rfl, hrfile, ?_, fun i hi => ?_⟩
    · rw [Log.add, if_pos hlong, hn]
      rw [hn] at htail hup
      refine htail.shift line.bytes ?_ (fun j hj => ?_)
      · exact (Sink.write_log hrfile _).trans (by rw [hzero]; rfl)
      · exact (Sink.write_of_ne r _ (bak_ne l.path _)).trans (hup j (by omega))
    · rw [Sink.write_of_ne r _ (bak_ne l.path i), habove i hi]
  · have hrot : l.rotate .none line s = .ok s := by
      rw [RotatingFile.rotate, if_neg (hlong ∘ hrolls.1)]
    refine ⟨_, emit_of_rotate hrot rfl, hfile, ?_, fun i hi =>
      Sink.write_of_ne s _ (bak_ne l.path i)⟩
    rw [Log.add, if_neg hlong, hn]
    rw [hn] at htail
    refine htail.append line.bytes ?_ (fun j hj => ?_)
    · exact (Sink.write_log hfile _).trans (by rw [hcur]; rfl)
    · exact Sink.write_of_ne s _ (bak_ne l.path _)

/-- Over a run without failures. -/
theorem run_tail (hmax : 0 < l.max_bytes) (hb : 0 < l.backup_count) {s : Sink l.path}
    {log : Log UInt8} (hfile : s.file = .log)
    (htail : Tail l.backup_count.toNat (fun i => s.folder (name l.path i)) log)
    (lines : List Line) :
    ∃ r, l.run (lines.map fun line => (.none, line)) s = .ok r ∧
      Tail l.backup_count.toNat (fun i => r.folder (name l.path i))
        (log.fill l.max_bytes.toNat (lines.map Line.bytes)) ∧
      ∀ i > l.backup_count.toNat, r.folder (bak l.path i) = s.folder (bak l.path i) := by
  induction lines generalizing s log with
  | nil => exact ⟨s, rfl, htail, fun i _ => rfl⟩
  | cons line lines ih =>
    obtain ⟨m, hm, hmfile, hmtail, hmabove⟩ := emit_tail hmax hb hfile htail line
    obtain ⟨r, hr, hrtail, hrabove⟩ := ih hmfile hmtail
    refine ⟨r, ?_, hrtail, fun i hi => (hrabove i hi).trans (hmabove i hi)⟩
    rw [RotatingFile.run, List.map_cons, List.foldlM_cons, hm]
    exact hr

theorem start_tail (hb : 0 < l.backup_count) (folder : Folder) :
    Tail l.backup_count.toNat (fun i => (l.start folder).folder (name l.path i))
      (l.log folder) := by
  obtain ⟨n, hn⟩ := Nat.exists_eq_add_of_lt (UInt32.lt_iff_toNat_lt.1 hb)
  have hn : l.backup_count.toNat = n + 1 := by rw [hn]; simp
  rw [hn]
  refine Tail.start (Sink.create_folder_self folder) ?_
  unfold RotatingFile.log
  rw [hn, Nat.add_sub_cancel]
  exact congrArg (held · n)
    (funext fun j => (Sink.create_folder_of_ne folder (bak_ne l.path (j + 1))).symm)

theorem files_eq (hb : 0 < l.backup_count) (folder : Folder) :
    l.files folder = (l.log folder).closed ++ (folder l.path).toList := by
  obtain ⟨n, hn⟩ := Nat.exists_eq_add_of_lt (UInt32.lt_iff_toNat_lt.1 hb)
  have hn : l.backup_count.toNat = n + 1 := by rw [hn]; simp
  unfold RotatingFile.files RotatingFile.log
  rw [hn, Nat.add_sub_cancel]
  exact held_succ fun j _ => rfl

theorem log_flatten (hb : 0 < l.backup_count) (folder : Folder) :
    (l.log folder).files.flatten = (l.files folder).flatten := by
  rw [files_eq hb, Log.files, RotatingFile.log]
  cases folder l.path <;> simp

theorem log_bounded (hb : 0 < l.backup_count) {folder : Folder} {max : ℕ} {P : Bytes → Prop}
    (h : Log.Bounded max P (l.files folder)) : Log.Bounded max P (l.log folder).files := by
  rw [files_eq hb] at h
  intro c hc
  rcases List.mem_append.1 hc with hclosed | hcurrent
  · exact h c (List.mem_append_left _ hclosed)
  · rw [List.mem_singleton.1 hcurrent]
    cases hcur : folder l.path with
    | none => simp [RotatingFile.log, hcur]
    | some c =>
      have hheld := h c (List.mem_append_right _ (by simp [hcur]))
      simpa [RotatingFile.log, hcur] using hheld

/-- After any run the files that exist are the last ones of a log that begins with the files there
were and takes up every line. `P` is what makes a file a single line: it holds of the emitted ones,
and of the files there were as far as they are too long. -/
theorem rotation_keeps_tail (l : RotatingFile) (hmax : 0 < l.max_bytes) (hb : 0 < l.backup_count)
    (folder : Folder) (lines : List Line) :
    let archive := ((l.log folder).fill l.max_bytes.toNat (lines.map Line.bytes)).files
    archive.flatten = (l.files folder).flatten ++ (lines.map Line.bytes).flatten ∧
    ∃ s, l.run (lines.map fun line => (.none, line)) (l.start folder) = .ok s ∧
      l.files s.folder <:+ archive ∧
      (∀ line ∈ lines.getLast?, ∃ c, s.folder l.path = some (c ++ line.bytes)) ∧
      (∀ i > l.backup_count.toNat, s.folder (bak l.path i) = folder (bak l.path i)) ∧
      ∀ P : Bytes → Prop, (∀ line ∈ lines, P line.bytes) →
        Log.Bounded l.max_bytes.toNat P (l.files folder) →
        Log.Bounded l.max_bytes.toNat P (l.files s.folder) := by
  intro archive
  obtain ⟨s, hrun, htail, habove⟩ := run_tail hmax hb rfl (start_tail hb folder) lines
  refine ⟨?_, s, hrun, htail.suffix, fun line hline => ?_, fun i hi => ?_,
    fun P hlines hfiles => ?_⟩
  · rw [Log.fill_flatten, log_flatten hb]
  · obtain ⟨before, hbefore⟩ := List.getLast?_eq_some_iff.1 hline
    obtain ⟨c, hc⟩ := @Log.add_current _ l.max_bytes.toNat
      ((l.log folder).fill l.max_bytes.toNat (before.map Line.bytes)) line.bytes
    refine ⟨c, htail.current.trans ?_⟩
    rw [hbefore, List.map_append, List.map_singleton, Log.fill_concat, hc]
  · rw [habove i hi]
    exact Sink.create_folder_of_ne folder (bak_ne l.path i)
  · have harchive : Log.Bounded l.max_bytes.toNat P archive := by
      refine Log.fill_bounded (log_bounded hb hfiles) (fun bytes hbytes => ?_)
      obtain ⟨line, hline, rfl⟩ := List.mem_map.1 hbytes
      exact hlines line hline
    exact fun c hc => harchive c (htail.suffix.subset hc)

/-- At most four bytes and one backup. -/
def sampleLog : RotatingFile := .ofHandler "app.log" (some 4) (some 1)

theorem rotation_keeps_tail_sample :
    ∃ s, sampleLog.run ([⟨[65]⟩, ⟨[66, 66]⟩, ⟨[67, 67]⟩].map fun line => (.none, line))
        (sampleLog.start fun p => if p = "app.log" then some [64, 10] else none) = .ok s ∧
      sampleLog.files s.folder <:+ [[64, 10, 65, 10], [66, 66, 10], [67, 67, 10]] := by
  obtain ⟨-, s, hrun, hsuffix, -⟩ := rotation_keeps_tail sampleLog (by decide) (by decide)
    (fun p => if p = "app.log" then some [64, 10] else none) [⟨[65]⟩, ⟨[66, 66]⟩, ⟨[67, 67]⟩]
  exact ⟨s, hrun, hsuffix⟩

end Sidecar.Logger
