import Sidecar.Passes

/-!
# The flag `files_changed`

What `update_file` answers against what it did to its file, in every environment: whatever call
fails, whatever `DEFAULT_FILE_MODE` holds. The write comes before the mode is parsed and applied,
and an error counts as no change, so a file whose mode cannot be set is written without being
reported, as is one whose write is cut off (`Hidden`). Otherwise the flag tells whether the file is
another one (`files_changed_tells`).
-/

namespace Sidecar

open Posix StateM

/-! ## Calls that fail -/

/-- The write to `path` was cut off: the call failed for a reason outside the tree. -/
def Event.isCutOff (path : String) : Event → Bool
  | .ioError (.write p) _ true => p == path
  | _ => false

def Event.isChmodError (path : String) : Event → Bool
  | .ioError (.chmod p) _ _ => p == path
  | _ => false

/-- The look at `path` failed. -/
def Event.isStatError (path : String) : Event → Bool
  | .ioError (.stat p) _ _ => p == path
  | _ => false

section Calls

variable {α : Type} {env : Env} {what : FsCall} {call : FileTree → Except ErrorKind α × FileTree}
  {faulty : Fault → FileTree → FileTree} {s : Sys} {p : Event → Bool}

theorem syscall_of_fault {f : Fault} (h : env.fault s.ioTick = some f)
    (hp : p (.ioError what f.kind true) = true) :
    s.count p < (syscall env what call faulty s).2.count p := by
  unfold syscall
  simp [h, Sys.count, List.countP_append, hp]

theorem syscall_of_no_fault (h : env.fault s.ioTick = none) :
    (syscall env what call faulty s).1 = (call s.tree).1 ∧
      (syscall env what call faulty s).2.tree = (call s.tree).2 := by
  unfold syscall
  rw [h]
  exact ⟨rfl, rfl⟩

theorem syscall_of_ok {a : α} (h : (syscall env what call faulty s).1 = .ok a) :
    (call s.tree).1 = .ok a ∧ (syscall env what call faulty s).2.tree = (call s.tree).2 := by
  cases hf : env.fault s.ioTick with
  | some f =>
    unfold syscall at h
    rw [hf] at h
    cases h
  | none =>
    obtain ⟨hans, htree⟩ := @syscall_of_no_fault α env what call faulty s hf
    exact ⟨hans.symm.trans h, htree⟩

theorem syscall_of_error {e : ErrorKind} (h : (syscall env what call faulty s).1 = .error e)
    (hp : ∀ kind outside, p (.ioError what kind outside) = true) :
    s.count p < (syscall env what call faulty s).2.count p := by
  unfold syscall at h ⊢
  dsimp only at h ⊢
  rw [h]
  simp [Sys.count, List.countP_append, hp]

end Calls

/-- `DEFAULT_FILE_MODE` is set, and no octal number. -/
def BadMode (env : Env) : Prop :=
  ∃ modeStr, env.defaultFileMode = some modeStr ∧ modeStr ≠ "" ∧ u32FromOctal modeStr = none

/-- The mode could not be set. -/
def ModeFails (env : Env) (path : String) (s s' : Sys) : Prop :=
  BadMode env ∨ s.count (Event.isChmodError path) < s'.count (Event.isChmodError path)

/-- What a write that failed has left at its place: the file is the same, or the write was cut off,
or the data is there and its mode could not be set. -/
def Leaves (env : Env) (path : String) (data : ByteArray) (s s' : Sys) : Prop :=
  s'.tree.fileAt (canon env.proc.cwd path) = s.tree.fileAt (canon env.proc.cwd path) ∨
    s.count (Event.isCutOff path) < s'.count (Event.isCutOff path) ∨
    s'.tree.fileAt (canon env.proc.cwd path) = some data ∧ ModeFails env path s s'

section Files

variable {env : Env} {folder filename path dataType : String} {data : ByteArray} {s t : Sys}

theorem ModeFails.before {u : Sys} (h : ModeFails env path t u) (hle : TraceLe s t) :
    ModeFails env path s u := h.imp_right (Nat.lt_of_le_of_lt (count_mono hle _))

theorem ModeFails.after {u : Sys} (h : ModeFails env path s t) (hle : TraceLe t u) :
    ModeFails env path s u := h.imp_right fun hlt => Nat.lt_of_lt_of_le hlt (count_mono hle _)

theorem Leaves.before {u : Sys} (h : Leaves env path data t u) (hle : TraceLe s t)
    (hfile : t.tree.fileAt (canon env.proc.cwd path) =
      s.tree.fileAt (canon env.proc.cwd path)) : Leaves env path data s u := by
  rcases h with hsame | hcut | ⟨hdata, hmode⟩
  · exact .inl (hsame.trans hfile)
  · exact .inr (.inl (Nat.lt_of_le_of_lt (count_mono hle _) hcut))
  · exact .inr (.inr ⟨hdata, hmode.before hle⟩)

theorem applyFileMode_of_error {e : ErrorKind} (h : (applyFileMode env path s).1 = .error e) :
    ModeFails env path s (applyFileMode env path s).2 := by
  unfold applyFileMode at h ⊢
  cases hm : env.defaultFileMode with
  | none =>
    rw [hm] at h
    cases h
  | some modeStr =>
    simp only [hm, StateM.ite_apply] at h ⊢
    split at h
    · cases h
    · next hne =>
      rw [if_neg hne]
      cases hu : u32FromOctal modeStr with
      | none => exact .inl ⟨modeStr, hm, hne, hu⟩
      | some mode =>
        simp only [hu] at h
        exact .inr (syscall_of_error h fun _ _ => beq_self_eq_true path)

/-- A write that fails in the tree changes nothing. -/
theorem writeFile_of_error {e : ErrorKind} (h : (writeFile env path data s).1 = .error e) :
    s.count (Event.isCutOff path) < (writeFile env path data s).2.count (Event.isCutOff path) ∨
      (writeFile env path data s).2.tree = s.tree := by
  cases hf : env.fault s.ioTick with
  | some f => exact .inl (syscall_of_fault hf (beq_self_eq_true path))
  | none =>
    obtain ⟨hans, htree⟩ := @syscall_of_no_fault _ env (.write path)
      (fun t => t.writeFile env.proc path data) (fun f t => t.writeFault env.proc path data f) s hf
    refine .inr (htree.trans ?_)
    obtain ⟨e', he⟩ | ⟨mode, he, -, -⟩ := FileTree.writeFile_cases s.tree env.proc path data
    · rw [he]
    · rw [he] at hans
      have hok : (writeFile env path data s).1 = .ok () := hans
      rw [hok] at h
      cases h

/-- One that succeeds has walked to the file and left the data there. -/
theorem writeFile_of_ok (h : (writeFile env path data s).1 = .ok ()) :
    s.tree.resolve env.proc path = .ok (canon env.proc.cwd path) ∧
      (writeFile env path data s).2.tree.fileAt (canon env.proc.cwd path) = some data := by
  obtain ⟨hcall, htree⟩ := syscall_of_ok h
  obtain ⟨hwalk, hdata⟩ := FileTree.writeFile_ok hcall
  exact ⟨hwalk, (congrArg (FileTree.fileAt · _) htree).trans hdata⟩

theorem applyFileMode_fileAt (p : Path) :
    (applyFileMode env path s).2.tree.fileAt p = s.tree.fileAt p :=
  (applyFileMode_within env path (fun _ => False) s).files p not_false

theorem writeOut_ne_false : (writeOut env path data s).1 ≠ .ok false := by
  unfold writeOut
  cases hw : (writeFile env path data s).1 with
  | error e =>
    rw [andThen_error hw]
    simp
  | ok _ =>
    rw [andThen_ok hw]
    cases hm : (applyFileMode env path (writeFile env path data s).2).1 with
    | error e =>
      rw [andThen_error hm]
      simp
    | ok _ =>
      rw [andThen_ok hm]
      simp

theorem writeOut_of_error {e : ErrorKind} (h : (writeOut env path data s).1 = .error e) :
    Leaves env path data s (writeOut env path data s).2 := by
  unfold writeOut at h ⊢
  cases hw : (writeFile env path data s).1 with
  | error e =>
    rw [andThen_error hw]
    rcases writeFile_of_error hw with hcut | hsame
    · exact .inr (.inl hcut)
    · exact .inl (congrArg (FileTree.fileAt · _) hsame)
  | ok _ =>
    rw [andThen_ok hw] at h ⊢
    cases hm : (applyFileMode env path (writeFile env path data s).2).1 with
    | ok _ =>
      rw [andThen_ok hm] at h
      cases h
    | error e =>
      rw [andThen_error hm]
      refine .inr (.inr ⟨(applyFileMode_fileAt _).trans (writeFile_of_ok hw).2, ?_⟩)
      exact (applyFileMode_of_error hm).before (writeFile_within env path data s).trace

theorem writeOut_of_true (h : (writeOut env path data s).1 = .ok true) :
    s.tree.resolve env.proc path = .ok (canon env.proc.cwd path) ∧
      (writeOut env path data s).2.tree.fileAt (canon env.proc.cwd path) = some data := by
  unfold writeOut at h ⊢
  cases hw : (writeFile env path data s).1 with
  | error e =>
    rw [andThen_error hw] at h
    cases h
  | ok _ =>
    rw [andThen_ok hw] at h ⊢
    cases hm : (applyFileMode env path (writeFile env path data s).2).1 with
    | error e =>
      rw [andThen_error hm] at h
      cases h
    | ok _ =>
      rw [andThen_ok hm]
      obtain ⟨hwalk, hdata⟩ := writeFile_of_ok hw
      exact ⟨hwalk, (applyFileMode_fileAt _).trans hdata⟩

/-- Nothing is written when the answer is that the file is the same. -/
theorem overwrite_of_false {current : Option ByteArray}
    (h : (overwrite env path filename data dataType current s).1 = .ok false) :
    (overwrite env path filename data dataType current s).2.tree = s.tree := by
  unfold overwrite at h ⊢
  split at h
  · next hsame =>
    rw [if_pos hsame]
    rfl
  · exact absurd h writeOut_ne_false

theorem rewrite_of_false (h : (rewrite env path filename data dataType s).1 = .ok false) :
    (rewrite env path filename data dataType s).2.tree = s.tree := by
  have htree := (readCurrent_silent env path s).tree
  unfold rewrite at h ⊢
  cases hc : (readCurrent env path s).1 with
  | error e =>
    rw [andThen_error hc] at h
    cases h
  | ok current =>
    rw [andThen_ok hc] at h ⊢
    rw [overwrite_of_false h, htree]

theorem rewrite_of_error {e : ErrorKind}
    (h : (rewrite env path filename data dataType s).1 = .error e) :
    Leaves env path data s (rewrite env path filename data dataType s).2 := by
  have hlook := readCurrent_silent env path s
  unfold rewrite at h ⊢
  cases hc : (readCurrent env path s).1 with
  | error e' =>
    rw [andThen_error hc]
    exact .inl (congrArg (FileTree.fileAt · _) hlook.tree)
  | ok current =>
    rw [andThen_ok hc] at h ⊢
    unfold overwrite at h ⊢
    split at h
    · cases h
    · next hnew =>
      rw [if_neg hnew]
      have hlog := log_silent .info s!"Writing {path} ({dataType})" (readCurrent env path s).2
      exact (writeOut_of_error h).before (hlook.trace.trans hlog.trace)
        (congrArg (FileTree.fileAt · _) (hlog.tree.trans hlook.tree))

/-- A look that succeeds at the target sees what is there, unless its `stat` fails. -/
theorem readCurrent_of_ok {current : Option ByteArray}
    (h : (readCurrent env path s).1 = .ok current) :
    s.count (Event.isStatError path) <
        (readCurrent env path s).2.count (Event.isStatError path) ∨
      Looked env path s.tree current := by
  have hexists := pathExists_silent env path s
  have hstat : (pathExists env path s).1 = false →
      s.count (Event.isStatError path) <
          (pathExists env path s).2.count (Event.isStatError path) ∨
        s.tree.stat env.proc path = none := by
    intro hno
    cases hf : env.fault s.ioTick with
    | some f =>
      have hlt := @syscall_of_fault _ env (.stat path) (fun t => (.ok (t.stat env.proc path), t))
        (fun _ t => t) s (Event.isStatError path) f hf (beq_self_eq_true path)
      exact .inl hlt
    | none =>
      obtain ⟨hans, -⟩ := @syscall_of_no_fault _ env (.stat path)
        (fun t => (.ok (t.stat env.proc path), t)) (fun _ t => t) s hf
      unfold pathExists sysStat at hno
      simp only [bind_apply, pure_apply, hans, Except.toOption, Option.join_some] at hno
      exact .inr (Option.isSome_eq_false_iff.1 hno |> Option.isNone_iff_eq_none.1)
  unfold readCurrent at h ⊢
  simp only [bind_apply, StateM.ite_apply, pure_apply] at h ⊢
  split at h
  · next hyes =>
    rw [if_pos hyes]
    cases hr : (readFile env path (pathExists env path s).2).1 with
    | error e =>
      rw [hr] at h
      cases h
    | ok data =>
      rw [hr] at h
      cases h
      obtain ⟨hwalk, hdata⟩ := FileTree.readFile_ok (syscall_of_ok hr).1
      rw [hexists.tree] at hwalk hdata
      exact .inr (.inr ⟨hwalk, hdata, Option.some_ne_none data⟩)
  · next hno =>
    rw [if_neg hno]
    cases h
    exact (hstat (Bool.eq_false_of_not_eq_true hno)).imp_right fun hnone => .inl ⟨rfl, hnone⟩

theorem rewrite_of_true (h : (rewrite env path filename data dataType s).1 = .ok true) :
    (rewrite env path filename data dataType s).2.tree.fileAt (canon env.proc.cwd path) ≠
        s.tree.fileAt (canon env.proc.cwd path) ∨
      s.count (Event.isStatError path) <
        (rewrite env path filename data dataType s).2.count (Event.isStatError path) := by
  have hlook := readCurrent_silent env path s
  have hall : TraceLe (readCurrent env path s).2 (rewrite env path filename data dataType s).2 := by
    unfold rewrite
    cases hc : (readCurrent env path s).1 with
    | error e =>
      rw [andThen_error hc]
      exact List.prefix_rfl
    | ok current =>
      rw [andThen_ok hc]
      exact (overwrite_within env path data filename dataType current _).trace
  cases hc : (readCurrent env path s).1 with
  | error e =>
    unfold rewrite at h
    rw [andThen_error hc] at h
    cases h
  | ok current =>
    rcases readCurrent_of_ok hc with hstat | hlooked
    · exact .inr (Nat.lt_of_lt_of_le hstat (count_mono hall _))
    · refine .inl ?_
      unfold rewrite at h ⊢
      rw [andThen_ok hc] at h ⊢
      unfold overwrite at h ⊢
      split at h
      · cases h
      · next hnew =>
        rw [if_neg hnew]
        obtain ⟨hwalk, hdata⟩ := writeOut_of_true h
        change (readCurrent env path s).2.tree.resolve env.proc path = _ at hwalk
        rw [hlook.tree] at hwalk
        intro hsame
        have hcurrent : some data = current := (hdata.symm.trans hsame).trans (hlooked.fileAt hwalk)
        exact hnew (congrArg (Option.map env.sha256) hcurrent.symm)

theorem ensureFolder_fileAt (p : Path) :
    (ensureFolder env folder s).2.tree.fileAt p = s.tree.fileAt p :=
  (ensureFolder_within env folder (fun _ => False) s).files p not_false

/-- What comes of a write: once the folder is dealt with the file is looked at and written, or
nothing is. -/
theorem writeDataToFile_cases :
    writeDataToFile env folder filename data dataType s =
        rewrite env (join folder filename) filename data dataType (ensureFolder env folder s).2 ∨
      ((writeDataToFile env folder filename data dataType s).1 ≠ .ok true ∧
        (writeDataToFile env folder filename data dataType s).2.tree =
          (ensureFolder env folder s).2.tree) := by
  unfold writeDataToFile
  rw [bind_apply]
  cases hc : (ensureFolder env folder s).1 with
  | ok _ => exact .inl rfl
  | error e =>
    simp only [StateM.ite_apply]
    split
    · exact .inr ⟨by simp [bind_apply], rfl⟩
    · split
      · exact .inl rfl
      · exact .inr ⟨by simp, rfl⟩

/-- A file that is the same, or whose folder may not be created, is left alone. -/
theorem writeDataToFile_of_false
    (h : (writeDataToFile env folder filename data dataType s).1 = .ok false) :
    (writeDataToFile env folder filename data dataType s).2.tree.fileAt = s.tree.fileAt := by
  have hsame : (ensureFolder env folder s).2.tree.fileAt = s.tree.fileAt :=
    funext fun q => ensureFolder_fileAt q
  rw [← hsame]
  rcases @writeDataToFile_cases env folder filename dataType data s with hrun | ⟨-, htree⟩
  · rw [hrun] at h ⊢
    exact congrArg FileTree.fileAt (rewrite_of_false h)
  · rw [htree]

theorem writeDataToFile_of_error {e : ErrorKind}
    (h : (writeDataToFile env folder filename data dataType s).1 = .error e) :
    Leaves env (join folder filename) data s
      (writeDataToFile env folder filename data dataType s).2 := by
  have hfolder := (ensureFolder_within env folder (fun _ => False) s).trace
  rcases @writeDataToFile_cases env folder filename dataType data s with hrun | ⟨-, htree⟩
  · rw [hrun] at h ⊢
    exact (rewrite_of_error h).before hfolder (ensureFolder_fileAt _)
  · refine .inl ?_
    rw [htree]
    exact ensureFolder_fileAt _

theorem writeDataToFile_of_true
    (h : (writeDataToFile env folder filename data dataType s).1 = .ok true) :
    (writeDataToFile env folder filename data dataType s).2.tree.fileAt
          (env.place folder filename) ≠ s.tree.fileAt (env.place folder filename) ∨
      s.count (Event.isStatError (join folder filename)) <
        (writeDataToFile env folder filename data dataType s).2.count
          (Event.isStatError (join folder filename)) := by
  have hfolder := (ensureFolder_within env folder (fun _ => False) s).trace
  rcases @writeDataToFile_cases env folder filename dataType data s with hrun | ⟨hnot, -⟩
  · rw [hrun] at h ⊢
    refine (rewrite_of_true h).imp (fun hne => ?_) (Nat.lt_of_le_of_lt (count_mono hfolder _))
    rwa [ensureFolder_fileAt] at hne
  · exact absurd h hnot

/-- An `unlink` that fails changes nothing. -/
theorem unlinkFile_of_error {e : ErrorKind} (h : (unlinkFile env path s).1 = .error e) :
    (unlinkFile env path s).2.tree = s.tree := by
  unfold unlinkFile syscall at h ⊢
  dsimp only at h ⊢
  cases hf : env.fault s.ioTick with
  | some f => rfl
  | none =>
    rw [hf] at h
    exact FileTree.removeFile_of_error h

/-- `remove_file` answers whether it removed a file, in any environment. -/
theorem removeFile_changed :
    (removeFile env folder filename s).1 = true ↔
      (removeFile env folder filename s).2.tree.fileAt (env.place folder filename) ≠
        s.tree.fileAt (env.place folder filename) := by
  have htree := (isFile_silent env (join folder filename) s).tree
  unfold removeFile
  simp only [bind_apply, StateM.ite_apply, pure_apply]
  split
  · generalize ht : (log .info s!"Removing {join folder filename}"
      (isFile env (join folder filename) s).2).2 = t
    have hst : t.tree = s.tree := by
      rw [← ht, ← htree]
      rfl
    cases hu : (unlinkFile env (join folder filename) t).1 with
    | error e =>
      have hsame : (unlinkFile env (join folder filename) t).2.tree = t.tree :=
        unlinkFile_of_error hu
      simp [Except.isOk, Except.toBool, hsame, hst]
    | ok _ =>
      obtain ⟨hcall, hend⟩ := syscall_of_ok hu
      obtain ⟨hgone, data, hfile⟩ := FileTree.removeFile_of_ok hcall
      have hplace : t.tree.fileAt (env.place folder filename) = some data := hfile
      rw [show (unlinkFile env (join folder filename) t).2.tree = _ from hend,
        show (t.tree.removeFile env.proc (join folder filename)).2.fileAt
          (env.place folder filename) = none from hgone, ← hst, hplace]
      simp [Except.isOk, Except.toBool]
  · simp [log, emit_apply, htree]

end Files

/-! ## The answer of `update_file` -/

/-- How many updates took their error branch. -/
def Sys.updateErrors (s : Sys) : Nat := s.count Event.isUpdateError

/-- An update of the file at `path` took its error branch after it had begun to write: the write was
cut off, or the bytes it was given are there and their mode could not be set. -/
structure Hidden (env : Env) (path : String) (s s' : Sys) : Prop where
  error : s.updateErrors < s'.updateErrors
  written : s.count (Event.isCutOff path) < s'.count (Event.isCutOff path) ∨
    (∃ d ∈ s'.produced.drop s.produced.length,
      s'.tree.fileAt (canon env.proc.cwd path) = some d.2) ∧ ModeFails env path s s'

/-- The path string of the job's file. -/
def Job.path (ctx : Ctx) (kind : Kind) (j : Job) : String := join j.folder (j.filename ctx kind)

/-- What an answer says about the file of a job. It is `true` when the file is another one, unless
the look at the target failed before a write, and `false` when it is the same, unless a write is
hidden. -/
structure Tells (env : Env) (ctx : Ctx) (kind : Kind) (j : Job) (s : Sys) (out : Bool × Sys) :
    Prop where
  changed : out.1 = true →
    out.2.tree.fileAt (j.place env ctx kind) ≠ s.tree.fileAt (j.place env ctx kind) ∨
      j.remove = false ∧ s.count (Event.isStatError (j.path ctx kind)) <
        out.2.count (Event.isStatError (j.path ctx kind))
  same : out.1 = false →
    out.2.tree.fileAt (j.place env ctx kind) = s.tree.fileAt (j.place env ctx kind) ∨
      j.remove = false ∧ Hidden env (j.path ctx kind) s out.2

/-- What a call that reports no change may still have done: every file is the same, or a write of it
is hidden. -/
structure Unreported (env : Env) (s s' : Sys) : Prop where
  trace : TraceLe s s'
  files : ∀ q, s'.tree.fileAt q = s.tree.fileAt q ∨
    ∃ path, canon env.proc.cwd path = q ∧ Hidden env path s s'

theorem produced_of_traceLe {s t : Sys} (h : TraceLe s t) : s.produced <+: t.produced := by
  obtain ⟨new, hnew⟩ := h
  unfold Sys.produced
  rw [← hnew, List.filterMap_append]
  exact List.prefix_append ..

theorem Hidden.before {env : Env} {path : String} {s t u : Sys} (h : Hidden env path t u)
    (hle : TraceLe s t) : Hidden env path s u where
  error := Nat.lt_of_le_of_lt (count_mono hle _) h.error
  written := by
    rcases h.written with hcut | ⟨⟨d, hd, hfile⟩, hmode⟩
    · exact .inl (Nat.lt_of_le_of_lt (count_mono hle _) hcut)
    · refine .inr ⟨⟨d, ?_, hfile⟩, hmode.before hle⟩
      have hlen := (produced_of_traceLe hle).length_le
      have hsuffix : u.produced.drop t.produced.length <:+ u.produced.drop s.produced.length :=
        List.drop_suffix_drop_left _ hlen
      exact hsuffix.subset hd

theorem Hidden.after {env : Env} {path : String} {s t u : Sys} (h : Hidden env path s t)
    (hle : TraceLe t u) (hfile : u.tree.fileAt (canon env.proc.cwd path) =
      t.tree.fileAt (canon env.proc.cwd path)) : Hidden env path s u where
  error := Nat.lt_of_lt_of_le h.error (count_mono hle _)
  written := by
    rcases h.written with hcut | ⟨⟨d, hd, hdata⟩, hmode⟩
    · exact .inl (Nat.lt_of_lt_of_le hcut (count_mono hle _))
    · refine .inr ⟨⟨d, ?_, hfile.trans hdata⟩, hmode.after hle⟩
      exact ((produced_of_traceLe hle).drop _).subset hd

theorem Unreported.preorder (env : Env) : Preorder (Unreported env) where
  refl _ := ⟨List.prefix_rfl, fun _ => .inl rfl⟩
  trans {s t u} h h' := by
    refine ⟨h.trace.trans h'.trace, fun q => ?_⟩
    rcases h'.files q with hsame' | ⟨path, hpath, hhidden⟩
    · rcases h.files q with hsame | ⟨path, rfl, hhidden⟩
      · exact .inl (hsame'.trans hsame)
      · exact .inr ⟨path, rfl, hhidden.after h'.trace hsame'⟩
    · exact .inr ⟨path, hpath, hhidden.before h.trace⟩

theorem Silent.unreported {env : Env} {s s' : Sys} (h : Silent s s') : Unreported env s s' :=
  ⟨h.trace, fun _ => .inl (by rw [h.tree])⟩

theorem updateErrors_updateError (dataKey destFolder : String) (s : Sys) :
    (log .error (updateErrorMsg dataKey destFolder) s).2.updateErrors = s.updateErrors + 1 := by
  unfold Sys.updateErrors Sys.count
  simp [log, emit_apply, List.countP_append, isUpdateError_msg]

section Answers

variable (env : Env) (ctx : Ctx) (kind : Kind)

theorem Silent.tells {env : Env} {ctx : Ctx} {kind : Kind} {j : Job} {s t : Sys}
    {out : Bool × Sys} (hst : Silent s t) (h : Tells env ctx kind j t out) :
    Tells env ctx kind j s out := by
  constructor
  · intro hc
    rw [← hst.tree]
    exact (h.changed hc).imp_right fun hr =>
      ⟨hr.1, Nat.lt_of_le_of_lt (count_mono hst.trace _) hr.2⟩
  · intro hc
    rw [← hst.tree]
    exact (h.same hc).imp_right fun hr => ⟨hr.1, hr.2.before hst.trace⟩

/-- A job that writes, once its bytes are known. -/
theorem Job.handed_tells {j : Job} (hr : j.remove = false) (data : ByteArray) (t : Sys) :
    Tells env ctx kind j t
      (let out := writeDataToFile env j.folder (j.filename ctx kind) data j.contentType
        (j.handed kind data t)
      match out.1 with
      | .ok changed => (changed, out.2)
      | .error _ => (false, (log .error (updateErrorMsg j.dataKey j.folder) out.2).2)) := by
  have hstart : TraceLe t (j.handed kind data t) := List.prefix_append ..
  have hwithin := writeDataToFile_within env j.folder (j.filename ctx kind) data j.contentType
    (j.handed kind data t)
  have hproduced : (j.handed kind data t).produced = t.produced ++ [(j.id kind, data)] := by
    simp [Job.handed, emit_apply, Sys.produced, Event.produced?, Job.id]
  dsimp only
  cases hw : (writeDataToFile env j.folder (j.filename ctx kind) data j.contentType
    (j.handed kind data t)).1 with
  | ok changed =>
    constructor
    · intro h
      obtain rfl : changed = true := h
      exact (writeDataToFile_of_true hw).imp_right fun hstat =>
        ⟨hr, Nat.lt_of_le_of_lt (count_mono hstart _) hstat⟩
    · intro h
      obtain rfl : changed = false := h
      exact .inl (congrFun (writeDataToFile_of_false hw) _)
  | error e =>
    refine ⟨by simp, fun _ => ?_⟩
    have hlog := log_silent .error (updateErrorMsg j.dataKey j.folder)
      (writeDataToFile env j.folder (j.filename ctx kind) data j.contentType
        (j.handed kind data t)).2
    have herror : t.updateErrors < (log .error (updateErrorMsg j.dataKey j.folder)
        (writeDataToFile env j.folder (j.filename ctx kind) data j.contentType
          (j.handed kind data t)).2).2.updateErrors := by
      rw [updateErrors_updateError]
      exact Nat.lt_succ_of_le (count_mono (hstart.trans hwithin.trace) _)
    rcases writeDataToFile_of_error hw with hsame | hcut | ⟨hdata, hmode⟩
    · exact .inl hsame
    · exact .inr ⟨hr, herror, .inl (Nat.lt_of_lt_of_le
        (Nat.lt_of_le_of_lt (count_mono hstart _) hcut) (count_mono hlog.trace _))⟩
    · refine .inr ⟨hr, herror, .inr ⟨⟨(j.id kind, data), ?_, hdata⟩, ?_⟩⟩
      · rw [hlog.produced, hwithin.produced, hproduced, List.drop_left]
        exact List.mem_singleton_self _
      · exact (hmode.before hstart).after hlog.trace

/-- `update_file`, in every environment. -/
theorem Job.run_tells (j : Job) (s : Sys) : Tells env ctx kind j s (j.run env ctx kind s) := by
  have hget := getFileDataAndName_silent env ctx j.dataKey j.content s
  rw [Job.run_eq]
  cases hout : (getFileDataAndName env ctx j.dataKey j.content s).1 with
  | error e =>
    rw [andThen_error hout]
    exact ⟨by simp, fun _ => .inl (congrFun (congrArg FileTree.fileAt hget.tree) _)⟩
  | ok out =>
    rw [andThen_ok hout]
    refine hget.tells ?_
    generalize (getFileDataAndName env ctx j.dataKey j.content s).2 = t
    cases hr : j.remove with
    | true =>
      rw [Job.put_of_remove env ctx kind j hr]
      have hiff := @removeFile_changed env j.folder (j.filename ctx kind) t
      refine ⟨fun h => .inl (hiff.1 h), fun h => .inl ?_⟩
      by_contra hne
      rw [hiff.2 hne] at h
      cases h
    | false =>
      have htells := j.handed_tells env ctx kind hr out.2 t
      rw [Job.put_of_write env ctx kind j hr]
      dsimp only at htells ⊢
      cases hw : (writeDataToFile env j.folder (j.filename ctx kind) out.2 j.contentType
        (j.handed kind out.2 t)).1 with
      | ok changed =>
        rw [hw] at htells
        exact htells
      | error e =>
        rw [hw] at htells
        exact htells

/-! ## The answers of calls and passes -/

theorem Action.run_unreported (a : Action) :
    MovesIfFalse (Unreported env) (a.run env ctx kind) := by
  intro s h
  cases a with
  | log level msg => exact (log_silent level msg s).unreported
  | file j =>
    have htouch := j.run_touches env ctx kind s
    refine ⟨htouch.trace, fun q => ?_⟩
    by_cases hq : q = j.place env ctx kind
    · subst hq
      exact ((j.run_tells env ctx kind s).same h).imp_right fun hr => ⟨_, rfl, hr.2⟩
    · exact .inl (htouch.files q hq)

theorem runActions_unreported (as : List Action) :
    MovesIfFalse (Unreported env) (runActions env ctx kind as) := by
  induction as with
  | nil => exact .pure (Unreported.preorder env) _
  | cons a as ih => exact .either (Unreported.preorder env) (a.run_unreported env ctx kind) ih

/-- A relation of worlds that looks at the process only. -/
def World.Unreported (env : Env) (w w' : World) : Prop := Sidecar.Unreported env w.sys w'.sys

theorem World.Unreported.preorder (env : Env) : Preorder (World.Unreported env) where
  refl w := (Sidecar.Unreported.preorder env).refl w.sys
  trans := (Sidecar.Unreported.preorder env).trans

theorem processResource_unreported (item : Item) (destFolder : Option String) (isRemoved : Bool) :
    MovesIfFalse (World.Unreported env)
      (processResource env ctx kind item destFolder isRemoved) := by
  intro w h
  rw [processResource_eq] at h ⊢
  exact runActions_unreported env ctx kind _ w.sys h

theorem listItem_unreported (ignoreAlreadyProcessed : Bool) (item : Item) :
    MovesIfFalse (World.Unreported env) (listItem env ctx kind ignoreAlreadyProcessed item) := by
  intro w h
  have hp := Sidecar.Unreported.preorder env
  obtain ⟨-, -, hs, hout⟩ | ⟨-, hs, hout⟩ :=
    listItem_upserted env ctx kind ignoreAlreadyProcessed item w
  · rw [hout]
    exact hs.unreported
  · rw [hout] at h ⊢
    exact hp.trans hs.unreported (processResource_unreported env ctx kind item _ _ _ h)

theorem listItems_unreported (ignoreAlreadyProcessed : Bool) (items : List Item) :
    MovesIfFalse (World.Unreported env) (listItems env ctx kind ignoreAlreadyProcessed items) := by
  have hp := World.Unreported.preorder env
  induction items with
  | nil => exact .pure hp _
  | cons item items ih => exact .either hp (listItem_unreported env ctx kind _ item) ih

theorem removeStale_unreported (items : List Item) :
    MovesIfFalse (World.Unreported env) (removeStale env ctx kind items) := by
  have hp := World.Unreported.preorder env
  induction items with
  | nil => exact .pure hp _
  | cons item items ih =>
    refine .bind hp (fun w => ?_) fun _ =>
      .either hp (processResource_unreported env ctx kind _ _ _) ih
    exact (log_silent _ _ w.sys).unreported

theorem applyListing_unreported (ns : String) (ignoreAlreadyProcessed : Bool) (items : List Item) :
    MovesIfFalse (World.Unreported env)
      (applyListing env ctx kind ns ignoreAlreadyProcessed items) := by
  have hp := World.Unreported.preorder env
  intro w h
  rw [applyListing_eq] at h ⊢
  simp only [Bool.or_eq_false_iff] at h
  refine hp.trans (listItems_unreported env ctx kind _ items w h.1) ?_
  refine hp.trans ?_ (removeStale_unreported env ctx kind _ _ h.2)
  exact (staleItems_silent env kind ns _ _).1.unreported

/-- **What `files_changed` tells.** The answer of `update_file` is whether its file is another one
afterwards; only a write that is cut off, or done before its mode turns out not to be settable, is
hidden by the error branch. So a call of `process_resource` or a list pass that reports no change
has changed no file, with the same exception. -/
theorem files_changed_tells :
    (∀ (dataKey : String) (content : Content) (destFolder : String) (item : Item)
        (contentType : String) (remove : Bool) (s : Sys),
      Tells env ctx kind ⟨dataKey, content, destFolder, item, contentType, remove⟩ s
        (updateFile env ctx dataKey content destFolder item kind contentType remove s)) ∧
    (∀ (item : Item) (destFolder : Option String) (isRemoved : Bool) (w : World),
      (processResource env ctx kind item destFolder isRemoved w).1 = false →
        Unreported env w.sys (processResource env ctx kind item destFolder isRemoved w).2.sys) ∧
    ∀ (ns : String) (ignoreAlreadyProcessed : Bool) (items : List Item) (w : World),
      (applyListing env ctx kind ns ignoreAlreadyProcessed items w).1 = false →
        Unreported env w.sys
          (applyListing env ctx kind ns ignoreAlreadyProcessed items w).2.sys := by
  refine ⟨?_, ?_, ?_⟩
  · intro dataKey content destFolder item contentType remove s
    exact Job.run_tells env ctx kind ⟨dataKey, content, destFolder, item, contentType, remove⟩ s
  · intro item destFolder isRemoved w h
    exact processResource_unreported env ctx kind item destFolder isRemoved w h
  · intro ns ignoreAlreadyProcessed items w h
    exact applyListing_unreported env ctx kind ns ignoreAlreadyProcessed items w h

end Answers

/-- The ConfigMap that is there already: the second pass reports no change, and there was none. -/
def sampleListedTwice : World :=
  (applyListing sampleEnv sampleCtx .configMap "ALL" false [sampleItem "ns" "a" "1" [("k", "v")]]
    sampleWorld).2

theorem files_changed_tells_sample :
    (applyListing sampleEnv sampleCtx .configMap "ALL" false [sampleItem "ns" "a" "1" [("k", "v")]]
      sampleListedTwice).2.sys.tree.fileAt = sampleListedTwice.sys.tree.fileAt := by
  have htells := (files_changed_tells sampleEnv sampleCtx .configMap).2.2 "ALL" false
    [sampleItem "ns" "a" "1" [("k", "v")]] sampleListedTwice (by decide +kernel)
  refine funext fun q => ?_
  rcases htells.files q with hsame | ⟨path, -, hhidden⟩
  · exact hsame
  · exact absurd hhidden.error (by decide +kernel)

/-- `DEFAULT_FILE_MODE` set to something that is no octal number. -/
def sampleBadMode : Env := { sampleEnv with defaultFileMode := some "rw" }

/-- The file is written, and then nobody is told: `update_file` and the list pass both answer that
nothing has changed. -/
theorem bad_mode_hides_write :
    let item := sampleItem "ns" "a" "1" [("k", "v")]
    let update := updateFile sampleBadMode sampleCtx "k" (.text "v") "/data" item .configMap
      contentTypeText false sampleWorld.sys
    let pass := applyListing sampleBadMode sampleCtx .configMap "ALL" false [item] sampleWorld
    sampleWorld.sys.tree.fileAt ["k", "data"] = none ∧
      update.1 = false ∧ update.2.tree.fileAt ["k", "data"] = some "v".toUTF8 ∧
      pass.1 = false ∧ pass.2.sys.tree.fileAt ["k", "data"] = some "v".toUTF8 := by
  refine ⟨?_, ?_, ?_, ?_, ?_⟩ <;> decide +kernel

end Sidecar
