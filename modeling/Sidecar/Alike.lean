import Sidecar.FilesChanged
import Sidecar.Outcomes

/-!
# One file operation on two trees

A tree in which others have been at work as well has more directories. For a folder without steps
back this makes no difference to what a write or a removal answers, nor to the entry it leaves, as
long as the same files stand in the way (`writeDataToFile_alike`, `removeFile_alike`): the folder is
made where it is missing, and a file that is there can be walked to.
-/

namespace Sidecar

open Posix StateM

section Calls

variable {env : Env} (hf : env.Faultless) {path : String}

/-- In both states the path string is walked to, and to the same entry. -/
def SamePlace (env : Env) (path : String) (s s' : Sys) : Prop :=
  FileTree.SameAt env.proc path s.tree s'.tree

theorem log_agrees (level : Level) (msg : String) : Agrees (SamePlace env path) (log level msg) :=
  fun _ _ h => ⟨rfl, h⟩

include hf

theorem syscall_agrees {α : Type} {what : FsCall}
    {call : FileTree → Except ErrorKind α × FileTree}
    {faulty : Fault → FileTree → FileTree}
    (h : ∀ t t', FileTree.SameAt env.proc path t t' → (call t).1 = (call t').1 ∧
      FileTree.SameAt env.proc path (call t).2 (call t').2) :
    Agrees (SamePlace env path) (syscall env what call faulty) := by
  intro s s' hs
  obtain ⟨hans, htree⟩ := syscall_of_faultless hf what call faulty s
  obtain ⟨hans', htree'⟩ := syscall_of_faultless hf what call faulty s'
  obtain ⟨hsame, hnext⟩ := h _ _ hs
  refine ⟨hans.trans (hsame.trans hans'.symm), ?_⟩
  unfold SamePlace
  rw [htree, htree']
  exact hnext

theorem pathExists_agrees : Agrees (SamePlace env path) (pathExists env path) :=
  .bind (.bind (syscall_agrees hf fun _ _ h => ⟨congrArg Except.ok h.stat, h⟩) fun _ =>
    .pure _) fun _ =>
    .pure _

theorem readCurrent_agrees : Agrees (SamePlace env path) (readCurrent env path) :=
  .bind (pathExists_agrees hf) fun _ =>
    .ite (.bind (syscall_agrees hf fun _ _ h => ⟨h.readFile, h⟩) fun _ => .pure _) (.pure _)

theorem applyFileMode_agrees : Agrees (SamePlace env path) (applyFileMode env path) := by
  unfold applyFileMode
  split
  · exact .pure _
  · refine .ite (.pure _) ?_
    split
    · exact .pure _
    · exact syscall_agrees hf fun _ _ h => h.setPermissions _

theorem rewrite_agrees (filename : String) (data : ByteArray) (dataType : String) :
    Agrees (SamePlace env path) (rewrite env path filename data dataType) := by
  refine .andThen (readCurrent_agrees hf) fun _ => .ite ?_ ?_
  · exact .bind (log_agrees _ _) fun _ => .pure _
  · exact .bind (log_agrees _ _) fun _ =>
      .andThen (syscall_agrees hf fun _ _ h => h.writeFile data) fun _ =>
      .andThen (applyFileMode_agrees hf) fun _ => .pure _

/-- The folder is there afterwards, if no file is in the way. -/
theorem ensureFolder_clear {folder : String} {s : Sys} (hs : Direct folder)
    (hcwd : s.tree.node env.proc.cwd = some .dir)
    (hclear : s.tree.Clear (canon env.proc.cwd folder)) :
    (ensureFolder env folder s).1 = .ok () ∧
      (ensureFolder env folder s).2.tree.node (canon env.proc.cwd folder) = some .dir := by
  have hexists := pathExists_of_faultless hf folder s
  have htree := (pathExists_silent env folder s).tree
  unfold ensureFolder
  rw [bind_apply, StateM.ite_apply]
  cases hstat : s.tree.stat env.proc folder with
  | some node =>
    rw [hstat] at hexists
    rw [if_pos (show _ = true from hexists)]
    refine ⟨rfl, ?_⟩
    show (pathExists env folder s).2.tree.node _ = _
    rw [htree]
    unfold FileTree.stat at hstat
    cases hr : s.tree.resolve env.proc folder with
    | error e => rw [hr] at hstat; cases hstat
    | ok p =>
      rw [hr] at hstat
      obtain rfl := FileTree.resolve_eq hr
      cases node with
      | dir => exact hstat
      | file data mode => exact absurd ⟨data, mode, hstat⟩ (hclear _ List.suffix_rfl)
  | none =>
    rw [hstat] at hexists
    rw [if_neg (by simp [hexists])]
    obtain ⟨hans, hmade⟩ :=
      syscall_of_faultless hf (.createDirAll folder) (fun t => t.createDirAll env.proc folder)
        (fun f t => t.createDirAllFault env.proc folder f) (pathExists env folder s).2
    obtain ⟨hok, hdir⟩ := FileTree.createDirAll_ok hs hcwd hclear
    rw [htree] at hans hmade
    exact ⟨hans.trans hok, hmade ▸ hdir⟩

end Calls

/-! ## Writes -/

section Write

variable {env : Env} {folder name dataType : String} {data : ByteArray} {s s' : Sys}

/-- Only what can be walked to is written. -/
theorem rewrite_walks {path filename : String}
    (h : (rewrite env path filename data dataType s).1 = .ok true) :
    s.tree.resolve env.proc path = .ok (canon env.proc.cwd path) := by
  have htree := (readCurrent_silent env path s).tree
  unfold rewrite at h
  cases hc : (readCurrent env path s).1 with
  | error e =>
    rw [andThen_error hc] at h
    cases h
  | ok current =>
    rw [andThen_ok hc] at h
    unfold overwrite at h
    split at h
    · cases h
    · have hlogged :
        (log .info s!"Writing {path} ({dataType})" (readCurrent env path s).2).2.tree = s.tree :=
        (log_silent _ _ _).tree.trans htree
      rw [bind_apply] at h
      generalize (log .info s!"Writing {path} ({dataType})" (readCurrent env path s).2).2 =
        t at h hlogged
      unfold writeOut at h
      cases hw : (writeFile env path data t).1 with
      | error e =>
        rw [andThen_error hw] at h
        cases h
      | ok _ =>
        have hcall := (syscall_of_ok hw).1
        rw [hlogged] at hcall
        exact (FileTree.writeFile_ok hcall).1

theorem writeDataToFile_walks (h : (writeDataToFile env folder name data dataType s).1 = .ok true) :
    (ensureFolder env folder s).2.tree.resolve env.proc (join folder name) =
      .ok (env.place folder name) := by
  unfold writeDataToFile at h
  rw [bind_apply] at h
  cases hmade : (ensureFolder env folder s).1 with
  | ok _ =>
    rw [hmade] at h
    exact rewrite_walks h
  | error e =>
    rw [hmade] at h
    dsimp only at h
    rw [StateM.ite_apply, StateM.ite_apply] at h
    split at h
    · cases h
    · split at h
      · exact rewrite_walks h
      · cases h

/-- A file in the way of the folder stays there, and nothing is written. -/
theorem writeDataToFile_blocked (hn : PlainName name) {q : Path}
    (hq : q <:+ canon env.proc.cwd folder) (hfile : s.tree.IsFile q) :
    (writeDataToFile env folder name data dataType s).1 ≠ .ok true ∧
      (writeDataToFile env folder name data dataType s).2.tree.IsFile q ∧
      (writeDataToFile env folder name data dataType s).2.tree.node
        (env.place folder name) = none := by
  have hplace : env.place folder name = name :: canon env.proc.cwd folder := canon_join _ _ hn
  have hne : q ≠ env.place folder name := by
    rintro rfl
    rw [hplace] at hq
    have hlen := hq.length_le
    simp at hlen
  have hstays : ∀ t : FileTree, t.IsFile q → t.node (canon env.proc.cwd folder) ≠ some .dir :=
    fun t ht hd =>
    FileTree.not_isFile_of_dir (FileTree.dir_of_suffix hd hq) ht
  have hafter : (writeDataToFile env folder name data dataType s).2.tree.IsFile q :=
    ((writeDataToFile_confined env folder name data dataType s).isFile_iff fun hnames =>
      hne hnames.1).2 hfile
  refine ⟨fun hok => ?_, hafter, ?_⟩
  · have hwalk := FileTree.folder_of_resolve hn.slash (writeDataToFile_walks hok)
    have hkept : (ensureFolder env folder s).2.tree.IsFile q :=
      ((ensureFolder_confined env (fun _ => False) folder s).isFile_iff not_false).2 hfile
    exact hstays _ hkept hwalk
  · rw [hplace]
    by_contra hsome
    exact hstays _ hafter (FileTree.parent_dir _ name _ (Option.isSome_iff_ne_none.2 hsome))

/-- What a write to a folder finds the same in a tree with more directories. -/
structure Alike (env : Env) (folder name : String) (t t' : FileTree) : Prop where
  dirs : FileTree.DirsLe t' t
  cwd : t'.node env.proc.cwd = some .dir
  ways : ∀ q, q <:+ canon env.proc.cwd folder → (t.IsFile q ↔ t'.IsFile q)
  node : t.node (env.place folder name) = t'.node (env.place folder name)

theorem passes_ne_place {q : Path} (hs : Straight folder) (hn : PlainName name)
    (hq : Passes env.proc.cwd folder q) : q ≠ env.place folder name := by
  rintro rfl
  have hlen := (hq.suffix hs).length_le
  unfold Env.place at hlen
  rw [canon_join _ _ hn] at hlen
  simp at hlen

/-- New directories are on the way to the folder, and what is on the way is there in the larger
tree. -/
theorem dirsLe_of_confined {files files' : Path → Prop} {t t' u u' : FileTree}
    (hs : Straight folder)
    (hdirs : FileTree.DirsLe t' t) (ht : FileTree.Confined files (Passes env.proc.cwd folder) t u)
    (ht' : FileTree.Confined files' (Passes env.proc.cwd folder) t' u')
    (hway : u.node (canon env.proc.cwd folder) = some .dir ∨
      ∃ q, q <:+ canon env.proc.cwd folder ∧ u.IsFile q ∧ u'.IsFile q) : FileTree.DirsLe u' u := by
  intro q hq
  by_cases hold : t'.node q = some .dir
  · exact ht.keeps q (hdirs q hold)
  · have hsuffix := (ht'.dir q hq hold).suffix hs
    rcases hway with hdir | ⟨f, hf, ⟨data, mode, hnode⟩, hfile'⟩
    · exact FileTree.dir_of_suffix hdir hsuffix
    · rcases List.suffix_or_suffix_of_suffix hsuffix hf with hqf | hfq
      · cases f with
        | nil => rw [u.root_dir] at hnode; cases hnode
        | cons c p =>
          rcases List.suffix_cons_iff.1 hqf with rfl | hqp
          · exact absurd hfile' (FileTree.not_isFile_of_dir hq)
          · exact FileTree.dir_of_suffix (u.parent_dir c p (by rw [hnode]; rfl)) hqp
      · exact absurd hfile' (FileTree.not_isFile_of_dir (FileTree.dir_of_suffix hq hfq))

/-- **A write** answers and leaves the same. -/
theorem writeDataToFile_alike (hf : env.Faultless) (hs : Direct folder) (hn : PlainName name)
    (h : Alike env folder name s.tree s'.tree) :
    ((writeDataToFile env folder name data dataType s).1 = .ok true ↔
        (writeDataToFile env folder name data dataType s').1 = .ok true) ∧
      (writeDataToFile env folder name data dataType s).2.tree.node (env.place folder name) =
        (writeDataToFile env folder name data dataType s').2.tree.node (env.place folder name) ∧
      FileTree.DirsLe (writeDataToFile env folder name data dataType s').2.tree
        (writeDataToFile env folder name data dataType s).2.tree := by
  have hconf := writeDataToFile_confined env folder name data dataType s
  have hconf' := writeDataToFile_confined env folder name data dataType s'
  by_cases hclear : s.tree.Clear (canon env.proc.cwd folder)
  · have hclear' : s'.tree.Clear (canon env.proc.cwd folder) := fun q hq hfile =>
      hclear q hq ((h.ways q hq).2 hfile)
    obtain ⟨hok, hdir⟩ := ensureFolder_clear hf hs (h.dirs _ h.cwd) hclear
    obtain ⟨hok', hdir'⟩ := ensureFolder_clear hf hs h.cwd hclear'
    have hentry : ∀ t : Sys, (ensureFolder env folder t).2.tree.node (env.place folder name) =
        t.tree.node (env.place folder name) := fun t =>
      (ensureFolder_confined env (fun _ => False) folder t).node_eq not_false fun hp =>
        passes_ne_place hs.straight hn hp rfl
    have hsame :
        SamePlace env (join folder name) (ensureFolder env folder s).2
          (ensureFolder env folder s').2 :=
      ⟨FileTree.resolve_of_dir hs.straight hn hdir, FileTree.resolve_of_dir hs.straight hn hdir',
        (hentry s).trans (h.node.trans (hentry s').symm)⟩
    have hrun : ∀ t : Sys, (ensureFolder env folder t).1 = .ok () →
        writeDataToFile env folder name data dataType t =
          rewrite env (join folder name) name data dataType (ensureFolder env folder t).2 := by
      intro t ht
      unfold writeDataToFile
      rw [bind_apply, ht]
    obtain ⟨hans, hleft⟩ := rewrite_agrees hf name data dataType _ _ hsame
    have hthere : (writeDataToFile env folder name data dataType s).2.tree.node
        (canon env.proc.cwd folder) =
        some .dir := by
      rw [hrun s hok]
      exact (rewrite_confined env (fun _ => False)
        (join folder name) name data dataType _).keeps _ hdir
    refine ⟨?_, ?_, dirsLe_of_confined hs.straight h.dirs hconf hconf' (.inl hthere)⟩
    · rw [hrun s hok, hrun s' hok', hans]
    · rw [hrun s hok, hrun s' hok']
      exact hleft.node
  · unfold FileTree.Clear at hclear
    push Not at hclear
    obtain ⟨q, hq, hfile⟩ := hclear
    obtain ⟨hans, hstays, hnone⟩ :=
      @writeDataToFile_blocked env folder name dataType data s hn q hq hfile
    obtain ⟨hans', hstays', hnone'⟩ :=
      @writeDataToFile_blocked env folder name dataType data s' hn q hq ((h.ways q hq).1 hfile)
    exact ⟨iff_of_false hans hans', hnone.trans hnone'.symm,
      dirsLe_of_confined hs.straight h.dirs hconf hconf' (.inr ⟨q, hq, hstays, hstays'⟩)⟩

end Write

/-! ## Removals -/

section Remove

variable {env : Env} (hf : env.Faultless)

theorem log_ioErrors (level : Level) (msg : String) (s : Sys) :
    (log level msg s).2.ioErrors = s.ioErrors := by
  simp [log, emit_apply, Sys.ioErrors, Sys.count, Event.isIoError]

include hf

/-- A call that succeeds leaves no failure behind. -/
theorem syscall_ioErrors {α : Type} (what : FsCall)
    (call : FileTree → Except ErrorKind α × FileTree)
    (faulty : Fault → FileTree → FileTree) {s : Sys} {a : α} (h : (call s.tree).1 = .ok a) :
    (syscall env what call faulty s).2.ioErrors = s.ioErrors := by
  unfold syscall
  rw [hf]
  dsimp only
  rw [h]
  simp [Sys.ioErrors, Sys.count]

theorem isFile_of_faultless (path : String) (s : Sys) :
    ((isFile env path s).1 = true ↔ ∃ data mode, s.tree.stat env.proc path =
      some (.file data mode)) ∧
      (isFile env path s).2.ioErrors = s.ioErrors := by
  have herrors : (isFile env path s).2.ioErrors = s.ioErrors :=
    syscall_ioErrors hf (.stat path) (fun t => (.ok (t.stat env.proc path), t)) (fun _ t => t) rfl
  refine ⟨?_, herrors⟩
  have hstat := sysStat_of_faultless hf path s
  unfold isFile
  rw [bind_apply, pure_apply, hstat]
  dsimp only
  split
  · next data mode hs => exact iff_of_true rfl ⟨data, mode, hs⟩
  · next hs => exact iff_of_false (by simp) fun ⟨data, mode, hfile⟩ => hs data mode hfile

variable {folder name : String} {s s' : Sys} (hs : Straight folder) (hn : PlainName name)
include hs hn

/-- A removal finds the file if there is one, and then nothing fails. -/
theorem removeFile_cases (s : Sys) : (removeFile env folder name s).2.ioErrors = s.ioErrors ∧
    (s.tree.IsFile (env.place folder name) ∧ (removeFile env folder name s).1 = true ∧
        (removeFile env folder name s).2.tree = s.tree.unlink (env.place folder name) ∨
      ¬s.tree.IsFile (env.place folder name) ∧ (removeFile env folder name s).1 = false ∧
        (removeFile env folder name s).2.tree = s.tree) := by
  obtain ⟨hfound, herrors⟩ := isFile_of_faultless hf (join folder name) s
  have hsees : (∃ data mode, s.tree.stat env.proc (join folder name) = some (.file data mode)) ↔
      s.tree.IsFile (env.place folder name) := by
    rw [← sees_iff_stat]
    refine ⟨And.right, fun hfile => ⟨?_, hfile⟩⟩
    exact FileTree.resolve_of_file hs hn (FileTree.fileAt_ne_none_iff.2 hfile)
  rw [hsees] at hfound
  have htree := (isFile_silent env (join folder name) s).tree
  unfold removeFile
  rw [bind_apply, StateM.ite_apply]
  by_cases hfile : s.tree.IsFile (env.place folder name)
  · rw [if_pos (hfound.2 hfile)]
    have hlogged :
        (log .info s!"Removing {join folder name}" (isFile env (join folder name) s).2).2.tree =
          s.tree := (log_silent _ _ _).tree.trans htree
    have hcall : (s.tree.removeFile env.proc (join folder name)) =
        (.ok (), s.tree.unlink (env.place folder name)) :=
      FileTree.removeFile_of_walk
        (FileTree.resolve_of_file hs hn (FileTree.fileAt_ne_none_iff.2 hfile)) hfile
    have hkept :=
      log_ioErrors .info s!"Removing {join folder name}" (isFile env (join folder name) s).2
    rw [bind_apply]
    generalize (log .info s!"Removing {join folder name}" (isFile env (join folder name) s).2).2 = t
      at hlogged hkept ⊢
    rw [← hlogged] at hcall
    obtain ⟨hans, hleft⟩ :=
      syscall_of_faultless hf (.unlink (join folder name))
        (fun t => t.removeFile env.proc (join folder name))
      (fun _ t => t) t
    refine ⟨?_, .inl ⟨hfile, ?_, ?_⟩⟩
    · exact (syscall_ioErrors hf (.unlink (join folder name))
        (fun t => t.removeFile env.proc (join folder name)) (fun _ t => t)
        (congrArg Prod.fst hcall)).trans (hkept.trans herrors)
    · exact congrArg Except.isOk (hans.trans (congrArg Prod.fst hcall))
    · rw [← hlogged]
      exact hleft.trans (congrArg Prod.snd hcall)
  · rw [if_neg fun hyes => hfile (hfound.1 hyes)]
    exact ⟨(log_ioErrors _ _ _).trans herrors, .inr ⟨hfile, rfl, htree⟩⟩

/-- **A removal** answers and leaves the same where the entry is the same. -/
theorem removeFile_alike
    (h : s.tree.node (env.place folder name) = s'.tree.node (env.place folder name)) :
    (removeFile env folder name s).1 = (removeFile env folder name s').1 ∧
      (removeFile env folder name s).2.tree.node (env.place folder name) =
        (removeFile env folder name s').2.tree.node (env.place folder name) := by
  have hfile : s.tree.IsFile (env.place folder name) ↔ s'.tree.IsFile (env.place folder name) := by
    unfold FileTree.IsFile
    rw [h]
  have hgone : ∀ t : FileTree, t.IsFile (env.place folder name) →
      (t.unlink (env.place folder name)).node (env.place folder name) = none := fun t ht => by
    rw [FileTree.node_unlink fun hd => FileTree.not_isFile_of_dir hd ht, if_pos rfl]
  rcases removeFile_cases hf hs hn s with ⟨-, ⟨hyes, hans, htree⟩ | ⟨hno, hans, htree⟩⟩ <;>
    rcases removeFile_cases hf hs hn s' with ⟨-, ⟨hyes', hans', htree'⟩ | ⟨hno', hans', htree'⟩⟩
  · rw [htree, htree', hgone _ hyes, hgone _ hyes']
    exact ⟨hans.trans hans'.symm, rfl⟩
  · exact absurd (hfile.1 hyes) hno'
  · exact absurd (hfile.2 hyes') hno
  · rw [htree, htree']
    exact ⟨hans.trans hans'.symm, h⟩

end Remove

end Sidecar
