import Sidecar.FileSpecs

/-!
# What the file operations come to

Whatever fails, a call changes what its path string names, besides making directories on the way to
the folder (`writeDataToFile_confined`, `removeFile_confined`). When no call fails for a reason
outside the tree, what `remove_file` answers and what it leaves is decided by the tree
(`removeFile_spec`).
-/

namespace Sidecar

open Posix StateM

/-- No call fails for a reason outside the tree. -/
def Env.Faultless (env : Env) : Prop := ∀ n, env.fault n = none

section Calls

variable {env : Env} (hf : env.Faultless)
include hf

theorem syscall_of_faultless {α : Type} (what : FsCall)
    (call : FileTree → Except ErrorKind α × FileTree)
    (faulty : Fault → FileTree → FileTree) (s : Sys) :
    (syscall env what call faulty s).1 = (call s.tree).1 ∧
      (syscall env what call faulty s).2.tree = (call s.tree).2 := by
  unfold syscall
  rw [hf]
  exact ⟨rfl, rfl⟩

theorem sysStat_of_faultless (path : String) (s : Sys) :
    (sysStat env path s).1 = s.tree.stat env.proc path := by
  obtain ⟨h, -⟩ := syscall_of_faultless hf (.stat path) (fun t => (.ok (t.stat env.proc path), t))
    (fun _ t => t) s
  unfold sysStat
  rw [bind_apply, pure_apply, h]
  simp [Except.toOption]

theorem pathExists_of_faultless (path : String) (s : Sys) :
    (pathExists env path s).1 = (s.tree.stat env.proc path).isSome := by
  rw [← sysStat_of_faultless hf]
  rfl

theorem readFile_of_faultless (path : String) (s : Sys) :
    (readFile env path s).1 = s.tree.readFile env.proc path :=
  (syscall_of_faultless hf (.read path) (fun t => (t.readFile env.proc path, t)) (fun _ t => t) s).1

end Calls

/-! ## Where the calls change something -/

section Confined

variable (env : Env)

theorem confined_preorder (files dirs : Path → Prop) :
    Preorder fun s s' : Sys => FileTree.Confined files dirs s.tree s'.tree :=
  ⟨fun s => .refl files dirs s.tree, .trans⟩

theorem silent_confined (files dirs : Path → Prop) {s s' : Sys} (h : Silent s s') :
    FileTree.Confined files dirs s.tree s'.tree := by
  rw [h.tree]
  exact .refl ..

/-- Whatever fails, only directories on the way to the folder come into being. -/
theorem ensureFolder_confined (files : Path → Prop) (folder : String) :
    Moves (fun s s' => FileTree.Confined files (Passes env.proc.cwd folder) s.tree s'.tree)
      (ensureFolder env folder) := by
  have hp := confined_preorder files (Passes env.proc.cwd folder)
  refine Moves.bind hp (fun s => silent_confined _ _ (pathExists_silent env folder s)) fun _ =>
    Moves.ite (Moves.pure hp _) fun s => ?_
  exact (syscall_frame env _ _ _ (FileTree.Confined files (Passes env.proc.cwd folder))
    (fun t => FileTree.confined_createDirAll t env.proc folder)
    (fun f t => FileTree.confined_createDirAllFault t env.proc folder f) s).2.1

theorem applyFileMode_confined (dirs : Path → Prop) (path : String) :
    Moves (fun s s' => FileTree.Confined (FileTree.Names env.proc path) dirs s.tree s'.tree)
      (applyFileMode env path) := by
  have hp := confined_preorder (FileTree.Names env.proc path) dirs
  unfold applyFileMode
  split
  · exact Moves.pure hp _
  · refine Moves.ite (Moves.pure hp _) ?_
    split
    · exact Moves.pure hp _
    · intro s
      exact (syscall_frame env _ _ _ (FileTree.Confined (FileTree.Names env.proc path) dirs)
        (fun t => FileTree.confined_setPermissions t env.proc path _)
        (fun _ t => .refl _ _ t) s).2.1

theorem rewrite_confined (dirs : Path → Prop) (path filename : String) (data : ByteArray)
    (dataType : String) :
    Moves (fun s s' => FileTree.Confined (FileTree.Names env.proc path) dirs s.tree s'.tree)
      (rewrite env path filename data dataType) := by
  have hp := confined_preorder (FileTree.Names env.proc path) dirs
  have hlog : ∀ level msg, Moves (fun s s' : Sys =>
      FileTree.Confined (FileTree.Names env.proc path) dirs s.tree s'.tree) (log level msg) :=
    fun level msg s => silent_confined _ _ (log_silent level msg s)
  refine Moves.andThen hp (fun s => silent_confined _ _ (readCurrent_silent env path s))
    fun current => ?_
  refine Moves.ite (Moves.bind hp (hlog _ _) fun _ => Moves.pure hp _)
    (Moves.bind hp (hlog _ _) fun _ => ?_)
  refine Moves.andThen hp (fun s => ?_) fun _ =>
    Moves.andThen hp (applyFileMode_confined env dirs path) fun _ => Moves.pure hp _
  exact (syscall_frame env _ _ _ (FileTree.Confined (FileTree.Names env.proc path) dirs)
    (fun t => FileTree.confined_writeFile t env.proc path data)
    (fun f t => FileTree.confined_writeFault t env.proc path data f) s).2.1

/-- `write_data_to_file` changes what its path names, and makes directories on the way to its
folder. -/
theorem writeDataToFile_confined (folder filename : String) (data : ByteArray) (dataType : String) :
    Moves (fun s s' => FileTree.Confined (FileTree.Names env.proc (join folder filename))
        (Passes env.proc.cwd folder) s.tree s'.tree)
      (writeDataToFile env folder filename data dataType) := by
  have hp :=
    confined_preorder (FileTree.Names env.proc (join folder filename)) (Passes env.proc.cwd folder)
  have hrewrite :=
    rewrite_confined env (Passes env.proc.cwd folder) (join folder filename) filename data
      dataType
  refine Moves.bind hp (ensureFolder_confined env _ folder) fun created => ?_
  cases created with
  | ok _ => exact hrewrite
  | error e =>
    exact Moves.ite
      (Moves.bind hp (fun s => silent_confined _ _ (log_silent _ _ s)) fun _ => Moves.pure hp _)
      (Moves.ite hrewrite (Moves.pure hp _))

/-- `remove_file` changes what its path names. -/
theorem removeFile_confined (dirs : Path → Prop) (folder filename : String) :
    Moves (fun s s' =>
        FileTree.Confined (FileTree.Names env.proc (join folder filename)) dirs s.tree s'.tree)
      (removeFile env folder filename) := by
  have hp := confined_preorder (FileTree.Names env.proc (join folder filename)) dirs
  refine Moves.bind hp (fun s => silent_confined _ _ (isFile_silent env _ s)) fun _ =>
    Moves.ite ?_ ?_
  · refine Moves.bind hp (fun s => silent_confined _ _ (log_silent _ _ s)) fun _ =>
      Moves.bind hp (fun s => ?_) fun _ => Moves.pure hp _
    exact (syscall_frame env _ _ _ (FileTree.Confined
      (FileTree.Names env.proc (join folder filename)) dirs)
      (fun t => FileTree.confined_removeFile t env.proc _) (fun _ t => .refl _ _ t) s).2.1
  · exact Moves.bind hp (fun s => silent_confined _ _ (log_silent _ _ s)) fun _ => Moves.pure hp _

end Confined

/-! ## What a removal comes to -/

/-- There is a regular file that the kernel can walk to. -/
def Env.Sees (env : Env) (folder filename : String) (t : FileTree) : Prop :=
  Walkable env folder filename t ∧ t.IsFile (env.place folder filename)

section Removal

variable {env : Env} {folder filename : String} {s : Sys}

theorem sees_iff_stat {t : FileTree} : env.Sees folder filename t ↔
    ∃ data mode, t.stat env.proc (join folder filename) = some (.file data mode) := by
  constructor
  · rintro ⟨hw, data, mode, hn⟩
    exact ⟨data, mode, (FileTree.stat_eq_node hw).trans hn⟩
  · rintro ⟨data, mode, hs⟩
    have hw : Walkable env folder filename t := by
      unfold FileTree.stat at hs
      cases hr : t.resolve env.proc (join folder filename) with
      | error e => rw [hr] at hs; cases hs
      | ok p =>
        obtain rfl := FileTree.resolve_eq hr
        exact hr
    rw [FileTree.stat_eq_node hw] at hs
    exact ⟨hw, data, mode, hs⟩

/-- `is_file` finds what the kernel sees. -/
theorem isFile_iff (h : (isFile env (join folder filename) s).2.ioErrors = s.ioErrors) :
    (isFile env (join folder filename) s).1 = true ↔ env.Sees folder filename s.tree := by
  have hstat : (sysStat env (join folder filename) s).1 = s.tree.stat env.proc
      (join folder filename) :=
    sysStat_ok h
  rw [sees_iff_stat]
  unfold isFile
  rw [bind_apply, pure_apply, hstat]
  dsimp only
  split
  · next data mode hs => exact iff_of_true rfl ⟨data, mode, hs⟩
  · next hs =>
    refine iff_of_false (by simp) ?_
    rintro ⟨data, mode, hfile⟩
    exact hs data mode hfile

/-- **`remove_file`** without a failing call removes what the kernel can walk to. -/
theorem removeFile_spec (h : (removeFile env folder filename s).2.ioErrors = s.ioErrors) :
    ((removeFile env folder filename s).1 = true ↔ env.Sees folder filename s.tree) ∧
      FileTree.Swept (fun q => Walkable env folder filename s.tree ∧ q = env.place folder filename)
        s.tree (removeFile env folder filename s).2.tree := by
  have hp := TraceLe.preorder
  unfold removeFile at h ⊢
  obtain ⟨hlook, hrest⟩ := bind_count (Silent.moves (isFile_silent env (join folder filename)))
    (fun found => Moves.ite (Moves.bind hp (Silent.moves (log_silent _ _)) fun _ =>
        Moves.bind hp (Within.moves (unlinkFile_within env _)) fun _ => Moves.pure hp _)
      (Moves.bind hp (Silent.moves (log_silent _ _)) fun _ => Moves.pure hp _)) h
  have hfound := isFile_iff hlook
  have hsame := (isFile_silent env (join folder filename) s).tree
  rw [bind_apply]
  by_cases hsees : env.Sees folder filename s.tree
  · have htrue := hfound.2 hsees
    rw [htrue] at hrest ⊢
    rw [if_pos rfl] at hrest ⊢
    obtain ⟨-, hunlink⟩ := bind_count (Silent.moves (log_silent _ _))
      (fun _ => Moves.bind hp (Within.moves (unlinkFile_within env _)) fun _ =>
        Moves.pure hp _) hrest
    have hcalm :=
      (bind_count (Within.moves (unlinkFile_within env _)) (fun _ => Moves.pure hp _) hunlink).1
    have hlog := (log_silent .info s!"Removing {join folder filename}"
      (isFile env (join folder filename) s).2).tree.trans hsame
    obtain ⟨_, hok, -, htree⟩ := syscall_ok (fun t => t.removeFile env.proc (join folder filename))
      (fun _ t => t) hcalm
    obtain ⟨hw, data, mode, hn⟩ := hsees
    rw [hlog] at htree
    have hgone : (s.tree.removeFile env.proc (join folder filename)).2 =
        s.tree.unlink (env.place folder filename) :=
      congrArg Prod.snd (FileTree.removeFile_of_walk hw ⟨data, mode, hn⟩)
    rw [hgone] at htree
    refine ⟨iff_of_true (congrArg Except.isOk hok) ⟨hw, data, mode, hn⟩, ?_⟩
    have hswept := (FileTree.swept_unlink ⟨data, mode, hn⟩).congr fun q => (and_iff_right hw).symm
    rwa [← htree] at hswept
  · have hfalse : (isFile env (join folder filename) s).1 = false :=
      Bool.eq_false_iff.2 fun hyes => hsees (hfound.1 hyes)
    rw [hfalse]
    refine ⟨iff_of_false (by simp) hsees, ?_⟩
    show FileTree.Swept _ s.tree (isFile env (join folder filename) s).2.tree
    rw [hsame]
    exact FileTree.swept_self fun q hq hf => hsees ⟨hq.1, hq.2 ▸ hf⟩

end Removal

end Sidecar
