import Sidecar.Effects
import Sidecar.Lib.Store

/-!
# Specifications of the file operations

For `write_data_to_file` and `remove_file`: which files they can touch at all (`_within`, for any
environment) and what they do when nothing fails (`_ok`), in terms of the bytes stored at the
path the folder and the file name resolve to.
-/

namespace Sidecar

open Posix StateM

/-- The place a file of a folder is at. -/
def Env.place (env : Env) (folder filename : String) : Path :=
  canon env.proc.cwd (join folder filename)

/-- The kernel can walk to the file. -/
def Walkable (env : Env) (folder filename : String) (t : FileTree) : Prop :=
  t.resolve env.proc (join folder filename) = .ok (env.place folder filename)

theorem Walkable.mono {env : Env} {folder filename : String} {t t' : FileTree}
    (h : Walkable env folder filename t) (hd : FileTree.DirsLe t t') :
    Walkable env folder filename t' := FileTree.resolve_mono hd h

/-! ## Frames -/

theorem ensureFolder_within (env : Env) (folder : String) (P : Path → Prop) :
    Moves (Within P) (ensureFolder env folder) := by
  have hp := Within.preorder P
  refine Moves.bind hp ((pathExists_silent env folder).mono fun _ _ h => h.within P) fun _ =>
    Moves.ite (Moves.pure hp _) (createDirAll_within env folder P)

theorem readCurrent_silent (env : Env) (path : String) : Moves Silent (readCurrent env path) := by
  have hp := Silent.preorder
  refine Moves.bind hp (pathExists_silent env path) fun _ => Moves.ite ?_ (Moves.pure hp _)
  exact Moves.bind hp (readFile_silent env path) fun _ => Moves.pure hp _

theorem applyFileMode_within (env : Env) (path : String) (P : Path → Prop) :
    Moves (Within P) (applyFileMode env path) := by
  have hp := Within.preorder P
  unfold applyFileMode
  split
  · exact Moves.pure hp _
  · refine Moves.ite (Moves.pure hp _) ?_
    split
    · exact Moves.pure hp _
    · exact setPermissions_within env path _ P

section Write

variable {env : Env} {R : Sys → Sys → Prop} (hp : Preorder R)
  (hcalm : ∀ s s', Within (fun _ => False) s s' → R s s') {path : String} {data : ByteArray}
  (hwrite : Moves R (writeFile env path data))
include hp hcalm hwrite

/-! A write moves along whatever its one `write` moves along. -/

theorem writeOut_moves : Moves R (writeOut env path data) :=
  Moves.andThen hp hwrite fun _ =>
    Moves.andThen hp ((applyFileMode_within env path _).mono hcalm) fun _ => Moves.pure hp _

theorem overwrite_moves (filename dataType : String) (current : Option ByteArray) :
    Moves R (overwrite env path filename data dataType current) := by
  have hlog : ∀ level msg, Moves R (log level msg) :=
    fun level msg => (log_silent level msg).mono fun s s' h => hcalm s s' (h.within _)
  exact Moves.ite (Moves.bind hp (hlog _ _) fun _ => Moves.pure hp _)
    (Moves.bind hp (hlog _ _) fun _ => writeOut_moves hp hcalm hwrite)

theorem rewrite_moves (filename dataType : String) :
    Moves R (rewrite env path filename data dataType) :=
  Moves.andThen hp ((readCurrent_silent env path).mono fun s s' h => hcalm s s' (h.within _))
    (overwrite_moves hp hcalm hwrite filename dataType)

omit hwrite in
theorem writeDataToFile_moves {folder filename : String}
    (hwrite : Moves R (writeFile env (join folder filename) data)) (dataType : String) :
    Moves R (writeDataToFile env folder filename data dataType) := by
  have hrw := rewrite_moves hp hcalm hwrite filename dataType
  unfold writeDataToFile
  refine Moves.bind hp ((ensureFolder_within env folder _).mono hcalm) fun created => ?_
  split
  · exact hrw
  · refine Moves.ite ?_ (Moves.ite hrw (Moves.pure hp _))
    exact Moves.bind hp ((log_silent _ _).mono fun s s' h => hcalm s s' (h.within _)) fun _ =>
      Moves.pure hp _

end Write

theorem Within.mono {P Q : Path → Prop} (hPQ : ∀ p, P p → Q p) {s s' : Sys} (h : Within P s s') :
    Within Q s s' := ⟨h.toTouches.mono hPQ, h.produced⟩

section Within

variable (env : Env) (path : String) (data : ByteArray)

theorem writeOut_within : Moves (Within (· = canon env.proc.cwd path)) (writeOut env path data) :=
  writeOut_moves (Within.preorder _) (fun _ _ h => h.mono nofun) (writeFile_within env path data)

theorem overwrite_within (filename dataType : String) (current : Option ByteArray) :
    Moves (Within (· = canon env.proc.cwd path))
      (overwrite env path filename data dataType current) :=
  overwrite_moves (Within.preorder _) (fun _ _ h => h.mono nofun)
    (writeFile_within env path data) _ _ _

theorem rewrite_within (filename dataType : String) :
    Moves (Within (· = canon env.proc.cwd path)) (rewrite env path filename data dataType) :=
  rewrite_moves (Within.preorder _) (fun _ _ h => h.mono nofun) (writeFile_within env path data) _ _

end Within

/-- `write_data_to_file` touches no file but its target. -/
theorem writeDataToFile_within (env : Env) (folder filename : String) (data : ByteArray)
    (dataType : String) :
    Moves (Within (· = env.place folder filename))
      (writeDataToFile env folder filename data dataType) :=
  writeDataToFile_moves (Within.preorder _) (fun _ _ h => h.mono nofun)
    (writeFile_within env _ data) _

/-- `remove_file` touches no file but its target. -/
theorem removeFile_within (env : Env) (folder filename : String) :
    Moves (Within (· = env.place folder filename)) (removeFile env folder filename) := by
  have hp := Within.preorder (· = env.place folder filename)
  have hlog : ∀ level msg, Moves (Within (· = env.place folder filename)) (log level msg) :=
    fun level msg => (log_silent level msg).mono fun _ _ h => h.within _
  refine Moves.bind hp ((isFile_silent env _).mono fun _ _ h => h.within _) fun _ => Moves.ite ?_ ?_
  · exact Moves.bind hp (hlog _ _) fun _ => Moves.bind hp (unlinkFile_within env _) fun _ =>
      Moves.pure hp _
  · exact Moves.bind hp (hlog _ _) fun _ => Moves.pure hp _

/-! ## What a write and a removal leave at a path -/

/-- A file at `p` stays, if not with its bytes. -/
def KeepsFile (p : Path) (s s' : Sys) : Prop := s.tree.fileAt p ≠ none → s'.tree.fileAt p ≠ none

/-- The file at `p` stays as it is, or goes. -/
def ClearsFile (p : Path) (s s' : Sys) : Prop :=
  s'.tree.fileAt p = s.tree.fileAt p ∨ s'.tree.fileAt p = none

theorem KeepsFile.preorder (p : Path) : Preorder (KeepsFile p) :=
  ⟨fun _ h => h, fun h h' hf => h' (h hf)⟩

theorem ClearsFile.preorder (p : Path) : Preorder (ClearsFile p) where
  refl _ := .inl rfl
  trans {s t u} h h' := by
    rcases h' with h' | h'
    · unfold ClearsFile
      rwa [h']
    · exact .inr h'

theorem Touches.clearsFile {P : Path → Prop} {p : Path} (hp : ¬P p) {s s' : Sys}
    (h : Touches P s s') : ClearsFile p s s' := .inl (h.files p hp)

theorem ClearsFile.none {p : Path} {s s' : Sys} (h : ClearsFile p s s')
    (hs : s.tree.fileAt p = none) : s'.tree.fileAt p = none := h.elim (fun h => h.trans hs) id

theorem Touches.keepsFile {P : Path → Prop} {p : Path} (hp : ¬P p) {s s' : Sys}
    (h : Touches P s s') : KeepsFile p s s' := fun hf => h.files p hp ▸ hf

theorem writeDataToFile_keepsFile (env : Env) (folder filename : String) (data : ByteArray)
    (dataType : String) (p : Path) :
    Moves (KeepsFile p) (writeDataToFile env folder filename data dataType) := by
  refine writeDataToFile_moves (KeepsFile.preorder p) (fun _ _ h => h.toTouches.keepsFile not_false)
    (fun s => ?_) dataType
  exact (syscall_frame env _ _ _ (fun t t' => t.fileAt p ≠ none → t'.fileAt p ≠ none)
    (fun t => FileTree.fileAt_writeFile_ne_none t env.proc _ data)
    (fun f t => FileTree.fileAt_writeFault_ne_none t env.proc _ data f) s).2.1

theorem removeFile_clearsFile (env : Env) (folder filename : String) (p : Path) :
    Moves (ClearsFile p) (removeFile env folder filename) := by
  have hp := ClearsFile.preorder p
  have hsilent : ∀ {α : Type} {x : M α}, Moves Silent x → Moves (ClearsFile p) x := fun hx =>
    hx.mono fun s s' h => (h.within fun _ => False).toTouches.clearsFile not_false
  refine Moves.bind hp (hsilent (isFile_silent env _)) fun _ => Moves.ite ?_ ?_
  · refine Moves.bind hp (hsilent (log_silent _ _)) fun _ => Moves.bind hp (fun s => ?_) fun _ =>
      Moves.pure hp _
    exact (syscall_frame env _ _ _ (fun t t' => t'.fileAt p = t.fileAt p ∨ t'.fileAt p = none)
      (fun t => FileTree.fileAt_removeFile t env.proc _ p) (fun _ _ => .inl rfl) s).2.1
  · exact Moves.bind hp (hsilent (log_silent _ _)) fun _ => Moves.pure hp _

/-! ## Calls that do not fail -/

theorem sysStat_ok {env : Env} {path : String} {s : Sys}
    (h : (sysStat env path s).2.ioErrors = s.ioErrors) :
    (sysStat env path s).1 = s.tree.stat env.proc path := by
  obtain ⟨a, ha, hc, -⟩ := syscall_ok (fun t => (.ok (t.stat env.proc path), t))
    (fun _ t => t) h
  cases hc
  simp only [sysStat, bind_apply, pure_apply, ha, Except.toOption, Option.join_some]

theorem pathExists_ok {env : Env} {path : String} {s : Sys}
    (h : (pathExists env path s).2.ioErrors = s.ioErrors) :
    (pathExists env path s).1 = (s.tree.stat env.proc path).isSome := by
  rw [← sysStat_ok h]
  rfl

theorem readFile_ok {env : Env} {path : String} {s : Sys}
    (h : (readFile env path s).2.ioErrors = s.ioErrors) :
    ∃ data, (readFile env path s).1 = .ok data ∧
      s.tree.resolve env.proc path = .ok (canon env.proc.cwd path) ∧
      s.tree.fileAt (canon env.proc.cwd path) = some data := by
  obtain ⟨data, ha, hc, -⟩ := syscall_ok (fun t => (t.readFile env.proc path, t))
    (fun _ t => t) h
  exact ⟨data, ha, FileTree.readFile_ok hc⟩

theorem writeFile_ok {env : Env} {path : String} {data : ByteArray} {s : Sys}
    (h : (writeFile env path data s).2.ioErrors = s.ioErrors) :
    (writeFile env path data s).1 = .ok () ∧
      s.tree.resolve env.proc path = .ok (canon env.proc.cwd path) ∧
      (writeFile env path data s).2.tree.fileAt (canon env.proc.cwd path) = some data := by
  obtain ⟨_, ha, hc, ht⟩ := syscall_ok (fun t => t.writeFile env.proc path data)
    (fun f t => t.writeFault env.proc path data f) h
  obtain ⟨hr, hd⟩ := FileTree.writeFile_ok hc
  rw [← ht] at hd
  exact ⟨ha, hr, hd⟩

theorem ensureFolder_ok {env : Env} {folder : String} {s : Sys}
    (h : (ensureFolder env folder s).2.ioErrors = s.ioErrors) :
    (ensureFolder env folder s).1 = .ok () := by
  have hex := (pathExists_silent env folder s).trace
  unfold ensureFolder at h ⊢
  simp only [bind_apply, StateM.ite_apply] at h ⊢
  split
  · rfl
  · next hne =>
    rw [if_neg hne] at h
    have hcreate := (count_squeeze hex
      (createDirAll_within env folder (fun _ => False) _).trace h).2
    obtain ⟨_, ha, -⟩ := syscall_ok (fun t => t.createDirAll env.proc folder)
      (fun f t => t.createDirAllFault env.proc folder f) hcreate
    exact ha

/-- What `stat` does not see at a place that can be walked to is not there. -/
theorem fileAt_of_stat_none {env : Env} {path : String} {t : FileTree}
    (hs : t.stat env.proc path = none)
    (hr : t.resolve env.proc path = .ok (canon env.proc.cwd path)) :
    t.fileAt (canon env.proc.cwd path) = none := by
  rw [FileTree.stat_eq_node hr] at hs
  unfold FileTree.fileAt
  rw [hs]

/-- What a look at the target has found. -/
def Looked (env : Env) (path : String) (t : FileTree) (current : Option ByteArray) : Prop :=
  current = none ∧ t.stat env.proc path = none ∨
    t.resolve env.proc path = .ok (canon env.proc.cwd path) ∧
      t.fileAt (canon env.proc.cwd path) = current ∧ current ≠ none

theorem Looked.fileAt {env : Env} {path : String} {t : FileTree} {current : Option ByteArray}
    (h : Looked env path t current)
    (hr : t.resolve env.proc path = .ok (canon env.proc.cwd path)) :
    t.fileAt (canon env.proc.cwd path) = current := by
  obtain ⟨hn, hs⟩ | ⟨-, hf, -⟩ := h
  · rw [hn]
    exact fileAt_of_stat_none hs hr
  · exact hf

/-- A look that does not fail at the target finds nothing, or the bytes stored there. -/
theorem readCurrent_ok {env : Env} {path : String} {s : Sys}
    (h : (readCurrent env path s).2.ioErrors = s.ioErrors) :
    ∃ current, (readCurrent env path s).1 = .ok current ∧ Looked env path s.tree current := by
  have hex := pathExists_silent env path s
  unfold readCurrent at h ⊢
  simp only [bind_apply, StateM.ite_apply, pure_apply] at h ⊢
  split
  · next hyes =>
    rw [if_pos hyes] at h
    have hread := (count_squeeze hex.trace (readFile_silent env path _).trace h).2
    obtain ⟨data, ha, hr, hd⟩ := readFile_ok hread
    rw [hex.tree] at hr hd
    exact ⟨some data, by rw [ha]; rfl, .inr ⟨hr, hd, by simp⟩⟩
  · next hno =>
    rw [if_neg hno] at h
    rw [pathExists_ok h] at hno
    exact ⟨none, rfl, .inl ⟨rfl, by simpa using hno⟩⟩

theorem applyFileMode_ok {env : Env} {path : String} {s : Sys}
    (h : (applyFileMode env path s).2.ioErrors = s.ioErrors) :
    (applyFileMode env path s).1 = .ok () ∨ (applyFileMode env path s).1 = .error .invalidData := by
  unfold applyFileMode at h ⊢
  cases hm : env.defaultFileMode with
  | none => exact .inl rfl
  | some modeStr =>
    simp only [hm, StateM.ite_apply] at h ⊢
    split
    · exact .inl rfl
    · next hne =>
      rw [if_neg hne] at h
      cases hu : u32FromOctal modeStr with
      | none => exact .inr rfl
      | some mode =>
        simp only [hu] at h
        obtain ⟨_, ha, -⟩ := syscall_ok (fun t => t.setPermissions env.proc path mode)
          (fun _ t => t) h
        exact .inl ha

/-- A write that does not fail is the suppressed assignment of the data to the path. Only a bad
`DEFAULT_FILE_MODE` can still make it an error, and then the data was written. -/
structure Writes (env : Env) (path : String) (data : ByteArray) (s : Sys)
    (out : Except ErrorKind Bool × Sys) : Prop where
  files : out.2.tree.fileAt =
    (Store.step env.sha256 s.tree.fileAt ⟨canon env.proc.cwd path, some data⟩).2
  result : out.1 =
    .ok (Store.step env.sha256 s.tree.fileAt ⟨canon env.proc.cwd path, some data⟩).1 ∨
    out.1 = .error .invalidData
  walk : out.2.tree.resolve env.proc path = .ok (canon env.proc.cwd path)

/-- Only one file of a state differs from another. -/
theorem Touches.fileAt_eq {p : Path} {s s' : Sys} {d : Option ByteArray}
    (h : Touches (· = p) s s') (hp : s'.tree.fileAt p = d) :
    s'.tree.fileAt = Function.update s.tree.fileAt p d := by
  funext q
  by_cases hq : q = p
  · rw [hq, Function.update_self, hp]
  · rw [Function.update_of_ne hq, h.files q hq]

theorem writeOut_ok {env : Env} {path : String} {data : ByteArray} {s : Sys}
    (h : (writeOut env path data s).2.ioErrors = s.ioErrors) :
    ((writeOut env path data s).1 = .ok true ∨ (writeOut env path data s).1 = .error .invalidData) ∧
      s.tree.resolve env.proc path = .ok (canon env.proc.cwd path) ∧
      (writeOut env path data s).2.tree.fileAt (canon env.proc.cwd path) = some data := by
  have hmode : Moves TraceLe (applyFileMode env path) :=
    Within.moves (applyFileMode_within env path fun _ => False)
  have hdone : ∀ _ : Unit, Moves TraceLe (pure (.ok true) : M (Except ErrorKind Bool)) :=
    fun _ => Moves.pure TraceLe.preorder _
  obtain ⟨hwrite, hrest⟩ := andThen_count (Within.moves (writeFile_within env path data))
    (fun _ => Moves.andThen TraceLe.preorder hmode hdone) h
  obtain ⟨hok, hr, hd⟩ := writeFile_ok hwrite
  replace hrest := hrest () hok
  have hsame := (applyFileMode_within env path (fun _ => False) (writeFile env path data s).2).files
    (canon env.proc.cwd path) not_false
  unfold writeOut
  rw [andThen_ok hok]
  obtain hm | hm := applyFileMode_ok (andThen_count hmode hdone hrest).1
  · rw [andThen_ok hm]
    exact ⟨.inl rfl, hr, hsame.trans hd⟩
  · rw [andThen_error hm]
    exact ⟨.inr rfl, hr, hsame.trans hd⟩

theorem overwrite_ok {env : Env} {path filename dataType : String} {data : ByteArray}
    {current : Option ByteArray} {s : Sys} (hlook : Looked env path s.tree current)
    (h : (overwrite env path filename data dataType current s).2.ioErrors = s.ioErrors) :
    Writes env path data s (overwrite env path filename data dataType current s) := by
  have hwithin := overwrite_within env path data filename dataType current s
  unfold overwrite at h hwithin ⊢
  by_cases hd : current.map env.sha256 = some (env.sha256 data)
  · rw [if_pos hd] at hwithin ⊢
    obtain ⟨hn, -⟩ | ⟨hr, hf, -⟩ := hlook
    · rw [hn] at hd
      cases hd
    · have hstep : Store.step env.sha256 s.tree.fileAt ⟨canon env.proc.cwd path, some data⟩ =
          (false, s.tree.fileAt) := if_pos (by unfold Store.Settled; rw [hf]; exact hd)
      constructor
      · rw [hstep]; rfl
      · rw [hstep]; exact .inl rfl
      · exact hr
  · rw [if_neg hd] at h hwithin ⊢
    obtain ⟨-, hrest⟩ := bind_count (Silent.moves (log_silent _ _))
      (fun _ => Within.moves (writeOut_within env path data)) h
    obtain ⟨hres, hr, hf⟩ := writeOut_ok hrest
    have hold := hlook.fileAt hr
    have hstep : Store.step env.sha256 s.tree.fileAt ⟨canon env.proc.cwd path, some data⟩ =
        (true, Function.update s.tree.fileAt (canon env.proc.cwd path) (some data)) :=
      if_neg (by unfold Store.Settled; rw [hold]; exact hd)
    constructor
    · rw [hstep]
      exact hwithin.fileAt_eq hf
    · rw [hstep]
      exact hres
    · exact FileTree.resolve_mono hwithin.dirs hr

theorem rewrite_ok {env : Env} {path filename dataType : String} {data : ByteArray} {s : Sys}
    (h : (rewrite env path filename data dataType s).2.ioErrors = s.ioErrors) :
    Writes env path data s (rewrite env path filename data dataType s) := by
  obtain ⟨hread, hrest⟩ := andThen_count (Silent.moves (readCurrent_silent env path))
    (fun current => Within.moves (overwrite_within env path data filename dataType current)) h
  obtain ⟨current, hcur, hlook⟩ := readCurrent_ok hread
  have htree := (readCurrent_silent env path s).tree
  unfold rewrite
  rw [andThen_ok hcur]
  obtain ⟨hf, hres, hwalk⟩ := overwrite_ok (htree ▸ hlook) (hrest current hcur)
  rw [htree] at hf hres
  exact ⟨hf, hres, hwalk⟩

/-- `write_data_to_file` without a failing call. -/
theorem writeDataToFile_ok {env : Env} {folder filename dataType : String} {data : ByteArray}
    {s : Sys} (h : (writeDataToFile env folder filename data dataType s).2.ioErrors = s.ioErrors) :
    Writes env (join folder filename) data s
      (writeDataToFile env folder filename data dataType s) := by
  have hfolder := ensureFolder_within env folder (fun _ => False) s
  have hsame : (ensureFolder env folder s).2.tree.fileAt = s.tree.fileAt :=
    funext fun q => hfolder.files q not_false
  have hrw := rewrite_within env (join folder filename) data filename dataType
  unfold writeDataToFile at h ⊢
  obtain ⟨hmade, hrest⟩ := bind_count (Within.moves (ensureFolder_within env folder fun _ => False))
    (fun created => by
      cases created with
      | ok _ => exact Within.moves hrw
      | error e =>
        exact Moves.ite (Moves.bind TraceLe.preorder (Silent.moves (log_silent _ _)) fun _ =>
          Moves.pure TraceLe.preorder _)
            (Moves.ite (Within.moves hrw) (Moves.pure TraceLe.preorder _))) h
  have hok := ensureFolder_ok hmade
  rw [bind_apply]
  rw [hok] at hrest ⊢
  obtain ⟨hf, hres, hwalk⟩ := rewrite_ok hrest
  rw [hsame] at hf hres
  exact ⟨hf, hres, hwalk⟩

theorem unlinkFile_ok {env : Env} {path : String} {data : ByteArray} {mode : UInt32} {s : Sys}
    (hs : s.tree.stat env.proc path = some (.file data mode))
    (h : (unlinkFile env path s).2.ioErrors = s.ioErrors) :
    (unlinkFile env path s).1 = .ok () ∧
      (unlinkFile env path s).2.tree.fileAt (canon env.proc.cwd path) = none := by
  obtain ⟨_, ha, -, ht⟩ := syscall_ok (fun t => t.removeFile env.proc path)
    (fun _ t => t) h
  have hgone := (FileTree.removeFile_of_stat hs).2
  rw [← ht] at hgone
  exact ⟨ha, hgone⟩

/-- `is_file` sees the file at a place that can be walked to, and only that. -/
theorem isFile_ok {env : Env} {folder filename : String} {s : Sys}
    (hw : s.tree.fileAt (env.place folder filename) ≠ none → Walkable env folder filename s.tree)
    (h : (isFile env (join folder filename) s).2.ioErrors = s.ioErrors) :
    (isFile env (join folder filename) s).1 =
      (s.tree.fileAt (env.place folder filename)).isSome := by
  have hstat : (sysStat env (join folder filename) s).1 =
      s.tree.stat env.proc (join folder filename) := sysStat_ok h
  unfold isFile
  rw [bind_apply, pure_apply, hstat]
  cases hf : s.tree.fileAt (env.place folder filename) with
  | some data =>
    obtain ⟨mode, hn⟩ := FileTree.node_of_fileAt hf
    rw [FileTree.stat_eq_node (hw (by simp [hf]))]
    have hn' : s.tree.node (canon env.proc.cwd (join folder filename)) =
        some (.file data mode) := hn
    rw [hn']
    rfl
  | none =>
    split
    · next data mode hs =>
      have hr : ∃ p, s.tree.resolve env.proc (join folder filename) = .ok p := by
        unfold FileTree.stat at hs
        split at hs
        · exact ⟨_, by assumption⟩
        · cases hs
      obtain ⟨p, hr⟩ := hr
      rw [FileTree.stat_eq_node hr] at hs
      have := FileTree.fileAt_of_node hs
      unfold Env.place at hf
      rw [hf] at this
      cases this
    · rfl

/-- `remove_file` without a failing call is the suppressed assignment of nothing. -/
theorem removeFile_ok {env : Env} {folder filename : String} {s : Sys}
    (hw : s.tree.fileAt (env.place folder filename) ≠ none → Walkable env folder filename s.tree)
    (h : (removeFile env folder filename s).2.ioErrors = s.ioErrors) :
    (removeFile env folder filename s).1 =
        (Store.step env.sha256 s.tree.fileAt ⟨env.place folder filename, none⟩).1 ∧
      (removeFile env folder filename s).2.tree.fileAt =
        (Store.step env.sha256 s.tree.fileAt ⟨env.place folder filename, none⟩).2 := by
  have hwithin := removeFile_within env folder filename s
  have hp := TraceLe.preorder
  unfold removeFile at h hwithin ⊢
  obtain ⟨hseen, hrest⟩ := bind_count (Silent.moves (isFile_silent env (join folder filename)))
    (fun found => by
      exact Moves.ite (Moves.bind hp (Silent.moves (log_silent _ _)) fun _ =>
          Moves.bind hp (Within.moves (unlinkFile_within env _)) fun _ => Moves.pure hp _)
        (Moves.bind hp (Silent.moves (log_silent _ _)) fun _ => Moves.pure hp _)) h
  have hfound := isFile_ok hw hseen
  have htree := (isFile_silent env (join folder filename) s).tree
  rw [bind_apply] at hwithin ⊢
  cases hf : s.tree.fileAt (env.place folder filename) with
  | none =>
    rw [hf] at hfound
    have hstep : Store.step env.sha256 s.tree.fileAt ⟨env.place folder filename, none⟩ =
        (false, s.tree.fileAt) := if_pos (by unfold Store.Settled; rw [hf])
    rw [hstep, hfound]
    exact ⟨rfl, congrArg FileTree.fileAt htree⟩
  | some data =>
    rw [hf] at hfound
    have hstep : Store.step env.sha256 s.tree.fileAt ⟨env.place folder filename, none⟩ =
        (true, Function.update s.tree.fileAt (env.place folder filename) none) :=
      if_neg (by unfold Store.Settled; rw [hf]; simp)
    obtain ⟨mode, hn⟩ := FileTree.node_of_fileAt hf
    have hstat := (FileTree.stat_eq_node (hw (by simp [hf]))).trans hn
    rw [hfound] at hwithin hrest ⊢
    obtain ⟨-, hunlink⟩ := bind_count (Silent.moves (log_silent _ _))
      (fun _ => Moves.bind hp (Within.moves (unlinkFile_within env _)) fun _ =>
        Moves.pure hp _) hrest
    obtain ⟨hgone, hnone⟩ := unlinkFile_ok (htree ▸ hstat) (bind_count
      (Within.moves (unlinkFile_within env _)) (fun _ => Moves.pure hp _) hunlink).1
    rw [hstep]
    refine ⟨?_, hwithin.fileAt_eq hnone⟩
    exact congrArg Except.isOk hgone

end Sidecar
