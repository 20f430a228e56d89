import Sidecar.Outcomes
import Sidecar.Registry

/-!
# The mode of a file

`DEFAULT_FILE_MODE` is set after the bytes are written, and the next write depends on it: the owner
reads the file to compare and opens it for writing. One write turns the entry at the target into
another (`rewritten`); over a sequence of writes a file follows its contents exactly if the mode
lets the owner read and write it, or if there is nothing to follow (`mode_keeps_files`).
-/

namespace Sidecar

open Posix StateM

/-! ## One write -/

/-- The owner may read and write a file of this mode. -/
def OwnerReadWrite (mode : UInt32) : Prop := mode &&& 0o400 ≠ 0 ∧ mode &&& 0o200 ≠ 0

instance (mode : UInt32) : Decidable (OwnerReadWrite mode) :=
  inferInstanceAs (Decidable (_ ∧ _))

/-- What a write makes of the entry at its target: `mode` is the mode that files get. -/
def rewritten (digest : ByteArray → ByteArray) (mode : UInt32) (data : ByteArray) :
    Option Node → Option Node
  | some (.file old oldMode) =>
    if OwnerReadWrite oldMode ∧ digest old ≠ digest data then some (.file data mode)
    else some (.file old oldMode)
  | some .dir => some .dir
  | none => some (.file data mode)

section Write

variable {env : Env} {folder filename : String} {s : Sys}

/-- The folder of a target that can be walked to needs not be made. -/
theorem ensureFolder_of_walkable (hf : env.Faultless) (hslash : '/' ∉ filename.toList)
    (hw : Walkable env folder filename s.tree) :
    (ensureFolder env folder s).1 = .ok () ∧ (ensureFolder env folder s).2.tree = s.tree := by
  have hexists := pathExists_of_faultless hf folder s
  have htree := (pathExists_silent env folder s).tree
  unfold ensureFolder
  rw [bind_apply, StateM.ite_apply]
  by_cases hfolder : folder = ""
  · subst hfolder
    have hno : (pathExists env "" s).1 = false := hexists
    obtain ⟨hok, hsame⟩ :=
      syscall_of_faultless hf (.createDirAll "") (fun t => t.createDirAll env.proc "")
        (fun f t => t.createDirAllFault env.proc "" f) (pathExists env "" s).2
    rw [hno]
    exact ⟨hok, hsame.trans htree⟩
  · rw [hexists, FileTree.stat_of_walk hfolder hslash hw]
    exact ⟨rfl, htree⟩

variable {path : String} {data : ByteArray} {modeStr : String} {mode : UInt32}
  (hf : env.Faultless) (hset : env.defaultFileMode = some modeStr)
    (hmode : u32FromOctal modeStr = some mode)
include hf hset hmode

theorem applyFileMode_of_file {old : ByteArray} {oldMode : UInt32}
    (hr : s.tree.resolve env.proc path = .ok (canon env.proc.cwd path))
    (hn : s.tree.node (canon env.proc.cwd path) = some (.file old oldMode)) :
    (applyFileMode env path s).2.tree.node (canon env.proc.cwd path) =
      some (.file old (mode &&& 0o7777)) := by
  have hne : modeStr ≠ "" := by
    rintro rfl
    cases hmode
  obtain ⟨-, htree⟩ :=
    syscall_of_faultless hf (.chmod path) (fun t => t.setPermissions env.proc path mode)
      (fun _ t => t) s
  unfold applyFileMode
  rw [hset]
  simp only [hne, if_false, hmode]
  unfold setPermissions
  rw [htree]
  unfold FileTree.setPermissions
  rw [hr]
  dsimp only
  rw [hn]
  dsimp only
  rw [FileTree.node_setFile (FileTree.open_of_file hn), if_pos rfl]

/-- What is written anew gets the mode. -/
theorem writeOut_node (hp : env.proc.privileged = false)
    (hr : s.tree.resolve env.proc path = .ok (canon env.proc.cwd path))
    (hdir : s.tree.node (canon env.proc.cwd path) ≠ some .dir)
    (hopen : ∀ old oldMode, s.tree.node (canon env.proc.cwd path) = some (.file old oldMode) →
      oldMode &&& 0o200 ≠ 0) :
    (writeOut env path data s).2.tree.node (canon env.proc.cwd path) =
      some (.file data (mode &&& 0o7777)) := by
  obtain ⟨hans, htree⟩ :=
    syscall_of_faultless hf (.write path) (fun t => t.writeFile env.proc path data)
      (fun f t => t.writeFault env.proc path data f) s
  have hwritten : ∃ m, s.tree.writeFile env.proc path data =
      (.ok (), s.tree.setFile (canon env.proc.cwd path) data m) := by
    unfold FileTree.writeFile
    rw [hr]
    dsimp only
    split
    · next old oldMode hn =>
      have hallowed : FileTree.allowed env.proc oldMode 0o200 = true := by
        simpa [FileTree.allowed, hp] using hopen old oldMode hn
      rw [if_pos hallowed]
      exact ⟨_, rfl⟩
    · next hn => exact absurd hn hdir
    · exact ⟨_, rfl⟩
  obtain ⟨m, hm⟩ := hwritten
  have hput := FileTree.open_of_resolve hr hdir
  have hnode := FileTree.node_setFile hput data m (canon env.proc.cwd path)
  have hwalk := FileTree.resolve_mono (FileTree.onlyAt_setFile hput data m).dirs hr
  rw [if_pos rfl] at hnode
  rw [hm] at hans htree
  have hdone : (writeFile env path data s).1 = .ok () := hans
  have hstored :
      (writeFile env path data s).2.tree = s.tree.setFile (canon env.proc.cwd path) data m := htree
  rw [← hstored] at hnode hwalk
  have hchmod := applyFileMode_of_file hf hset hmode hwalk hnode
  unfold writeOut
  rw [andThen_ok hdone]
  cases hres : (applyFileMode env path (writeFile env path data s).2).1 with
  | ok _ =>
    rw [andThen_ok hres]
    exact hchmod
  | error e =>
    rw [andThen_error hres]
    exact hchmod

omit hset hmode in
/-- A file that may not be written stays. -/
theorem writeOut_denied (hp : env.proc.privileged = false) {old : ByteArray} {oldMode : UInt32}
    (hr : s.tree.resolve env.proc path = .ok (canon env.proc.cwd path))
    (hn : s.tree.node (canon env.proc.cwd path) = some (.file old oldMode))
    (hw : ¬oldMode &&& 0o200 ≠ 0) :
    (writeOut env path data s).2.tree.node (canon env.proc.cwd path) =
      some (.file old oldMode) := by
  obtain ⟨hans, htree⟩ :=
    syscall_of_faultless hf (.write path) (fun t => t.writeFile env.proc path data)
      (fun f t => t.writeFault env.proc path data f) s
  have hdenied : s.tree.writeFile env.proc path data = (.error .permissionDenied, s.tree) := by
    unfold FileTree.writeFile
    rw [hr]
    dsimp only
    rw [hn]
    have hallowed : FileTree.allowed env.proc oldMode 0o200 = false := by
      simpa [FileTree.allowed, hp] using hw
    simp [hallowed]
  rw [hdenied] at hans htree
  have herror : (writeFile env path data s).1 = .error .permissionDenied := hans
  have hsame : (writeFile env path data s).2.tree = s.tree := htree
  unfold writeOut
  rw [andThen_error herror]
  dsimp only
  rw [hsame, hn]

omit hset hmode in
/-- What a look at the target comes to. -/
theorem readCurrent_of_walk (hp : env.proc.privileged = false)
    (hr : s.tree.resolve env.proc path = .ok (canon env.proc.cwd path)) :
    (readCurrent env path s).1 =
        (match s.tree.node (canon env.proc.cwd path) with
        | some (.file old oldMode) => if oldMode &&& 0o400 ≠ 0 then .ok (some old)
          else .error .permissionDenied
        | some .dir => .error .isADirectory
        | none => .ok none) ∧
      (readCurrent env path s).2.tree = s.tree := by
  refine ⟨?_, (readCurrent_silent env path s).tree⟩
  have hexists : (pathExists env path s).1 = (s.tree.node (canon env.proc.cwd path)).isSome := by
    rw [pathExists_of_faultless hf, FileTree.stat_eq_node hr]
  have hread : (readFile env path (pathExists env path s).2).1 = s.tree.readFile env.proc path := by
    rw [readFile_of_faultless hf, (pathExists_silent env path s).tree]
  unfold readCurrent
  rw [bind_apply, StateM.ite_apply, hexists]
  cases hn : s.tree.node (canon env.proc.cwd path) with
  | none => rfl
  | some n =>
    rw [Option.isSome_some, if_pos rfl, bind_apply, hread, pure_apply]
    unfold FileTree.readFile
    rw [hr]
    dsimp only
    rw [hn]
    cases n with
    | dir => rfl
    | file old oldMode =>
      simp only [FileTree.allowed, hp, Bool.false_or, bne_iff_ne, ne_eq]
      split <;> rfl

/-- **One write**, as the entry at the target decides it. -/
theorem rewrite_node (hp : env.proc.privileged = false) (dataType : String)
    (hr : s.tree.resolve env.proc path = .ok (canon env.proc.cwd path)) :
    (rewrite env path filename data dataType s).2.tree.node (canon env.proc.cwd path) =
      rewritten env.sha256 (mode &&& 0o7777) data (s.tree.node (canon env.proc.cwd path)) := by
  obtain ⟨hcur, hsame⟩ := readCurrent_of_walk hf hp hr
  have hlog : ∀ level msg, (log level msg (readCurrent env path s).2).2.tree = s.tree :=
    fun level msg =>
    (log_silent level msg _).tree.trans hsame
  unfold rewrite
  cases hn : s.tree.node (canon env.proc.cwd path) with
  | none =>
    rw [hn] at hcur
    rw [andThen_ok hcur]
    unfold overwrite
    rw [StateM.ite_apply, if_neg (by simp), bind_apply]
    refine writeOut_node hf hset hmode hp ?_ ?_ ?_
    all_goals
      rw [hlog]
    · exact hr
    · simp [hn]
    · simp [hn]
  | some n =>
    cases n with
    | dir =>
      rw [hn] at hcur
      rw [andThen_error hcur]
      dsimp only [rewritten]
      rw [hsame, hn]
    | file old oldMode =>
      rw [hn] at hcur
      dsimp only [rewritten]
      by_cases hreadable : oldMode &&& 0o400 ≠ 0
      · dsimp only at hcur
        rw [if_pos hreadable] at hcur
        rw [andThen_ok hcur]
        unfold overwrite
        rw [StateM.ite_apply]
        by_cases hdigest : env.sha256 old = env.sha256 data
        · -- the same bytes are not written again
          rw [if_pos (by simp [hdigest]), if_neg fun h => h.2 hdigest, bind_apply, pure_apply]
          dsimp only
          rw [hlog, hn]
        · rw [if_neg (by simp [hdigest]), bind_apply]
          by_cases hwritable : oldMode &&& 0o200 ≠ 0
          · rw [if_pos ⟨⟨hreadable, hwritable⟩, hdigest⟩]
            refine writeOut_node hf hset hmode hp ?_ ?_ ?_
            all_goals
              rw [hlog]
            · exact hr
            · simp [hn]
            · rw [hn]
              rintro _ _ ⟨⟩
              exact hwritable
          · rw [if_neg fun h => hwritable h.1.2]
            exact writeOut_denied hf hp (hlog .. ▸ hr) (hlog .. ▸ hn) hwritable
      · dsimp only at hcur
        rw [if_neg hreadable] at hcur
        rw [andThen_error hcur, if_neg fun h => hreadable h.1.1]
        dsimp only
        rw [hsame, hn]

end Write

/-! ## Writes one after the other -/

/-- After each write the file holds the content of that write, and has the mode. -/
def FollowsContents (env : Env) (folder filename dataType : String) (mode : UInt32) :
    List ByteArray → Sys → Prop
  | [], _ => True
  | data :: rest, s =>
    let t := (writeDataToFile env folder filename data dataType s).2
    t.tree.node (env.place folder filename) = some (.file data (mode &&& 0o7777)) ∧
      FollowsContents env folder filename dataType mode rest t

/-- What the entry at the target has to be for a first write. -/
def TakesFirst (mode : UInt32) (data : ByteArray) : Option Node → Prop
  | some (.file old oldMode) => old = data ∧ oldMode = mode ∨ old ≠ data ∧ OwnerReadWrite oldMode
  | some .dir => False
  | none => True

/-- The first write goes through, and then the mode lets the owner read and write or nothing
changes. -/
def Followable (mode : UInt32) (entry : Option Node) : List ByteArray → Prop
  | [] => True
  | data :: rest => TakesFirst (mode &&& 0o7777) data entry ∧
      (OwnerReadWrite mode ∨ ∀ later ∈ rest, later = data)

theorem rewritten_iff {digest : ByteArray → ByteArray} {mode : UInt32} {data : ByteArray}
    {entry : Option Node} (hdigest : ∀ old oldMode, entry = some (.file old oldMode) →
      digest old = digest data → old = data) :
    rewritten digest mode data entry = some (.file data mode) ↔ TakesFirst mode data entry := by
  match entry with
  | none => simp [rewritten, TakesFirst]
  | some .dir => simp [rewritten, TakesFirst]
  | some (.file old oldMode) =>
    have htold := hdigest old oldMode rfl
    unfold rewritten TakesFirst
    by_cases hsame : old = data
    · subst hsame
      simp
    · have hne : digest old ≠ digest data := fun h => hsame (htold h)
      by_cases hrw : OwnerReadWrite oldMode
      · simp [hrw, hne, hsame]
      · simp [hrw, hsame]

theorem ownerReadWrite_mask (mode : UInt32) : OwnerReadWrite (mode &&& 0o7777) ↔
    OwnerReadWrite mode := by
  have hread : (0o7777 : UInt32) &&& 0o400 = 0o400 := by decide
  have hwrite : (0o7777 : UInt32) &&& 0o200 = 0o200 := by decide
  unfold OwnerReadWrite
  rw [UInt32.and_assoc, UInt32.and_assoc, hread, hwrite]

section Writes

variable {env : Env} {folder filename dataType modeStr : String} {mode : UInt32}
  {data : ByteArray} {s : Sys} (hf : env.Faultless) (hp : env.proc.privileged = false)
    (hset : env.defaultFileMode = some modeStr)
  (hmode : u32FromOctal modeStr = some mode) (hslash : '/' ∉ filename.toList)
include hf hp hset hmode hslash

theorem writeDataToFile_node (hw : Walkable env folder filename s.tree) :
    (writeDataToFile env folder filename data dataType s).2.tree.node (env.place folder filename) =
        rewritten env.sha256 (mode &&& 0o7777) data (s.tree.node (env.place folder filename)) ∧
      Walkable env folder filename
        (writeDataToFile env folder filename data dataType s).2.tree := by
  obtain ⟨hok, hsame⟩ := ensureFolder_of_walkable hf hslash hw
  have hnode := @rewrite_node env filename (ensureFolder env folder s).2 _ data _ _
    hf hset hmode hp dataType (hsame ▸ hw)
  refine ⟨?_, hw.mono (writeDataToFile_within env folder filename data dataType s).dirs⟩
  unfold writeDataToFile
  rw [bind_apply, hok]
  rw [hsame] at hnode
  exact hnode

/-- Once the file is as it should be. -/
theorem followsContents_of_file {contents : List ByteArray}
    (hw : Walkable env folder filename s.tree)
    (hn : s.tree.node (env.place folder filename) = some (.file data (mode &&& 0o7777)))
    (hdigest : ∀ a ∈ data :: contents, ∀ b ∈ data :: contents,
      env.sha256 a = env.sha256 b → a = b) :
    FollowsContents env folder filename dataType mode contents s ↔
      OwnerReadWrite mode ∨ ∀ later ∈ contents, later = data := by
  induction contents generalizing data s with
  | nil => simp [FollowsContents]
  | cons next rest ih =>
    obtain ⟨hnode, hwalk⟩ := @writeDataToFile_node env folder filename dataType modeStr mode next s
      hf hp hset hmode hslash hw
    have hfirst :=
      @rewritten_iff env.sha256 (mode &&& 0o7777) next (some (.file data (mode &&& 0o7777))) (by
        rintro old oldMode ⟨⟩ hd
        exact hdigest data List.mem_cons_self next (by simp) hd)
    rw [← hn, ← hnode, hn] at hfirst
    unfold FollowsContents
    dsimp only
    constructor
    · rintro ⟨hfile, hrest⟩
      have hlater := (ih hwalk hfile fun a ha b hb => hdigest a (List.mem_cons_of_mem _ ha) b
        (List.mem_cons_of_mem _ hb)).1 hrest
      rcases hfirst.1 hfile with ⟨hsame, -⟩ | ⟨-, hrw⟩
      · refine hlater.imp_right fun h later hl => ?_
        rcases List.mem_cons.1 hl with rfl | hl
        · exact hsame.symm
        · rw [h later hl, hsame]
      · exact .inl ((ownerReadWrite_mask mode).1 hrw)
    · intro h
      have hfile := hfirst.2 (by
        by_cases hsame : data = next
        · exact .inl ⟨hsame, rfl⟩
        · refine .inr ⟨hsame, (ownerReadWrite_mask mode).2 (h.resolve_right fun hall => ?_)⟩
          exact hsame (hall next List.mem_cons_self).symm)
      refine ⟨hfile, (ih hwalk hfile fun a ha b hb => hdigest a (List.mem_cons_of_mem _ ha) b
        (List.mem_cons_of_mem _ hb)).2 (h.imp_right fun hall later hl => ?_)⟩
      rw [hall later (List.mem_cons_of_mem _ hl), hall next List.mem_cons_self]

/-- **A mode freezes files** unless it lets the owner read and write them: a file follows the
contents that are written exactly when the first write goes through and then either the mode has
both bits or nothing changes. -/
theorem mode_keeps_files {contents : List ByteArray} (hw : Walkable env folder filename s.tree)
    (hdigest : ∀ a ∈ contents, ∀ b, b ∈ contents ∨
      s.tree.fileAt (env.place folder filename) = some b →
      env.sha256 a = env.sha256 b → a = b) :
    FollowsContents env folder filename dataType mode contents s ↔
      Followable mode (s.tree.node (env.place folder filename)) contents := by
  cases contents with
  | nil => exact Iff.rfl
  | cons data rest =>
    obtain ⟨hnode, hwalk⟩ := @writeDataToFile_node env folder filename dataType modeStr mode data s
      hf hp hset hmode hslash hw
    have hfirst :=
      @rewritten_iff env.sha256 (mode &&& 0o7777) data (s.tree.node (env.place folder filename))
        (fun old oldMode hold hd =>
        (hdigest data List.mem_cons_self old (.inr (FileTree.fileAt_of_node hold)) hd.symm).symm)
    rw [← hnode] at hfirst
    have hrest : ∀ hfile, _ :=
      fun hfile => @followsContents_of_file env folder filename dataType _ _ _ _
        hf hp hset hmode hslash _ hwalk hfile fun a ha b hb => hdigest a ha b (.inl hb)
    exact and_congr_right_iff.2 hrest |>.trans (and_congr_left fun _ => hfirst)

end Writes

/-- The image runs as an unprivileged user. -/
def unprivilegedEnv (modeStr : String) : Env :=
  { sampleEnv with
    proc := ⟨[], false, 0o022⟩
    defaultFileMode := some modeStr }

theorem mode_keeps_files_sample :
    FollowsContents (unprivilegedEnv "640") "" "k" contentTypeText 0o640 ["v".toUTF8, "w".toUTF8]
      sampleWorld.sys := by
  have hwalk : Walkable (unprivilegedEnv "640") "" "k" sampleWorld.sys.tree := by
    unfold Walkable
    decide +kernel
  refine (mode_keeps_files (fun _ => rfl) rfl rfl (by decide) (by decide) hwalk ?_).2
    ⟨trivial, .inl (by decide)⟩
  have hdigest : ∀ a ∈ ["v".toUTF8, "w".toUTF8], ∀ b ∈ ["v".toUTF8, "w".toUTF8],
      sampleDigest a = sampleDigest b → a = b := by decide +kernel
  rintro a ha b (hb | hb) h
  · exact hdigest a ha b hb h
  · cases hb

/-- Mode `400`: the second write is denied. -/
theorem mode_freezes_file : u32FromOctal "400" = some 0o400 ∧
    ¬FollowsContents (unprivilegedEnv "400") "" "k" contentTypeText 0o400 ["v".toUTF8, "w".toUTF8]
      sampleWorld.sys := by
  refine ⟨by decide, ?_⟩
  rintro ⟨-, hsecond, -⟩
  revert hsecond
  decide +kernel

end Sidecar
