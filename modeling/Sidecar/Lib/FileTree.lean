import Mathlib
import Sidecar.Lib.Path

/-!
# A file tree and its system calls

A tree of directories and regular files without links. `FileTree` carries its well-formedness (the
root is a directory, every entry sits in one), so no operation can build an orphan. The calls take
path strings, walk them as the kernel does and return either a result or an error kind.

The last section states what each call can do in the two terms the users of this file reason in:
the bytes stored at a path (`fileAt`), and the directories, which no call removes (`DirsLe`).
-/

namespace Posix

/-- The kinds of I/O errors a call reports. -/
inductive ErrorKind
  | notFound
  | permissionDenied
  | alreadyExists
  | notADirectory
  | isADirectory
  | invalidData
  | other
  deriving DecidableEq

inductive Node
  | dir
  | file (data : ByteArray) (mode : UInt32)
  deriving DecidableEq

/-- What the calls need to know about the process. -/
structure Proc where
  cwd : Path
  /-- Runs as root: permission bits do not apply. -/
  privileged : Bool
  umask : UInt32

/-- A failure for a reason outside the tree (a full disk, a lost permission): the error it reports
and how far the call got before that. -/
structure Fault where
  kind : ErrorKind
  progress : Nat

structure FileTree where
  node : Path → Option Node
  root_dir : node [] = some .dir
  parent_dir : ∀ name p, (node (name :: p)).isSome → node p = some .dir

namespace FileTree

theorem ext_node {t t' : FileTree} (h : ∀ p, t.node p = t'.node p) : t = t' := by
  cases t
  cases t'
  obtain rfl := funext h
  rfl

theorem ne_of_dir {t : FileTree} {p q : Path} (hq : t.node q = some .dir)
    (hp : t.node p ≠ some .dir) : q ≠ p := by
  rintro rfl
  exact hp hq

/-- The tree with nothing but the root. -/
def empty : FileTree where
  node p := if p = [] then some .dir else none
  root_dir := rfl
  parent_dir := by simp

/-- A directory entry at `p` holding a file, if the parent is a directory and the entry is not one
itself. -/
def setFile (t : FileTree) (p : Path) (data : ByteArray) (mode : UInt32) : FileTree :=
  match p with
  | [] => t
  | name :: d =>
    if h : t.node d = some .dir ∧ t.node (name :: d) ≠ some .dir then
      { node := Function.update t.node (name :: d) (some (.file data mode))
        root_dir := by simp [t.root_dir]
        parent_dir := by
          intro c q hq
          by_cases hcq : c :: q = name :: d
          · obtain ⟨-, rfl⟩ := List.cons.inj hcq
            rw [Function.update_of_ne (ne_of_dir h.1 h.2)]
            exact h.1
          · rw [Function.update_of_ne hcq] at hq
            have hdir := t.parent_dir c q hq
            rw [Function.update_of_ne (ne_of_dir hdir h.2)]
            exact hdir }
    else t

/-- A new directory at `p`, if the parent is a directory and nothing is there. -/
def mkdir (t : FileTree) (p : Path) : FileTree :=
  match p with
  | [] => t
  | name :: d =>
    if h : t.node d = some .dir ∧ t.node (name :: d) = none then
      { node := Function.update t.node (name :: d) (some .dir)
        root_dir := by simp [t.root_dir]
        parent_dir := by
          intro c q hq
          by_cases hq' : q = name :: d
          · rw [hq', Function.update_self]
          · rw [Function.update_of_ne hq']
            by_cases hcq : c :: q = name :: d
            · obtain ⟨-, rfl⟩ := List.cons.inj hcq
              exact h.1
            · rw [Function.update_of_ne hcq] at hq
              exact t.parent_dir c q hq }
    else t

/-- The tree without the file at `p`; directories stay. -/
def unlink (t : FileTree) (p : Path) : FileTree :=
  if h : t.node p ≠ some .dir then
    { node := Function.update t.node p none
      root_dir := by
        rw [Function.update_of_ne (ne_of_dir t.root_dir h)]
        exact t.root_dir
      parent_dir := by
        intro c q hq
        have hcq : c :: q ≠ p := by
          rintro rfl
          simp at hq
        rw [Function.update_of_ne hcq] at hq
        have hdir := t.parent_dir c q hq
        rw [Function.update_of_ne (ne_of_dir hdir h)]
        exact hdir }
  else t

/-! ## Walking a path string -/

/-- Walk components from `p`; every place walked from must be a directory. -/
def resolveFrom (t : FileTree) : Path → List String → Except ErrorKind Path
  | p, [] => .ok p
  | p, c :: cs =>
    match t.node p with
    | some .dir => resolveFrom t (push p c) cs
    | some (.file ..) => .error .notADirectory
    | none => .error .notFound

def resolve (t : FileTree) (pr : Proc) (s : String) : Except ErrorKind Path :=
  if s = "" then .error .notFound else resolveFrom t (base pr.cwd s) (components s)

/-! ## System calls -/

/-- `stat`: what the path string names, if anything. -/
def stat (t : FileTree) (pr : Proc) (s : String) : Option Node :=
  match t.resolve pr s with
  | .ok p => t.node p
  | .error _ => none

/-- Create the directories along the components, outermost first. The parents of a path that ends
in `.` do not include the directory before the `.`, and `mkdir` does not find it. -/
def makeDirs (t : FileTree) : Path → List String → Except ErrorKind Unit × FileTree
  | _, [] => (.ok (), t)
  | p, c :: cs =>
    match t.node (push p c) with
    | some .dir => makeDirs t (push p c) cs
    | some (.file ..) =>
      (.error (if ∀ c ∈ cs, c = "" then .alreadyExists else .notADirectory), t)
    | none =>
      if Dots cs then (.error .notFound, t)
      else makeDirs (t.mkdir (push p c)) (push p c) cs

/-- `create_dir_all`; the empty path succeeds without doing anything. -/
def createDirAll (t : FileTree) (pr : Proc) (s : String) : Except ErrorKind Unit × FileTree :=
  if s = "" then (.ok (), t) else t.makeDirs (base pr.cwd s) (components s)

/-- Whether the owner bit `bit` of `mode` lets this process through. -/
def allowed (pr : Proc) (mode bit : UInt32) : Bool := pr.privileged || mode &&& bit != 0

def readFile (t : FileTree) (pr : Proc) (s : String) : Except ErrorKind ByteArray :=
  match t.resolve pr s with
  | .error e => .error e
  | .ok p =>
    match t.node p with
    | some (.file data mode) =>
      if allowed pr mode 0o400 then .ok data else .error .permissionDenied
    | some .dir => .error .isADirectory
    | none => .error .notFound

/-- Open for writing, truncate (or create with the default mode) and write. -/
def writeFile (t : FileTree) (pr : Proc) (s : String) (data : ByteArray) :
    Except ErrorKind Unit × FileTree :=
  match t.resolve pr s with
  | .error e => (.error e, t)
  | .ok p =>
    match t.node p with
    | some (.file _ mode) =>
      if allowed pr mode 0o200 then (.ok (), t.setFile p data mode)
      else (.error .permissionDenied, t)
    | some .dir => (.error .isADirectory, t)
    | none => (.ok (), t.setFile p data (0o666 &&& ~~~pr.umask))

/-- `chmod` by the owner: the bits that are no permission bits are dropped. -/
def setPermissions (t : FileTree) (pr : Proc) (s : String) (mode : UInt32) :
    Except ErrorKind Unit × FileTree :=
  match t.resolve pr s with
  | .error e => (.error e, t)
  | .ok p =>
    match t.node p with
    | some (.file data _) => (.ok (), t.setFile p data (mode &&& 0o7777))
    | some .dir => (.ok (), t)
    | none => (.error .notFound, t)

def removeFile (t : FileTree) (pr : Proc) (s : String) : Except ErrorKind Unit × FileTree :=
  match t.resolve pr s with
  | .error e => (.error e, t)
  | .ok p =>
    match t.node p with
    | some (.file ..) => (.ok (), t.unlink p)
    | some .dir => (.error .isADirectory, t)
    | none => (.error .notFound, t)

/-! ## Faults -/

/-- A `write` that fails: not opened at progress 0, otherwise truncated and cut off. -/
def writeFault (t : FileTree) (pr : Proc) (s : String) (data : ByteArray) (f : Fault) : FileTree :=
  match f.progress with
  | 0 => t
  | n + 1 => (t.writeFile pr s (data.extract 0 n)).2

/-- A `create_dir_all` that fails after the first components. -/
def createDirAllFault (t : FileTree) (pr : Proc) (s : String) (f : Fault) : FileTree :=
  (t.makeDirs (base pr.cwd s) ((components s).take f.progress)).2

/-! ## What the calls can do -/

/-- There is a regular file at `p`. -/
def IsFile (t : FileTree) (p : Path) : Prop := ∃ data mode, t.node p = some (.file data mode)

/-- The bytes of the regular file at `p`. -/
def fileAt (t : FileTree) (p : Path) : Option ByteArray :=
  match t.node p with
  | some (.file data _) => some data
  | _ => none

/-- Every directory of `t` is one of `t'`. -/
def DirsLe (t t' : FileTree) : Prop := ∀ p, t.node p = some .dir → t'.node p = some .dir

theorem DirsLe.refl (t : FileTree) : DirsLe t t := fun _ h => h

theorem DirsLe.trans {t t' t'' : FileTree} (h : DirsLe t t') (h' : DirsLe t' t'') : DirsLe t t'' :=
  fun p hp => h' p (h p hp)

/-- From `t` to `t'` no file but the one at `p` changed, and no directory went away. -/
structure OnlyAt (p : Path) (t t' : FileTree) : Prop where
  files : ∀ q, q ≠ p → t'.fileAt q = t.fileAt q
  dirs : DirsLe t t'

/-- From `t` to `t'` no file changed, and no directory went away. -/
structure SameFiles (t t' : FileTree) : Prop where
  files : ∀ q, t'.fileAt q = t.fileAt q
  dirs : DirsLe t t'

theorem SameFiles.refl (t : FileTree) : SameFiles t t := ⟨fun _ => rfl, .refl t⟩

theorem SameFiles.trans {t t' t'' : FileTree} (h : SameFiles t t') (h' : SameFiles t' t'') :
    SameFiles t t'' :=
  ⟨fun q => (h'.files q).trans (h.files q), h.dirs.trans h'.dirs⟩

theorem SameFiles.onlyAt {t t' : FileTree} (h : SameFiles t t') (p : Path) : OnlyAt p t t' :=
  ⟨fun q _ => h.files q, h.dirs⟩

theorem OnlyAt.refl (p : Path) (t : FileTree) : OnlyAt p t t := (SameFiles.refl t).onlyAt p

theorem fileAt_congr {t t' : FileTree} {p : Path} (h : t'.node p = t.node p) :
    t'.fileAt p = t.fileAt p := by
  unfold fileAt
  rw [h]

theorem fileAt_of_node {t : FileTree} {p : Path} {data : ByteArray} {mode : UInt32}
    (h : t.node p = some (.file data mode)) : t.fileAt p = some data := by
  unfold fileAt
  rw [h]

theorem node_of_fileAt {t : FileTree} {p : Path} {data : ByteArray} (h : t.fileAt p = some data) :
    ∃ mode, t.node p = some (.file data mode) := by
  unfold fileAt at h
  split at h
  · next d mode hn => exact ⟨mode, by rw [hn, Option.some.inj h]⟩
  · cases h

/-- Where a file may be put: the entry is not a directory and its parent is one. -/
def Open (t : FileTree) (p : Path) : Prop :=
  ∃ name d, p = name :: d ∧ t.node d = some .dir ∧ t.node p ≠ some .dir

theorem Open.ne_dir {t : FileTree} {p : Path} (h : t.Open p) : t.node p ≠ some .dir := by
  obtain ⟨-, -, -, -, hn⟩ := h
  exact hn

theorem open_of_file {t : FileTree} {p : Path} {data : ByteArray} {mode : UInt32}
    (h : t.node p = some (.file data mode)) : t.Open p := by
  cases p with
  | nil => rw [t.root_dir] at h; cases h
  | cons name d => exact ⟨name, d, rfl, t.parent_dir name d (by simp [h]), by simp [h]⟩

theorem node_setFile {t : FileTree} {p : Path} (h : t.Open p) (data : ByteArray) (mode : UInt32)
    (q : Path) :
    (t.setFile p data mode).node q = if q = p then some (.file data mode) else t.node q := by
  obtain ⟨name, d, rfl, hd, hn⟩ := h
  unfold setFile
  simp only [hd, ne_eq, hn, not_false_eq_true, and_self, ↓reduceDIte]
  by_cases hq : q = name :: d
  · rw [hq, Function.update_self, if_pos rfl]
  · rw [Function.update_of_ne hq, if_neg hq]

theorem fileAt_setFile_self {t : FileTree} {p : Path} (h : t.Open p) (data : ByteArray)
    (mode : UInt32) : (t.setFile p data mode).fileAt p = some data :=
  fileAt_of_node (by rw [node_setFile h, if_pos rfl])

theorem onlyAt_setFile {t : FileTree} {p : Path} (h : t.Open p) (data : ByteArray)
    (mode : UInt32) : OnlyAt p t (t.setFile p data mode) := by
  refine ⟨fun q hq => fileAt_congr (by rw [node_setFile h, if_neg hq]), fun q hq => ?_⟩
  obtain ⟨name, d, rfl, hd, hn⟩ := h
  rw [node_setFile ⟨name, d, rfl, hd, hn⟩, if_neg (ne_of_dir hq hn)]
  exact hq

theorem sameFiles_mkdir (t : FileTree) (p : Path) : SameFiles t (t.mkdir p) := by
  cases p with
  | nil => exact .refl t
  | cons name d =>
    unfold mkdir
    dsimp only
    split
    · next h =>
      refine ⟨fun q => ?_, fun q hq => ?_⟩ <;> by_cases hqp : q = name :: d
      · subst hqp
        simp [fileAt, h.2]
      · exact fileAt_congr (Function.update_of_ne hqp ..)
      · subst hqp
        simp
      · simpa [Function.update_of_ne hqp] using hq
    · exact .refl t

theorem fileAt_unlink_self {t : FileTree} {p : Path} (h : t.node p ≠ some .dir) :
    (t.unlink p).fileAt p = none := by
  unfold unlink fileAt
  simp [h]

theorem node_unlink {t : FileTree} {p : Path} (h : t.node p ≠ some .dir) (q : Path) :
    (t.unlink p).node q = if q = p then none else t.node q := by
  unfold unlink
  rw [dif_pos h]
  by_cases hq : q = p
  · rw [if_pos hq, hq]
    exact Function.update_self ..
  · rw [if_neg hq]
    exact Function.update_of_ne hq ..

theorem onlyAt_unlink (t : FileTree) (p : Path) : OnlyAt p t (t.unlink p) := by
  unfold unlink
  split
  · next h =>
    refine ⟨fun q hq => fileAt_congr (Function.update_of_ne hq ..), fun q hq => ?_⟩
    simpa [Function.update_of_ne (ne_of_dir hq h)] using hq
  · exact .refl p t

/-! ### Walks -/

theorem resolveFrom_eq {t : FileTree} {cs : List String} {p q : Path}
    (h : t.resolveFrom p cs = .ok q) : q = cs.foldl push p := by
  induction cs generalizing p with
  | nil => cases h; rfl
  | cons c cs ih =>
    unfold resolveFrom at h
    split at h
    · exact ih h
    · cases h
    · cases h

/-- A walk that succeeds ends at the canonical place of its string. -/
theorem resolve_eq {t : FileTree} {pr : Proc} {s : String} {p : Path}
    (h : t.resolve pr s = .ok p) : p = canon pr.cwd s := by
  unfold resolve at h
  split at h
  · cases h
  · exact resolveFrom_eq h

theorem resolveFrom_mono {t t' : FileTree} (ht : DirsLe t t') {cs : List String} {p q : Path}
    (h : t.resolveFrom p cs = .ok q) : t'.resolveFrom p cs = .ok q := by
  induction cs generalizing p with
  | nil => exact h
  | cons c cs ih =>
    unfold resolveFrom at h ⊢
    split at h
    · next hp => rw [ht p hp]; exact ih h
    · cases h
    · cases h

/-- A walk that succeeds keeps succeeding when directories are only added. -/
theorem resolve_mono {t t' : FileTree} (ht : DirsLe t t') {pr : Proc} {s : String} {p : Path}
    (h : t.resolve pr s = .ok p) : t'.resolve pr s = .ok p := by
  unfold resolve at h ⊢
  split at h
  · cases h
  · next hs => rw [if_neg hs]; exact resolveFrom_mono ht h

/-- Dropping a component of a directory leaves a directory. -/
theorem tail_dir {t : FileTree} {p : Path} (h : t.node p = some .dir) :
    t.node p.tail = some .dir := by
  cases p with
  | nil => exact h
  | cons c p => exact t.parent_dir c p (by simp [h])

theorem resolveFrom_parent {t : FileTree} {cs : List String} {p q : Path} (hcs : cs ≠ [])
    (h : t.resolveFrom p cs = .ok q) :
    t.node q = some .dir ∨ ∃ name d, q = name :: d ∧ t.node d = some .dir := by
  induction cs generalizing p with
  | nil => exact absurd rfl hcs
  | cons c cs ih =>
    unfold resolveFrom at h
    split at h
    · next hp =>
      cases cs with
      | nil =>
        cases h
        unfold push
        split
        · exact .inl hp
        · split
          · exact .inl (tail_dir hp)
          · exact .inr ⟨c, p, rfl, hp⟩
      | cons c' cs => exact ih (by simp) h
    · cases h
    · cases h

/-- The last component of a walk is looked up in a directory. -/
theorem dir_of_resolveFrom {t : FileTree} {cs : List String} {c : String} {p q : Path}
    (h : t.resolveFrom p (cs ++ [c]) = .ok q) : t.node (cs.foldl push p) = some .dir := by
  induction cs generalizing p with
  | nil =>
    rw [List.nil_append] at h
    unfold resolveFrom at h
    split at h
    · assumption
    · cases h
    · cases h
  | cons c' cs ih =>
    rw [List.cons_append] at h
    unfold resolveFrom at h
    split at h
    · exact ih h
    · cases h
    · cases h

theorem folder_of_resolve {t : FileTree} {pr : Proc} {folder name : String} {p : Path}
    (hname : '/' ∉ name.toList) (h : t.resolve pr (join folder name) = .ok p) :
    t.node (canon pr.cwd folder) = some .dir := by
  obtain ⟨cs, hcs, hfold, hbase, -, -⟩ := components_join pr.cwd folder hname
  unfold resolve at h
  split at h
  · cases h
  · rw [hcs, hbase] at h
    rw [← hfold]
    exact dir_of_resolveFrom h

theorem resolveFrom_append {t : FileTree} {cs rest : List String} {p q : Path}
    (h : t.resolveFrom p cs = .ok q) : t.resolveFrom p (cs ++ rest) = t.resolveFrom q rest := by
  induction cs generalizing p with
  | nil =>
    cases h
    rfl
  | cons c cs ih =>
    rw [List.cons_append]
    unfold resolveFrom at h
    conv_lhs => unfold resolveFrom
    split at h
    · exact ih h
    · cases h
    · cases h

/-- Where a walk goes on, it can be broken off. -/
theorem resolveFrom_of_append {t : FileTree} {cs : List String} {c : String} {p q : Path}
    (h : t.resolveFrom p (cs ++ [c]) = .ok q) : t.resolveFrom p cs = .ok (cs.foldl push p) := by
  induction cs generalizing p with
  | nil => rfl
  | cons c' cs ih =>
    rw [List.cons_append] at h
    unfold resolveFrom at h ⊢
    split at h
    · exact ih h
    · cases h
    · cases h

/-- The folder of a place that can be walked to can be walked to. -/
theorem stat_of_walk {t : FileTree} {pr : Proc} {folder name : String} {p : Path}
    (hfolder : folder ≠ "")
    (hname : '/' ∉ name.toList) (h : t.resolve pr (join folder name) = .ok p) :
    t.stat pr folder = some .dir := by
  have hdir := folder_of_resolve hname h
  obtain ⟨cs, hcs, hfold, hbase, -, hparts⟩ := components_join pr.cwd folder hname
  have hwalk : t.resolve pr folder = .ok (canon pr.cwd folder) := by
    unfold resolve at h ⊢
    rw [if_neg hfolder]
    split at h
    · cases h
    · rw [hcs, hbase] at h
      have hcut := resolveFrom_of_append h
      rcases hparts hfolder with hall | hall
      · rw [hall, hcut, hfold]
      · -- the folder ends in a slash
        rw [hall, resolveFrom_append hcut, hfold]
        unfold resolveFrom
        rw [hdir]
        unfold resolveFrom
        simp [push]
  unfold stat
  rw [hwalk]
  exact hdir

/-- A file that can be walked to has a plain name: the others name directories. -/
theorem plainName_of_file {t : FileTree} {pr : Proc} {folder name : String} {p : Path}
    (hname : '/' ∉ name.toList) (h : t.resolve pr (join folder name) = .ok p)
    (hf : t.node (canon pr.cwd (join folder name)) ≠ some .dir) : PlainName name := by
  have hdir := folder_of_resolve hname h
  rw [canon_join_push pr.cwd folder hname] at hf
  refine ⟨hname, ?_, ?_, ?_⟩
  · rintro rfl
    exact hf (by simpa [push] using hdir)
  · rintro rfl
    exact hf (by simpa [push] using hdir)
  · rintro rfl
    exact hf (by simpa [push] using tail_dir hdir)

/-- What a directory lies in is a directory. -/
theorem dir_of_suffix {t : FileTree} {p q : Path} (hq : t.node q = some .dir) (h : p <:+ q) :
    t.node p = some .dir := by
  obtain ⟨l, rfl⟩ := h
  induction l with
  | nil => exact hq
  | cons c l ih => exact ih (tail_dir hq)

/-- A walk without steps back that ends at a directory goes through directories. -/
theorem resolveFrom_of_dir {t : FileTree} {cs : List String} {p : Path} (h : ".." ∉ cs)
    (hd : t.node (cs.foldl push p) = some .dir) (rest : List String) :
    t.resolveFrom p (cs ++ rest) = t.resolveFrom (cs.foldl push p) rest := by
  induction cs generalizing p with
  | nil => rfl
  | cons c cs ih =>
    have hp : t.node p = some .dir := dir_of_suffix hd (suffix_foldl_push h p)
    rw [List.mem_cons, not_or] at h
    rw [List.cons_append]
    conv_lhs => unfold resolveFrom
    rw [hp]
    exact ih h.2 hd

/-- A plain name in a directory can be walked to, if the directory's path string has no step
back. -/
theorem resolve_of_dir {t : FileTree} {pr : Proc} {folder name : String} (hs : Straight folder)
    (hn : PlainName name) (hd : t.node (canon pr.cwd folder) = some .dir) :
    t.resolve pr (join folder name) = .ok (canon pr.cwd (join folder name)) := by
  obtain ⟨cs, hcs, hfold, hbase, hmem, -⟩ := components_join pr.cwd folder hn.slash
  have hback : ".." ∉ cs := fun h => hs (hmem _ h)
  have hne : join folder name ≠ "" := by
    intro h
    have hparts : components "" = cs ++ [name] := by rw [← h, hcs]
    have hlast := congrArg List.getLast? hparts
    simp [components, hn.nonempty.symm] at hlast
  unfold resolve
  rw [if_neg hne, hcs, hbase]
  rw [← hfold] at hd
  rw [resolveFrom_of_dir hback hd, canon_join _ _ hn, ← hfold]
  unfold resolveFrom
  rw [hd]
  unfold resolveFrom
  rw [push_plain hn]

/-- **A file is walked to** by a path string without steps back. -/
theorem resolve_of_file {t : FileTree} {pr : Proc} {folder name : String} (hs : Straight folder)
    (hn : PlainName name) (hf : t.fileAt (canon pr.cwd (join folder name)) ≠ none) :
    t.resolve pr (join folder name) = .ok (canon pr.cwd (join folder name)) := by
  refine resolve_of_dir hs hn ?_
  rw [canon_join _ _ hn] at hf
  obtain ⟨data, hdata⟩ := Option.ne_none_iff_exists'.1 hf
  obtain ⟨mode, hnode⟩ := node_of_fileAt hdata
  exact t.parent_dir name _ (by rw [hnode]; rfl)

/-- A file may be put wherever a walk ends and no directory is. -/
theorem open_of_resolve {t : FileTree} {pr : Proc} {s : String} {p : Path}
    (h : t.resolve pr s = .ok p) (hn : t.node p ≠ some .dir) : t.Open p := by
  unfold resolve at h
  split at h
  · cases h
  · rcases resolveFrom_parent (by simp [components]) h with hd | ⟨name, d, rfl, hd⟩
    · exact absurd hd hn
    · exact ⟨name, d, rfl, hd, hn⟩

/-! ### The calls -/

theorem sameFiles_makeDirs {t : FileTree} {p : Path} (cs : List String) :
    SameFiles t (t.makeDirs p cs).2 := by
  induction cs generalizing t p with
  | nil => exact .refl t
  | cons c cs ih =>
    unfold makeDirs
    split
    · exact ih
    · exact .refl t
    · split
      · exact .refl t
      · exact (sameFiles_mkdir t _).trans ih

/-- `create_dir_all` changes no file. -/
theorem sameFiles_createDirAll (t : FileTree) (pr : Proc) (s : String) :
    SameFiles t (t.createDirAll pr s).2 := by
  unfold createDirAll
  split
  · exact .refl t
  · exact sameFiles_makeDirs _

theorem sameFiles_createDirAllFault (t : FileTree) (pr : Proc) (s : String) (f : Fault) :
    SameFiles t (t.createDirAllFault pr s f) := sameFiles_makeDirs _

theorem writeFile_cases (t : FileTree) (pr : Proc) (s : String) (data : ByteArray) :
    (∃ e, t.writeFile pr s data = (.error e, t)) ∨
      ∃ mode, t.writeFile pr s data = (.ok (), t.setFile (canon pr.cwd s) data mode) ∧
        t.Open (canon pr.cwd s) ∧ t.resolve pr s = .ok (canon pr.cwd s) := by
  unfold writeFile
  cases hr : t.resolve pr s with
  | error e => exact .inl ⟨e, rfl⟩
  | ok p =>
    obtain rfl := resolve_eq hr
    cases hn : t.node (canon pr.cwd s) with
    | none =>
      exact .inr ⟨0o666 &&& ~~~pr.umask, by simp [hn], open_of_resolve hr (by simp [hn]), rfl⟩
    | some n =>
      cases n with
      | dir => exact .inl ⟨.isADirectory, by simp [hn]⟩
      | file d mode =>
        by_cases ha : allowed pr mode 0o200 = true
        · exact .inr ⟨mode, by simp [hn, ha], open_of_file hn, rfl⟩
        · exact .inl ⟨.permissionDenied, by simp [hn, ha]⟩

/-- `write` changes no other file. -/
theorem onlyAt_writeFile (t : FileTree) (pr : Proc) (s : String) (data : ByteArray) :
    OnlyAt (canon pr.cwd s) t (t.writeFile pr s data).2 := by
  obtain ⟨e, h⟩ | ⟨mode, h, hopen, -⟩ := writeFile_cases t pr s data
  · rw [h]; exact .refl _ t
  · rw [h]; exact onlyAt_setFile hopen data mode

theorem onlyAt_writeFault (t : FileTree) (pr : Proc) (s : String) (data : ByteArray) (f : Fault) :
    OnlyAt (canon pr.cwd s) t (t.writeFault pr s data f) := by
  unfold writeFault
  split
  · exact .refl _ t
  · exact onlyAt_writeFile ..

/-- A `write` that succeeds leaves the file with the data, at a place that can be walked to. -/
theorem writeFile_ok {t : FileTree} {pr : Proc} {s : String} {data : ByteArray}
    (h : (t.writeFile pr s data).1 = .ok ()) :
    t.resolve pr s = .ok (canon pr.cwd s) ∧
      (t.writeFile pr s data).2.fileAt (canon pr.cwd s) = some data := by
  obtain ⟨e, he⟩ | ⟨mode, he, hopen, hr⟩ := writeFile_cases t pr s data
  · rw [he] at h; cases h
  · rw [he]
    exact ⟨hr, fileAt_setFile_self hopen data mode⟩

theorem setPermissions_cases (t : FileTree) (pr : Proc) (s : String) (mode : UInt32) :
    (t.setPermissions pr s mode).2 = t ∨
      ∃ data old, t.resolve pr s = .ok (canon pr.cwd s) ∧
      t.node (canon pr.cwd s) = some (.file data old) ∧
        (t.setPermissions pr s mode).2 = t.setFile (canon pr.cwd s) data (mode &&& 0o7777) := by
  unfold setPermissions
  cases hr : t.resolve pr s with
  | error e => exact .inl rfl
  | ok p =>
    obtain rfl := resolve_eq hr
    cases hn : t.node (canon pr.cwd s) with
    | none => exact .inl (by simp [hn])
    | some n =>
      cases n with
      | dir => exact .inl (by simp [hn])
      | file d old => exact .inr ⟨d, old, rfl, rfl, by simp [hn]⟩

/-- `chmod` changes no file's bytes. -/
theorem sameFiles_setPermissions (t : FileTree) (pr : Proc) (s : String) (mode : UInt32) :
    SameFiles t (t.setPermissions pr s mode).2 := by
  obtain h | ⟨data, old, -, hn, h⟩ := setPermissions_cases t pr s mode
  · rw [h]; exact .refl t
  · rw [h]
    have hopen := open_of_file hn
    have honly := onlyAt_setFile hopen data (mode &&& 0o7777)
    refine ⟨fun q => ?_, honly.dirs⟩
    by_cases hq : q = canon pr.cwd s
    · rw [hq, fileAt_setFile_self hopen, fileAt_of_node hn]
    · exact honly.files q hq

theorem onlyAt_removeFile (t : FileTree) (pr : Proc) (s : String) :
    OnlyAt (canon pr.cwd s) t (t.removeFile pr s).2 := by
  unfold removeFile
  cases hr : t.resolve pr s with
  | error e => exact .refl _ t
  | ok p =>
    obtain rfl := resolve_eq hr
    cases hn : t.node (canon pr.cwd s) with
    | none => simp only [hn]; exact .refl _ t
    | some n =>
      cases n with
      | dir => simp only [hn]; exact .refl _ t
      | file d mode => simp only [hn]; exact onlyAt_unlink t _

/-- A file that is walked to is unlinked. -/
theorem removeFile_of_walk {t : FileTree} {pr : Proc} {s : String} {p : Path}
    (hr : t.resolve pr s = .ok p) (hp : t.IsFile p) : t.removeFile pr s = (.ok (), t.unlink p) := by
  obtain ⟨data, mode, hn⟩ := hp
  unfold removeFile
  rw [hr]
  dsimp only
  rw [hn]

/-- Removing a file that `stat` sees succeeds and leaves none. -/
theorem removeFile_of_stat {t : FileTree} {pr : Proc} {s : String} {data : ByteArray}
    {mode : UInt32} (h : t.stat pr s = some (.file data mode)) :
    (t.removeFile pr s).1 = .ok () ∧ (t.removeFile pr s).2.fileAt (canon pr.cwd s) = none := by
  unfold stat at h
  unfold removeFile
  cases hr : t.resolve pr s with
  | error e => rw [hr] at h; cases h
  | ok p =>
    rw [hr] at h
    obtain rfl := resolve_eq hr
    dsimp only at h ⊢
    rw [h]
    exact ⟨rfl, fileAt_unlink_self (by simp [h])⟩

/-- `unlink` succeeds on a file only, and leaves none. -/
theorem removeFile_of_ok {t : FileTree} {pr : Proc} {s : String}
    (h : (t.removeFile pr s).1 = .ok ()) :
    (t.removeFile pr s).2.fileAt (canon pr.cwd s) = none ∧
      ∃ data, t.fileAt (canon pr.cwd s) = some data := by
  unfold removeFile at h ⊢
  cases hr : t.resolve pr s with
  | error e => rw [hr] at h; cases h
  | ok p =>
    obtain rfl := resolve_eq hr
    rw [hr] at h
    dsimp only at h ⊢
    split at h
    · next d mode hn => exact ⟨fileAt_unlink_self (by simp [hn]), d, fileAt_of_node hn⟩
    · cases h
    · cases h

theorem removeFile_of_error {t : FileTree} {pr : Proc} {s : String} {e : ErrorKind}
    (h : (t.removeFile pr s).1 = .error e) : (t.removeFile pr s).2 = t := by
  unfold removeFile at h ⊢
  cases hr : t.resolve pr s with
  | error e' => rfl
  | ok p =>
    rw [hr] at h
    dsimp only at h ⊢
    split at h
    · cases h
    · rfl
    · rfl

/-- `write` leaves a file as it is, or with the data. -/
theorem fileAt_writeFile (t : FileTree) (pr : Proc) (s : String) (data : ByteArray) (p : Path) :
    (t.writeFile pr s data).2.fileAt p = t.fileAt p ∨ (t.writeFile pr s data).2.fileAt p =
      some data := by
  obtain ⟨e, he⟩ | ⟨mode, he, hopen, -⟩ := writeFile_cases t pr s data
  · exact .inl (by rw [he])
  · rw [he]
    by_cases hp : p = canon pr.cwd s
    · exact .inr (by rw [hp, fileAt_setFile_self hopen])
    · exact .inl ((onlyAt_setFile hopen data mode).files p hp)

/-- A `write` that fails leaves a file as it is, or with a beginning of the data. -/
theorem fileAt_writeFault (t : FileTree) (pr : Proc) (s : String) (data : ByteArray) (f : Fault)
    (p : Path) : (t.writeFault pr s data f).fileAt p = t.fileAt p ∨
      ∃ n, (t.writeFault pr s data f).fileAt p = some (data.extract 0 n) := by
  unfold writeFault
  split
  · exact .inl rfl
  · next n _ => exact (fileAt_writeFile t pr s _ p).imp_right fun h => ⟨n, h⟩

/-- `write` takes no file away. -/
theorem fileAt_writeFile_ne_none (t : FileTree) (pr : Proc) (s : String)
    (data : ByteArray) {p : Path}
    (h : t.fileAt p ≠ none) : (t.writeFile pr s data).2.fileAt p ≠ none := by
  rcases fileAt_writeFile t pr s data p with hsame | hdata
  · rwa [hsame]
  · rw [hdata]
    exact Option.some_ne_none data

theorem fileAt_writeFault_ne_none (t : FileTree) (pr : Proc) (s : String)
    (data : ByteArray) (f : Fault)
    {p : Path} (h : t.fileAt p ≠ none) : (t.writeFault pr s data f).fileAt p ≠ none := by
  unfold writeFault
  split
  · exact h
  · exact fileAt_writeFile_ne_none t pr s _ h

/-- `unlink` leaves a file as it is, or none. -/
theorem fileAt_removeFile (t : FileTree) (pr : Proc) (s : String) (p : Path) :
    (t.removeFile pr s).2.fileAt p = t.fileAt p ∨ (t.removeFile pr s).2.fileAt p = none := by
  cases h : (t.removeFile pr s).1 with
  | error e =>
    rw [removeFile_of_error h]
    exact .inl rfl
  | ok _ =>
    by_cases hp : p = canon pr.cwd s
    · rw [hp]
      exact .inr (removeFile_of_ok h).1
    · exact .inl ((onlyAt_removeFile t pr s).files p hp)

/-- `read` returns the bytes stored at the path. -/
theorem readFile_ok {t : FileTree} {pr : Proc} {s : String} {data : ByteArray}
    (h : t.readFile pr s = .ok data) :
    t.resolve pr s = .ok (canon pr.cwd s) ∧ t.fileAt (canon pr.cwd s) = some data := by
  unfold readFile at h
  cases hr : t.resolve pr s with
  | error e => rw [hr] at h; cases h
  | ok p =>
    obtain rfl := resolve_eq hr
    rw [hr] at h
    dsimp only at h
    split at h
    · next d mode hn =>
      split at h
      · cases h; exact ⟨rfl, fileAt_of_node hn⟩
      · cases h
    · cases h
    · cases h

/-- `stat` sees the file at a place that can be walked to. -/
theorem stat_eq_node {t : FileTree} {pr : Proc} {s : String} {p : Path}
    (h : t.resolve pr s = .ok p) : t.stat pr s = t.node (canon pr.cwd s) := by
  unfold stat
  rw [h, ← resolve_eq h]

/-! ### Folders

`create_dir_all` of a path string without steps back: it only puts directories along the folder, and
it succeeds unless a file is in the way. -/

theorem not_isFile_of_dir {t : FileTree} {p : Path} (h : t.node p = some .dir) : ¬t.IsFile p := by
  rintro ⟨data, mode, hf⟩
  rw [h] at hf
  cases hf

theorem not_isFile_of_none {t : FileTree} {p : Path} (h : t.node p = none) : ¬t.IsFile p := by
  rintro ⟨data, mode, hf⟩
  rw [h] at hf
  cases hf

theorem fileAt_ne_none_iff {t : FileTree} {p : Path} : t.fileAt p ≠ none ↔ t.IsFile p := by
  constructor
  · intro h
    obtain ⟨data, hdata⟩ := Option.ne_none_iff_exists'.1 h
    obtain ⟨mode, hnode⟩ := node_of_fileAt hdata
    exact ⟨data, mode, hnode⟩
  · rintro ⟨data, mode, hnode⟩
    rw [fileAt_of_node hnode]
    exact Option.some_ne_none data

/-- From `t` to `t'` only files at `files` change, and there are new directories at `dirs` only. -/
structure Confined (files dirs : Path → Prop) (t t' : FileTree) : Prop where
  keeps : DirsLe t t'
  file : ∀ q, t.IsFile q ∨ t'.IsFile q → t'.node q ≠ t.node q → files q
  dir : ∀ q, t'.node q = some .dir → t.node q ≠ some .dir → dirs q

section Confined

variable {files dirs : Path → Prop}

variable (files dirs) in
theorem Confined.refl (t : FileTree) : Confined files dirs t t :=
  ⟨.refl t, fun _ _ h => absurd rfl h, fun _ h h' => absurd h h'⟩

theorem Confined.trans {t t' t'' : FileTree} (h : Confined files dirs t t')
    (h' : Confined files dirs t' t'') : Confined files dirs t t'' := by
  refine ⟨h.keeps.trans h'.keeps, fun q hq hne => ?_, fun q hdir hnot => ?_⟩
  · by_cases hfirst : t'.node q = t.node q
    · refine h'.file q (hq.imp_left ?_) (hfirst ▸ hne)
      rintro ⟨data, mode, hn⟩
      exact ⟨data, mode, hfirst.trans hn⟩
    · by_cases hsecond : t''.node q = t'.node q
      · refine h.file q (hq.imp_right ?_) hfirst
        rintro ⟨data, mode, hn⟩
        exact ⟨data, mode, hsecond.symm.trans hn⟩
      · rcases hq with hq | hq
        · exact h.file q (.inl hq) hfirst
        · exact h'.file q (.inr hq) hsecond
  · by_cases hmid : t'.node q = some .dir
    · exact h.dir q hmid hnot
    · exact h'.dir q hdir hmid

theorem Confined.mono {files' dirs' : Path → Prop} {t t' : FileTree} (h : Confined files dirs t t')
    (hfiles : ∀ q, files q → files' q) (hdirs : ∀ q, dirs q → dirs' q) :
    Confined files' dirs' t t' :=
  ⟨h.keeps, fun q hq hne => hfiles q (h.file q hq hne), fun q hd hn => hdirs q (h.dir q hd hn)⟩

/-- No other file comes or goes. -/
theorem Confined.isFile_iff {t t' : FileTree} (h : Confined files dirs t t') {q : Path}
    (hq : ¬files q) :
    t'.IsFile q ↔ t.IsFile q := by
  by_cases hsame : t'.node q = t.node q
  · unfold IsFile
    rw [hsame]
  · exact iff_of_false (fun hf => hq (h.file q (.inr hf) hsame)) fun hf =>
      hq (h.file q (.inl hf) hsame)

/-- No other entry changes at all. -/
theorem Confined.node_eq {t t' : FileTree} (h : Confined files dirs t t') {q : Path} (hf : ¬files q)
    (hd : ¬dirs q) : t'.node q = t.node q := by
  by_contra hne
  have hold : ¬t.IsFile q := fun hq => hf (h.file q (.inl hq) hne)
  have hnew : ¬t'.IsFile q := fun hq => hf (h.file q (.inr hq) hne)
  cases hn : t.node q with
  | some n =>
    cases n with
    | dir => exact hne ((h.keeps q hn).trans hn.symm)
    | file data mode => exact hold ⟨data, mode, hn⟩
  | none =>
    cases hn' : t'.node q with
    | none => exact hne (hn'.trans hn.symm)
    | some n =>
      cases n with
      | dir => exact hd (h.dir q hn' (by simp [hn]))
      | file data mode => exact hnew ⟨data, mode, hn'⟩

/-- Only the entry at `p` changes, and it is no directory. -/
theorem confined_entry {t t' : FileTree} {p : Path} (hp : t.node p ≠ some .dir)
    (hp' : t'.node p ≠ some .dir) (hother : ∀ q, q ≠ p → t'.node q = t.node q) (hfiles : files p) :
    Confined files dirs t t' := by
  have hsame : ∀ q, t.node q = some .dir ∨ t'.node q = some .dir → t'.node q = t.node q := by
    rintro q (hq | hq)
    · exact hother q (ne_of_dir hq hp)
    · exact hother q (ne_of_dir hq hp')
  refine ⟨fun q hq => (hsame q (.inl hq)).trans hq, fun q _ hne => ?_, fun q hq hnot => ?_⟩
  · by_cases hqp : q = p
    · exact hqp ▸ hfiles
    · exact absurd (hother q hqp) hne
  · exact absurd ((hsame q (.inr hq)).symm.trans hq) hnot

theorem confined_mkdir (t : FileTree) {p : Path} (hp : dirs p) :
    Confined files dirs t (t.mkdir p) := by
  cases p with
  | nil => exact .refl files dirs t
  | cons name parent =>
    unfold mkdir
    dsimp only
    split
    · next h =>
      have hother : ∀ q, q ≠ name :: parent →
          Function.update t.node (name :: parent) (some Node.dir) q = t.node q := fun q hq =>
        Function.update_of_ne hq ..
      have hself :
          Function.update t.node (name :: parent) (some Node.dir) (name :: parent) = some .dir :=
        Function.update_self ..
      refine ⟨fun q hq => ?_, fun q hq hne => ?_, fun q _ hnot => ?_⟩
      · exact (hother q (ne_of_dir hq (by simp [h.2]))).trans hq
      · exfalso
        by_cases hqp : q = name :: parent
        · subst hqp
          rcases hq with ⟨data, mode, hn⟩ | ⟨data, mode, hn⟩
          · rw [h.2] at hn
            cases hn
          · cases hself.symm.trans hn
        · exact hne (hother q hqp)
      · by_cases hqp : q = name :: parent
        · exact hqp ▸ hp
        · next hd => exact absurd ((hother q hqp).symm.trans hd) hnot
    · exact .refl files dirs t

theorem confined_makeDirs {t : FileTree} {p : Path} {cs : List String}
    (h : ∀ cs', cs' <+: cs → dirs (cs'.foldl push p)) :
    Confined files dirs t (t.makeDirs p cs).2 := by
  induction cs generalizing t p with
  | nil => exact .refl files dirs t
  | cons c cs ih =>
    have hrest : ∀ cs', cs' <+: cs → dirs (cs'.foldl push (push p c)) := fun cs' hcs' =>
      h (c :: cs') (List.cons_prefix_cons.2 ⟨rfl, hcs'⟩)
    unfold makeDirs
    split
    · exact ih hrest
    · exact .refl files dirs t
    · split
      · exact .refl files dirs t
      · exact (confined_mkdir t (hrest [] List.nil_prefix)).trans (ih hrest)

/-- `create_dir_all` makes directories the walk of its path string comes by. -/
theorem confined_createDirAll (t : FileTree) (pr : Proc) (s : String) :
    Confined files (Passes pr.cwd s) t (t.createDirAll pr s).2 := by
  unfold createDirAll
  split
  · exact .refl ..
  · exact confined_makeDirs fun cs hcs => ⟨cs, hcs, rfl⟩

theorem confined_createDirAllFault (t : FileTree) (pr : Proc) (s : String) (f : Fault) :
    Confined files (Passes pr.cwd s) t (t.createDirAllFault pr s f) :=
  confined_makeDirs fun cs hcs => ⟨cs, hcs.trans (List.take_prefix ..), rfl⟩

/-- Where a path string can name an entry that is no directory. -/
def Names (pr : Proc) (s : String) (q : Path) : Prop :=
  q = canon pr.cwd s ∧ ∃ t : FileTree, t.resolve pr s = .ok q ∧ t.node q ≠ some .dir

/-- A name without a slash joined to a folder names an entry of the folder, or only directories. -/
theorem Names.child {pr : Proc} {folder name : String} {q : Path} (hname : '/' ∉ name.toList)
    (h : Names pr (join folder name) q) : PlainName name ∧ q = name :: canon pr.cwd folder := by
  obtain ⟨rfl, t, hr, hn⟩ := h
  have hplain := plainName_of_file hname hr hn
  exact ⟨hplain, canon_join _ _ hplain⟩

theorem confined_writeFile (t : FileTree) (pr : Proc) (s : String) (data : ByteArray) :
    Confined (Names pr s) dirs t (t.writeFile pr s data).2 := by
  obtain ⟨e, he⟩ | ⟨mode, he, hopen, hr⟩ := writeFile_cases t pr s data
  · rw [he]
    exact .refl ..
  · rw [he]
    have hn := hopen.ne_dir
    refine confined_entry hn ?_ (fun q hq => ?_) ⟨rfl, t, hr, hn⟩
    · rw [node_setFile hopen, if_pos rfl]
      simp
    · rw [node_setFile hopen, if_neg hq]

theorem confined_writeFault (t : FileTree) (pr : Proc) (s : String) (data : ByteArray) (f : Fault) :
    Confined (Names pr s) dirs t (t.writeFault pr s data f) := by
  unfold writeFault
  split
  · exact .refl ..
  · exact confined_writeFile t pr s _

theorem confined_setPermissions (t : FileTree) (pr : Proc) (s : String) (mode : UInt32) :
    Confined (Names pr s) dirs t (t.setPermissions pr s mode).2 := by
  obtain h | ⟨data, old, hr, hn, h⟩ := setPermissions_cases t pr s mode
  · rw [h]
    exact .refl ..
  · rw [h]
    have hopen := open_of_file hn
    have hnot : t.node (canon pr.cwd s) ≠ some .dir := by simp [hn]
    refine confined_entry hnot ?_ (fun q hq => ?_) ⟨rfl, t, hr, hnot⟩
    · rw [node_setFile hopen, if_pos rfl]
      simp
    · rw [node_setFile hopen, if_neg hq]

theorem confined_removeFile (t : FileTree) (pr : Proc) (s : String) :
    Confined (Names pr s) dirs t (t.removeFile pr s).2 := by
  unfold removeFile
  cases hr : t.resolve pr s with
  | error e => exact .refl ..
  | ok p =>
    obtain rfl := resolve_eq hr
    dsimp only
    split
    · next data mode hn =>
      have hnot : t.node (canon pr.cwd s) ≠ some .dir := by simp [hn]
      refine confined_entry hnot ?_ (fun q hq => ?_) ⟨rfl, t, hr, hnot⟩
      · rw [node_unlink hnot, if_pos rfl]
        simp
      · rw [node_unlink hnot, if_neg hq]
    · exact .refl ..
    · exact .refl ..

end Confined

theorem mkdir_dir {t : FileTree} {name : String} {parent : Path} (hd : t.node parent = some .dir)
    (hnone : t.node (name :: parent) = none) :
    (t.mkdir (name :: parent)).node (name :: parent) = some .dir := by
  unfold mkdir
  dsimp only
  rw [dif_pos ⟨hd, hnone⟩]
  exact Function.update_self ..

/-- Making a directory makes no file. -/
theorem not_isFile_mkdir {t : FileTree} {q : Path} (h : ¬t.IsFile q) (p : Path) :
    ¬(t.mkdir p).IsFile q := by
  rintro ⟨data, mode, hn⟩
  have hsame := (sameFiles_mkdir t p).files q
  rw [fileAt_of_node hn] at hsame
  exact h (fileAt_ne_none_iff.1 (by simp [← hsame]))

/-- The next component of a walk is a directory already, or one more component. -/
theorem push_cases {c : String} (h : c ≠ "..") (p : Path) : push p c = p ∨ push p c = c :: p := by
  unfold push
  rw [if_neg h]
  split
  · exact .inl rfl
  · exact .inr rfl

/-- What `makeDirs` comes to, from a directory. -/
theorem makeDirs_ok {t : FileTree} {p : Path} {cs : List String} (h : ".." ∉ cs)
    (hdot : ¬EndsInDot cs) (hp : t.node p = some .dir)
    (hclear : ∀ q, q <:+ cs.foldl push p → ¬t.IsFile q) :
    (t.makeDirs p cs).1 = .ok () ∧ (t.makeDirs p cs).2.node (cs.foldl push p) = some .dir := by
  induction cs generalizing t p with
  | nil => exact ⟨rfl, hp⟩
  | cons c cs ih =>
    rw [List.mem_cons, not_or] at h
    have hway := suffix_foldl_push h.2 (push p c)
    have hrest : ¬EndsInDot cs := fun hcs => hdot (hcs.cons c)
    unfold makeDirs
    cases hn : t.node (push p c) with
    | none =>
      dsimp only
      rw [if_neg fun hdots => hrest hdots.endsInDot]
      rcases push_cases (Ne.symm h.1) p with hpush | hpush
      · rw [hpush, hp] at hn
        cases hn
      · have hdir : (t.mkdir (push p c)).node (push p c) = some .dir := by
          rw [hpush] at hn ⊢
          exact mkdir_dir hp hn
        exact ih h.2 hrest hdir fun q hq => not_isFile_mkdir (hclear q hq) _
    | some n =>
      cases n with
      | dir => exact ih h.2 hrest hn hclear
      | file data mode => exact absurd ⟨data, mode, hn⟩ (hclear _ hway)

/-- No file is in the way of a folder. -/
def Clear (t : FileTree) (d : Path) : Prop := ∀ q, q <:+ d → ¬t.IsFile q

theorem base_dir {t : FileTree} {cwd : Path} (h : t.node cwd = some .dir) (s : String) :
    t.node (base cwd s) = some .dir := by
  unfold base
  split
  · exact t.root_dir
  · exact h

/-- **A folder can be created** if no file is in the way. -/
theorem createDirAll_ok {t : FileTree} {pr : Proc} {s : String} (hs : Direct s)
    (hcwd : t.node pr.cwd = some .dir) (hclear : t.Clear (canon pr.cwd s)) :
    (t.createDirAll pr s).1 = .ok () ∧ (t.createDirAll pr s).2.node (canon pr.cwd s) =
      some .dir := by
  unfold createDirAll
  split
  · next hempty =>
    subst hempty
    exact ⟨rfl, hcwd⟩
  · exact makeDirs_ok hs.straight hs.ending (base_dir hcwd s) hclear

/-! ### Sweeping

Removals as a whole: the files at a set of places go, and nothing else changes. -/

def Swept (P : Path → Prop) (t t' : FileTree) : Prop :=
  ∀ q, (P q ∧ t.IsFile q → t'.node q = none) ∧ (¬(P q ∧ t.IsFile q) → t'.node q = t.node q)

section Swept

variable {P Q : Path → Prop} {t t' t'' : FileTree}

theorem swept_self (h : ∀ q, P q → ¬t.IsFile q) : Swept P t t := fun q =>
  ⟨fun ⟨hp, hf⟩ => absurd hf (h q hp), fun _ => rfl⟩

theorem swept_unlink {p : Path} (hn : t.IsFile p) : Swept (· = p) t (t.unlink p) := by
  have hnot : t.node p ≠ some .dir := fun h => not_isFile_of_dir h hn
  intro q
  rw [node_unlink hnot]
  refine ⟨fun ⟨hq, _⟩ => if_pos hq, fun hq => if_neg ?_⟩
  rintro rfl
  exact hq ⟨rfl, hn⟩

theorem Swept.congr (h : Swept P t t') (hPQ : ∀ q, P q ↔ Q q) : Swept Q t t' := fun q => by
  rw [← hPQ q]
  exact h q

/-- What is left of the files. -/
theorem Swept.isFile_iff (h : Swept P t t') (q : Path) : t'.IsFile q ↔ t.IsFile q ∧ ¬P q := by
  by_cases hq : P q ∧ t.IsFile q
  · exact iff_of_false (not_isFile_of_none ((h q).1 hq)) fun hleft => hleft.2 hq.1
  · unfold IsFile at hq ⊢
    rw [(h q).2 hq]
    exact ⟨fun hf => ⟨hf, fun hp => hq ⟨hp, hf⟩⟩, And.left⟩

/-- Sweeping takes no directory away and makes none. -/
theorem Swept.dir_iff (h : Swept P t t') (q : Path) : t'.node q = some .dir ↔
    t.node q = some .dir := by
  by_cases hq : P q ∧ t.IsFile q
  · rw [(h q).1 hq]
    exact iff_of_false (by simp) fun hd => not_isFile_of_dir hd hq.2
  · rw [(h q).2 hq]

theorem Swept.trans (h : Swept P t t') (h' : Swept Q t' t'') :
    Swept (fun q => P q ∨ Q q) t t'' := by
  intro q
  have hleft := h.isFile_iff q
  refine ⟨fun ⟨hpq, hf⟩ => ?_, fun hq => ?_⟩
  · by_cases hp : P q
    · rw [(h' q).2 fun hq => (hleft.1 hq.2).2 hp]
      exact (h q).1 ⟨hp, hf⟩
    · exact (h' q).1 ⟨hpq.resolve_left hp, hleft.2 ⟨hf, hp⟩⟩
  · rw [(h' q).2 fun hq' => hq ⟨.inr hq'.1, (hleft.1 hq'.2).1⟩]
    exact (h q).2 fun hq' => hq ⟨.inl hq'.1, hq'.2⟩

/-- **Sweeping the same places** comes to the same tree. -/
theorem Swept.unique (h : Swept P t t') (h' : Swept P t t'') : t' = t'' := by
  refine ext_node fun q => ?_
  by_cases hq : P q ∧ t.IsFile q
  · rw [(h q).1 hq, (h' q).1 hq]
  · rw [(h q).2 hq, (h' q).2 hq]

end Swept

/-! ### Two trees

A call cannot tell apart two trees in which the path string can be walked to one entry. -/

structure SameAt (pr : Proc) (s : String) (t t' : FileTree) : Prop where
  left : t.resolve pr s = .ok (canon pr.cwd s)
  right : t'.resolve pr s = .ok (canon pr.cwd s)
  node : t.node (canon pr.cwd s) = t'.node (canon pr.cwd s)

namespace SameAt

variable {pr : Proc} {s : String} {t t' : FileTree} (h : SameAt pr s t t')
include h

theorem stat : t.stat pr s = t'.stat pr s := by
  rw [stat_eq_node h.left, stat_eq_node h.right, h.node]

theorem readFile : t.readFile pr s = t'.readFile pr s := by
  unfold FileTree.readFile
  rw [h.left, h.right]
  dsimp only
  rw [h.node]

/-- Both trees get the same entry. -/
theorem setFile {data : ByteArray} {mode : UInt32} (hdir : t.node (canon pr.cwd s) ≠ some .dir) :
    SameAt pr s (t.setFile (canon pr.cwd s) data mode) (t'.setFile (canon pr.cwd s) data mode) := by
  have hopen := open_of_resolve h.left hdir
  have hopen' := open_of_resolve h.right (h.node ▸ hdir)
  refine ⟨resolve_mono (onlyAt_setFile hopen data mode).dirs h.left,
    resolve_mono (onlyAt_setFile hopen' data mode).dirs h.right, ?_⟩
  rw [node_setFile hopen, node_setFile hopen']
  simp

theorem writeFile (data : ByteArray) : (t.writeFile pr s data).1 = (t'.writeFile pr s data).1 ∧
    SameAt pr s (t.writeFile pr s data).2 (t'.writeFile pr s data).2 := by
  have hnode := h.node
  unfold FileTree.writeFile
  rw [h.left, h.right]
  dsimp only
  rw [← hnode]
  cases hn : t.node (canon pr.cwd s) with
  | none => exact ⟨rfl, h.setFile (by simp [hn])⟩
  | some n =>
    cases n with
    | dir => exact ⟨rfl, h⟩
    | file old mode =>
      dsimp only
      split
      · exact ⟨rfl, h.setFile (by simp [hn])⟩
      · exact ⟨rfl, h⟩

theorem setPermissions (mode : UInt32) :
    (t.setPermissions pr s mode).1 = (t'.setPermissions pr s mode).1 ∧
    SameAt pr s (t.setPermissions pr s mode).2 (t'.setPermissions pr s mode).2 := by
  have hnode := h.node
  unfold FileTree.setPermissions
  rw [h.left, h.right]
  dsimp only
  rw [← hnode]
  cases hn : t.node (canon pr.cwd s) with
  | none => exact ⟨rfl, h⟩
  | some n =>
    cases n with
    | dir => exact ⟨rfl, h⟩
    | file old m => exact ⟨rfl, h.setFile (by simp [hn])⟩

end SameAt

end FileTree

end Posix
