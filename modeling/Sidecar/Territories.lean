import Sidecar.Alike
import Sidecar.Tasks
import Sidecar.UniqueNames

/-!
# Territories

What belongs to a kind: what is filed under it in the maps, and the files of its items, with unique
file names (`Territory.kind_eq`). A section of one kind answers and leaves the same in the shared
world as in the world the kind has by itself, and what belongs to the other kind stays as it is
(`Together.enter`, `Together.finish`).
-/

namespace Sidecar

open Posix StateM Interleave

/-! ## Version checks -/

namespace Maps

variable (m : Maps) (kind : Kind) (item : Item)

theorem listSeen_fst : (m.listSeen kind item).1 =
    decide (m.version[((kind, item.key) : MapKey)]? = some item.resourceVersion) := by
  unfold listSeen
  dsimp only
  split <;> simp [*]

theorem listSeen_version (k : MapKey) : (m.listSeen kind item).2.version[k]? =
    if (kind, item.key) = k then some item.resourceVersion else m.version[k]? := by
  unfold listSeen
  dsimp only
  split
  · next hseen =>
    split
    · next hk => rw [← hk, hseen]
    · rfl
  · exact HashMap.getElem?_insert _ _ _ _

theorem watchSeen_fst (ev : EventType) : (m.watchSeen kind ev item).1 =
    decide (m.version[((kind, item.key) : MapKey)]? = some item.resourceVersion ∧
      ev ≠ .deleted) := by
  unfold watchSeen
  dsimp only
  split <;> cases ev <;> simp [*]

theorem watchSeen_version (ev : EventType) (k : MapKey) : (m.watchSeen kind ev item).2.version[k]? =
    if (kind, item.key) = k then
      (if ev ≠ .deleted then some item.resourceVersion
      else if m.version[k]? = some item.resourceVersion then none else m.version[k]?)
    else m.version[k]? := by
  by_cases hs : Seen kind item m
  · rw [watchSeen_of_seen kind item hs]
    cases ev with
    | deleted =>
      refine (HashMap.getElem?_erase _ _ _).trans ?_
      split
      · next hk =>
        subst hk
        exact (if_pos hs).symm
      · rfl
    | added | modified =>
      dsimp only
      split
      · next hk =>
        subst hk
        exact hs
      · rfl
  · rw [watchSeen_of_not_seen kind item hs]
    cases ev with
    | deleted =>
      dsimp only
      split
      · next hk =>
        subst hk
        exact (if_neg hs).symm
      · rfl
    | added | modified => exact HashMap.getElem?_insert _ _ _ _

end Maps

/-! ## Territories -/

section Territory

variable (env : Env) (ctx : Ctx) (T : Kind → Item → String → Prop)

/-- `T kind item folder`: the files of the item may be put into the folder. What was put there may
be removed later, for what the cache keeps of the item or for another item of its key. No folder is
at or below a file. -/
structure Territory : Prop where
  retained {kind : Kind} {item : Item} {folder : String} :
    T kind item folder → T kind (CachedItem.fromItem item).toRemovalItem folder
  moved {kind : Kind} {item item' : Item} {folder folder' : String} :
    T kind item folder → T kind item' folder' → item.key = item'.key → T kind item folder'
  accepted {kind : Kind} {item : Item} {folder : String} : T kind item folder → item.Accepted kind
  direct {kind : Kind} {item : Item} {folder : String} : T kind item folder → Direct folder
  apart {kind kind' : Kind} {item item' : Item} {folder folder' : String} {e : Entry} :
    T kind item folder → e ∈ item.entries kind → T kind' item' folder' →
      ¬(e.slot kind item.ns item.name folder).place env ctx <:+ canon env.proc.cwd folder'

/-- A job at a file of the territory. -/
def Covers (kind : Kind) (j : Job) : Prop :=
  ∃ item folder e remove, T kind item folder ∧ e ∈ item.entries kind ∧
    j = Entry.job folder item remove e

/-- The places of the files. -/
def Targeted (kind : Kind) (q : Path) : Prop :=
  ∃ item folder, T kind item folder ∧
    ∃ e ∈ item.entries kind, (e.slot kind item.ns item.name folder).place env ctx = q

/-- What is on the way to the folders. -/
def OnWay (kind : Kind) (q : Path) : Prop :=
  ∃ item folder, T kind item folder ∧ q <:+ canon env.proc.cwd folder

/-- The maps have what belongs to the territory. -/
structure Maps.Inside (m : Maps) : Prop where
  object : ∀ (k : MapKey) (c : CachedItem), m.object[k]? = some c →
    c.toRemovalItem.key = k.2 ∧ ∃ folder, m.dest[k]? = some folder ∧ T k.1 c.toRemovalItem folder
  dest : ∀ (k : MapKey) (folder : String), m.dest[k]? = some folder → ∃ item, item.key = k.2 ∧
    T k.1 item folder

/-- What a kind has of the shared world is what it has of its own one. The directories of its own
world are there, and others. -/
structure Has (kind : Kind) (w a : World) : Prop where
  version : ∀ key : String, w.maps.version[((kind, key) : MapKey)]? =
    a.maps.version[((kind, key) : MapKey)]?
  object : ∀ key : String, w.maps.object[((kind, key) : MapKey)]? =
    a.maps.object[((kind, key) : MapKey)]?
  dest : ∀ key : String, w.maps.dest[((kind, key) : MapKey)]? = a.maps.dest[((kind, key) : MapKey)]?
  node : ∀ q, Targeted env ctx T kind q → w.sys.tree.node q = a.sys.tree.node q
  ways : ∀ q, OnWay env T kind q → (w.sys.tree.IsFile q ↔ a.sys.tree.IsFile q)
  dirs : FileTree.DirsLe a.sys.tree w.sys.tree
  cwd : a.sys.tree.node env.proc.cwd = some .dir

/-- The shared world, and the worlds that two kinds have by themselves. -/
structure Together (kind kind' : Kind) (w a b : World) : Prop where
  inside : w.maps.Inside T
  own : Has env ctx T kind w a
  other : Has env ctx T kind' w b

end Territory

section Covers

variable {env : Env} {ctx : Ctx} {T : Kind → Item → String → Prop} {kind kind' : Kind} {j : Job}

theorem Covers.targeted (h : Covers T kind j) : Targeted env ctx T kind (j.place env ctx kind) := by
  obtain ⟨item, folder, e, remove, hitem, he, rfl⟩ := h
  exact ⟨item, folder, hitem, e, he, rfl⟩

theorem Covers.onWay (h : Covers T kind j) {q : Path} (hq : q <:+ canon env.proc.cwd j.folder) :
    OnWay env T kind q := by
  obtain ⟨item, folder, e, remove, hitem, he, rfl⟩ := h
  exact ⟨item, folder, hitem, hq⟩

variable (hT : Territory env ctx T)
include hT

theorem Covers.direct (h : Covers T kind j) : Direct j.folder := by
  obtain ⟨item, folder, e, remove, hitem, he, rfl⟩ := h
  exact hT.direct hitem

theorem Territory.slot {item : Item} {folder : String} (hitem : T kind item folder) {e : Entry}
    (he : e ∈ item.entries kind) : (e.slot kind item.ns item.name folder).Accepted :=
  ⟨(hT.accepted hitem).ns, (hT.accepted hitem).name, (hT.accepted hitem).keys e he⟩

theorem Covers.plainName (hu : ctx.uniqueFilenames = true) (h : Covers T kind j) :
    PlainName (j.filename ctx kind) := by
  obtain ⟨item, folder, e, remove, hitem, he, rfl⟩ := h
  exact (hT.slot hitem he).plainName hu

/-- No file is on the way to a folder. -/
theorem Territory.not_onWay {q : Path} (hq : Targeted env ctx T kind q) : ¬OnWay env T kind' q := by
  rintro ⟨item', folder', hitem', hsuffix⟩
  obtain ⟨item, folder, hitem, e, he, rfl⟩ := hq
  exact hT.apart hitem he hitem' hsuffix

/-- A file tells the kind. -/
theorem Territory.kind_eq (hu : ctx.uniqueFilenames = true) {q : Path}
    (hq : Targeted env ctx T kind q) (hq' : Targeted env ctx T kind' q) : kind = kind' := by
  obtain ⟨item, folder, hitem, e, he, rfl⟩ := hq
  obtain ⟨item', folder', hitem', e', he', hplace⟩ := hq'
  have hslot := hT.slot hitem he
  have hslot' := hT.slot hitem' he'
  unfold Slot.place Env.place at hplace
  rw [canon_join _ _ (hslot.plainName hu), canon_join _ _ (hslot'.plainName hu)] at hplace
  have hname := (List.cons.inj hplace).1
  unfold Slot.filename at hname
  rw [if_pos hu, if_pos hu] at hname
  exact (kind_of_uniqueFilename hslot'.ns.dot hslot.ns.dot hname).symm

end Covers

/-! ## One job -/

section Job

variable {env : Env} {ctx : Ctx} {kind : Kind} {j : Job}
  {fetched : Except String (String × ByteArray)}

theorem Job.finish_confined (hfetched : Fetched env ctx j fetched) :
    Moves (fun s s' => FileTree.Confined (· = j.place env ctx kind) (Passes env.proc.cwd j.folder)
      s.tree s'.tree)
      (j.finish env ctx kind fetched) := by
  refine Job.finish_moves (confined_preorder _ _) (fun _ _ => silent_confined _ _)
    (fun data s => ?_) hfetched
  cases hr : j.remove with
  | true =>
    rw [Job.put_of_remove env ctx kind j hr]
    exact (removeFile_confined env _ j.folder (j.filename ctx kind) s).mono (fun q hq => hq.1)
      fun _ hq => hq
  | false =>
    rw [Job.put_of_write env ctx kind j hr]
    exact (writeDataToFile_confined env j.folder (j.filename ctx kind) data j.contentType
      (j.handed kind data s)).mono (fun q hq => hq.1) fun _ hq => hq

variable (hf : env.Faultless) (hs : Direct j.folder) (hn : PlainName (j.filename ctx kind))
include hf hs hn

/-- **What follows the fetch** answers and leaves the same in a tree with more directories. -/
theorem Job.finish_alike (hfetched : Fetched env ctx j fetched) {s s' : Sys}
    (h : Alike env j.folder (j.filename ctx kind) s.tree s'.tree) :
    (j.finish env ctx kind fetched s).1 = (j.finish env ctx kind fetched s').1 ∧
      (j.finish env ctx kind fetched s).2.tree.node (j.place env ctx kind) =
        (j.finish env ctx kind fetched s').2.tree.node (j.place env ctx kind) ∧
      FileTree.DirsLe (j.finish env ctx kind fetched s').2.tree
        (j.finish env ctx kind fetched s).2.tree := by
  obtain ⟨e, rfl⟩ | ⟨data, rfl, -⟩ := hfetched.cases
  · exact ⟨rfl, h.node, h.dirs⟩
  · rw [Job.finish_ok, Job.finish_ok]
    cases hr : j.remove with
    | true =>
      obtain ⟨hans, hnode⟩ := removeFile_alike hf hs.straight hn h.node
      have hdirs :
          ∀ t : Sys, ∀ q,
          (removeFile env j.folder (j.filename ctx kind) t).2.tree.node q = some .dir ↔
          t.tree.node q = some .dir := by
        intro t q
        rcases (removeFile_cases hf hs.straight hn t).2 with ⟨hfile, -, htree⟩ | ⟨-, -, htree⟩
        · rw [htree]
          exact (FileTree.swept_unlink hfile).dir_iff q
        · rw [htree]
      rw [Job.put_of_remove env ctx kind j hr, Job.put_of_remove env ctx kind j hr]
      exact ⟨hans, hnode, fun q hq => (hdirs s q).2 (h.dirs q ((hdirs s' q).1 hq))⟩
    | false =>
      have hhanded : Alike env j.folder (j.filename ctx kind) (j.handed kind data s).tree
          (j.handed kind data s').tree := h
      obtain ⟨hans, hnode, hdirs⟩ :=
        @writeDataToFile_alike env j.folder (j.filename ctx kind) j.contentType data
          _ _ hf hs hn hhanded
      rw [Job.put_of_write env ctx kind j hr, Job.put_of_write env ctx kind j hr]
      dsimp only
      generalize
        writeDataToFile env j.folder (j.filename ctx kind) data j.contentType
        (j.handed kind data s) = out
        at hans hnode hdirs ⊢
      generalize
        writeDataToFile env j.folder (j.filename ctx kind) data j.contentType
        (j.handed kind data s') = out'
        at hans hnode hdirs ⊢
      obtain ⟨result, t⟩ := out
      obtain ⟨result', t'⟩ := out'
      rcases result with e | changed <;> rcases result' with e' | changed'
      · exact ⟨rfl, hnode, hdirs⟩
      · refine ⟨?_, hnode, hdirs⟩
        cases changed' with
        | false => rfl
        | true => exact absurd (hans.2 rfl) (by simp)
      · refine ⟨?_, hnode, hdirs⟩
        cases changed with
        | false => rfl
        | true => exact absurd (hans.1 rfl) (by simp)
      · refine ⟨?_, hnode, hdirs⟩
        exact Bool.eq_iff_iff.2 ⟨fun h => Except.ok.inj (hans.1 (congrArg Except.ok h)), fun h =>
          Except.ok.inj (hans.2 (congrArg Except.ok h))⟩

end Job

/-! ## Sections -/

section Together

variable {env : Env} {ctx : Ctx} {T : Kind → Item → String → Prop} {kind kind' : Kind}
  {w w' a a' b : World}

/-- Only files and maps count. -/
theorem Has.congr (h : Has env ctx T kind w a) (hw : Hush w w') (ha : Hush a a') :
    Has env ctx T kind w' a' where
  version key := by rw [hw.maps, ha.maps]; exact h.version key
  object key := by rw [hw.maps, ha.maps]; exact h.object key
  dest key := by rw [hw.maps, ha.maps]; exact h.dest key
  node q hq := by rw [hw.sys.tree, ha.sys.tree]; exact h.node q hq
  ways q hq := by rw [hw.sys.tree, ha.sys.tree]; exact h.ways q hq
  dirs := by rw [hw.sys.tree, ha.sys.tree]; exact h.dirs
  cwd := by rw [ha.sys.tree]; exact h.cwd

/-- What touches neither files nor maps is not noticed. -/
theorem Together.hush (h : Together env ctx T kind kind' w a b) (hw : Hush w w') (ha : Hush a a') :
    Together env ctx T kind kind' w' a' b where
  inside := by rw [hw.maps]; exact h.inside
  own := h.own.congr hw ha
  other := h.other.congr hw ⟨Silent.preorder.refl _, rfl⟩

/-- Its own world may be another one with the same files and entries. -/
theorem Together.alone (h : Together env ctx T kind kind' w a b) (htree : a'.sys.tree = a.sys.tree)
    (hmaps : ∀ k : MapKey, a'.maps.version[k]? = a.maps.version[k]? ∧
      a'.maps.object[k]? = a.maps.object[k]? ∧ a'.maps.dest[k]? = a.maps.dest[k]?) :
    Together env ctx T kind kind' w a' b where
  inside := h.inside
  own := ⟨fun key => (h.own.version key).trans (hmaps _).1.symm,
    fun key => (h.own.object key).trans (hmaps _).2.1.symm,
    fun key => (h.own.dest key).trans (hmaps _).2.2.symm, htree ▸ h.own.node, htree ▸ h.own.ways,
    htree ▸ h.own.dirs, htree ▸ h.own.cwd⟩
  other := h.other

/-- A critical section that changes what is filed under its kind, and there the same in both
worlds. -/
theorem Together.maps (hne : kind ≠ kind') (h : Together env ctx T kind kind' w a b) {m n : Maps}
    (hin : m.Inside T) (hown : ∀ key : String, m.version[((kind, key) : MapKey)]? =
      n.version[((kind, key) : MapKey)]? ∧
      m.object[((kind, key) : MapKey)]? = n.object[((kind, key) : MapKey)]? ∧
      m.dest[((kind, key) : MapKey)]? = n.dest[((kind, key) : MapKey)]?)
    (hother : ∀ k : MapKey, k.1 ≠ kind → m.version[k]? = w.maps.version[k]? ∧
      m.object[k]? = w.maps.object[k]? ∧ m.dest[k]? = w.maps.dest[k]?) :
    Together env ctx T kind kind' ⟨w.sys, m⟩ ⟨a.sys, n⟩ b where
  inside := hin
  own := ⟨fun key => (hown key).1, fun key => (hown key).2.1, fun key => (hown key).2.2,
    h.own.node, h.own.ways,
    h.own.dirs, h.own.cwd⟩
  other := ⟨fun key => ((hother (kind', key) hne.symm).1).trans (h.other.version key),
    fun key => ((hother (kind', key) hne.symm).2.1).trans (h.other.object key),
    fun key => ((hother (kind', key) hne.symm).2.2).trans (h.other.dest key),
    h.other.node, h.other.ways,
    h.other.dirs, h.other.cwd⟩

/-- A file operation of one kind that leaves the same entry in both worlds. -/
theorem Together.file (hT : Territory env ctx T) (hu : ctx.uniqueFilenames = true)
    (hne : kind ≠ kind')
    (h : Together env ctx T kind kind' w a b) {j : Job} (hj : Covers T kind j) {s u : Sys}
    (hs : FileTree.Confined (· = j.place env ctx kind) (Passes env.proc.cwd j.folder)
      w.sys.tree s.tree)
    (hu' : FileTree.Confined (· = j.place env ctx kind) (Passes env.proc.cwd j.folder)
      a.sys.tree u.tree)
    (hnode : s.tree.node (j.place env ctx kind) = u.tree.node (j.place env ctx kind))
    (hdirs : FileTree.DirsLe u.tree s.tree) :
    Together env ctx T kind kind' ⟨s, w.maps⟩ ⟨u, a.maps⟩ b := by
  have hpass : ∀ {k : Kind} {q : Path}, Targeted env ctx T k q →
      ¬Passes env.proc.cwd j.folder q := fun hq hp =>
    hT.not_onWay hq (hj.onWay (hp.suffix (hj.direct hT).straight))
  have hplace : ∀ {k : Kind} {q : Path}, OnWay env T k q → q ≠ j.place env ctx kind := by
    rintro k q hq rfl
    exact hT.not_onWay hj.targeted hq
  refine ⟨h.inside, ⟨h.own.version, h.own.object, h.own.dest, fun q hq => ?_, fun q hq => ?_, hdirs,
    hu'.keeps _ h.own.cwd⟩,
    ⟨h.other.version, h.other.object, h.other.dest, fun q hq => ?_, fun q hq => ?_,
    h.other.dirs.trans hs.keeps, h.other.cwd⟩⟩
  · by_cases hq' : q = j.place env ctx kind
    · rw [hq']
      exact hnode
    · exact (hs.node_eq hq' (hpass hq)).trans
        ((h.own.node q hq).trans (hu'.node_eq hq' (hpass hq)).symm)
  · exact (hs.isFile_iff (hplace hq)).trans
      ((h.own.ways q hq).trans (hu'.isFile_iff (hplace hq)).symm)
  · have hq' : q ≠ j.place env ctx kind := by
      rintro rfl
      exact hne (hT.kind_eq hu hj.targeted hq)
    exact (hs.node_eq hq' (hpass hq)).trans (h.other.node q hq)
  · exact (hs.isFile_iff (hplace hq)).trans (h.other.ways q hq)

/-- **One file operation.** -/
theorem Together.finish (hf : env.Faultless) (hT : Territory env ctx T)
    (hu : ctx.uniqueFilenames = true)
    (hne : kind ≠ kind') (h : Together env ctx T kind kind' w a b) {j : Job} (hj : Covers T kind j)
    {fetched : Except String (String × ByteArray)} (hfetched : Fetched env ctx j fetched) :
    (j.finish env ctx kind fetched w.sys).1 = (j.finish env ctx kind fetched a.sys).1 ∧
      Together env ctx T kind kind' ⟨(j.finish env ctx kind fetched w.sys).2, w.maps⟩
        ⟨(j.finish env ctx kind fetched a.sys).2, a.maps⟩ b := by
  have halike : Alike env j.folder (j.filename ctx kind) w.sys.tree a.sys.tree :=
    ⟨h.own.dirs, h.own.cwd, fun q hq => h.own.ways q (hj.onWay hq), h.own.node _ hj.targeted⟩
  obtain ⟨hans, hnode, hdirs⟩ :=
    Job.finish_alike hf (hj.direct hT) (hj.plainName hT hu) hfetched halike
  exact ⟨hans, h.file hT hu hne hj (Job.finish_confined hfetched w.sys)
    (Job.finish_confined hfetched a.sys)
    hnode hdirs⟩

/-- What `process_resource` is called with: an item and its folder, or, by the stale cleanup, an
item that has its folder on record. -/
def Dealt (T : Kind → Item → String → Prop) (m : Maps) (kind : Kind) (item : Item)
    (destFolder : Option String) (isRemoved : Bool) : Prop :=
  ∃ folder, T kind item folder ∧ (destFolder = some folder ∨
    isRemoved = true ∧ destFolder = none ∧ m.dest[((kind, item.key) : MapKey)]? ≠ none)

/-- Both worlds have the old item and its folder. -/
theorem Together.enter_old (h : Together env ctx T kind kind' w a b) (item : Item)
    (destFolder : Option String)
    (isRemoved : Bool) : (w.maps.enter kind item destFolder isRemoved).1 =
      (a.maps.enter kind item destFolder isRemoved).1 := by
  rw [Maps.enter_old, Maps.enter_old]
  unfold Maps.oldItem
  rw [h.own.object, h.own.dest]

section Enter

variable {item : Item} {destFolder : Option String} {isRemoved : Bool} (hT : Territory env ctx T)
  (h : Together env ctx T kind kind' w a b) (hd : Dealt T a.maps kind item destFolder isRemoved)
include hT h hd

/-- What is found as old is inside the territory. -/
theorem Together.old_inside :
    T kind (a.maps.oldItem kind item)
      ((a.maps.dest[((kind, item.key) : MapKey)]?.or destFolder).getD "") ∧
      T kind item ((a.maps.dest[((kind, item.key) : MapKey)]?.or destFolder).getD "") := by
  obtain ⟨folder, hitem, hcall⟩ := hd
  have hfolder :
      T kind item ((a.maps.dest[((kind, item.key) : MapKey)]?.or destFolder).getD "") := by
    cases hdest : a.maps.dest[((kind, item.key) : MapKey)]? with
    | some recorded =>
      obtain ⟨item', hkey, hrecorded⟩ :=
        h.inside.dest (kind, item.key) recorded ((h.own.dest item.key).trans hdest)
      exact hT.moved hitem hrecorded hkey.symm
    | none =>
      rcases hcall with rfl | ⟨-, -, hsome⟩
      · exact hitem
      · exact absurd hdest hsome
  refine ⟨?_, hfolder⟩
  unfold Maps.oldItem
  cases hobject : a.maps.object[((kind, item.key) : MapKey)]? with
  | none => exact hT.retained hfolder
  | some c =>
    obtain ⟨-, recorded, hdest, hc⟩ :=
      h.inside.object (kind, item.key) c ((h.own.object item.key).trans hobject)
    rw [← h.own.dest, hdest]
    exact hc

theorem Together.covers {j : Job}
    (hj : j ∈ jobs (plan kind item (a.maps.enter kind item destFolder isRemoved).1
      (if isRemoved then (a.maps.enter kind item destFolder isRemoved).1.dest
        else destFolder.getD "")
      isRemoved)) : Covers T kind j := by
  obtain ⟨hold, hitem⟩ := h.old_inside hT hd
  rw [Maps.enter_old] at hj
  cases isRemoved with
  | true =>
    rw [jobs_plan_removed] at hj
    obtain ⟨e, he, rfl⟩ := List.mem_map.1 hj
    exact ⟨item, _, e, true, hitem, he, rfl⟩
  | false =>
    obtain ⟨folder, hgiven, rfl | ⟨hremoved, -⟩⟩ := hd
    · rw [(jobs_plan_perm ..).mem_iff, List.mem_append] at hj
      rcases hj with hj | hj
      · obtain ⟨e, he, rfl⟩ := List.mem_map.1 hj
        exact ⟨item, folder, e, false, hgiven, he, rfl⟩
      · obtain ⟨e, he, rfl⟩ := List.mem_map.1 hj
        exact ⟨_, _, e, true, hold, (List.mem_filter.1 he).1, rfl⟩
    · cases hremoved

/-- **The critical section of `process_resource`.** -/
theorem Together.enter (hne : kind ≠ kind') :
    Together env ctx T kind kind' ⟨w.sys, (w.maps.enter kind item destFolder isRemoved).2⟩
      ⟨a.sys, (a.maps.enter kind item destFolder isRemoved).2⟩ b := by
  refine h.maps hne ⟨fun k c hc => ?_, fun k folder hfolder => ?_⟩ (fun key => ?_) fun k hk => ?_
  · rw [Maps.enter_object] at hc
    rw [Maps.enter_dest]
    split at hc
    · next hk =>
      cases isRemoved with
      | true => cases hc
      | false =>
        cases hc
        obtain ⟨folder, hitem, rfl | ⟨hremoved, -⟩⟩ := hd
        · rw [if_pos ⟨rfl, hk⟩, ← hk]
          exact ⟨rfl, folder, rfl, hT.retained hitem⟩
        · cases hremoved
    · next hk =>
      rw [if_neg fun hboth => hk hboth.2]
      exact h.inside.object k c hc
  · rw [Maps.enter_dest] at hfolder
    split at hfolder
    · next hk =>
      obtain ⟨folder', hitem, rfl | ⟨hremoved, -⟩⟩ := hd
      · cases hfolder
        rw [← hk.2]
        exact ⟨item, rfl, hitem⟩
      · rw [hk.1] at hremoved
        cases hremoved
    · exact h.inside.dest k folder hfolder
  · rw [Maps.enter_version, Maps.enter_version, Maps.enter_object, Maps.enter_object,
      Maps.enter_dest,
      Maps.enter_dest, h.own.version, h.own.object, h.own.dest]
    exact ⟨rfl, rfl, rfl⟩
  · have hkey : ((kind, item.key) : MapKey) ≠ k := by
      rintro rfl
      exact hk rfl
    rw [Maps.enter_version, Maps.enter_object, Maps.enter_dest, if_neg hkey,
      if_neg fun hboth => hkey hboth.2]
    exact ⟨rfl, rfl, rfl⟩

end Enter

/-- A version check reads and changes the version that is filed under its kind. -/
theorem Together.version (hne : kind ≠ kind') (h : Together env ctx T kind kind' w a b) {m n : Maps}
    (hm : m.object = w.maps.object ∧ m.dest = w.maps.dest)
    (hn : n.object = a.maps.object ∧ n.dest = a.maps.dest)
    (hown : ∀ key : String, m.version[((kind, key) : MapKey)]? = n.version[((kind, key) : MapKey)]?)
    (hother : ∀ k : MapKey, k.1 ≠ kind → m.version[k]? = w.maps.version[k]?) :
    Together env ctx T kind kind' ⟨w.sys, m⟩ ⟨a.sys, n⟩ b := by
  refine h.maps hne ⟨fun k c hc => ?_, fun k folder hfolder => ?_⟩
    (fun key => ⟨hown key, ?_, ?_⟩) fun k hk =>
    ⟨hother k hk, ?_, ?_⟩
  · rw [hm.1] at hc
    rw [hm.2]
    exact h.inside.object k c hc
  · rw [hm.2] at hfolder
    exact h.inside.dest k folder hfolder
  · rw [hm.1, hn.1]
    exact h.own.object key
  · rw [hm.2, hn.2]
    exact h.own.dest key
  · rw [hm.1]
  · rw [hm.2]

theorem Together.listSeen (hne : kind ≠ kind') (h : Together env ctx T kind kind' w a b)
    (item : Item) :
    (w.maps.listSeen kind item).1 = (a.maps.listSeen kind item).1 ∧
      Together env ctx T kind kind' ⟨w.sys, (w.maps.listSeen kind item).2⟩
        ⟨a.sys, (a.maps.listSeen kind item).2⟩ b := by
  refine ⟨?_, h.version hne ⟨Maps.listSeen_object .., Maps.listSeen_dest ..⟩
    ⟨Maps.listSeen_object .., Maps.listSeen_dest ..⟩ (fun key => ?_) fun k hk => ?_⟩
  · rw [Maps.listSeen_fst, Maps.listSeen_fst, h.own.version]
  · rw [Maps.listSeen_version, Maps.listSeen_version, h.own.version]
  · rw [Maps.listSeen_version, if_neg]
    rintro rfl
    exact hk rfl

theorem Together.watchSeen (hne : kind ≠ kind') (h : Together env ctx T kind kind' w a b)
    (ev : EventType)
    (item : Item) : (w.maps.watchSeen kind ev item).1 = (a.maps.watchSeen kind ev item).1 ∧
      Together env ctx T kind kind' ⟨w.sys, (w.maps.watchSeen kind ev item).2⟩
        ⟨a.sys, (a.maps.watchSeen kind ev item).2⟩ b := by
  refine ⟨?_, h.version hne ⟨Maps.watchSeen_object .., Maps.watchSeen_dest ..⟩
    ⟨Maps.watchSeen_object .., Maps.watchSeen_dest ..⟩ (fun key => ?_) fun k hk => ?_⟩
  · rw [Maps.watchSeen_fst, Maps.watchSeen_fst, h.own.version]
  · rw [Maps.watchSeen_version, Maps.watchSeen_version, h.own.version]
  · rw [Maps.watchSeen_version, if_neg]
    rintro rfl
    exact hk rfl

end Together

end Sidecar
