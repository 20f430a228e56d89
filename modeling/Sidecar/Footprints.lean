import Sidecar.Outcomes
import Sidecar.Edits

/-!
# What one call can change

Whatever fails, a call of `process_resource` changes files in two folders only: the one it was given
and the one on record for its resource, and there only files named by the keys of its item or of the
cached entry. The one thing besides that are directories on the way to the folder it was given
(`process_resource_footprint`). The stale cleanup gives no folder. What it removes was tracked when
it looked, and what was tracked has its folder on record for good, so the working directory is never
taken for one.
-/

namespace Sidecar

open Posix StateM

/-! ## Maps of resources without a slash -/

/-- What the critical sections of the tasks lead to, when every item they put on record has no
slash. -/
inductive Maps.SlashFreeFrom (m₀ : Maps) : Maps → Prop
  | start : SlashFreeFrom m₀ m₀
  | enter {m : Maps} (kind : Kind) (item : Item) (destFolder : Option String) (isRemoved : Bool) :
    SlashFreeFrom m₀ m → (isRemoved = false → item.SlashFree kind) →
      SlashFreeFrom m₀ (m.enter kind item destFolder isRemoved).2
  | listSeen {m : Maps} (kind : Kind) (item : Item) :
    SlashFreeFrom m₀ m → SlashFreeFrom m₀ (m.listSeen kind item).2
  | watchSeen {m : Maps} (kind : Kind) (ev : EventType) (item : Item) :
    SlashFreeFrom m₀ m → SlashFreeFrom m₀ (m.watchSeen kind ev item).2

theorem Item.SlashFree.retained {kind : Kind} {item : Item} (h : item.SlashFree kind) :
    (CachedItem.fromItem item).toRemovalItem.SlashFree kind where
  ns := h.ns
  name := h.name
  keys e he := by
    have hid := List.mem_map_of_mem (f := Entry.id) he
    rw [ids_toRemovalItem] at hid
    obtain ⟨e', he', hid⟩ := List.mem_map.1 hid
    have hkey : e'.dataKey = e.dataKey := congrArg Prod.snd hid
    exact hkey ▸ h.keys e' he'

/-- What is cached has no slash. -/
def Maps.SlashFree (m : Maps) : Prop :=
  ∀ (k : MapKey) (c : CachedItem), m.object[k]? = some c → c.toRemovalItem.SlashFree k.1

namespace Maps.SlashFreeFrom

variable {m₀ m : Maps} (h : SlashFreeFrom m₀ m)
include h

theorem reachable (h₀ : m₀.Reachable) : m.Reachable := by
  induction h with
  | start => exact h₀
  | enter kind item destFolder isRemoved _ _ ih => exact ih.enter kind item destFolder isRemoved
  | listSeen kind item _ ih => exact ih.listSeen kind item
  | watchSeen kind ev item _ ih => exact ih.watchSeen kind ev item

/-- A folder stays on record. -/
theorem dest {k : MapKey} (h₀ : m₀.dest[k]? ≠ none) : m.dest[k]? ≠ none := by
  induction h with
  | start => exact h₀
  | enter kind item destFolder isRemoved _ _ ih =>
    rw [enter_dest]
    split
    · exact Option.some_ne_none _
    · exact ih
  | listSeen kind item _ ih =>
    rw [listSeen_dest]
    exact ih
  | watchSeen kind ev item _ ih =>
    rw [watchSeen_dest]
    exact ih

theorem slashFree (h₀ : m₀.SlashFree) : m.SlashFree := by
  induction h with
  | start => exact h₀
  | enter kind item destFolder isRemoved _ hitem ih =>
    intro k c hc
    rw [enter_object] at hc
    split at hc
    · next hk =>
      cases isRemoved with
      | true => cases hc
      | false =>
        cases hc
        rw [← hk]
        exact (hitem rfl).retained
    · exact ih k c hc
  | listSeen kind item _ ih =>
    intro k c hc
    rw [listSeen_object] at hc
    exact ih k c hc
  | watchSeen kind ev item _ ih =>
    intro k c hc
    rw [watchSeen_object] at hc
    exact ih k c hc

end Maps.SlashFreeFrom

theorem Maps.slashFree_empty : Maps.empty.SlashFree := fun k c hc => by simp [Maps.empty] at hc

/-! ## The calls -/

/-- The calls that list passes and events make. A cleanup looked for stale resources when the maps
were `m₀`; other tasks may have moved them on since. -/
inductive Made (env : Env) (m₀ : Maps) : Call → Prop
  | update {kind : Kind} {item : Item} (hitem : item.SlashFree kind) (folder : String) :
    Made env m₀ (.upsert kind item folder)
  | deleted {kind : Kind} {item : Item} (hitem : item.SlashFree kind) (folder : String) :
    Made env m₀ (.delete kind item folder)
  | stale {kind : Kind} {ns : String} {existKeys : List String} {s : Sys} {item : Item}
    (hitem : item ∈ (staleItems env kind ns existKeys ⟨s, m₀⟩).1) : Made env m₀ (.cleanup kind item)

/-- The file names of an item. -/
def fileNames (ctx : Ctx) (kind : Kind) (item : Item) : List String :=
  (item.entries kind).map fun e =>
    if ctx.uniqueFilenames then uniqueFilename (dataFileName e.dataKey) item.ns kind.asStr item.name
    else dataFileName e.dataKey

namespace Call

/-- The folder the call was given, and the one on record for its resource. -/
def folders (c : Call) (m : Maps) : List String := c.folder?.toList ++ (m.dest[c.key]?).toList

/-- The file names of the call's item, and of the entry that is cached for its resource. -/
def names (ctx : Ctx) (c : Call) (m : Maps) : List String :=
  fileNames ctx c.kind c.item ++
    ((m.object[c.key]?).map fun cached => fileNames ctx c.kind cached.toRemovalItem).getD []

/-- A file of these names, directly in one of these folders. -/
def Owns (env : Env) (ctx : Ctx) (c : Call) (m : Maps) (q : Path) : Prop :=
  ∃ folder ∈ c.folders m, ∃ name ∈ c.names ctx m,
    PlainName name ∧ q = name :: canon env.proc.cwd folder

/-- A directory on the way to the folder that an update was given. -/
def OnTheWay (env : Env) (c : Call) (q : Path) : Prop :=
  c.isRemoved = false ∧ ∃ folder, c.folder? = some folder ∧ Passes env.proc.cwd folder q

end Call

theorem fileNames_retained (ctx : Ctx) (kind : Kind) (item : Item) :
    fileNames ctx kind (CachedItem.fromItem item).toRemovalItem = fileNames ctx kind item := by
  have hkeys := congrArg (List.map Prod.snd) (ids_toRemovalItem kind item)
  rw [List.map_map, List.map_map] at hkeys
  have hnames := congrArg (List.map fun key => if ctx.uniqueFilenames then
    uniqueFilename (dataFileName key) item.ns kind.asStr item.name else dataFileName key) hkeys
  rw [List.map_map, List.map_map] at hnames
  exact hnames

/-! ## One job -/

section Job

variable {env : Env} {ctx : Ctx} {kind : Kind}

/-- A job changes its own entry of its folder, and makes directories on the way there if it
writes. -/
theorem Job.run_confined {j : Job} (hslash : '/' ∉ (j.filename ctx kind).toList) :
    Moves (fun s s' => FileTree.Confined
        (fun q => PlainName (j.filename ctx kind) ∧
          q = j.filename ctx kind :: canon env.proc.cwd j.folder)
        (fun q => j.remove = false ∧ Passes env.proc.cwd j.folder q) s.tree s'.tree)
      (j.run env ctx kind) := by
  refine Job.run_moves env ctx kind j (confined_preorder _ _) (fun _ _ => silent_confined _ _)
    fun data s => ?_
  cases hr : j.remove with
  | true =>
    rw [Job.put_of_remove env ctx kind j hr]
    exact (removeFile_confined env (fun _ => False) j.folder (j.filename ctx kind) s).mono
      (fun q hq => FileTree.Names.child hslash hq) nofun
  | false =>
    rw [Job.put_of_write env ctx kind j hr]
    exact (writeDataToFile_confined env j.folder (j.filename ctx kind) data j.contentType
      (j.handed kind data s)).mono (fun q hq => FileTree.Names.child hslash hq)
      fun q hq => ⟨rfl, hq⟩

end Job

/-! ## One call -/

section Call

variable {env : Env} {ctx : Ctx} {m₀ : Maps} {w : World} {c : Call}

/-- What a call was made for has no slash. -/
theorem Made.slashFree (hc : Made env m₀ c) (h₀ : m₀.SlashFree) :
    c.item.SlashFree c.kind := by
  cases hc with
  | update hitem folder => exact hitem
  | deleted hitem folder => exact hitem
  | @stale kind ns existKeys s item hitem =>
    obtain ⟨k, cached, hcached, rfl, -, rfl⟩ := exists_of_mem_staleItems hitem
    exact h₀ k cached hcached

/-- What a cleanup found was tracked, and still has its folder on record. -/
theorem Made.recorded (hc : Made env m₀ c) (hr : m₀.Reachable) (h : Maps.SlashFreeFrom m₀ w.maps)
    (hf : c.folder? = none) : ∃ folder, w.maps.dest[c.key]? = some folder := by
  cases hc with
  | update hitem folder => cases hf
  | deleted hitem folder => cases hf
  | @stale kind ns existKeys s item hitem =>
    obtain ⟨cached, hcached, -, -⟩ := mem_staleItems (w := ⟨s, m₀⟩) hr.wf hitem
    have htracked : m₀.object[(Call.cleanup kind item).key]? ≠ none := by
      have hcached' : m₀.object[(Call.cleanup kind item).key]? = some cached := hcached
      simp [hcached']
    exact Option.ne_none_iff_exists'.1 (h.dest (hr.wf.dest _ htracked))

/-- The old folder of a call is one of its folders. -/
theorem Made.old_dest_mem (hc : Made env m₀ c) (hr : m₀.Reachable)
    (h : Maps.SlashFreeFrom m₀ w.maps) :
    (c.old w).dest ∈ c.folders w.maps := by
  unfold Call.old Call.folders
  rw [Maps.enter_old]
  unfold Call.key at *
  cases hd : w.maps.dest[((c.kind, c.item.key) : MapKey)]? with
  | some folder => simp
  | none =>
    cases hf : c.folder? with
    | some folder => simp
    | none =>
      obtain ⟨folder, hfolder⟩ := hc.recorded hr h hf
      unfold Call.key at hfolder
      rw [hd] at hfolder
      cases hfolder

/-- The old item of a call has its names. -/
theorem Call.old_names (ctx : Ctx) (c : Call) (w : World) {name : String}
    (hname : name ∈ fileNames ctx c.kind (c.old w).item) : name ∈ c.names ctx w.maps := by
  unfold Call.old at hname
  rw [Maps.enter_old] at hname
  unfold Maps.oldItem at hname
  unfold Call.names Call.key
  cases ho : w.maps.object[((c.kind, c.item.key) : MapKey)]? with
  | some cached =>
    rw [ho] at hname
    exact List.mem_append_right _ hname
  | none =>
    rw [ho] at hname
    refine List.mem_append_left _ ?_
    rwa [← fileNames_retained]

theorem filename_mem {kind : Kind} {item : Item} {e : Entry} (he : e ∈ item.entries kind)
    (folder : String)
    (remove : Bool) : (e.job folder item remove).filename ctx kind ∈ fileNames ctx kind item :=
  List.mem_map_of_mem he

/-- Every job of a call keeps to its folders and names. -/
theorem Made.job_confined (hc : Made env m₀ c) (h₀ : m₀.SlashFree) (hr : m₀.Reachable)
    (h : Maps.SlashFreeFrom m₀ w.maps) {j : Job} (hj : j ∈ c.jobs w) :
    '/' ∉ (j.filename ctx c.kind).toList ∧ j.folder ∈ c.folders w.maps ∧
      j.filename ctx c.kind ∈ c.names ctx w.maps ∧
      (j.remove = false → c.isRemoved = false ∧ c.folder? = some j.folder) := by
  have hitem := hc.slashFree h₀
  cases hremoved : c.isRemoved with
  | true =>
    obtain ⟨e, he, rfl⟩ := (mem_jobs_remove hremoved j).1 hj
    exact ⟨hitem.filename he ctx _ _, hc.old_dest_mem hr h,
      List.mem_append_left _ (filename_mem he _ _), nofun⟩
  | false =>
    obtain ⟨folder, hfolder⟩ := folder_of_update hremoved
    have hdest : c.dest w = folder := by
      unfold Call.dest
      rw [hremoved, hfolder]
      rfl
    rcases (mem_jobs_update hremoved j).1 hj with ⟨e, he, rfl⟩ | ⟨e, he, rfl⟩
    · rw [hdest]
      refine ⟨hitem.filename he ctx _ _, ?_, List.mem_append_left _ (filename_mem he _ _), fun _ =>
        ⟨rfl, hfolder⟩⟩
      unfold Call.folders
      rw [hfolder]
      exact List.mem_append_left _ (List.mem_singleton_self _)
    · have hentry := (List.mem_filter.1 he).1
      have hold : (c.old w).item.SlashFree c.kind := by
        unfold Call.old
        rw [Maps.enter_old]
        unfold Maps.oldItem
        cases ho : w.maps.object[((c.kind, c.item.key) : MapKey)]? with
        | none => exact hitem.retained
        | some cached => exact h.slashFree h₀ (c.kind, c.item.key) cached ho
      exact ⟨hold.filename hentry ctx _ _, hc.old_dest_mem hr h,
        c.old_names ctx w (filename_mem hentry _ _),
        nofun⟩

/-- **The footprint of one call**, in any environment. -/
theorem process_resource_footprint (h₀ : Maps.SlashFreeFrom .empty m₀)
    (h : Maps.SlashFreeFrom m₀ w.maps) (hc : Made env m₀ c) :
    FileTree.Confined (c.Owns env ctx w.maps)
      (c.OnTheWay env) w.sys.tree (c.run env ctx w).2.sys.tree ∧
      (c.folder? = none → ∃ folder, w.maps.dest[c.key]? = some folder ∧
        (c.old w).dest = folder) := by
  have hr : m₀.Reachable := h₀.reachable .empty
  have hfree : m₀.SlashFree := h₀.slashFree Maps.slashFree_empty
  constructor
  · rw [Call.run_eq]
    refine runActions_moves env ctx c.kind (confined_preorder _ _) (fun _ _ => silent_confined _ _)
      (fun j hj => ?_) w.sys
    obtain ⟨hslash, hfolder, hname, hwrite⟩ := @Made.job_confined env ctx _ _ _ hc hfree hr h _ hj
    refine (Job.run_confined hslash).mono fun s s' hs => hs.mono (fun q hq => ?_) fun q hq => ?_
    · exact ⟨j.folder, hfolder, j.filename ctx c.kind, hname, hq⟩
    · obtain ⟨hupdate, hgiven⟩ := hwrite hq.1
      exact ⟨hupdate, j.folder, hgiven, hq.2⟩
  · intro hf
    obtain ⟨folder, hfolder⟩ := hc.recorded hr h hf
    refine ⟨folder, hfolder, ?_⟩
    unfold Call.old
    rw [Maps.enter_old]
    unfold Call.key at hfolder
    rw [hfolder]
    rfl

end Call

/-- A ConfigMap with a value and the key of a URL. -/
def sampleTwoFiles : Item := sampleItem "ns" "a" "1" [("j.url", "http://host/j"), ("k", "v")]

/-- Its files are in `/data`. -/
def sampleFiled : World :=
  ((Call.upsert .configMap sampleTwoFiles "/data").run sampleEnv sampleCtx sampleWorld).2

/-- The cleanup once it is gone. -/
def sampleCleanup : Call := .cleanup .configMap (CachedItem.fromItem sampleTwoFiles).toRemovalItem

/-- The folder is the recorded one, where both files are removed. -/
theorem process_resource_footprint_sample :
    FileTree.Confined (sampleCleanup.Owns sampleEnv sampleCtx sampleFiled.maps)
        (sampleCleanup.OnTheWay sampleEnv) sampleFiled.sys.tree
        (sampleCleanup.run sampleEnv sampleCtx sampleFiled).2.sys.tree ∧
      (∃ folder, sampleFiled.maps.dest[sampleCleanup.key]? = some folder ∧
        (sampleCleanup.old sampleFiled).dest = folder) ∧
      ∀ p ∈ [["j", "data"], ["k", "data"]], sampleFiled.sys.tree.fileAt p ≠ none ∧
        (sampleCleanup.run sampleEnv sampleCtx sampleFiled).2.sys.tree.fileAt p = none := by
  have hfree : sampleTwoFiles.SlashFree .configMap :=
    Item.Accepted.slashFree ⟨by decide, by decide, by decide +kernel⟩
  have hmaps : sampleFiled.maps =
      (Maps.empty.enter .configMap sampleTwoFiles (some "/data") false).2 := rfl
  have hobject : sampleFiled.maps.object[((.configMap, "nsa") : MapKey)]? =
      some (.fromItem sampleTwoFiles) := by
    rw [hmaps, Maps.enter_object, if_pos (by decide)]
    rfl
  have hstale : (CachedItem.fromItem sampleTwoFiles).toRemovalItem ∈
      (staleItems sampleEnv .configMap "ns" [] sampleFiled).1 := by
    rw [staleItems_eq, List.mem_filterMap]
    exact ⟨(.configMap, "nsa"), (mem_staleKeys ..).2 ⟨_, hobject, by decide⟩, by rw [hobject]; rfl⟩
  have hfrom : Maps.SlashFreeFrom .empty sampleFiled.maps := by
    rw [hmaps]
    exact .enter .configMap _ (some "/data") false .start fun _ => hfree
  obtain ⟨hfiles, hfolder⟩ :=
    @process_resource_footprint sampleEnv sampleCtx sampleFiled.maps sampleFiled
      sampleCleanup hfrom .start (.stale hstale)
  exact ⟨hfiles, hfolder rfl, by decide +kernel⟩

end Sidecar
