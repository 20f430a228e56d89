import Sidecar.Remains

/-!
# Edits of a resource

One update of a tracked resource, run after run without a failing call: which files of the new
version it leaves, and which of the old version.
-/

namespace Sidecar

open Posix StateM

/-! ## File names -/

def Entry.fileName (e : Entry) : String := dataFileName e.dataKey

theorem Job.filename_eq_iff (ctx : Ctx) (kind : Kind) (j j' : Job) (hns : j.item.ns = j'.item.ns)
    (hname : j.item.name = j'.item.name) :
    j.filename ctx kind = j'.filename ctx kind ↔
    dataFileName j.dataKey = dataFileName j'.dataKey := by
  unfold Job.filename
  rw [hns, hname]
  split
  · constructor
    · intro h
      have hlist := congrArg String.toList h
      rw [uniqueFilename_toList, uniqueFilename_toList] at hlist
      simp only [List.append_cancel_left_eq, List.cons.injEq, true_and] at hlist
      exact String.toList_injective hlist
    · intro h
      rw [h]
  · exact Iff.rfl

/-- A resource whose names and data keys have no slash, as Kubernetes has none in them. -/
structure Item.SlashFree (kind : Kind) (item : Item) : Prop where
  ns : '/' ∉ item.ns.toList
  name : '/' ∉ item.name.toList
  keys : ∀ e ∈ item.entries kind, '/' ∉ e.dataKey.toList

theorem Item.Accepted.slashFree {kind : Kind} {item : Item} (h : item.Accepted kind) :
    item.SlashFree kind where
  ns hc := absurd (h.ns '/' hc) (by decide)
  name hc := absurd (h.name '/' hc) (by decide)
  keys e he hc := absurd (h.keys e he '/' hc) (by decide)

/-- The names of a resource have no slash, and so do its file names. -/
theorem Item.SlashFree.filename {kind : Kind} {item : Item} (h : item.SlashFree kind) {e : Entry}
    (he : e ∈ item.entries kind) (ctx : Ctx) (folder : String) (remove : Bool) :
    '/' ∉ ((e.job folder item remove).filename ctx kind).toList := by
  have hkey : '/' ∉ (dataFileName e.dataKey).toList := fun hc => h.keys e he (mem_dataFileName hc)
  have hhead : '/' ∉ "namespace_".toList := by decide
  unfold Job.filename Entry.job
  split
  · rw [uniqueFilename_toList]
    simp only [List.mem_append, List.mem_cons, not_or]
    exact ⟨hhead, h.ns, by decide, kind.slash_notMem, by decide, h.name, by decide, hkey⟩
  · exact hkey

theorem Item.Accepted.slash {kind : Kind} {item : Item} (h : item.Accepted kind) {e : Entry}
    (he : e ∈ item.entries kind) (ctx : Ctx) (folder : String) (remove : Bool) :
    '/' ∉ ((e.job folder item remove).filename ctx kind).toList :=
  h.slashFree.filename he ctx folder remove

/-! ## Entries by their fields -/

section Entries

variable {kind : Kind} {item : Item} {e : Entry}

theorem mem_entries_cases (he : e ∈ item.entries kind) :
    e.contentType = contentTypeText ∧ e.dataKey ∈ fieldKeys (item.textOf kind) ∨
      e.contentType = contentTypeBase64Binary ∧ e.dataKey ∈ fieldKeys item.binary := by
  have hid := List.mem_map_of_mem (f := Entry.id) he
  rcases List.mem_append.1 he with hmem | hmem
  · have htype := contentType_of_mem hmem
    rw [Entry.id, htype, mem_ids_text] at hid
    exact .inl ⟨htype, hid⟩
  · have htype := contentType_of_mem hmem
    rw [Entry.id, htype, mem_ids_binary] at hid
    exact .inr ⟨htype, hid⟩

theorem exists_text_entry {k : String} (h : k ∈ fieldKeys (item.textOf kind)) :
    ∃ e ∈ item.entries kind, e.contentType = contentTypeText ∧ e.dataKey = k := by
  obtain ⟨e, he, hid⟩ := List.mem_map.1 ((mem_ids_text kind item k).2 h)
  exact ⟨e, he, (Prod.mk.inj hid).1, (Prod.mk.inj hid).2⟩

theorem exists_binary_entry (kind : Kind) {k : String} (h : k ∈ fieldKeys item.binary) :
    ∃ e ∈ item.entries kind, e.contentType = contentTypeBase64Binary ∧ e.dataKey = k := by
  obtain ⟨e, he, hid⟩ := List.mem_map.1 ((mem_ids_binary kind item k).2 h)
  exact ⟨e, he, (Prod.mk.inj hid).1, (Prod.mk.inj hid).2⟩

end Entries

/-! ## The next version -/

/-- The process after an update. -/
def updated (env : Env) (ctx : Ctx) (kind : Kind) (item : Item) (dest : String) (w : World) : Sys :=
  (processResource env ctx kind item (some dest) false w).2.sys

/-- The files after an update. -/
def filesAfter (env : Env) (ctx : Ctx) (kind : Kind) (item : Item) (dest : String) (w : World) :
    Path → Option ByteArray := (updated env ctx kind item dest w).tree.fileAt

/-- A resource that is tracked with version `v` in `folder` is updated to `item` in `dest`, in a run
without a failing file-system call, and where digests tell the new contents from what is on disk. -/
structure NextVersion (env : Env) (ctx : Ctx) (w₀ : World) (calls : List Call)
    (w : World) (kind : Kind)
    (v : Item) (folder : String) (item : Item) (dest : String) : Prop where
  reaches : Reaches env ctx w₀ calls w
  start : Tracks [] w₀.maps
  tracked : tracked calls (kind, v.key) = some v
  folder : lastFolder calls (kind, v.key) = some folder
  ns : v.ns = item.ns
  name : v.name = item.name
  old_names : v.Accepted kind
  new_names : item.Accepted kind
  calm : (updated env ctx kind item dest w).ioErrors = w₀.sys.ioErrors
  told : ∀ e ∈ item.entries kind, (e.job dest item false).Told env ctx kind w.sys.tree.fileAt

/-- The leftovers of an entry's own field are removed after it is written; the leftovers of `data`
are removed before `binaryData` is written. -/
def RemovedAfter (e leftover : Entry) : Prop :=
  leftover.contentType = contentTypeText → e.contentType = contentTypeText

namespace NextVersion

variable {env : Env} {ctx : Ctx} {w₀ w : World} {calls : List Call} {kind : Kind} {v item : Item}
  {folder dest : String} (h : NextVersion env ctx w₀ calls w kind v folder item dest)
include h

theorem key_eq : v.key = item.key := by rw [Item.key, Item.key, h.ns, h.name]

theorem updated_eq : updated env ctx kind item dest w =
    (runActions env ctx kind (plan kind item ⟨v, folder⟩ dest false) w.sys).2 := by
  have htracks := h.reaches.tracks h.start
  refine processResource_update ?_
  rw [Maps.enter_old]
  unfold Maps.oldItem
  rw [htracks.object, htracks.dest, ← h.key_eq, h.tracked, h.folder]
  rfl

theorem calm_before : w.sys.ioErrors = w₀.sys.ioErrors := by
  have hcalm := h.calm
  rw [h.updated_eq] at hcalm
  exact (count_squeeze h.reaches.traceLe (runActions_touches env ctx kind _ w.sys).trace hcalm).1

theorem calm_step :
    (runActions env ctx kind (plan kind item ⟨v, folder⟩ dest false) w.sys).2.ioErrors =
      w.sys.ioErrors := by
  rw [← h.updated_eq, h.calm, h.calm_before]

theorem rooted_old {e : Entry} (he : e ∈ v.entries kind) (hd : e.decodes = true) :
    (e.job folder v false).Rooted env ctx kind w.sys.tree :=
  h.reaches.rooted h.calm_before h.tracked h.folder he hd

theorem rooted_new {e : Entry} (he : e ∈ item.entries kind) (hd : e.decodes = true) :
    (e.job dest item false).Rooted env ctx kind (updated env ctx kind item dest w).tree := by
  rw [h.updated_eq]
  refine runActions_rooted ?_ rfl hd h.calm_step
  rw [(jobs_plan_perm ..).mem_iff]
  exact List.mem_append_left _ (List.mem_map_of_mem he)

variable (hdec : ∀ e ∈ v.entries kind ++ item.entries kind, e.decodes = true)
include hdec

theorem target_old {e : Entry} (he : e ∈ v.entries kind) : v.target env ctx kind folder e =
    (e.job folder v false).filename ctx kind :: canon env.proc.cwd folder :=
  canon_join _ _ ((h.rooted_old he (hdec e (List.mem_append_left _ he))).plain
    (h.old_names.slash he ctx folder false))

theorem target_new {e : Entry} (he : e ∈ item.entries kind) : item.target env ctx kind dest e =
    (e.job dest item false).filename ctx kind :: canon env.proc.cwd dest :=
  canon_join _ _ ((h.rooted_new he (hdec e (List.mem_append_right _ he))).plain
    (h.new_names.slash he ctx dest false))

/-- An old and a new data key have one path if they have one file name in one directory. -/
theorem target_eq_iff {e e' : Entry} (he : e ∈ item.entries kind) (he' : e' ∈ v.entries kind) :
    v.target env ctx kind folder e' = item.target env ctx kind dest e ↔
      e'.fileName = e.fileName ∧ canon env.proc.cwd folder = canon env.proc.cwd dest := by
  rw [h.target_old hdec he', h.target_new hdec he, List.cons.injEq]
  exact and_congr_left' (Job.filename_eq_iff ctx kind _ _ h.ns h.name)

theorem target_inj {e e' : Entry} (he : e ∈ item.entries kind) (he' : e' ∈ item.entries kind)
    (ht : item.target env ctx kind dest e' = item.target env ctx kind dest e) :
    e'.fileName = e.fileName := by
  rw [h.target_new hdec he', h.target_new hdec he, List.cons.injEq] at ht
  exact (Job.filename_eq_iff ctx kind (e'.job dest item false)
    (e.job dest item false) rfl rfl).1 ht.1

/-- The jobs of the update, one after the other, when no leftover meets a file written before it. -/
theorem jobs_pairwise (hnames : ((item.entries kind).map Entry.fileName).Nodup)
    (hclear : ∀ e ∈ item.entries kind, ∀ e' ∈ Old.leftovers ⟨v, folder⟩ kind item dest,
      RemovedAfter e e' → v.target env ctx kind folder e' ≠ item.target env ctx kind dest e) :
    (jobs (plan kind item ⟨v, folder⟩ dest false)).Pairwise fun a b =>
      a.remove = false → b.place env ctx kind ≠ a.place env ctx kind := by
  have hnew : (item.entries kind).Pairwise fun e e' =>
      item.target env ctx kind dest e' ≠ item.target env ctx kind dest e := by
    rw [List.Nodup, List.pairwise_map] at hnames
    exact hnames.imp_of_mem fun {e e'} he he' hne ht => hne (h.target_inj hdec he he' ht).symm
  unfold Item.entries at hnew
  rw [List.pairwise_append] at hnew
  obtain ⟨htext, hbin, hfields⟩ := hnew
  have hremoved : ∀ l : List Entry, (l.map (Entry.job folder v true)).Pairwise fun a b =>
      a.remove = false → b.place env ctx kind ≠ a.place env ctx kind := fun l =>
    List.pairwise_map.2 (List.pairwise_of_forall fun _ _ hr => by cases hr)
  have hwrites : ∀ l : List Entry, (l.Pairwise fun e e' =>
      item.target env ctx kind dest e' ≠ item.target env ctx kind dest e) →
      (l.map (Entry.job dest item false)).Pairwise fun a b =>
        a.remove = false → b.place env ctx kind ≠ a.place env ctx kind := by
    intro l hl
    rw [List.pairwise_map]
    refine hl.imp ?_
    intro e e' hne _
    exact hne
  rw [Old.leftovers_eq] at hclear
  rw [jobs_plan_update, List.pairwise_append, List.pairwise_append, List.pairwise_append]
  refine ⟨⟨hwrites _ htext, hremoved _, ?_⟩, ⟨hwrites _ hbin, hremoved _, ?_⟩, ?_⟩
  · intro a ha b hb _
    obtain ⟨e, he, rfl⟩ := List.mem_map.1 ha
    obtain ⟨e', he', rfl⟩ := List.mem_map.1 hb
    exact hclear e (List.mem_append_left _ he) e' (List.mem_append_left _ he') fun _ =>
      contentType_of_mem he
  · intro a ha b hb _
    obtain ⟨e, he, rfl⟩ := List.mem_map.1 ha
    obtain ⟨e', he', rfl⟩ := List.mem_map.1 hb
    refine hclear e (List.mem_append_right _ he) e' (List.mem_append_right _ he') fun htype => ?_
    have hbinary := contentType_of_mem (List.mem_filter.1 he').1
    exact absurd (htype.symm.trans hbinary) contentType_ne
  · intro a ha b hb hr
    rcases List.mem_append.1 ha with ha | ha
    · obtain ⟨e, he, rfl⟩ := List.mem_map.1 ha
      rcases List.mem_append.1 hb with hb | hb
      · obtain ⟨e', he', rfl⟩ := List.mem_map.1 hb
        exact hfields e he e' he'
      · obtain ⟨e', he', rfl⟩ := List.mem_map.1 hb
        exact hclear e (List.mem_append_left _ he) e' (List.mem_append_right _ he') fun _ =>
          contentType_of_mem he
    · obtain ⟨e, -, rfl⟩ := List.mem_map.1 ha
      cases hr

/-- A leftover that is removed after a data key of the new version was written to its path takes the
file. -/
theorem taken (hnames : ((item.entries kind).map Entry.fileName).Nodup) {e e' : Entry}
    (he : e ∈ item.entries kind) (he' : e' ∈ Old.leftovers ⟨v, folder⟩ kind item dest)
    (hafter : RemovedAfter e e')
    (htarget : v.target env ctx kind folder e' = item.target env ctx kind dest e) :
    filesAfter env ctx kind item dest w (item.target env ctx kind dest e) = none := by
  have hold : e' ∈ v.entries kind := (List.mem_filter.1 he').1
  have hd : e'.decodes = true := hdec e' (List.mem_append_left _ hold)
  unfold filesAfter
  rw [h.updated_eq, ← htarget]
  refine update_removes he' hd (Job.findable_of_reachable (h.rooted_old hold hd).walk)
    ?_ h.calm_step
  rintro ⟨htype, x, hx, hxtype, -, hxtarget⟩
  -- another data key of the new version has another file name
  obtain rfl :=
    List.inj_on_of_nodup_map hnames hx he (h.target_inj hdec he hx (hxtarget.trans htarget))
  exact contentType_ne ((hafter htype).symm.trans hxtype)

/-- **The new version has its files** unless a leftover is removed after a data key of the same file
name was written. -/
theorem stored_iff (hnames : ((item.entries kind).map Entry.fileName).Nodup) :
    (∀ e ∈ item.entries kind, (e.job dest item false).Stored env ctx kind
      (filesAfter env ctx kind item dest w)) ↔
    (canon env.proc.cwd folder = canon env.proc.cwd dest →
      ∀ e ∈ item.entries kind, ∀ e' ∈ Old.leftovers ⟨v, folder⟩ kind item dest,
        RemovedAfter e e' → e'.fileName ≠ e.fileName) := by
  constructor
  · intro hstored hfolder e he e' he' hafter hfile
    have hold : e' ∈ v.entries kind := (List.mem_filter.1 he').1
    obtain ⟨data, -, hdata⟩ := hstored e he
    have hnone :=
      h.taken hdec hnames he he' hafter ((h.target_eq_iff hdec he hold).2 ⟨hfile, hfolder⟩)
    have hsome : filesAfter env ctx kind item dest w (item.target env ctx kind dest e) =
        some data := hdata
    rw [hnone] at hsome
    cases hsome
  · intro hclear e he
    unfold filesAfter
    rw [h.updated_eq]
    refine runActions_stored ?_ rfl (hdec e (List.mem_append_right _ he))
      (h.jobs_pairwise hdec hnames fun x hx e' he' hafter ht => ?_) (h.told e he) h.calm_step
    · rw [(jobs_plan_perm ..).mem_iff]
      exact List.mem_append_left _ (List.mem_map_of_mem he)
    · have hsame := (h.target_eq_iff hdec hx (List.mem_filter.1 he').1).1 ht
      exact hclear hsame.2 x hx e' he' hafter hsame.1

/-- **A leftover has no file** if no data key of the new version has its file name. -/
theorem gone {e' : Entry} (he' : e' ∈ Old.leftovers ⟨v, folder⟩ kind item dest)
    (hother : canon env.proc.cwd folder = canon env.proc.cwd dest →
      ∀ e ∈ item.entries kind, e'.fileName ≠ e.fileName) :
    filesAfter env ctx kind item dest w (v.target env ctx kind folder e') = none := by
  have hold : e' ∈ v.entries kind := (List.mem_filter.1 he').1
  have hd : e'.decodes = true := hdec e' (List.mem_append_left _ hold)
  unfold filesAfter
  rw [h.updated_eq]
  refine update_removes he' hd (Job.findable_of_reachable (h.rooted_old hold hd).walk)
    ?_ h.calm_step
  rintro ⟨-, x, hx, -, -, hxtarget⟩
  obtain ⟨hfile, hfolder⟩ := (h.target_eq_iff hdec hx hold).1 hxtarget.symm
  exact hother hfolder x hx hfile

end NextVersion

/-! ## Sample versions -/

/-- A version of the ConfigMap `ns/a`. -/
def sampleVersion (folder : Option String) (text : Option (List (String × String)))
    (binary : Option (List (String × ByteArray))) : Item :=
  .fromCm {
    metadata := ⟨some "ns", some "a", some "1",
      folder.map fun f => Std.ExtTreeMap.ofList [(sampleCtx.folderAnnotation, f)]⟩
    data := text.map fun l => Std.ExtTreeMap.ofList l
    binaryData := binary.map fun l => Std.ExtTreeMap.ofList l }

/-- The calls of a run in the small environment, latest first. -/
def sampleTrail : List Call → World
  | [] => sampleWorld
  | c :: calls => (c.run sampleEnv sampleCtx (sampleTrail calls)).2

theorem sampleTrail_reachable (calls : List Call) : (sampleTrail calls).maps.Reachable := by
  induction calls with
  | nil => exact .empty
  | cons c calls ih =>
    unfold sampleTrail
    rw [Call.run_eq]
    exact ih.enter ..

/-- The first version of a resource is added. -/
def sampleFirst (v : Item) (folder : String) : World :=
  ((Call.upsert .configMap v folder).run sampleEnv sampleCtx sampleWorld).2

theorem sample_next {v item : Item} {folder dest : String} (hns : v.ns = item.ns)
    (hname : v.name = item.name) (hv : v.Accepted .configMap) (hi : item.Accepted .configMap)
    (hcalm : (updated sampleEnv sampleCtx .configMap item dest (sampleFirst v folder)).ioErrors = 0)
    (htold : ∀ e ∈ item.entries .configMap,
      (e.job dest item false).Told sampleEnv sampleCtx .configMap
        (sampleFirst v folder).sys.tree.fileAt) :
    NextVersion sampleEnv sampleCtx sampleWorld [.upsert .configMap v folder] (sampleFirst v folder)
      .configMap v folder item dest where
  reaches := .call _ .start trivial
  start := .empty rfl rfl
  tracked := tracked_cons_self (.upsert .configMap v folder) []
  folder := if_pos ⟨rfl, rfl⟩
  ns := hns
  name := hname
  old_names := hv
  new_names := hi
  calm := hcalm
  told := htold

theorem told_of_none {env : Env} {ctx : Ctx} {kind : Kind} {j : Job}
    {files : Path → Option ByteArray}
    (hfile : files (j.place env ctx kind) = none) : j.Told env ctx kind files := by
  intro data _ b hb _
  rw [hfile] at hb
  cases hb

/-- Contents that are there already are the same contents. -/
theorem told_of_same {env : Env} {ctx : Ctx} {kind : Kind} {j : Job}
    {files : Path → Option ByteArray} (hkey : isUrlKey j.dataKey = false)
    (hfile : files (j.place env ctx kind) = some j.content.bytes) : j.Told env ctx kind files := by
  intro data hdata b hb _
  rw [hdata.of_plain hkey]
  rw [hfile] at hb
  exact (Option.some.inj hb).symm

end Sidecar
