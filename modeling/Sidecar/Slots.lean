import Sidecar.Plan

/-!
# Slots

A slot is what one data key of a resource occupies in a folder: `(kind, namespace, name, field, data
key, folder)`. It determines the path of the file. This module reads the slots off a plan: the
entries of the new item in its folder (written, or removed with the resource) and the leftovers of
the old item in the old folder, all of them distinct (`slots_plan_nodup`).
-/

namespace Sidecar

open Posix StateM

/-! ## Entries -/

/-- One data key of an item, in one of its fields. -/
structure Entry where
  contentType : String
  dataKey : String
  content : Content

def Entry.id (e : Entry) : String × String := (e.contentType, e.dataKey)

def fieldEntries {V : Type} (entries : BTreeMap V → List (String × Content)) (contentType : String)
    (field : Option (BTreeMap V)) : List Entry :=
  match field with
  | some m => (entries m).map fun e => ⟨contentType, e.1, e.2⟩
  | none => []

/-- `data`, which a Secret does not have as text. -/
def Item.textOf (kind : Kind) (item : Item) : Option (BTreeMap String) :=
  match kind with
  | .configMap => item.text
  | .secret => none

/-- The data keys of an item that are synced. -/
def Item.entries (kind : Kind) (item : Item) : List Entry :=
  fieldEntries textEntries contentTypeText (item.textOf kind) ++
    fieldEntries binEntries contentTypeBase64Binary item.binary

def Entry.job (destFolder : String) (item : Item) (remove : Bool) (e : Entry) : Job :=
  ⟨e.dataKey, e.content, destFolder, item, e.contentType, remove⟩

theorem contentType_of_mem {V : Type} {entries : BTreeMap V → List (String × Content)}
    {contentType : String} {field : Option (BTreeMap V)} {e : Entry}
    (he : e ∈ fieldEntries entries contentType field) : e.contentType = contentType := by
  cases field with
  | none => cases he
  | some m =>
    obtain ⟨kv, -, rfl⟩ := List.mem_map.1 he
    rfl

theorem contentType_ne : contentTypeText ≠ contentTypeBase64Binary := by decide

def fieldKeys {V : Type} (field : Option (BTreeMap V)) : List String :=
  match field with
  | some m => m.keys
  | none => []

theorem ids_fieldEntries {V : Type} (wrap : V → Content) (contentType : String)
    (field : Option (BTreeMap V)) :
    (fieldEntries (mapEntries wrap) contentType field).map Entry.id =
      (fieldKeys field).map fun k => (contentType, k) := by
  cases field with
  | none => rfl
  | some m =>
    simp only [fieldEntries, mapEntries, fieldKeys, ← Std.ExtTreeMap.map_fst_toList_eq_keys,
      List.map_map]
    rfl

theorem fieldKeys_nodup {V : Type} (field : Option (BTreeMap V)) : (fieldKeys field).Nodup := by
  cases field with
  | none => exact List.nodup_nil
  | some m => exact Std.ExtTreeMap.nodup_keys

theorem ids_entries (kind : Kind) (item : Item) :
    (item.entries kind).map Entry.id =
      (fieldKeys (item.textOf kind)).map (fun k => (contentTypeText, k)) ++
        (fieldKeys item.binary).map fun k => (contentTypeBase64Binary, k) := by
  unfold Item.entries
  rw [List.map_append]
  exact congrArg₂ (· ++ ·) (ids_fieldEntries _ _ _) (ids_fieldEntries _ _ _)

/-- The data keys of an item are distinct, field by field. -/
theorem ids_entries_nodup (kind : Kind) (item : Item) :
    ((item.entries kind).map Entry.id).Nodup := by
  rw [ids_entries, List.nodup_append]
  have hinj : ∀ ct : String, Function.Injective fun k : String => (ct, k) := fun ct k k' h =>
    (Prod.mk.inj h).2
  refine ⟨(fieldKeys_nodup _).map (hinj _), (fieldKeys_nodup _).map (hinj _), ?_⟩
  intro x hx y hy hxy
  obtain ⟨k, -, rfl⟩ := List.mem_map.1 hx
  obtain ⟨k', -, rfl⟩ := List.mem_map.1 hy
  exact contentType_ne (Prod.mk.inj hxy).1

/-- What the cache keeps of an item has its data keys. -/
theorem ids_toRemovalItem (kind : Kind) (item : Item) :
    ((CachedItem.fromItem item).toRemovalItem.entries kind).map Entry.id =
      (item.entries kind).map Entry.id := by
  have hmap : ∀ {V W : Type} (f : String → V → Option V) (g : String → Option V → W)
      (field : Option (BTreeMap V)),
      fieldKeys ((field.map fun m => m.map f).map fun m => m.map g) = fieldKeys field := by
    intro V W f g field
    cases field with
    | none => rfl
    | some m => simp [fieldKeys]
  rw [ids_entries, ids_entries]
  congr 2
  · cases kind with
    | configMap => exact hmap _ _ item.text
    | secret => rfl
  · exact hmap _ _ item.binary

/-! ## The jobs of a plan -/

/-- An entry of the old item is left over when the new one has no such key or another folder. -/
def isLeftover (old : Old) (kind : Kind) (item : Item) (dest : String) (e : Entry) : Bool :=
  decide (old.dest = dest → e.id ∉ (item.entries kind).map Entry.id)

def Old.leftovers (old : Old) (kind : Kind) (item : Item) (dest : String) : List Entry :=
  (old.item.entries kind).filter (isLeftover old kind item dest)

theorem jobs_append (as bs : List Action) : jobs (as ++ bs) = jobs as ++ jobs bs :=
  List.filterMap_append ..

theorem jobs_entryActions (destFolder : String) (item : Item) (contentType : String)
    (remove : Bool) (es : List (String × Content)) :
    jobs (entryActions destFolder item contentType remove es) =
      (es.map fun e => (⟨contentType, e.1, e.2⟩ : Entry)).map
        (Entry.job destFolder item remove) := by
  unfold jobs entryActions
  rw [List.filterMap_map, List.map_map]
  exact List.filterMap_eq_map (f := fun e : String × Content =>
    (⟨e.1, e.2, destFolder, item, contentType, remove⟩ : Job)) ▸ rfl

theorem jobs_applyPlan {V : Type} (item : Item) (dest : String) (isRemoved : Bool)
    (entries : BTreeMap V → List (String × Content)) (contentType : String) (found : Option String)
    (new : Option (BTreeMap V)) :
    jobs (applyPlan item dest isRemoved entries contentType found new) =
      (fieldEntries entries contentType new).map (Entry.job dest item isRemoved) := by
  unfold applyPlan
  cases new with
  | none => rfl
  | some fields =>
    have hfound : jobs (found.toList.map (Action.log .debug)) = [] := by cases found <;> rfl
    rw [jobs_append, hfound, List.nil_append, jobs_entryActions]
    rfl

theorem mem_fieldKeys {V : Type} (field : Option (BTreeMap V)) (k : String) :
    k ∈ fieldKeys field ↔ (field.any fun m => m.contains k) = true := by
  cases field with
  | none => simp [fieldKeys]
  | some m => simp [fieldKeys, Std.ExtTreeMap.mem_keys]

theorem jobs_dropPlan {V : Type} (wrap : V → Content) (kind : Kind) (item : Item) (old : Old)
    (dest : String) (contentType : String) (new oldField : Option (BTreeMap V))
    (hnew : ∀ k, (contentType, k) ∈ (item.entries kind).map Entry.id ↔ k ∈ fieldKeys new) :
    jobs (dropPlan old dest false (mapEntries wrap) contentType new oldField) =
      ((fieldEntries (mapEntries wrap) contentType oldField).filter
        (isLeftover old kind item dest)).map (Entry.job old.dest old.item true) := by
  unfold dropPlan
  cases oldField with
  | none => rfl
  | some oldFields =>
    simp only [Bool.false_eq_true, if_false, jobs_entryActions, fieldEntries]
    congr 1
    by_cases hdest : old.dest = dest
    · simp only [hdest, if_true, mapEntries, minusCommon, Std.ExtTreeMap.toList_filter,
        List.map_map, List.filter_map]
      congr 1
      refine List.filter_congr fun e _ => ?_
      have hmem := hnew e.1
      rw [mem_fieldKeys] at hmem
      simp only [Function.comp, isLeftover, hdest, Entry.id, forall_const, hmem]
      cases new.any fun m => m.contains e.1 <;> rfl
    · rw [if_neg hdest, List.filter_eq_self.2 fun e _ => by simp [isLeftover, hdest]]

theorem mem_ids_text (kind : Kind) (item : Item) (k : String) :
    (contentTypeText, k) ∈ (item.entries kind).map Entry.id ↔ k ∈ fieldKeys (item.textOf kind) := by
  rw [ids_entries]
  simp [contentType_ne.symm]

theorem mem_ids_binary (kind : Kind) (item : Item) (k : String) :
    (contentTypeBase64Binary, k) ∈ (item.entries kind).map Entry.id ↔
    k ∈ fieldKeys item.binary := by
  rw [ids_entries]
  simp [contentType_ne]

/-- The jobs of a removal: every entry of the item. -/
theorem jobs_plan_removed (kind : Kind) (item : Item) (old : Old) (dest : String) :
    jobs (plan kind item old dest true) = (item.entries kind).map (Entry.job dest item true) := by
  have hdrop : ∀ {V : Type} (entries : BTreeMap V → List (String × Content)) (ct : String)
      (new oldField : Option (BTreeMap V)),
      jobs (dropPlan old dest true entries ct new oldField) = [] := by
    intro V entries ct new oldField
    cases oldField <;> rfl
  cases kind with
  | configMap =>
    unfold plan fieldPlan Item.entries
    simp only [jobs_append, jobs_applyPlan, hdrop, List.append_nil, List.map_append]
    split <;> rfl
  | secret =>
    unfold plan fieldPlan Item.entries
    simp only [jobs_append, jobs_applyPlan, hdrop, List.append_nil, List.map_append]
    split <;> rfl

/-- The leftovers of one field. -/
def Old.leftoversIn {V : Type} (old : Old) (kind : Kind) (item : Item) (dest : String)
    (entries : BTreeMap V → List (String × Content)) (contentType : String)
    (oldField : Option (BTreeMap V)) : List Entry :=
  (fieldEntries entries contentType oldField).filter (isLeftover old kind item dest)

theorem Old.leftovers_eq (old : Old) (kind : Kind) (item : Item) (dest : String) :
    old.leftovers kind item dest =
      old.leftoversIn kind item dest textEntries contentTypeText (old.item.textOf kind) ++
        old.leftoversIn kind item dest binEntries contentTypeBase64Binary old.item.binary :=
  List.filter_append ..

/-- The jobs of an update, one field after the other: every entry of the field is written, then its
leftovers are removed. -/
theorem jobs_plan_update (kind : Kind) (item : Item) (old : Old) (dest : String) :
    jobs (plan kind item old dest false) =
      (fieldEntries textEntries contentTypeText (item.textOf kind)).map
        (Entry.job dest item false) ++
        (old.leftoversIn kind item dest textEntries contentTypeText (old.item.textOf kind)).map
          (Entry.job old.dest old.item true) ++
      ((fieldEntries binEntries contentTypeBase64Binary item.binary).map
        (Entry.job dest item false) ++
        (old.leftoversIn kind item dest binEntries contentTypeBase64Binary old.item.binary).map
          (Entry.job old.dest old.item true)) := by
  have htext := jobs_dropPlan Content.text kind item old dest contentTypeText
    (item.textOf kind) (old.item.textOf kind) (mem_ids_text kind item)
  have hbin := jobs_dropPlan Content.bin kind item old dest contentTypeBase64Binary
    item.binary old.item.binary (mem_ids_binary kind item)
  unfold Old.leftoversIn textEntries binEntries
  rw [← htext, ← hbin]
  cases kind with
  | configMap =>
    unfold plan fieldPlan
    simp only [jobs_append, jobs_applyPlan]
    split <;> rfl
  | secret =>
    unfold plan fieldPlan
    simp only [jobs_append, jobs_applyPlan]
    split <;> rfl

/-- The jobs of an update, but for their order: the entries of the item, and the leftovers. -/
theorem jobs_plan_perm (kind : Kind) (item : Item) (old : Old) (dest : String) :
    (jobs (plan kind item old dest false)).Perm
      ((item.entries kind).map (Entry.job dest item false) ++
        (old.leftovers kind item dest).map (Entry.job old.dest old.item true)) := by
  rw [jobs_plan_update, Old.leftovers_eq]
  unfold Item.entries
  rw [List.map_append, List.map_append]
  simp only [List.append_assoc]
  refine List.Perm.append_left _ ?_
  simp only [← List.append_assoc]
  exact List.Perm.append_right _ List.perm_append_comm

/-! ## Slots -/

structure Slot where
  kind : Kind
  ns : String
  name : String
  contentType : String
  dataKey : String
  folder : String
  deriving DecidableEq

namespace Slot

/-- What names a data key of a resource, wherever it is placed. -/
def id (slot : Slot) : DataId := ⟨slot.kind, slot.ns, slot.name, slot.contentType, slot.dataKey⟩

def filename (ctx : Ctx) (slot : Slot) : String :=
  if ctx.uniqueFilenames then
    uniqueFilename (dataFileName slot.dataKey) slot.ns slot.kind.asStr slot.name
  else dataFileName slot.dataKey

/-- The path the file of a slot is at. -/
def place (env : Env) (ctx : Ctx) (slot : Slot) : Path := env.place slot.folder (slot.filename ctx)

end Slot

/-- The slot an entry of an item takes in a folder. -/
def Entry.slot (kind : Kind) (ns name folder : String) (e : Entry) : Slot :=
  ⟨kind, ns, name, e.contentType, e.dataKey, folder⟩

def Job.slot (kind : Kind) (j : Job) : Slot :=
  ⟨kind, j.item.ns, j.item.name, j.contentType, j.dataKey, j.folder⟩

theorem Job.place_slot (env : Env) (ctx : Ctx) (kind : Kind) (j : Job) :
    j.place env ctx kind = (j.slot kind).place env ctx := rfl

theorem Job.reachable_slot (env : Env) (ctx : Ctx) (kind : Kind) (j : Job) (t : FileTree) :
    j.Reachable env ctx kind t = Walkable env (j.slot kind).folder
      ((j.slot kind).filename ctx) t := rfl

theorem slot_inj {kind : Kind} {ns name folder : String} {e e' : Entry}
    (h : e.slot kind ns name folder = e'.slot kind ns name folder) : e.id = e'.id := by
  simp only [Entry.slot, Slot.mk.injEq] at h
  exact Prod.ext h.2.2.2.1 h.2.2.2.2.1

theorem slot_congr {e e' : Entry} (h : e.id = e'.id) (kind : Kind) (ns name folder : String) :
    e.slot kind ns name folder = e'.slot kind ns name folder := by
  obtain ⟨h1, h2⟩ := Prod.mk.inj h
  unfold Entry.slot
  rw [h1, h2]

theorem slots_nodup {l : List Entry} (h : (l.map Entry.id).Nodup) (kind : Kind)
    (ns name folder : String) : (l.map (Entry.slot kind ns name folder)).Nodup := by
  rw [List.Nodup, List.pairwise_map] at h ⊢
  exact h.imp fun {a b} hab e => hab (slot_inj e)

/-- The slots of a plan are distinct. -/
theorem slots_plan_nodup (kind : Kind) (item : Item) (old : Old) (dest : String)
    (isRemoved : Bool) :
    ((jobs (plan kind item old dest isRemoved)).map (Job.slot kind)).Nodup := by
  cases isRemoved with
  | true =>
    rw [jobs_plan_removed, List.map_map]
    exact slots_nodup (ids_entries_nodup kind item) kind item.ns item.name dest
  | false =>
    rw [((jobs_plan_perm kind item old dest).map _).nodup_iff, List.map_append, List.map_map,
      List.map_map, List.nodup_append]
    refine ⟨slots_nodup (ids_entries_nodup kind item) kind item.ns item.name dest, ?_, ?_⟩
    · refine slots_nodup ?_ kind old.item.ns old.item.name old.dest
      exact (ids_entries_nodup kind old.item).sublist (List.filter_sublist.map _)
    · -- a leftover is in another folder or under another key
      intro x hx y hy hxy
      obtain ⟨e, he, rfl⟩ := List.mem_map.1 hx
      obtain ⟨e', he', rfl⟩ := List.mem_map.1 hy
      obtain ⟨-, hleft⟩ := List.mem_filter.1 he'
      simp only [Job.slot, Entry.job, Function.comp, Slot.mk.injEq] at hxy
      have hid : e.id = e'.id := Prod.ext hxy.2.2.2.1 hxy.2.2.2.2.1
      refine (of_decide_eq_true hleft) hxy.2.2.2.2.2.symm ?_
      rw [← hid]
      exact List.mem_map_of_mem he

/-! ## What a performed plan does to a slot -/

section Performed

variable {env : Env} {ctx : Ctx} {kind : Kind} {js : List Job} {done : List (Job × ByteArray)}
  {s : Sys} {out : Bool × Sys}

/-- The bytes last handed to a write of a data key. -/
def lastProduced (id : DataId) (l : List (DataId × ByteArray)) : Option ByteArray :=
  (l.reverse.find? fun p => p.1 = id).map Prod.snd

theorem lastProduced_append (id : DataId) (l l' : List (DataId × ByteArray)) :
    lastProduced id (l ++ l') = (lastProduced id l').or (lastProduced id l) := by
  unfold lastProduced
  rw [List.reverse_append, List.find?_append]
  cases l'.reverse.find? fun p => p.1 = id <;> rfl

theorem lastProduced_eq_none {id : DataId} {l : List (DataId × ByteArray)}
    (h : ∀ p ∈ l, p.1 ≠ id) : lastProduced id l = none := by
  unfold lastProduced
  rw [List.find?_eq_none.2 fun p hp => by simpa using h p (List.mem_reverse.1 hp)]
  rfl

theorem mem_of_lastProduced {id : DataId} {l : List (DataId × ByteArray)} {data : ByteArray}
    (h : lastProduced id l = some data) : (id, data) ∈ l := by
  unfold lastProduced at h
  obtain ⟨p, hp, rfl⟩ := Option.map_eq_some_iff.1 h
  have hid := List.find?_some hp
  have hmem := List.mem_reverse.1 (List.mem_of_find?_eq_some hp)
  rwa [← of_decide_eq_true hid]

theorem lastProduced_of_unique {id : DataId} {l : List (DataId × ByteArray)} {data : ByteArray}
    (hmem : (id, data) ∈ l) (huniq : ∀ p ∈ l, p.1 = id → p.2 = data) :
    lastProduced id l = some data := by
  unfold lastProduced
  cases hf : l.reverse.find? fun p => p.1 = id with
  | none => exact absurd (List.find?_eq_none.1 hf _ (List.mem_reverse.2 hmem)) (by simp)
  | some p =>
    have hid := List.find?_some hf
    rw [Option.map_some, huniq p (List.mem_reverse.1 (List.mem_of_find?_eq_some hf))
      (of_decide_eq_true hid)]

theorem Job.assign_of_remove {j : Job} (hr : j.remove = true) (data : ByteArray) :
    j.assign env ctx kind data = ⟨j.place env ctx kind, none⟩ := by
  unfold Job.assign
  rw [hr]
  rfl

theorem Job.assign_of_write {j : Job} (hr : j.remove = false) (data : ByteArray) :
    j.assign env ctx kind data = ⟨j.place env ctx kind, some data⟩ := by
  unfold Job.assign
  rw [hr]
  rfl

theorem Performed.path_eq (h : Performed env ctx kind js done s out) :
    (done.map fun d => d.1.assign env ctx kind d.2).map Store.Assign.path =
      js.map (Job.place env ctx kind) := by
  rw [← h.jobs, List.map_map, List.map_map]
  rfl

/-- A path that is no job's keeps its file. -/
theorem Performed.file_other (h : Performed env ctx kind js done s out) {p : Path}
    (hp : ∀ j ∈ js, j.place env ctx kind ≠ p) : out.2.tree.fileAt p = s.tree.fileAt p := by
  rw [h.files]
  refine Store.apply_of_not_mem fun a ha => ?_
  obtain ⟨d, hd, rfl⟩ := List.mem_map.1 ha
  exact hp d.1 (h.jobs ▸ List.mem_map_of_mem hd)

/-- A place tells which job and which bytes. -/
theorem Performed.unique (h : Performed env ctx kind js done s out)
    (hn : (js.map (Job.place env ctx kind)).Nodup) {d d' : Job × ByteArray} (hd : d ∈ done)
    (hd' : d' ∈ done) (hp : d.1.place env ctx kind = d'.1.place env ctx kind) : d = d' := by
  rw [← h.jobs, List.map_map] at hn
  exact List.inj_on_of_nodup_map hn hd hd' hp

theorem Performed.settled (h : Performed env ctx kind js done s out)
    (hn : (js.map (Job.place env ctx kind)).Nodup) {d : Job × ByteArray} (hd : d ∈ done) :
    Store.Settled env.sha256 out.2.tree.fileAt (d.1.assign env ctx kind d.2) := by
  rw [← h.path_eq] at hn
  rw [h.files]
  exact Store.settled_of_mem hn (List.mem_map.2 ⟨d, hd, rfl⟩)

/-- A removed file is gone. -/
theorem Performed.file_removed (h : Performed env ctx kind js done s out)
    (hn : (js.map (Job.place env ctx kind)).Nodup) {j : Job} (hj : j ∈ js)
    (hr : j.remove = true) : out.2.tree.fileAt (j.place env ctx kind) = none := by
  rw [← h.jobs] at hj
  obtain ⟨d, hd, rfl⟩ := List.mem_map.1 hj
  have hset := h.settled hn hd
  rw [Job.assign_of_remove hr] at hset
  exact Option.map_eq_none_iff.1 hset

/-- A written file has the bytes computed for it, or old ones with the same digest. -/
theorem Performed.file_written (h : Performed env ctx kind js done s out)
    (hn : (js.map (Job.place env ctx kind)).Nodup) {d : Job × ByteArray}
    (hd : d ∈ done) (hr : d.1.remove = false) :
    out.2.tree.fileAt (d.1.place env ctx kind) = some d.2 ∨
      ∃ data, out.2.tree.fileAt (d.1.place env ctx kind) = some data ∧
        s.tree.fileAt (d.1.place env ctx kind) = some data ∧ env.sha256 data = env.sha256 d.2 := by
  have hset := h.settled hn hd
  rw [Job.assign_of_write hr] at hset
  obtain ⟨data, hdata, hdig⟩ := Option.map_eq_some_iff.1 hset
  dsimp only at hdata
  obtain hold | ⟨a, ha, hpath, hvalue⟩ := Store.apply_cases env.sha256
    s.tree.fileAt (done.map fun d => d.1.assign env ctx kind d.2) (d.1.place env ctx kind)
  · rw [← h.files] at hold
    exact .inr ⟨data, hdata, hold ▸ hdata, hdig⟩
  · have hsame : a = d.1.assign env ctx kind d.2 :=
      List.inj_on_of_nodup_map (h.path_eq ▸ hn) ha (List.mem_map.2 ⟨d, hd, rfl⟩)
        (hpath.trans (by rw [Job.assign_of_write hr]))
    rw [← h.files, hsame, Job.assign_of_write hr] at hvalue
    exact .inl hvalue

end Performed

end Sidecar
