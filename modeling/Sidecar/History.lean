import Sidecar.Steps

/-!
# Histories of calls

A run is a sequence of `process_resource` calls as the list pass and the watch loop make them, with
anything in between that leaves files and maps alone. From its calls follow the version of each
resource that is tracked, the folder it was last given, and so what `object` and `dest` hold
(`Reaches.tracks`). `Walked` adds that the files of the run can be walked to; under it a call
without a failure performs its plan (`Walked.performed`).
-/

namespace Sidecar

open Posix StateM

/-! ## Calls -/

/-- A call of `process_resource`, as the list pass makes it (`upsert`, `cleanup`) and as the watch
loop makes it (`upsert`, `delete`). -/
inductive Call
  | upsert (kind : Kind) (item : Item) (folder : String)
  | delete (kind : Kind) (item : Item) (folder : String)
  | cleanup (kind : Kind) (item : Item)

namespace Call

def kind : Call → Kind
  | upsert kind .. | delete kind .. | cleanup kind .. => kind

def item : Call → Item
  | upsert _ item _ | delete _ item _ | cleanup _ item => item

def folder? : Call → Option String
  | upsert _ _ folder | delete _ _ folder => some folder
  | cleanup .. => none

def isRemoved : Call → Bool
  | upsert .. => false
  | delete .. | cleanup .. => true

def key (c : Call) : MapKey := (c.kind, c.item.key)

def run (env : Env) (ctx : Ctx) (c : Call) : StateM World Bool :=
  processResource env ctx c.kind c.item c.folder? c.isRemoved

end Call

/-- The version of a resource that is tracked after the calls, given latest first. -/
def tracked (calls : List Call) (k : MapKey) : Option Item :=
  match calls with
  | [] => none
  | c :: cs => if c.key = k then (if c.isRemoved then none else some c.item) else tracked cs k

/-- The folder of the last update of a resource; a removal does not forget it. -/
def lastFolder (calls : List Call) (k : MapKey) : Option String :=
  match calls with
  | [] => none
  | c :: cs => if c.isRemoved = false ∧ c.key = k then c.folder? else lastFolder cs k

/-- `DELETED` carries the data of the version last processed; the stale cleanup removes an entry of
`object`. -/
def Call.Allowed (calls : List Call) (w : World) : Call → Prop
  | .upsert .. => True
  | .delete kind item _ => ∀ v, tracked calls (kind, item.key) = some v →
      item.text = v.text ∧ item.binary = v.binary
  | .cleanup kind item => ∃ cached, w.maps.object[((kind, item.key) : MapKey)]? = some cached ∧
      item = cached.toRemovalItem

/-- Neither files nor the two maps of `process_resource` change. -/
structure Idle (w w' : World) : Prop where
  sys : Silent w.sys w'.sys
  object : w'.maps.object = w.maps.object
  dest : w'.maps.dest = w.maps.dest

/-- The runs from a world, with their calls latest first. -/
inductive Reaches (env : Env) (ctx : Ctx) (w₀ : World) : List Call → World → Prop
  | start : Reaches env ctx w₀ [] w₀
  | call {calls : List Call} {w : World} (c : Call) : Reaches env ctx w₀ calls w →
    c.Allowed calls w → Reaches env ctx w₀ (c :: calls) (c.run env ctx w).2
  | idle {calls : List Call} {w w' : World} : Reaches env ctx w₀ calls w → Idle w w' →
    Reaches env ctx w₀ calls w'

/-! ## The slots of a run -/

def Call.sameResource (c c' : Call) : Prop :=
  c.kind = c'.kind ∧ c.item.ns = c'.item.ns ∧ c.item.name = c'.item.name

/-- The slots that a data key of some version of a resource can take in some folder the resource
was given. -/
def Occurs (calls : List Call) (slot : Slot) : Prop :=
  ∃ c ∈ calls, ∃ c' ∈ calls, c.sameResource c' ∧ ∃ e ∈ c.item.entries c.kind,
    ∃ folder, c'.folder? = some folder ∧ slot = e.slot c.kind c.item.ns c.item.name folder

/-- Resources of one kind that occur have distinct keys. -/
def DistinctKeys (calls : List Call) : Prop :=
  ∀ c ∈ calls, ∀ c' ∈ calls, c.key = c'.key → c.sameResource c'

/-- The slots of a run, listed. -/
def slotsOf (calls : List Call) : List Slot :=
  calls.flatMap fun c => calls.flatMap fun c' =>
    if c.kind = c'.kind ∧ c.item.ns = c'.item.ns ∧ c.item.name = c'.item.name then
      c'.folder?.toList.flatMap fun folder =>
        (c.item.entries c.kind).map (Entry.slot c.kind c.item.ns c.item.name folder)
    else []

theorem mem_slotsOf {calls : List Call} {slot : Slot} : slot ∈ slotsOf calls ↔
    Occurs calls slot := by
  unfold slotsOf Occurs Call.sameResource
  simp only [List.mem_flatMap]
  refine exists_congr fun c => and_congr_right fun _ => exists_congr fun c' =>
    and_congr_right fun _ => ?_
  split
  · next h =>
    simp only [h, and_self, true_and, List.mem_flatMap, List.mem_map, Option.mem_toList]
    constructor
    · rintro ⟨folder, hf, e, he, rfl⟩
      exact ⟨e, he, folder, hf, rfl⟩
    · rintro ⟨e, he, folder, hf, rfl⟩
      exact ⟨folder, hf, e, he, rfl⟩
  · next h => simp [h]

theorem Occurs.mono {calls calls' : List Call} (h : ∀ c ∈ calls, c ∈ calls') {slot : Slot}
    (ho : Occurs calls slot) : Occurs calls' slot := by
  obtain ⟨c, hc, c', hc', hrest⟩ := ho
  exact ⟨c, h c hc, c', h c' hc', hrest⟩

/-! ## Maps and histories -/

/-- The slot of a data key of a tracked resource, in its folder. -/
def Holds (calls : List Call) (slot : Slot) : Prop :=
  ∃ v, tracked calls (slot.kind, v.key) = some v ∧
    lastFolder calls (slot.kind, v.key) = some slot.folder ∧
    ∃ e ∈ v.entries slot.kind, slot = e.slot slot.kind v.ns v.name slot.folder

/-- The maps know which resources are tracked, and the last folders. -/
structure Tracks (calls : List Call) (m : Maps) : Prop where
  object : ∀ k : MapKey, m.object[k]? = (tracked calls k).map .fromItem
  dest : ∀ k : MapKey, m.dest[k]? = lastFolder calls k

theorem tracked_cons (c : Call) (cs : List Call) (k : MapKey) : tracked (c :: cs) k =
    if c.key = k then (if c.isRemoved then none else some c.item) else tracked cs k := rfl

theorem lastFolder_cons (c : Call) (cs : List Call) (k : MapKey) : lastFolder (c :: cs) k =
    if c.isRemoved = false ∧ c.key = k then c.folder? else lastFolder cs k := rfl

theorem tracked_cons_self (c : Call) (cs : List Call) :
    tracked (c :: cs) c.key = if c.isRemoved then none else some c.item := if_pos rfl

theorem tracked_cons_of_ne {c : Call} {k : MapKey} (h : c.key ≠ k) (cs : List Call) :
    tracked (c :: cs) k = tracked cs k := if_neg h

theorem lastFolder_cons_of_ne {c : Call} {k : MapKey} (h : c.key ≠ k) (cs : List Call) :
    lastFolder (c :: cs) k = lastFolder cs k := if_neg fun hc => h hc.2

theorem exists_call_of_tracked {calls : List Call} {k : MapKey} {v : Item}
    (h : tracked calls k = some v) : ∃ c ∈ calls, c.key = k ∧ c.item = v := by
  induction calls with
  | nil => cases h
  | cons c cs ih =>
    unfold tracked at h
    split at h
    · next hk =>
      split at h
      · cases h
      · exact ⟨c, List.mem_cons_self, hk, Option.some.inj h⟩
    · obtain ⟨c', hc', hrest⟩ := ih h
      exact ⟨c', List.mem_cons_of_mem c hc', hrest⟩

theorem exists_call_of_lastFolder {calls : List Call} {k : MapKey} {folder : String}
    (h : lastFolder calls k = some folder) : ∃ c ∈ calls, c.key = k ∧ c.folder? = some folder := by
  induction calls with
  | nil => cases h
  | cons c cs ih =>
    unfold lastFolder at h
    split at h
    · next hk => exact ⟨c, List.mem_cons_self, hk.2, h⟩
    · obtain ⟨c', hc', hrest⟩ := ih h
      exact ⟨c', List.mem_cons_of_mem c hc', hrest⟩

theorem folder_of_update {c : Call} (h : c.isRemoved = false) :
    ∃ folder, c.folder? = some folder := by
  cases c with
  | upsert _ _ folder => exact ⟨folder, rfl⟩
  | delete => cases h
  | cleanup => cases h

/-- A tracked resource has a folder. -/
theorem lastFolder_of_tracked {calls : List Call} {k : MapKey} {v : Item}
    (h : tracked calls k = some v) : ∃ folder, lastFolder calls k = some folder := by
  induction calls with
  | nil => cases h
  | cons c cs ih =>
    unfold tracked at h
    unfold lastFolder
    by_cases hk : c.key = k
    · rw [if_pos hk] at h
      cases hr : c.isRemoved with
      | true => rw [hr] at h; cases h
      | false =>
        rw [if_pos ⟨rfl, hk⟩]
        exact folder_of_update hr
    · rw [if_neg hk] at h
      rw [if_neg fun hc => hk hc.2]
      exact ih h

/-- The slots of a tracked resource are slots of the run. -/
theorem occurs_of_tracked {calls : List Call} (hkeys : DistinctKeys calls) {kind : Kind} {v : Item}
    {folder : String} (hv : tracked calls (kind, v.key) = some v)
    (hf : lastFolder calls (kind, v.key) = some folder) {e : Entry} (he : e ∈ v.entries kind) :
    Occurs calls (e.slot kind v.ns v.name folder) := by
  obtain ⟨c, hc, hck, hcv⟩ := exists_call_of_tracked hv
  obtain ⟨c', hc', hck', hcf⟩ := exists_call_of_lastFolder hf
  obtain rfl : c.kind = kind := congrArg Prod.fst hck
  exact ⟨c, hc, c', hc', hkeys c hc c' hc' (hck.trans hck'.symm), e, hcv ▸ he, folder, hcf,
    by rw [hcv]⟩

/-! ## One call -/

/-- The old item and folder of a call. -/
def Call.old (c : Call) (w : World) : Old := (w.maps.enter c.kind c.item c.folder? c.isRemoved).1

def Call.dest (c : Call) (w : World) : String :=
  if c.isRemoved then (c.old w).dest else c.folder?.getD ""

def Call.jobs (c : Call) (w : World) : List Job :=
  Sidecar.jobs (plan c.kind c.item (c.old w) (c.dest w) c.isRemoved)

section Step

variable {calls : List Call} {w : World} {c : Call} (hs : Tracks calls w.maps)
  (hc : c.Allowed calls w) (hkeys : DistinctKeys (c :: calls))
include hs

/-- The old item has the data keys of some version of the resource. -/
theorem Tracks.old_item :
    ∃ c₁ ∈ c :: calls, c₁.key = c.key ∧ (c.old w).item.ns = c₁.item.ns ∧
      (c.old w).item.name = c₁.item.name ∧
      ((c.old w).item.entries c.kind).map Entry.id = (c₁.item.entries c.kind).map Entry.id ∧
      ∀ v, tracked calls c.key = some v → c₁.item = v := by
  unfold Call.old
  rw [Maps.enter_old]
  unfold Maps.oldItem
  have hobj := hs.object c.key
  cases hv : tracked calls c.key with
  | none =>
    rw [hv] at hobj
    have hobj' : w.maps.object[((c.kind, c.item.key) : MapKey)]? = none := hobj
    refine ⟨c, List.mem_cons_self, rfl, ?_⟩
    rw [hobj']
    exact ⟨rfl, rfl, ids_toRemovalItem c.kind c.item, by simp⟩
  | some v =>
    rw [hv] at hobj
    have hobj' : w.maps.object[((c.kind, c.item.key) : MapKey)]? = some (.fromItem v) := hobj
    obtain ⟨c₁, hc₁, hk, rfl⟩ := exists_call_of_tracked hv
    refine ⟨c₁, List.mem_cons_of_mem c hc₁, hk, ?_⟩
    rw [hobj']
    exact ⟨rfl, rfl, ids_toRemovalItem c.kind c₁.item, by simp⟩

/-- The old folder is the last one the resource was given, or the call's own. -/
theorem Tracks.old_dest :
    (c.old w).dest = ((lastFolder calls c.key).or c.folder?).getD "" := by
  unfold Call.old
  rw [Maps.enter_old, ← hs.dest c.key]
  rfl

include hc in
theorem Tracks.old_dest_call : ∃ c₂ ∈ c :: calls, c₂.key = c.key ∧
    c₂.folder? = some (c.old w).dest := by
  rw [hs.old_dest]
  cases hf : lastFolder calls c.key with
  | some folder =>
    obtain ⟨c₂, hc₂, hk, hfolder⟩ := exists_call_of_lastFolder hf
    exact ⟨c₂, List.mem_cons_of_mem c hc₂, hk, hfolder⟩
  | none =>
    cases hcf : c.folder? with
    | some folder => exact ⟨c, List.mem_cons_self, rfl, hcf⟩
    | none =>
      -- a stale resource is tracked, so it has a folder
      cases c with
      | upsert => cases hcf
      | delete => cases hcf
      | cleanup kind item =>
        obtain ⟨cached, hcached, -⟩ := hc
        have hobj := hs.object (Call.cleanup kind item).key
        have hcached' : w.maps.object[(Call.cleanup kind item).key]? = some cached := hcached
        rw [hcached'] at hobj
        obtain ⟨v, hv, -⟩ := Option.map_eq_some_iff.1 hobj.symm
        obtain ⟨folder, hf'⟩ := lastFolder_of_tracked hv
        rw [hf'] at hf
        cases hf

omit hs in
/-- The jobs of an update. -/
theorem mem_jobs_update (hr : c.isRemoved = false) (j : Job) :
    j ∈ c.jobs w ↔ (∃ e ∈ c.item.entries c.kind, j = e.job (c.dest w) c.item false) ∨
      ∃ e ∈ (c.old w).leftovers c.kind c.item (c.dest w),
        j = e.job (c.old w).dest (c.old w).item true := by
  unfold Call.jobs
  rw [hr, (jobs_plan_perm ..).mem_iff, List.mem_append, List.mem_map, List.mem_map]
  simp only [eq_comm]

omit hs in
/-- Among them is every data key of the resource, once the call is made. -/
theorem Call.job_of_tracked {kind : Kind} {v : Item} {folder : String} {e : Entry}
    (hk : c.key = (kind, v.key)) (hv : tracked (c :: calls) (kind, v.key) = some v)
    (hfolder : lastFolder (c :: calls) (kind, v.key) = some folder) (he : e ∈ v.entries kind) :
    c.kind = kind ∧ e.job folder v false ∈ c.jobs w := by
  rw [← hk, tracked_cons_self] at hv
  cases hr : c.isRemoved with
  | true =>
    rw [hr] at hv
    cases hv
  | false =>
    rw [hr] at hv
    obtain rfl : c.item = v := Option.some.inj hv
    obtain rfl : c.kind = kind := congrArg Prod.fst hk
    rw [lastFolder_cons, if_pos ⟨hr, hk⟩] at hfolder
    have hdest : c.dest w = folder := by
      rw [Call.dest, hr, hfolder]
      rfl
    exact ⟨rfl, (mem_jobs_update hr _).2 (.inl ⟨e, he, by rw [hdest]⟩)⟩

omit hs in
/-- The jobs of a removal. -/
theorem mem_jobs_remove (hr : c.isRemoved = true) (j : Job) :
    j ∈ c.jobs w ↔ ∃ e ∈ c.item.entries c.kind, j = e.job (c.old w).dest c.item true := by
  unfold Call.jobs Call.dest
  rw [hr, if_pos rfl, jobs_plan_removed, List.mem_map]
  simp only [eq_comm]

include hc hkeys in
/-- A call touches slots of the run only. -/
theorem Tracks.jobs_occur {j : Job} (hj : j ∈ c.jobs w) : Occurs (c :: calls) (j.slot c.kind) := by
  obtain ⟨c₂, hc₂, hk₂, hfolder⟩ := hs.old_dest_call hc
  cases hr : c.isRemoved with
  | true =>
    obtain ⟨e, he, rfl⟩ := (mem_jobs_remove hr j).1 hj
    exact ⟨c, List.mem_cons_self, c₂, hc₂, hkeys _ List.mem_cons_self _ hc₂ hk₂.symm, e, he, _,
      hfolder, rfl⟩
  | false =>
    obtain ⟨e, he, rfl⟩ | ⟨e, he, rfl⟩ := (mem_jobs_update hr j).1 hj
    · obtain ⟨folder, hf⟩ := folder_of_update hr
      refine ⟨c, List.mem_cons_self, c, List.mem_cons_self, ⟨rfl, rfl, rfl⟩, e, he, folder, hf, ?_⟩
      simp [Job.slot, Entry.job, Entry.slot, Call.dest, hr, hf]
    · obtain ⟨c₁, hc₁, hk₁, hns, hname, hids, -⟩ := hs.old_item (c := c)
      have he' := List.mem_map_of_mem (f := Entry.id) (List.mem_filter.1 he).1
      rw [hids] at he'
      obtain ⟨e₁, he₁, hid⟩ := List.mem_map.1 he'
      have hkind : c₁.kind = c.kind := congrArg Prod.fst hk₁
      refine ⟨c₁, hc₁, c₂, hc₂, hkeys _ hc₁ _ hc₂ (hk₁.trans hk₂.symm), e₁, hkind ▸ he₁, _,
        hfolder, ?_⟩
      rw [hkind, slot_congr hid, ← hns, ← hname]
      rfl

include hc hkeys in
/-- A call on a resource has a job for every slot the resource held. -/
theorem Tracks.held_job {slot : Slot} (hh : Holds calls slot)
    (hk : (slot.kind, slot.ns ++ slot.name) = c.key) :
    ∃ j ∈ c.jobs w, j.slot c.kind = slot := by
  obtain ⟨v, hv, hf, e, he, hslot⟩ := hh
  have hkv : (slot.kind, v.key) = c.key := by
    rw [← hk, hslot]
    rfl
  have hkind : slot.kind = c.kind := congrArg Prod.fst hk
  rw [hkv] at hv hf
  rw [hkind] at he hslot
  obtain ⟨cv, hcv, hcvk, hcvv⟩ := exists_call_of_tracked hv
  have hsame := hkeys cv (List.mem_cons_of_mem c hcv) c List.mem_cons_self hcvk
  rw [Call.sameResource, hcvv] at hsame
  have hdest : (c.old w).dest = slot.folder := by
    rw [hs.old_dest, hf]
    rfl
  cases hr : c.isRemoved with
  | true =>
    -- the item that is removed has the data keys of the tracked version
    have hids : (c.item.entries c.kind).map Entry.id = (v.entries c.kind).map Entry.id := by
      cases c with
      | upsert => cases hr
      | delete kind item folder =>
        obtain ⟨htext, hbin⟩ := hc v hv
        rw [ids_entries, ids_entries]
        unfold Item.textOf
        rw [show (Call.delete kind item folder).item = item from rfl, htext, hbin]
      | cleanup kind item =>
        obtain ⟨cached, hcached, hitem⟩ := hc
        have hobj := hs.object (Call.cleanup kind item).key
        rw [hv, show w.maps.object[(Call.cleanup kind item).key]? =
          some cached from hcached] at hobj
        cases hobj
        rw [show (Call.cleanup kind item).item = item from rfl, hitem]
        exact ids_toRemovalItem _ v
    have he' := List.mem_map_of_mem (f := Entry.id) he
    rw [← hids] at he'
    obtain ⟨e₁, he₁, hid⟩ := List.mem_map.1 he'
    refine ⟨_, (mem_jobs_remove hr _).2 ⟨e₁, he₁, rfl⟩, ?_⟩
    rw [hslot, ← slot_congr hid, ← hdest, hsame.2.1, hsame.2.2]
    rfl
  | false =>
    obtain ⟨c₁, -, hk₁, hns, hname, hids, hc₁⟩ := hs.old_item (c := c)
    obtain rfl := hc₁ v hv
    by_cases hleft : slot.folder = c.dest w ∧ e.id ∈ (c.item.entries c.kind).map Entry.id
    · obtain ⟨e₁, he₁, hid⟩ := List.mem_map.1 hleft.2
      refine ⟨_, (mem_jobs_update hr _).2 (.inl ⟨e₁, he₁, rfl⟩), ?_⟩
      rw [hslot, ← slot_congr hid, hleft.1, hsame.2.1, hsame.2.2]
      rfl
    · have he' := List.mem_map_of_mem (f := Entry.id) he
      rw [← hids] at he'
      obtain ⟨e₁, he₁, hid⟩ := List.mem_map.1 he'
      refine ⟨_, (mem_jobs_update hr _).2 (.inr ⟨e₁, List.mem_filter.2 ⟨he₁, ?_⟩, rfl⟩), ?_⟩
      · rw [isLeftover, decide_eq_true_eq, hid, hdest]
        exact fun h1 h2 => hleft ⟨h1, h2⟩
      · rw [hslot, ← slot_congr hid, ← hns, ← hname, ← hdest]
        rfl

/-- A call keeps the maps in step with the history. -/
theorem Tracks.call :
    Tracks (c :: calls) (w.maps.enter c.kind c.item c.folder? c.isRemoved).2 := by
  constructor
  · intro k
    rw [Maps.enter_object, hs.object k, tracked_cons]
    unfold Call.key
    split
    · cases c.isRemoved <;> rfl
    · rfl
  · intro k
    rw [Maps.enter_dest, hs.dest k, lastFolder_cons]
    unfold Call.key
    split
    · next h =>
      obtain ⟨folder, hf⟩ := folder_of_update h.1
      rw [hf]
      rfl
    · rfl

include hkeys in
/-- The jobs of a call are about its resource. -/
theorem Tracks.jobs_resource {j : Job} (hj : j ∈ c.jobs w) :
    j.item.ns = c.item.ns ∧ j.item.name = c.item.name := by
  cases hr : c.isRemoved with
  | true =>
    obtain ⟨e, -, rfl⟩ := (mem_jobs_remove hr j).1 hj
    exact ⟨rfl, rfl⟩
  | false =>
    obtain ⟨e, -, rfl⟩ | ⟨e, -, rfl⟩ := (mem_jobs_update hr j).1 hj
    · exact ⟨rfl, rfl⟩
    · obtain ⟨c₁, hc₁, hk₁, hns, hname, -⟩ := hs.old_item (c := c)
      have hsame := hkeys _ hc₁ _ List.mem_cons_self hk₁
      exact ⟨hns.trans hsame.2.1, hname.trans hsame.2.2⟩

include hkeys in
/-- A slot of another resource is no job's. -/
theorem Tracks.job_ne {slot : Slot} (hne : c.key ≠ (slot.kind, slot.ns ++ slot.name)) {j : Job}
    (hj : j ∈ c.jobs w) : j.id c.kind ≠ slot.id := by
  intro hid
  obtain ⟨hns, hname⟩ := hs.jobs_resource hkeys hj
  simp only [Job.id, Slot.id, DataId.mk.injEq] at hid
  obtain ⟨hkind, hns', hname', -⟩ := hid
  exact hne (by rw [← hkind, ← hns', ← hname', hns, hname]; rfl)

end Step

/-! ## Runs without a failure -/

/-- What a call does to the process: it runs its plan. -/
def Call.act (env : Env) (ctx : Ctx) (c : Call) (w : World) : Bool × Sys :=
  runActions env ctx c.kind (plan c.kind c.item (c.old w) (c.dest w) c.isRemoved) w.sys

theorem Call.run_eq (env : Env) (ctx : Ctx) (c : Call) (w : World) :
    c.run env ctx w = ((c.act env ctx w).1,
      ⟨(c.act env ctx w).2, (w.maps.enter c.kind c.item c.folder? c.isRemoved).2⟩) :=
  processResource_eq ..

/-- The maps are in step with the history, and the files at the slots can be walked to. -/
structure Walked (env : Env) (ctx : Ctx) (S : Slot → Prop) (calls : List Call) (w : World) : Prop
    extends Tracks calls w.maps where
  walk : ∀ slot, S slot → w.sys.tree.fileAt (slot.place env ctx) ≠ none →
    Walkable env slot.folder (slot.filename ctx) w.sys.tree

section Walked

variable {env : Env} {ctx : Ctx} {S : Slot → Prop} {calls : List Call} {w : World} {c : Call}
  (hs : Walked env ctx S calls w) (hc : c.Allowed calls w) (hkeys : DistinctKeys (c :: calls))
  (hinj : ∀ x, S x → ∀ y, S y → x.place env ctx = y.place env ctx → x = y)
  (hcov : ∀ x, Occurs (c :: calls) x → S x)
include hs hc hkeys hinj hcov

theorem Walked.places_nodup : ((c.jobs w).map (Job.place env ctx c.kind)).Nodup := by
  have hslots : ((c.jobs w).map (Job.slot c.kind)).Nodup := slots_plan_nodup ..
  rw [List.Nodup, List.pairwise_map] at hslots ⊢
  refine hslots.imp_of_mem fun {a b} ha hb hab hp => hab ?_
  exact hinj _ (hcov _ (hs.jobs_occur hc hkeys ha)) _ (hcov _ (hs.jobs_occur hc hkeys hb)) hp

/-- A call without a failure performs its plan. -/
theorem Walked.performed (hfail : (c.act env ctx w).2.failures = w.sys.failures) :
    ∃ done, Performed env ctx c.kind (c.jobs w) done w.sys (c.act env ctx w) :=
  runActions_ok (hs.places_nodup hc hkeys hinj hcov)
    (fun j hj _ hf => hs.walk (j.slot c.kind) (hcov _ (hs.jobs_occur hc hkeys hj)) hf) hfail

/-- A slot that is no job's keeps its file. -/
theorem Walked.file_other {done : List (Job × ByteArray)}
    (hd : Performed env ctx c.kind (c.jobs w) done w.sys (c.act env ctx w)) {slot : Slot}
    (hslot : S slot) (hne : ∀ j ∈ c.jobs w, j.slot c.kind ≠ slot) :
    (c.act env ctx w).2.tree.fileAt (slot.place env ctx) = w.sys.tree.fileAt (slot.place env ctx) :=
  hd.file_other fun j hj hp =>
    hne j hj (hinj _ (hcov _ (hs.jobs_occur hc hkeys hj)) _ hslot hp)

omit hinj hcov hs hc hkeys in
theorem written_mem {done : List (Job × ByteArray)} {p : DataId × ByteArray}
    (h : p ∈ written c.kind done) :
    ∃ d ∈ done, d.1.remove = false ∧ p = (d.1.id c.kind, d.2) := by
  obtain ⟨d, hd, hp⟩ := List.mem_filterMap.1 h
  split at hp
  · cases hp
  · next hr => exact ⟨d, hd, by simpa using hr, (Option.some.inj hp).symm⟩

theorem Walked.walk_call {done : List (Job × ByteArray)}
    (hd : Performed env ctx c.kind (c.jobs w) done w.sys (c.act env ctx w)) {slot : Slot}
    (hslot : S slot) (hf : (c.act env ctx w).2.tree.fileAt (slot.place env ctx) ≠ none) :
    Walkable env slot.folder (slot.filename ctx) (c.act env ctx w).2.tree := by
  by_cases hjob : ∃ j ∈ c.jobs w, j.slot c.kind = slot
  · obtain ⟨j, hj, rfl⟩ := hjob
    cases hr : j.remove with
    | true => exact absurd (hd.file_removed (hs.places_nodup hc hkeys hinj hcov) hj hr) hf
    | false => exact hd.walk j hj hr
  · have hnot : ∀ j ∈ c.jobs w, j.slot c.kind ≠ slot := fun j hj e => hjob ⟨j, hj, e⟩
    rw [hs.file_other hc hkeys hinj hcov hd hslot hnot] at hf
    exact (hs.walk slot hslot hf).mono (runActions_touches env ctx c.kind _ w.sys).dirs

theorem Walked.call (hfail : (c.act env ctx w).2.failures = w.sys.failures) :
    Walked env ctx S (c :: calls) (c.run env ctx w).2 := by
  obtain ⟨done, hd⟩ := hs.performed hc hkeys hinj hcov hfail
  rw [Call.run_eq]
  exact {
    toTracks := hs.toTracks.call
    walk := fun slot hslot hf => hs.walk_call hc hkeys hinj hcov hd hslot hf }

end Walked

/-! ## Whole runs -/

theorem Tracks.idle {calls : List Call} {w w' : World} (hs : Tracks calls w.maps)
    (h : Idle w w') : Tracks calls w'.maps where
  object k := h.object ▸ hs.object k
  dest k := h.dest ▸ hs.dest k

/-- Maps in step with a history are well formed. -/
theorem Tracks.wf {calls : List Call} {m : Maps} (h : Tracks calls m) : m.WF where
  key k c hc := by
    rw [h.object] at hc
    obtain ⟨v, hv, rfl⟩ := Option.map_eq_some_iff.1 hc
    obtain ⟨c', -, rfl, rfl⟩ := exists_call_of_tracked hv
    rfl
  dest k hk := by
    rw [h.object] at hk
    obtain ⟨v, hv⟩ : ∃ v, tracked calls k = some v := by
      cases hv : tracked calls k with
      | none => rw [hv] at hk; exact absurd rfl hk
      | some v => exact ⟨v, rfl⟩
    obtain ⟨folder, hf⟩ := lastFolder_of_tracked hv
    rw [h.dest, hf]
    exact Option.some_ne_none folder

theorem Walked.idle {env : Env} {ctx : Ctx} {S : Slot → Prop} {calls : List Call} {w w' : World}
    (hs : Walked env ctx S calls w) (h : Idle w w') : Walked env ctx S calls w' where
  toTracks := hs.toTracks.idle h
  walk := by rw [h.sys.tree]; exact hs.walk

theorem Call.run_traceLe (env : Env) (ctx : Ctx) (c : Call) (w : World) :
    TraceLe w.sys (c.run env ctx w).2.sys := by
  rw [Call.run_eq]
  exact (runActions_touches env ctx c.kind _ w.sys).trace

theorem Reaches.traceLe {env : Env} {ctx : Ctx} {w₀ w : World} {calls : List Call}
    (h : Reaches env ctx w₀ calls w) : TraceLe w₀.sys w.sys := by
  induction h with
  | start => exact List.prefix_rfl
  | call c _ _ ih => exact ih.trans (c.run_traceLe env ctx _)
  | idle _ hidle ih => exact ih.trans hidle.sys.trace

/-- Where a run starts: empty maps, and no file at any of its slots. -/
structure Fresh (env : Env) (ctx : Ctx) (S : Slot → Prop) (w : World) : Prop where
  object : w.maps.object = ∅
  dest : w.maps.dest = ∅
  files : ∀ slot, S slot → w.sys.tree.fileAt (slot.place env ctx) = none

theorem Tracks.empty {m : Maps} (ho : m.object = ∅) (hd : m.dest = ∅) : Tracks [] m where
  object k := by rw [ho]; exact Std.ExtTreeMap.getElem?_empty
  dest k := by rw [hd]; exact Std.ExtTreeMap.getElem?_empty

/-- In every run the maps are in step with the history. -/
theorem Reaches.tracks {env : Env} {ctx : Ctx} {w₀ w : World} {calls : List Call}
    (h : Reaches env ctx w₀ calls w) (h₀ : Tracks [] w₀.maps) : Tracks calls w.maps := by
  induction h with
  | start => exact h₀
  | call c _ _ ih =>
    rw [Call.run_eq]
    exact ih.call
  | idle _ hidle ih => exact ih.idle hidle

theorem Fresh.walked {env : Env} {ctx : Ctx} {S : Slot → Prop} {w : World}
    (h : Fresh env ctx S w) : Walked env ctx S [] w where
  toTracks := .empty h.object h.dest
  walk slot hslot hf := absurd (h.files slot hslot) hf

end Sidecar
