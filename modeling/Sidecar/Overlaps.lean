import Sidecar.Sections
import Sidecar.Steps

/-!
# Overlapping watchers

Two watchers of one kind may both cover a resource, and then each processes every version of it. The
record of the resource, and the files of its last version, are in the end what one watcher leaves,
however the two interleave (`watchers_converge`): whichever comes last writes them again. A file of
an earlier version may stay where the last one has none, since one watcher can write it after the
other has moved the resource away; when no two calls overlap this does not happen either.
-/

namespace Sidecar

open Posix StateM Interleave

/-! ## Two watchers of one resource -/

/-- A version of a resource, and the folder it is put into. -/
structure Version where
  item : Item
  folder : String

/-- The slots of an item in a folder. -/
def Item.slots (kind : Kind) (item : Item) (folder : String) : List Slot :=
  (item.entries kind).map (Entry.slot kind item.ns item.name folder)

namespace Version

variable (env : Env) (ctx : Ctx) (kind : Kind)

def key (v : Version) : MapKey := (kind, v.item.key)

/-- What processing the version finds as old. -/
def old (m : Maps) (v : Version) : Old := (m.enter kind v.item (some v.folder) false).1

def slots (v : Version) : List Slot := v.item.slots kind v.folder

def oldSlots (m : Maps) (v : Version) : List Slot :=
  (v.old kind m).item.slots kind (v.old kind m).dest

def jobs (m : Maps) (v : Version) : List Job :=
  Sidecar.jobs (plan kind v.item (v.old kind m) v.folder false)

def call (v : Version) : StateM World Bool :=
  processResource env ctx kind v.item (some v.folder) false

def sections (v : Version) : Prog World Bool :=
  processSections env ctx kind v.item (some v.folder) false

end Version

section Watchers

variable (env : Env) (ctx : Ctx) (kind : Kind)

/-- A watcher processes the versions one after the other. -/
def watcher (vs : List Version) : Prog World Unit := Prog.each (Version.sections env ctx kind) vs

/-- A watcher whose calls of `process_resource` do not overlap with others. -/
def atomicWatcher (vs : List Version) : Prog World Unit :=
  Prog.each (fun v => Prog.atom (v.call env ctx kind)) vs

theorem watcher_run (vs : List Version) :
    (atomicWatcher env ctx kind vs).run = (watcher env ctx kind vs).run := by
  refine Prog.run_each_congr (fun v => ?_) vs
  rw [Prog.run_atom, Version.sections, processSections_run]
  rfl

variable (w : World) (vs : List Version)

/-- The slots that processing one of the versions may touch. -/
def Touchable (slot : Slot) : Prop := ∃ v ∈ vs, slot ∈ v.slots kind ∨ slot ∈ v.oldSlots kind w.maps

/-- The bytes of the data keys, and of the files there are. -/
def BytesAtHand (body : String → ByteArray) (b : ByteArray) : Prop :=
  (∃ v ∈ vs, ∃ e ∈ v.item.entries kind, keyBytes body e.dataKey e.content = some b) ∨
    ∃ slot, Touchable kind w vs slot ∧ w.sys.tree.fileAt (slot.place env ctx) = some b

/-- The versions of one resource, and of no other what is on record under its key: bodies depend on
their URL, data keys do not collide, distinct folder strings name distinct folders, digests tell the
bytes apart, and files that are there can be walked to. -/
structure SharedResource (body : String → ByteArray) : Prop where
  fetches : Fetches env ctx body
  same : ∀ v ∈ vs, ∀ v' ∈ vs, v.item.ns = v'.item.ns ∧ v.item.name = v'.item.name
  recorded : ∀ v ∈ vs, ∀ c, w.maps.object[v.key kind]? = some c → c.ns = v.item.ns ∧
    c.name = v.item.name
  apart : ∀ x, Touchable kind w vs x → ∀ y, Touchable kind w vs y →
    x.place env ctx = y.place env ctx → x = y
  told : ∀ a b, BytesAtHand env ctx kind w vs body a → BytesAtHand env ctx kind w vs body b →
    env.sha256 a = env.sha256 b → a = b
  walk : ∀ slot, Touchable kind w vs slot → w.sys.tree.fileAt (slot.place env ctx) ≠ none →
    Walkable env slot.folder (slot.filename ctx) w.sys.tree

/-- The maps have what they had at first of the resource, or one of the versions. -/
def Known (m : Maps) : Prop := ∀ v ∈ vs,
  (m.object[v.key kind]? = w.maps.object[v.key kind]? ∧
    m.dest[v.key kind]? = w.maps.dest[v.key kind]?) ∨
    ∃ u ∈ vs, m.object[v.key kind]? = some (.fromItem u.item) ∧ m.dest[v.key kind]? = some u.folder

/-- What every section keeps. -/
structure Sound (body : String → ByteArray) (w' : World) : Prop where
  trace : TraceLe w.sys w'.sys
  known : Known kind w vs w'.maps
  frame : ∀ p, (∀ slot, Touchable kind w vs slot → slot.place env ctx ≠ p) →
    w'.sys.tree.fileAt p = w.sys.tree.fileAt p
  walk : w'.sys.failures = w.sys.failures → ∀ slot, Touchable kind w vs slot →
    w'.sys.tree.fileAt (slot.place env ctx) ≠ none →
    Walkable env slot.folder (slot.filename ctx) w'.sys.tree
  bytes : w'.sys.failures = w.sys.failures → ∀ slot, Touchable kind w vs slot → ∀ b,
    w'.sys.tree.fileAt (slot.place env ctx) = some b → BytesAtHand env ctx kind w vs body b

end Watchers

section Steps

variable {env : Env} {ctx : Ctx} {kind : Kind} {w : World} {vs : List Version}
  {body : String → ByteArray} {v : Version} {w' : World}

theorem SharedResource.key_eq (h : SharedResource env ctx kind w vs body)
    {u : Version} (hv : v ∈ vs) (hu : u ∈ vs) :
    v.key kind = u.key kind := by
  obtain ⟨hns, hname⟩ := h.same v hv u hu
  unfold Version.key Item.key
  rw [hns, hname]

theorem SharedResource.sound (h : SharedResource env ctx kind w vs body) :
    Sound env ctx kind w vs body w where
  trace := List.prefix_rfl
  known _ _ := .inl ⟨rfl, rfl⟩
  frame _ _ := rfl
  walk _ := h.walk
  bytes _ slot hslot _ hb := .inr ⟨slot, hslot, hb⟩

theorem Version.old_eq (m : Maps) (v : Version) : v.old kind m =
    ⟨m.oldItem kind v.item, (m.dest[v.key kind]?.or (some v.folder)).getD ""⟩ := Maps.enter_old ..

theorem Version.mem_jobs (m : Maps) (v : Version) (j : Job) : j ∈ v.jobs kind m ↔
    (∃ e ∈ v.item.entries kind, j = e.job v.folder v.item false) ∨
      ∃ e ∈ (v.old kind m).leftovers kind v.item v.folder,
        j = e.job (v.old kind m).dest (v.old kind m).item true := by
  unfold Version.jobs
  rw [(jobs_plan_perm ..).mem_iff, List.mem_append, List.mem_map, List.mem_map]
  simp only [eq_comm]

/-- What the cache keeps of an item has its slots. -/
theorem Item.slots_retained (kind : Kind) (item : Item) (folder : String) :
    (CachedItem.fromItem item).toRemovalItem.slots kind folder = item.slots kind folder := by
  have hids := congrArg (List.map fun i : String × String =>
    (⟨kind, item.ns, item.name, i.1, i.2, folder⟩ : Slot)) (ids_toRemovalItem kind item)
  rw [List.map_map, List.map_map] at hids
  exact hids

/-- What a version finds as old is as at first, or another version. -/
theorem Known.oldSlots {m : Maps} (hm : Known kind w vs m) (hv : v ∈ vs) :
    v.oldSlots kind m = v.oldSlots kind w.maps ∨ ∃ u ∈ vs, v.oldSlots kind m = u.slots kind := by
  unfold Version.oldSlots
  rw [Version.old_eq, Version.old_eq]
  unfold Maps.oldItem
  rcases hm v hv with ⟨hobject, hdest⟩ | ⟨u, hu, hobject, hdest⟩
  · refine .inl ?_
    unfold Version.key at hobject hdest
    simp only [Version.key, hobject, hdest]
  · refine .inr ⟨u, hu, ?_⟩
    unfold Version.key at hobject hdest
    simp only [Version.key, hobject, hdest]
    exact Item.slots_retained kind u.item u.folder

theorem Known.old_item {m : Maps} (hm : Known kind w vs m)
    (h : SharedResource env ctx kind w vs body) (hv : v ∈ vs) : (v.old kind m).item.ns = v.item.ns ∧
    (v.old kind m).item.name = v.item.name := by
  rw [Version.old_eq]
  unfold Maps.oldItem
  dsimp only
  cases hobject : m.object[((kind, v.item.key) : MapKey)]? with
  | none => exact ⟨rfl, rfl⟩
  | some c =>
    rcases hm v hv with ⟨hfirst, -⟩ | ⟨u, hu, hlater, -⟩
    · exact h.recorded v hv c (hfirst.symm.trans hobject)
    · obtain rfl := Option.some.inj (hobject.symm.trans hlater)
      exact h.same u hu v hv

/-- The jobs of a version are about touchable slots. -/
theorem Known.job_touchable {m : Maps} (hm : Known kind w vs m) (hv : v ∈ vs) {j : Job}
    (hj : j ∈ v.jobs kind m) : Touchable kind w vs (j.slot kind) := by
  rcases (Version.mem_jobs m v j).1 hj with ⟨e, he, rfl⟩ | ⟨e, he, rfl⟩
  · exact ⟨v, hv, .inl (List.mem_map_of_mem he)⟩
  · have hslot : (e.job (v.old kind m).dest (v.old kind m).item true).slot kind ∈
      v.oldSlots kind m :=
      List.mem_map_of_mem (List.mem_filter.1 he).1
    rcases hm.oldSlots hv with hold | ⟨u, hu, hold⟩
    · exact ⟨v, hv, .inr (hold ▸ hslot)⟩
    · exact ⟨u, hu, .inl (hold ▸ hslot)⟩

theorem SharedResource.known (h : SharedResource env ctx kind w vs body) (m : Maps) (hv : v ∈ vs) :
    Known kind w vs (m.enter kind v.item (some v.folder) false).2 := by
  intro u hu
  have hkey : ((kind, v.item.key) : MapKey) = u.key kind := h.key_eq hv hu
  refine .inr ⟨v, hv, ?_, ?_⟩
  · rw [Maps.enter_object, if_pos hkey]
    rfl
  · rw [Maps.enter_dest, if_pos ⟨rfl, hkey⟩]
    rfl

/-- What a job without a failure makes of the files. -/
theorem Sound.finish_sets (h : SharedResource env ctx kind w vs body)
    (hs : Sound env ctx kind w vs body w') {j : Job} (hslot : Touchable kind w vs (j.slot kind))
    (hbytes : ∀ data, keyBytes body j.dataKey j.content = some data → j.remove = false →
      BytesAtHand env ctx kind w vs body data)
    {fetched : Except String (String × ByteArray)} (hf : Fetched env ctx j fetched)
    (hfail : (j.finish env ctx kind fetched w'.sys).2.failures = w.sys.failures) :
    ∃ data, keyBytes body j.dataKey j.content = some data ∧
      (j.finish env ctx kind fetched w'.sys).2.tree.fileAt = Function.update w'.sys.tree.fileAt
        (j.place env ctx kind) (if j.remove then none else some data) ∧
      (j.remove = false →
        j.Reachable env ctx kind (j.finish env ctx kind fetched w'.sys).2.tree) := by
  have htouch := @Job.finish_touches _ _ kind _ _ hf w'.sys
  obtain ⟨hbefore, hstep⟩ := count_squeeze hs.trace htouch.trace hfail
  have hreach : j.remove = true → w'.sys.tree.fileAt (j.place env ctx kind) ≠ none →
      j.Reachable env ctx kind w'.sys.tree := fun _ hne => hs.walk hbefore (j.slot kind) hslot hne
  obtain ⟨data, hdata, hdone⟩ := Job.finish_done hf hreach hstep
  have hkey := hdata.eq h.fetches
  refine ⟨data, hkey, ?_, hdone.walk⟩
  rw [hdone.files]
  by_cases hset : Store.Settled env.sha256 w'.sys.tree.fileAt (j.assign env ctx kind data)
  · rw [Store.step_of_settled hset]
    have hsame : w'.sys.tree.fileAt (j.place env ctx kind) = if j.remove then none
        else some data := by
      cases hr : j.remove with
      | true =>
        rw [Job.assign_of_remove hr] at hset
        exact Option.map_eq_none_iff.1 hset
      | false =>
        -- the write was suppressed
        rw [Job.assign_of_write hr] at hset
        obtain ⟨b, hb, hdigest⟩ := Option.map_eq_some_iff.1 hset
        obtain rfl :=
          h.told b data (hs.bytes hbefore (j.slot kind) hslot b hb) (hbytes data hkey hr) hdigest
        exact hb
    exact (Function.update_eq_self_iff.2 hsame.symm).symm
  · rw [Store.step_of_not_settled hset]
    rfl

/-- The bytes of a job that writes are at hand. -/
theorem Version.bytes_atHand {m : Maps} (hv : v ∈ vs) {j : Job} (hj : j ∈ v.jobs kind m)
    (data : ByteArray)
    (hdata : keyBytes body j.dataKey j.content = some data) (hr : j.remove = false) :
    BytesAtHand env ctx kind w vs body data := by
  rcases (Version.mem_jobs m v j).1 hj with ⟨e, he, rfl⟩ | ⟨e, he, rfl⟩
  · exact .inl ⟨v, hv, e, he, hdata⟩
  · cases hr

theorem Sound.unnoticed : Unnoticed (Sound env ctx kind w vs body) fun _ => True := by
  intro w' s hsilent hs
  refine ⟨⟨hs.trace.trans hsilent.trace, hs.known, fun p hp => ?_, fun hfail => ?_,
    fun hfail => ?_⟩,
    fun _ => trivial⟩
  · rw [hsilent.tree]
    exact hs.frame p hp
  · rw [hsilent.tree]
    exact hs.walk (count_squeeze hs.trace hsilent.trace hfail).1
  · rw [hsilent.tree]
    exact hs.bytes (count_squeeze hs.trace hsilent.trace hfail).1

/-- **One section**: a job of a version keeps the invariant. -/
theorem Sound.finish (h : SharedResource env ctx kind w vs body) (hv : v ∈ vs) {m : Maps}
    (hm : Known kind w vs m) {j : Job} (hj : j ∈ v.jobs kind m) :
    j.Keeps (Sound env ctx kind w vs body) (fun _ => True) env ctx kind := by
  intro fetched hf w' hs
  have hslot := hm.job_touchable hv hj
  have htouch := @Job.finish_touches _ _ kind _ _ hf w'.sys
  have hsets := hs.finish_sets h hslot (Version.bytes_atHand hv hj) hf
  refine ⟨⟨hs.trace.trans htouch.trace, hs.known, fun p hp => ?_, fun hfail slot hslot' hne => ?_,
    fun hfail slot hslot' b hb => ?_⟩, fun _ => trivial⟩
  · exact (htouch.files p fun e => hp _ hslot e.symm).trans (hs.frame p hp)
  · obtain ⟨data, -, hfiles, hwalk⟩ := hsets hfail
    have hbefore := (count_squeeze hs.trace htouch.trace hfail).1
    by_cases hsame : slot = j.slot kind
    · subst hsame
      cases hr : j.remove with
      | true =>
        rw [hr] at hfiles
        exact absurd ((congrFun hfiles _).trans (Function.update_self ..)) hne
      | false => exact hwalk hr
    · have hother : slot.place env ctx ≠ j.place env ctx kind :=
        fun e => hsame (h.apart _ hslot' _ hslot e)
      have hkept := (congrFun hfiles (slot.place env ctx)).trans (Function.update_of_ne hother ..)
      exact (hs.walk hbefore slot hslot' (hkept ▸ hne)).mono htouch.dirs
  · obtain ⟨data, hdata, hfiles, -⟩ := hsets hfail
    have hbefore := (count_squeeze hs.trace htouch.trace hfail).1
    have hb := (congrFun hfiles (slot.place env ctx)).symm.trans hb
    by_cases hsame : slot.place env ctx = j.place env ctx kind
    · rw [hsame, Function.update_self] at hb
      cases hr : j.remove with
      | true =>
        rw [hr] at hb
        cases hb
      | false =>
        rw [hr] at hb
        cases hb
        exact Version.bytes_atHand hv hj _ hdata hr
    · rw [Function.update_of_ne hsame] at hb
      exact hs.bytes hbefore slot hslot' b hb

/-- As long as nothing failed, the file of the slot is as `P` says. -/
def Lands (env : Env) (ctx : Ctx) (w : World) (slot : Slot) (P : Option ByteArray → Prop)
    (w' : World) : Prop :=
  w'.sys.failures = w.sys.failures → P (w'.sys.tree.fileAt (slot.place env ctx))

/-- What a job makes of its file. -/
def Job.Leaves (body : String → ByteArray) (j : Job) (file : Option ByteArray) : Prop :=
  ∃ data, keyBytes body j.dataKey j.content = some data ∧ file = if j.remove then none
    else some data

theorem Sound.unnoticed_lands (slot : Slot) (P : Option ByteArray → Prop) :
    Unnoticed (Sound env ctx kind w vs body) (Lands env ctx w slot P) := by
  intro w' s hsilent hs
  refine ⟨(Sound.unnoticed w' s hsilent hs).1, fun hlands hfail => ?_⟩
  rw [hsilent.tree]
  exact hlands (count_squeeze hs.trace hsilent.trace hfail).1

/-- A job of another slot leaves the file as it is. -/
theorem Sound.finish_lands (h : SharedResource env ctx kind w vs body) (hv : v ∈ vs) {m : Maps}
    (hm : Known kind w vs m) {j : Job} (hj : j ∈ v.jobs kind m) {slot : Slot}
    (hslot : Touchable kind w vs slot) (hne : j.slot kind ≠ slot) (P : Option ByteArray → Prop) :
    j.Keeps (Sound env ctx kind w vs body) (Lands env ctx w slot P) env ctx kind := by
  intro fetched hf w' hs
  have htouch := @Job.finish_touches _ _ kind _ _ hf w'.sys
  refine ⟨(Sound.finish h hv hm hj fetched hf w' hs).1, fun hlands hfail => ?_⟩
  have hother : slot.place env ctx ≠ j.place env ctx kind := fun e =>
    hne (h.apart _ (hm.job_touchable hv hj) _ hslot e.symm)
  dsimp only
  rw [htouch.files _ hother]
  exact hlands (count_squeeze hs.trace htouch.trace hfail).1

/-- **One version**: in the end the file of each of its jobs is as the job leaves it. -/
theorem actions_establish (h : SharedResource env ctx kind w vs body) (hv : v ∈ vs) {m : Maps}
    (hm : Known kind w vs m) {j : Job} (hj : j ∈ v.jobs kind m) :
    Establishes (Sound env ctx kind w vs body) (Lands env ctx w (j.slot kind) (j.Leaves body))
      (actionSections env ctx kind (plan kind v.item (v.old kind m) v.folder false)) := by
  have hslot := hm.job_touchable hv hj
  refine actionSections_establishes (Sound.unnoticed_lands _ _) hj ?_ (slots_plan_nodup ..)
    (fun x hx => Sound.finish h hv hm hx) fun x hx hne => Sound.finish_lands h hv hm hx hslot hne _
  intro fetched hf w' hs
  refine ⟨(Sound.finish h hv hm hj fetched hf w' hs).1, fun hfail => ?_⟩
  obtain ⟨data, hdata, hfiles, -⟩ := hs.finish_sets h hslot (Version.bytes_atHand hv hj) hf hfail
  exact ⟨data, hdata, (congrFun hfiles _).trans (Function.update_self ..)⟩

theorem Sound.enter (h : SharedResource env ctx kind w vs body) (hv : v ∈ vs)
    (hs : Sound env ctx kind w vs body w') :
    Sound env ctx kind w vs body ⟨w'.sys, (w'.maps.enter kind v.item (some v.folder) false).2⟩ :=
  ⟨hs.trace, h.known w'.maps hv, hs.frame, hs.walk, hs.bytes⟩

theorem actions_keep (h : SharedResource env ctx kind w vs body) (hv : v ∈ vs) {m : Maps}
    (hm : Known kind w vs m) : Keeps (Sound env ctx kind w vs body) (fun _ => True)
      (actionSections env ctx kind (plan kind v.item (v.old kind m) v.folder false)) :=
  actionSections_keeps Sound.unnoticed fun _ hj => Sound.finish h hv hm hj

theorem sections_keep (h : SharedResource env ctx kind w vs body) (hv : v ∈ vs) :
    Keeps (Sound env ctx kind w vs body) (fun _ => True) (v.sections env ctx kind) :=
  fun _ hs => ⟨hs.enter h hv, fun _ => trivial, actions_keep h hv hs.known⟩

/-- The files of a version are there once it has been processed, whatever another watcher does
meanwhile. -/
theorem sections_establish_files (h : SharedResource env ctx kind w vs body)
    (hv : v ∈ vs) {e : Entry} (he : e ∈ v.item.entries kind) :
    Establishes (Sound env ctx kind w vs body)
      (Lands env ctx w (e.slot kind v.item.ns v.item.name v.folder)
        ((e.job v.folder v.item false).Leaves body))
      (v.sections env ctx kind) := by
  intro w' hs
  exact ⟨hs.enter h hv,
    .inl (actions_establish h hv hs.known ((Version.mem_jobs _ v _).2 (.inl ⟨e, he, rfl⟩)))⟩

/-- The maps have this version of the resource. -/
def Records (kind : Kind) (v : Version) (w : World) : Prop :=
  w.maps.object[v.key kind]? = some (.fromItem v.item) ∧ w.maps.dest[v.key kind]? = some v.folder

theorem records_enter (w : World) (v : Version) :
    Records kind v ⟨w.sys, (w.maps.enter kind v.item (some v.folder) false).2⟩ := by
  have hkey : ((kind, v.item.key) : MapKey) = v.key kind := rfl
  constructor
  · exact (Maps.enter_object ..).trans (if_pos hkey)
  · exact (Maps.enter_dest ..).trans (if_pos ⟨rfl, hkey⟩)

theorem sections_establish_record (h : SharedResource env ctx kind w vs body) (hv : v ∈ vs) :
    Establishes (Sound env ctx kind w vs body) (Records kind v) (v.sections env ctx kind) := by
  intro w' hs
  refine ⟨hs.enter h hv, .inr ⟨records_enter w' v, ?_⟩⟩
  refine actionSections_keeps (fun w s hsilent hw => ?_) fun j hj fetched hf w'' hs' => ?_
  · exact ⟨(Sound.unnoticed w s hsilent hw).1, id⟩
  · exact ⟨(Sound.finish h hv hs.known hj fetched hf w'' hs').1, id⟩

/-! ## Calls that do not overlap -/

theorem Version.call_eq (v : Version) (w : World) : (v.call env ctx kind w).2 =
    ((actionSections env ctx kind (plan kind v.item (v.old kind w.maps) v.folder false)).run
      ⟨w.sys, (w.maps.enter kind v.item (some v.folder) false).2⟩).2 := by
  unfold Version.call
  rw [← processSections_run]
  unfold processSections
  rw [Prog.run_bind, Prog.run_atom]
  rfl

theorem Version.call_traceLe (v : Version) (w : World) :
    TraceLe w.sys (v.call env ctx kind w).2.sys :=
  (World.le_frame env ctx kind).process v.item (some v.folder) false w

/-- **One call** leaves the files of the version, removes what else it finds as old, and touches no
others. -/
structure Called (env : Env) (ctx : Ctx) (kind : Kind) (body : String → ByteArray) (v : Version)
    (w' w'' : World) : Prop where
  record : Records kind v w''
  present : ∀ e ∈ v.item.entries kind, (e.job v.folder v.item false).Leaves body
    (w''.sys.tree.fileAt ((e.slot kind v.item.ns v.item.name v.folder).place env ctx))
  gone : ∀ slot ∈ v.oldSlots kind w'.maps, slot ∉ v.slots kind →
    w''.sys.tree.fileAt (slot.place env ctx) = none
  same : ∀ p, (∀ slot, slot ∈ v.slots kind ∨ slot ∈ v.oldSlots kind w'.maps →
    slot.place env ctx ≠ p) →
    w''.sys.tree.fileAt p = w'.sys.tree.fileAt p

theorem Sound.call (h : SharedResource env ctx kind w vs body) (hv : v ∈ vs)
    (hs : Sound env ctx kind w vs body w') :
    Sound env ctx kind w vs body (v.call env ctx kind w').2 := by
  rw [Version.call_eq]
  exact ((actions_keep h hv hs.known).run (hs.enter h hv)).1

theorem Sound.called (h : SharedResource env ctx kind w vs body) (hv : v ∈ vs)
    (hs : Sound env ctx kind w vs body w')
    (hfail : (v.call env ctx kind w').2.sys.failures = w.sys.failures) :
    Called env ctx kind body v w' (v.call env ctx kind w').2 := by
  have hleaves : ∀ j ∈ v.jobs kind w'.maps, j.Leaves body
      ((v.call env ctx kind w').2.sys.tree.fileAt (j.place env ctx kind)) := by
    intro j hj
    rw [Version.call_eq] at hfail ⊢
    exact ((actions_establish h hv hs.known hj).run (hs.enter h hv)).2 hfail
  refine ⟨?_, fun e he => hleaves _ ((Version.mem_jobs _ v _).2 (.inl ⟨e, he, rfl⟩)),
    fun slot hold hnew => ?_,
    fun p hp => ?_⟩
  · have hrecord := ((sections_establish_record h hv).run hs).2
    unfold Version.sections at hrecord
    rwa [processSections_run] at hrecord
  · obtain ⟨e, he, rfl⟩ := List.mem_map.1 hold
    have hleft : e ∈ (v.old kind w'.maps).leftovers kind v.item v.folder := by
      refine List.mem_filter.2 ⟨he, ?_⟩
      rw [isLeftover, decide_eq_true_eq]
      intro hfolder hid
      obtain ⟨e', he', hid'⟩ := List.mem_map.1 hid
      obtain ⟨hns, hname⟩ := hs.known.old_item h hv
      refine hnew (List.mem_map.2 ⟨e', he', ?_⟩)
      rw [slot_congr hid', ← hfolder, hns, hname]
    obtain ⟨data, -, hfile⟩ := hleaves _ ((Version.mem_jobs _ v _).2 (.inr ⟨e, hleft, rfl⟩))
    exact hfile
  · rw [Version.call_eq, actionSections_run]
    refine (runActions_touches env ctx kind _ w'.sys).files p ?_
    rintro ⟨j, hj, hplace⟩
    rcases (Version.mem_jobs w'.maps v j).1 hj with ⟨e, he, rfl⟩ | ⟨e, he, rfl⟩
    · exact hp _ (.inl (List.mem_map_of_mem he)) hplace
    · exact hp _ (.inr (List.mem_map_of_mem (List.mem_filter.1 he).1)) hplace

/-- The slots that calls for these versions touch. -/
def Visited (kind : Kind) (w : World) (l : List Version) (slot : Slot) : Prop :=
  (∃ a ∈ l.head?, slot ∈ a.oldSlots kind w.maps) ∨ ∃ u ∈ l, slot ∈ u.slots kind

/-- What calls for these versions, one after the other, come to: only the first and the last of them
count, and which there are. -/
structure AsAfter (env : Env) (ctx : Ctx) (kind : Kind) (body : String → ByteArray) (w : World)
    (l : List Version) (w' : World) : Prop where
  record : ∀ z ∈ l.getLast?, Records kind z w'
  present : ∀ z ∈ l.getLast?, ∀ e ∈ z.item.entries kind, (e.job z.folder z.item false).Leaves body
    (w'.sys.tree.fileAt ((e.slot kind z.item.ns z.item.name z.folder).place env ctx))
  gone : ∀ z ∈ l.getLast?, ∀ slot, Visited kind w l slot → slot ∉ z.slots kind →
    w'.sys.tree.fileAt (slot.place env ctx) = none
  same : ∀ p, (∀ slot, Visited kind w l slot → slot.place env ctx ≠ p) →
    w'.sys.tree.fileAt p = w.sys.tree.fileAt p

theorem Visited.touchable {l : List Version} (hl : ∀ u ∈ l, u ∈ vs) {slot : Slot}
    (h : Visited kind w l slot) :
    Touchable kind w vs slot := by
  rcases h with ⟨a, ha, hslot⟩ | ⟨u, hu, hslot⟩
  · exact ⟨a, hl a (List.mem_of_mem_head? ha), .inr hslot⟩
  · exact ⟨u, hl u hu, .inl hslot⟩

/-- Where the calls have got to, the next one finds the last version as old, the first one what
there was. -/
theorem oldSlots_after {l : List Version} (h : SharedResource env ctx kind w vs body)
    (hl : ∀ u ∈ l, u ∈ vs)
    (hv : v ∈ vs) (hafter : ∀ z ∈ l.getLast?, Records kind z w') (hstart : l = [] → w' = w)
    {slot : Slot} :
    slot ∈ v.oldSlots kind w'.maps ↔
      (l = [] ∧ slot ∈ v.oldSlots kind w.maps) ∨ ∃ z ∈ l.getLast?, slot ∈ z.slots kind := by
  rcases List.eq_nil_or_concat l with rfl | ⟨l, y, rfl⟩
  · rw [hstart rfl]
    simp
  · have hy : y ∈ vs := hl y (by simp)
    obtain ⟨hobject, hdest⟩ := hafter y (by simp)
    rw [h.key_eq hy hv] at hobject hdest
    have hold : v.oldSlots kind w'.maps = y.slots kind := by
      unfold Version.oldSlots
      rw [Version.old_eq]
      unfold Maps.oldItem
      unfold Version.key at hobject hdest
      simp only [Version.key, hobject, hdest]
      exact Item.slots_retained kind y.item y.folder
    rw [hold]
    simp

theorem AsAfter.snoc (h : SharedResource env ctx kind w vs body) {l : List Version}
    (hl : ∀ u ∈ l, u ∈ vs) (hv : v ∈ vs) (hafter : AsAfter env ctx kind body w l w')
    (hstart : l = [] → w' = w) {w'' : World}
    (hcalled : Called env ctx kind body v w' w'') : AsAfter env ctx kind body w (l ++ [v]) w'' := by
  have hold := fun slot => @oldSlots_after _ _ _ _ _ _ _ _ l h hl hv hafter.record hstart slot
  have hall : ∀ u ∈ l ++ [v], u ∈ vs := by
    intro u hu
    rcases List.mem_append.1 hu with hu | hu
    · exact hl u hu
    · rwa [List.mem_singleton.1 hu]
  -- what the call touches has been visited afterwards
  have hvisit : ∀ slot, slot ∈ v.slots kind ∨ slot ∈ v.oldSlots kind w'.maps →
      Visited kind w (l ++ [v]) slot := by
    rintro slot (hslot | hslot)
    · exact .inr ⟨v, by simp, hslot⟩
    · rcases (hold slot).1 hslot with ⟨rfl, hslot⟩ | ⟨z, hz, hslot⟩
      · exact .inl ⟨v, by simp, hslot⟩
      · exact .inr ⟨z, List.mem_append_left _ (List.mem_of_getLast? hz), hslot⟩
  have hbefore : ∀ slot, Visited kind w l slot → Visited kind w (l ++ [v]) slot := by
    rintro slot (⟨a, ha, hslot⟩ | ⟨u, hu, hslot⟩)
    · exact .inl ⟨a, by rw [List.head?_append, Option.mem_def.1 ha]; rfl, hslot⟩
    · exact .inr ⟨u, List.mem_append_left _ hu, hslot⟩
  have hlast : ∀ z ∈ (l ++ [v]).getLast?, z = v := by simp
  refine ⟨fun z hz => ?_, fun z hz => ?_, fun z hz slot hslot hnew => ?_, fun p hp => ?_⟩
  · rw [hlast z hz]
    exact hcalled.record
  · rw [hlast z hz]
    exact hcalled.present
  · rw [hlast z hz] at hnew
    by_cases hfound : slot ∈ v.oldSlots kind w'.maps
    · exact hcalled.gone slot hfound hnew
    · have hkept : w''.sys.tree.fileAt (slot.place env ctx) = w'.sys.tree.fileAt
        (slot.place env ctx) := by
        refine hcalled.same _ fun x hx hplace => ?_
        obtain rfl := h.apart x ((hvisit x hx).touchable hall) slot (hslot.touchable hall) hplace
        exact hx.elim hnew hfound
      rw [hkept]
      rcases List.eq_nil_or_concat l with rfl | ⟨l, y, rfl⟩
      · exfalso
        rcases hslot with ⟨a, ha, hslot⟩ | ⟨u, hu, hslot⟩
        · obtain rfl : v = a := by simpa using ha
          exact hfound ((hold slot).2 (.inl ⟨rfl, hslot⟩))
        · obtain rfl : u = v := by simpa using hu
          exact hnew hslot
      · have hy : y ∈ (l.concat y).getLast? := by simp
        have hslot' : Visited kind w (l.concat y) slot := by
          rcases hslot with ⟨a, ha, hslot⟩ | ⟨u, hu, hslot⟩
          · refine .inl ⟨a, ?_, hslot⟩
            rcases l with _ | ⟨x, l⟩ <;> simpa using ha
          · rcases List.mem_append.1 hu with hu | hu
            · exact .inr ⟨u, hu, hslot⟩
            · rw [List.mem_singleton.1 hu] at hslot
              exact absurd hslot hnew
        exact hafter.gone y hy slot hslot' fun hs => hfound ((hold slot).2 (.inr ⟨y, hy, hs⟩))
  · exact (hcalled.same p fun slot hslot => hp slot (hvisit slot hslot)).trans
      (hafter.same p fun slot hslot => hp slot (hbefore slot hslot))

theorem watcher_concat (l : List Version) (v : Version) (w : World) :
    ((atomicWatcher env ctx kind (l ++ [v])).run w).2 =
      (v.call env ctx kind ((atomicWatcher env ctx kind l).run w).2).2 := by
  unfold atomicWatcher
  rw [Prog.run_each_append]
  rfl

theorem atomicWatcher_traceLe (l : List Version) (w : World) :
    TraceLe w.sys ((atomicWatcher env ctx kind l).run w).2.sys := by
  induction l using List.reverseRecOn with
  | nil => exact List.prefix_rfl
  | append_singleton l v ih =>
    rw [watcher_concat]
    exact ih.trans (v.call_traceLe _)

/-- **Calls one after the other**, none of which fails. -/
theorem atomicWatcher_after (h : SharedResource env ctx kind w vs body) (l : List Version)
    (hl : ∀ u ∈ l, u ∈ vs)
    (hfail : ((atomicWatcher env ctx kind l).run w).2.sys.failures = w.sys.failures) :
    Sound env ctx kind w vs body ((atomicWatcher env ctx kind l).run w).2 ∧
      AsAfter env ctx kind body w l ((atomicWatcher env ctx kind l).run w).2 := by
  induction l using List.reverseRecOn with
  | nil => exact ⟨h.sound, ⟨by simp, by simp, by simp, fun _ _ => rfl⟩⟩
  | append_singleton l v ih =>
    have hv : v ∈ vs := hl v (by simp)
    have hl' : ∀ u ∈ l, u ∈ vs := fun u hu => hl u (List.mem_append_left _ hu)
    rw [watcher_concat] at hfail ⊢
    have hfirst := (count_squeeze (atomicWatcher_traceLe l w) (v.call_traceLe _) hfail).1
    obtain ⟨hs, hafter⟩ := ih hl' hfirst
    refine ⟨hs.call h hv, hafter.snoc h hl' hv (fun hnil => ?_) (hs.called h hv hfail)⟩
    subst hnil
    rfl

/-- Nothing but the first version, the last one and the set of them counts. -/
theorem AsAfter.unique {l l' : List Version} {t t' : World} (ht : AsAfter env ctx kind body w l t)
    (ht' : AsAfter env ctx kind body w l' t')
    (hhead : l'.head? = l.head?) (hlast : l'.getLast? = l.getLast?)
    (hmem : ∀ v, v ∈ l' ↔ v ∈ l) (p : Path) :
    t'.sys.tree.fileAt p = t.sys.tree.fileAt p := by
  have hvisited : ∀ slot, Visited kind w l' slot ↔ Visited kind w l slot := by
    intro slot
    unfold Visited
    rw [hhead]
    simp only [hmem]
  by_cases hp : ∃ slot, Visited kind w l slot ∧ slot.place env ctx = p
  · obtain ⟨slot, hslot, rfl⟩ := hp
    have hne : l ≠ [] := by
      rintro rfl
      rcases hslot with ⟨a, ha, -⟩ | ⟨u, hu, -⟩
      · cases ha
      · cases hu
    obtain ⟨z, hz⟩ := Option.isSome_iff_exists.1 (List.getLast?_isSome.2 hne)
    by_cases hnew : slot ∈ z.slots kind
    · obtain ⟨e, he, rfl⟩ := List.mem_map.1 hnew
      obtain ⟨data, hdata, hfile⟩ := ht.present z hz e he
      obtain ⟨data', hdata', hfile'⟩ := ht'.present z (hlast ▸ hz) e he
      rw [hfile, hfile', Option.some.inj (hdata.symm.trans hdata')]
    · rw [ht.gone z hz slot hslot hnew, ht'.gone z (hlast ▸ hz) slot ((hvisited slot).2 hslot) hnew]
  · have hnot : ∀ slot, Visited kind w l slot → slot.place env ctx ≠ p := fun slot hslot hplace =>
      hp ⟨slot, hslot, hplace⟩
    rw [ht.same p hnot, ht'.same p fun slot hslot => hnot slot ((hvisited slot).1 hslot)]

theorem AsAfter.record_eq {l l' : List Version} {t t' : World}
    (ht : AsAfter env ctx kind body w l t)
    (ht' : AsAfter env ctx kind body w l' t') (hlast : l'.getLast? = l.getLast?) {z : Version}
    (hz : z ∈ l.getLast?) : t'.maps.object[z.key kind]? = t.maps.object[z.key kind]? ∧
      t'.maps.dest[z.key kind]? = t.maps.dest[z.key kind]? := by
  obtain ⟨hobject, hdest⟩ := ht.record z hz
  obtain ⟨hobject', hdest'⟩ := ht'.record z (hlast ▸ hz)
  exact ⟨hobject'.trans hobject.symm, hdest'.trans hdest.symm⟩

/-- A file that an earlier version has, or what was on record before, and the last version has
not. -/
def LeftBehind (env : Env) (ctx : Ctx) (kind : Kind) (w : World) (vs : List Version)
    (p : Path) : Prop :=
  (∃ slot, Touchable kind w vs slot ∧ slot.place env ctx = p) ∧
    ∀ z ∈ vs.getLast?, ∀ slot ∈ z.slots kind, slot.place env ctx ≠ p

/-- **Overlapping watchers converge**, but for files of earlier versions that the last one has not;
when no two calls overlap, in everything. -/
theorem watchers_converge (h : SharedResource env ctx kind w vs body)
    (hfail : ((watcher env ctx kind vs).run w).2.sys.failures = w.sys.failures) :
    let single := ((watcher env ctx kind vs).run w).2
    let sameRecord :=
      fun t : World => ∀ v ∈ vs, t.maps.object[v.key kind]? = single.maps.object[v.key kind]? ∧
      t.maps.dest[v.key kind]? = single.maps.dest[v.key kind]?
    (∀ t, Both (watcher env ctx kind vs) (watcher env ctx kind vs) w t →
      t.sys.failures = w.sys.failures →
      sameRecord t ∧
        ∀ p, t.sys.tree.fileAt p = single.sys.tree.fileAt p ∨ LeftBehind env ctx kind w vs p) ∧
    ∀ t, Both (atomicWatcher env ctx kind vs) (atomicWatcher env ctx kind vs) w t →
      t.sys.failures = w.sys.failures →
      sameRecord t ∧ ∀ p, t.sys.tree.fileAt p = single.sys.tree.fileAt p := by
  rw [← watcher_run] at hfail ⊢
  obtain ⟨hsound, hafter⟩ := atomicWatcher_after h vs (fun _ hu => hu) hfail
  intro single sameRecord
  rcases List.eq_nil_or_concat vs with rfl | ⟨earlier, z, hvs⟩
  · refine ⟨fun t hboth _ => ?_, fun t hboth _ => ?_⟩
    all_goals
      cases hboth
      simp [sameRecord, single, atomicWatcher, Prog.each]
  · have hz : z ∈ vs.getLast? := by simp [hvs]
    have hzv : z ∈ vs := by simp [hvs]
    have hest : ∀ {φ : World → Prop}, Establishes (Sound env ctx kind w vs body) φ
        (z.sections env ctx kind) →
        Establishes (Sound env ctx kind w vs body) φ (watcher env ctx kind vs) := by
      intro φ hφ
      have hkeep : ∀ y ∈ earlier,
          Keeps (Sound env ctx kind w vs body) (fun _ => True) (y.sections env ctx kind) :=
        fun y hy => sections_keep h (by simp [hvs, hy])
      have hall := Establishes.each hkeep hφ
      rwa [← List.concat_eq_append, ← hvs] at hall
    refine ⟨fun t hboth ht => ?_, fun t hboth ht => ?_⟩
    · have hrecord := sections_establish_record h hzv
      obtain ⟨hst, hobject, hdest⟩ := hboth.establishes h.sound (hest hrecord) (hest hrecord)
      obtain ⟨hobject', hdest'⟩ := hafter.record z hz
      refine ⟨fun v hv => ?_, fun p => ?_⟩
      · rw [h.key_eq hv hzv]
        exact ⟨hobject.trans hobject'.symm, hdest.trans hdest'.symm⟩
      · by_cases hp : ∃ slot ∈ z.slots kind, slot.place env ctx = p
        · obtain ⟨slot, hslot, rfl⟩ := hp
          obtain ⟨e, he, rfl⟩ := List.mem_map.1 hslot
          have hfile := sections_establish_files h hzv he
          obtain ⟨data, hdata, hsame⟩ := (hboth.establishes h.sound (hest hfile) (hest hfile)).2 ht
          obtain ⟨data', hdata', hsame'⟩ := hafter.present z hz e he
          refine .inl (hsame.trans ?_)
          rw [Option.some.inj (hdata.symm.trans hdata')]
          exact hsame'.symm
        · by_cases htouch : ∃ slot, Touchable kind w vs slot ∧ slot.place env ctx = p
          · refine .inr ⟨htouch, fun z' hz' slot hslot hplace => hp ⟨slot, ?_, hplace⟩⟩
            rwa [Option.some.inj (hz.symm.trans hz')]
          · have hframe : ∀ slot, Touchable kind w vs slot → slot.place env ctx ≠ p :=
              fun slot hslot hplace =>
              htouch ⟨slot, hslot, hplace⟩
            exact .inl ((hst.frame p hframe).trans (hsound.frame p hframe).symm)
    · obtain ⟨m, hm, rfl⟩ := hboth.shuffle
      have hmem : ∀ v, v ∈ m ↔ v ∈ vs := fun v => (hm.mem_iff v).trans or_self_iff
      have hhead : m.head? = vs.head? := hm.head?_eq.elim id id
      have hlast : m.getLast? = vs.getLast? := hm.getLast?_eq.elim id id
      obtain ⟨-, hafter'⟩ := atomicWatcher_after h m (fun u hu => (hmem u).1 hu) ht
      refine ⟨fun v hv => ?_, hafter.unique hafter' hhead hlast hmem⟩
      rw [h.key_eq hv hzv]
      exact hafter.record_eq hafter' hlast hz

end Steps

/-! ## A resource that moves -/

/-- A data key with a URL, in a folder and then in another. -/
def sampleMove : List Version :=
  [⟨sampleItem "ns" "a" "1" [("k.url", "http://host/k")], "/a"⟩,
    ⟨sampleItem "ns" "a" "2" [("k.url", "http://host/k")], "/b"⟩]

theorem sampleWorld_noFile (p : Path) : sampleWorld.sys.tree.fileAt p = none := by
  unfold sampleWorld FileTree.empty FileTree.fileAt
  dsimp only
  split
  · next hnode => split at hnode <;> cases hnode
  · rfl

theorem sampleMove_shared :
    SharedResource sampleEnv sampleCtx .configMap sampleWorld sampleMove fun _ =>
      "body".toUTF8 := by
  have hslots : ∀ slot, Touchable .configMap sampleWorld sampleMove slot →
      slot ∈ sampleMove.flatMap fun v =>
      v.slots .configMap ++ v.oldSlots .configMap sampleWorld.maps := by
    rintro slot ⟨v, hv, hslot⟩
    exact List.mem_flatMap.2 ⟨v, hv, List.mem_append.2 hslot⟩
  have hbody : ∀ b, BytesAtHand sampleEnv sampleCtx .configMap sampleWorld sampleMove
      (fun _ => "body".toUTF8) b →
      b = "body".toUTF8 := by
    have hkeys : ∀ v ∈ sampleMove, ∀ e ∈ v.item.entries .configMap,
        keyBytes (fun _ => "body".toUTF8) e.dataKey e.content = some "body".toUTF8 := by
        decide +kernel
    rintro b (⟨v, hv, e, he, hb⟩ | ⟨slot, -, hb⟩)
    · exact Option.some.inj (hb.symm.trans (hkeys v hv e he))
    · rw [sampleWorld_noFile] at hb
      cases hb
  refine ⟨sampleEnv_fetches, by decide +kernel, fun v _ c hc => ?_, fun x hx y hy hplace => ?_,
    fun a b ha hb _ => (hbody a ha).trans (hbody b hb).symm, fun slot _ hne =>
    absurd (sampleWorld_noFile _) hne⟩
  · simp [sampleWorld, Maps.empty] at hc
  · have hinj :
      ∀ x ∈ sampleMove.flatMap fun v =>
          v.slots .configMap ++ v.oldSlots .configMap sampleWorld.maps,
        ∀ y ∈ sampleMove.flatMap fun v =>
          v.slots .configMap ++ v.oldSlots .configMap sampleWorld.maps,
          x.place sampleEnv sampleCtx = y.place sampleEnv sampleCtx → x = y := by decide +kernel
    exact hinj x (hslots x hx) y (hslots y hy) hplace

/-- However two watchers interleave, the file of the second version is there. -/
theorem watchers_converge_sample :
    ((watcher sampleEnv sampleCtx .configMap sampleMove).run sampleWorld).2.sys.tree.fileAt
        ["k", "b"] = some "body".toUTF8 ∧
      ∀ t, Both (watcher sampleEnv sampleCtx .configMap sampleMove)
        (watcher sampleEnv sampleCtx .configMap sampleMove) sampleWorld t →
        t.sys.failures = sampleWorld.sys.failures →
        t.sys.tree.fileAt ["k", "b"] = some "body".toUTF8 := by
  have hsingle :
      ((watcher sampleEnv sampleCtx .configMap sampleMove).run sampleWorld).2.sys.tree.fileAt
      ["k", "b"] = some "body".toUTF8 := by decide +kernel
  refine ⟨hsingle, fun t hboth hfail => ?_⟩
  have hconverges := (watchers_converge sampleMove_shared (by decide +kernel)).1 t hboth hfail
  rcases hconverges.2 ["k", "b"] with hsame | ⟨-, hnot⟩
  · exact hsame.trans hsingle
  · exact absurd rfl
      (hnot _ rfl ⟨.configMap, "ns", "a", contentTypeText, "k.url", "/b"⟩ (by decide +kernel))

/-- Both watchers process the versions, the second one between the fetch and the write of the
first. -/
def sampleSchedule : List Bool :=
  List.replicate 3 true ++ List.replicate 10 false ++ List.replicate 5 true

/-- The file of the first version stays: the first watcher writes it after the second one has
removed it. -/
theorem watchers_diverge :
    SharedResource sampleEnv sampleCtx .configMap sampleWorld sampleMove (fun _ => "body".toUTF8) ∧
    ∃ t, Both (watcher sampleEnv sampleCtx .configMap sampleMove)
        (watcher sampleEnv sampleCtx .configMap sampleMove) sampleWorld t ∧
      t.sys.failures = 0 ∧ t.sys.tree.fileAt ["k", "a"] = some "body".toUTF8 ∧
      ((watcher sampleEnv sampleCtx .configMap sampleMove).run sampleWorld).2.sys.tree.fileAt
        ["k", "a"] = none := by
  have hrun : ((schedule sampleSchedule (watcher sampleEnv sampleCtx .configMap sampleMove)
      (watcher sampleEnv sampleCtx .configMap sampleMove) sampleWorld).any fun t =>
        decide (t.sys.failures = 0 ∧ t.sys.tree.fileAt ["k", "a"] = some "body".toUTF8)) =
            true := by
    decide +kernel
  obtain ⟨t, ht, hfile⟩ := (Option.any_eq_true _ _).1 hrun
  obtain ⟨hfail, hfile⟩ := of_decide_eq_true hfile
  exact ⟨sampleMove_shared, t, both_of_schedule ht, hfail, hfile, by decide +kernel⟩

end Sidecar
