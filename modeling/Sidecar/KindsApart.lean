import Sidecar.StaleOrder
import Sidecar.Territories

/-!
# Watchers of different kinds

A ConfigMap watcher and a Secret watcher share the maps and the directory tree. With unique file
names neither can tell that the other is there (`kinds_do_not_interfere`): the entries of the maps
are filed under the kind, and so are the files. What they share are directories, and these matter
only to a folder that is named with a step back, which the kernel can walk only once the directory
it steps back from is there (`kinds_interfere`).
-/

namespace Sidecar

open Posix StateM Interleave

/-! ## The order of the stale cleanup -/

/-- Items that have a folder of theirs on record. -/
def OnRecord (T : Kind → Item → String → Prop) (kind : Kind) (m : Maps)
    (items : List Item) : Prop :=
  ∀ i ∈ items, ∃ folder, m.dest[((kind, i.key) : MapKey)]? = some folder ∧ T kind i folder

section Stale

variable {env : Env} {ctx : Ctx} {T : Kind → Item → String → Prop} {kind kind' : Kind}
  {items items' : List Item}
  {w a : World}

/-- A removal takes no folder off the record. -/
theorem OnRecord.enter {m : Maps} {item : Item} (h : OnRecord T kind m (item :: items)) :
    OnRecord T kind (m.enter kind item none true).2 items := by
  intro i hi
  rw [Maps.enter_dest, if_neg (by simp)]
  exact h i (List.mem_cons_of_mem item hi)

/-- No file-system call failed. -/
def SameErrors (s s' : Sys) : Prop := s'.ioErrors = s.ioErrors

theorem SameErrors.preorder : Preorder SameErrors := ⟨fun _ => rfl, fun h h' => h'.trans h⟩

theorem emit_sameErrors {e : Event} (he : e.isIoError = false) :
    Moves SameErrors (emit e) := fun s => by
  simp [SameErrors, emit_apply, Sys.ioErrors, Sys.count, he]

theorem sameErrors_requests (env : Env) : Sys.Requests env SameErrors where
  preorder := SameErrors.preorder
  log _ _ := emit_sameErrors rfl
  sleep _ := emit_sameErrors rfl
  abort := emit_sameErrors rfl
  send _ s := by simp [SameErrors, sendOnce, Sys.ioErrors, Sys.count, Event.isIoError]

variable (hf : env.Faultless) (hT : Territory env ctx T) (hu : ctx.uniqueFilenames = true)
include hf hT hu

theorem Job.run_sameErrors {j : Job} (hj : Covers T kind j) (hr : j.remove = true) :
    Moves SameErrors (j.run env ctx kind) := by
  have hp := SameErrors.preorder
  intro s
  rw [Job.run_finish]
  refine hp.trans ((sameErrors_requests env).getFileDataAndName ctx j.dataKey j.content s) ?_
  have hfetched : Fetched env ctx j (getFileDataAndName env ctx j.dataKey j.content s).1 := ⟨s, rfl⟩
  obtain ⟨e, he⟩ | ⟨data, hdata, -⟩ := hfetched.cases
  · rw [he]
    exact emit_sameErrors rfl _
  · rw [hdata, Job.finish_ok, Job.put_of_remove env ctx kind j hr]
    exact (removeFile_cases hf (hj.direct hT).straight (hj.plainName hT hu) _).1

theorem runActions_sameErrors {as : List Action}
    (hjobs : ∀ j ∈ jobs as, Covers T kind j ∧ j.remove = true) :
    Moves SameErrors (runActions env ctx kind as) := by
  have hp := SameErrors.preorder
  induction as with
  | nil => exact .pure hp _
  | cons x as ih =>
    refine .bind hp ?_ fun _ => .bind hp (ih fun j hj => ?_) fun _ => .pure hp _
    · cases x with
      | log level msg => exact emit_sameErrors rfl
      | file j =>
        obtain ⟨hj, hr⟩ := hjobs j List.mem_cons_self
        exact Job.run_sameErrors hf hT hu hj hr
    · obtain ⟨y, hy, hyj⟩ := List.mem_filterMap.1 hj
      exact hjobs j (List.mem_filterMap.2 ⟨y, List.mem_cons_of_mem x hy, hyj⟩)

theorem removeStale_sameErrors (h : OnRecord T kind a.maps items) :
    (removeStale env ctx kind items a).2.sys.ioErrors = a.sys.ioErrors := by
  induction items generalizing a with
  | nil => rfl
  | cons item items ih =>
    rw [removeStale_cons]
    dsimp only
    rw [ih (by rw [processResource_maps]; exact h.enter), processResource_eq]
    obtain ⟨folder, hdest, hitem⟩ := h item List.mem_cons_self
    refine (runActions_sameErrors hf hT hu (fun j hj => ?_) _).trans (log_ioErrors _ _ a.sys)
    rw [Maps.enter_old, if_pos rfl, jobs_plan_removed, hdest] at hj
    obtain ⟨e, he, rfl⟩ := List.mem_map.1 hj
    exact ⟨⟨item, folder, e, true, hitem, he, rfl⟩, rfl⟩

/-- **In whatever order** the stale items are removed, it comes to the same. -/
theorem removeStale_perm (hperm : items.Perm items') (h : OnRecord T kind a.maps items) :
    (removeStale env ctx kind items' a).1 = (removeStale env ctx kind items a).1 ∧
      (removeStale env ctx kind items' a).2.sys.tree =
        (removeStale env ctx kind items a).2.sys.tree ∧
      ∀ k : MapKey,
        (removeStale env ctx kind items' a).2.maps.object[k]? =
          (removeStale env ctx kind items a).2.maps.object[k]? := by
  have h' : OnRecord T kind a.maps items' := fun i hi => h i (hperm.mem_iff.2 hi)
  have hsweeps := removeStale_sweeps (removeStale_sameErrors hf hT hu h)
  have hsweeps' := (removeStale_sweeps (removeStale_sameErrors hf hT hu h')).congr fun q =>
    exists_congr fun j => and_congr_left' (staleJobs_perm hperm a.maps).mem_iff.symm
  refine ⟨Bool.eq_iff_iff.2 (hsweeps'.answer.trans hsweeps.answer.symm),
    hsweeps'.swept.unique hsweeps.swept, fun k => ?_⟩
  rw [removeStale_object, removeStale_object]
  simp only [(hperm.map fun i => ((kind, i.key) : MapKey)).mem_iff]

omit hf hT hu

/-- Both worlds have the same stale items. -/
theorem Has.staleItems_perm (h : Has env ctx T kind w a) (ns : String) (existKeys : List String) :
    (staleItems env kind ns existKeys w).1.Perm (staleItems env kind ns existKeys a).1 := by
  have hkind : ∀ {v : World} {k : MapKey}, k ∈ staleKeys env kind ns existKeys v → k.1 = kind := by
    intro v k hk
    obtain ⟨c, -, hstale⟩ := (mem_staleKeys env kind).1 hk
    unfold isStale at hstale
    simp only [Bool.and_eq_true, beq_iff_eq] at hstale
    exact hstale.1.1
  have hobject : ∀ k : MapKey, k.1 = kind → w.maps.object[k]? = a.maps.object[k]? := by
    rintro ⟨_, key⟩ rfl
    exact h.object key
  have hkeys : (staleKeys env kind ns existKeys w).Perm (staleKeys env kind ns existKeys a) := by
    refine (List.perm_ext_iff_of_nodup (staleKeys_nodup ..) (staleKeys_nodup ..)).2 fun k => ?_
    constructor
    · intro hk
      have hk' := (mem_staleKeys env kind).1 hk
      rw [hobject k (hkind hk)] at hk'
      exact (mem_staleKeys env kind).2 hk'
    · intro hk
      have hk' := (mem_staleKeys env kind).1 hk
      rw [← hobject k (hkind hk)] at hk'
      exact (mem_staleKeys env kind).2 hk'
  rw [staleItems_eq, staleItems_eq]
  refine (hkeys.filterMap _).trans (List.Perm.of_eq (List.filterMap_congr fun k hk => ?_))
  rw [hobject k (hkind hk)]

/-- The stale items have their folders on record. -/
theorem Together.onRecord {b : World} (h : Together env ctx T kind kind' w a b) (ns : String)
    (existKeys : List String) : OnRecord T kind a.maps (staleItems env kind ns existKeys w).1 := by
  intro i hi
  obtain ⟨k, cached, hcached, rfl, -, rfl⟩ := exists_of_mem_staleItems hi
  obtain ⟨hkey, folder, hdest, hitem⟩ := h.inside.object k cached hcached
  refine ⟨folder, ?_, hitem⟩
  rw [← h.own.dest, hkey]
  exact hdest

end Stale

/-! ## Programs -/

section Programs

variable {env : Env} {ctx : Ctx} {T : Kind → Item → String → Prop} {kind kind' : Kind} {a : World}
  {body : String → ByteArray} (hf : env.Faultless) (hbody : Fetches env ctx body)
  (hT : Territory env ctx T) (hu : ctx.uniqueFilenames = true) (hne : kind ≠ kind')

/-- A program that cannot tell whether the other kind is there. -/
def Unaware {α : Type} (env : Env) (ctx : Ctx) (T : Kind → Item → String → Prop) (kind kind' : Kind)
    (p : Prog World α) (a : World) : Prop :=
  Sims (Together env ctx T kind kind') p a (p.run a)

theorem liftSys_hush {α : Type} {x : M α} (hx : Moves Silent x) (w : World) :
    Hush w (liftSys x w).2 :=
  ⟨hx w.sys, rfl⟩

/-- A section that answers the same in every state, and touches neither files nor maps. -/
theorem unaware_hush {α : Type} {x : M α} (hx : Moves Silent x)
    (hans : ∀ s s', (x s).1 = (x s').1) :
    Unaware env ctx T kind kind' (Prog.atom (liftSys x)) a :=
  Sims.atom fun _ _ h => ⟨hans _ _, h.hush (liftSys_hush hx _) (liftSys_hush hx _)⟩

include hf hbody hT hu hne

theorem Job.sections_unaware {j : Job} (hj : Covers T kind j) :
    Unaware env ctx T kind kind' (j.sections env ctx kind) a := by
  refine Sims.run_bind (unaware_hush (getFileDataAndName_silent env ctx j.dataKey j.content)
    fun s s' => ?_)
    (Sims.atom fun w b h => h.finish hf hT hu hne hj ⟨a.sys, rfl⟩)
  rw [getFileDataAndName_eq hbody, getFileDataAndName_eq hbody]

theorem actionSections_unaware {as : List Action} (hjobs : ∀ j ∈ jobs as, Covers T kind j) :
    Unaware env ctx T kind kind' (actionSections env ctx kind as) a := by
  induction as generalizing a with
  | nil => exact Sims.pure _ _
  | cons x as ih =>
    refine Sims.run_bind ?_ (Sims.run_bind (ih fun j hj => ?_) (Sims.pure _ _))
    · cases x with
      | log level msg => exact unaware_hush (log_silent level msg) fun _ _ => rfl
      | file j => exact Job.sections_unaware hf hbody hT hu hne (hjobs j List.mem_cons_self)
    · obtain ⟨y, hy, hyj⟩ := List.mem_filterMap.1 hj
      exact hjobs j (List.mem_filterMap.2 ⟨y, List.mem_cons_of_mem x hy, hyj⟩)

/-- **`process_resource`** beside the other kind. -/
theorem processSections_unaware {item : Item} {destFolder : Option String} {isRemoved : Bool}
    (hd : Dealt T a.maps kind item destFolder isRemoved) :
    Unaware env ctx T kind kind' (processSections env ctx kind item destFolder isRemoved) a := by
  refine Sims.of_related fun s b hs => ?_
  exact Sims.run_bind
    (Sims.atom fun w b h => ⟨h.enter_old item destFolder isRemoved, h.enter hT hd hne⟩)
    (actionSections_unaware hf hbody hT hu hne fun j hj => hs.covers hT hd hj)

theorem workSections_unaware (skipped working : String) {item : Item} (isRemoved skip : Bool)
    (hitem : T kind item (destinationFolder ctx item)) :
    Unaware env ctx T kind kind'
      (workSections env ctx kind skipped working item isRemoved skip) a := by
  unfold workSections
  cases skip with
  | true => exact Sims.run_bind (unaware_hush (log_silent _ _) fun _ _ => rfl) (Sims.pure _ _)
  | false =>
    refine Sims.run_bind (unaware_hush (log_silent _ _) fun _ _ => rfl) (Sims.run_bind
      (unaware_hush (getDestinationFolder_silent item ctx) fun s s' => ?_) ?_)
    · rw [getDestinationFolder_fst, getDestinationFolder_fst]
    · exact processSections_unaware hf hbody hT hu hne
        ⟨_, hitem, .inl (congrArg some (getDestinationFolder_fst item ctx _))⟩

theorem listItemSections_unaware (ignoreAlreadyProcessed : Bool) {item : Item}
    (hitem : T kind item (destinationFolder ctx item)) :
    Unaware env ctx T kind kind' (listItemSections env ctx kind ignoreAlreadyProcessed item) a := by
  refine Sims.run_bind ?_ (workSections_unaware hf hbody hT hu hne _ _ _ _ hitem)
  cases ignoreAlreadyProcessed with
  | true => exact Sims.atom fun w b h => h.listSeen hne item
  | false => exact Sims.pure _ _

theorem eventSections_unaware (ignoreAlreadyProcessed : Bool) (ev : EventType) {item : Item}
    (hitem : T kind item (destinationFolder ctx item)) :
    Unaware env ctx T kind kind' (eventSections env ctx kind ignoreAlreadyProcessed ev item) a := by
  refine Sims.run_bind ?_ (workSections_unaware hf hbody hT hu hne _ _ _ _ hitem)
  cases ignoreAlreadyProcessed with
  | true => exact Sims.atom fun w b h => h.watchSeen hne ev item
  | false => exact Sims.pure _ _

theorem listItemsSections_unaware (ignoreAlreadyProcessed : Bool) {items : List Item}
    (hitems : ∀ item ∈ items, T kind item (destinationFolder ctx item)) :
    Unaware env ctx T kind kind'
      (listItemsSections env ctx kind ignoreAlreadyProcessed items) a := by
  induction items generalizing a with
  | nil => exact Sims.pure _ _
  | cons item items ih =>
    exact Sims.run_bind
      (listItemSections_unaware hf hbody hT hu hne ignoreAlreadyProcessed
        (hitems item List.mem_cons_self))
      (Sims.run_bind (ih fun i hi => hitems i (List.mem_cons_of_mem item hi)) (Sims.pure _ _))

theorem removeStaleSections_unaware {items : List Item} (hitems : OnRecord T kind a.maps items) :
    Unaware env ctx T kind kind' (removeStaleSections env ctx kind items) a := by
  induction items generalizing a with
  | nil => exact Sims.pure _ _
  | cons item items ih =>
    refine Sims.run_bind (unaware_hush (log_silent _ _) fun _ _ => rfl) (Sims.run_bind ?_
      (Sims.run_bind (ih ?_) (Sims.pure _ _)))
    · obtain ⟨folder, hdest, hitem⟩ := hitems item List.mem_cons_self
      have hsome : a.maps.dest[((kind, item.key) : MapKey)]? ≠ none := by simp [hdest]
      exact processSections_unaware hf hbody hT hu hne ⟨folder, hitem, .inr ⟨rfl, rfl, hsome⟩⟩
    · rw [processSections_run, processResource_maps]
      exact hitems.enter

/-- **A list pass** beside the other kind. What is stale is found in another order, which makes no
difference. -/
theorem listingSections_unaware (ns : String) (ignoreAlreadyProcessed : Bool) {items : List Item}
    (hitems : ∀ item ∈ items, T kind item (destinationFolder ctx item)) :
    Unaware env ctx T kind kind'
      (listingSections env ctx kind ignoreAlreadyProcessed ns items) a := by
  refine Sims.run_bind
    (listItemsSections_unaware hf hbody hT hu hne ignoreAlreadyProcessed hitems) ?_
  generalize ((listItemsSections env ctx kind ignoreAlreadyProcessed items).run a).1 = changed
  generalize ((listItemsSections env ctx kind ignoreAlreadyProcessed items).run a).2 = a
  intro w b h
  have hscan : ∀ v : World, Hush v (staleItems env kind ns (items.map Item.key) v).2 := fun v => by
    obtain ⟨hsilent, hmaps⟩ := staleItems_silent env kind ns (items.map Item.key) v
    exact ⟨hsilent, hmaps⟩
  have hperm := h.own.staleItems_perm ns (items.map Item.key)
  have hrecord := h.onRecord ns (items.map Item.key)
  rw [← (hscan a).maps] at hrecord
  refine ⟨(staleItems env kind ns (items.map Item.key) a).2, h.hush (hscan w) (hscan a), ?_⟩
  obtain ⟨hans, htree, hobject⟩ := removeStale_perm hf hT hu hperm hrecord
  have hrest := Sims.run_bind (f := fun removed => (pure (changed || removed) : Prog World Bool))
    (removeStaleSections_unaware hf hbody hT hu hne hrecord) (Sims.pure _ _)
  refine hrest.finish ?_ fun t b ht => ?_
  · simp only [Prog.run_bind, Prog.run_atom, bind_apply, pure_apply, Prog.run_pure,
      removeStaleSections_run]
    rw [hans]
  · simp only [Prog.run_bind, Prog.run_atom, bind_apply, pure_apply, Prog.run_pure,
      removeStaleSections_run]
      at ht ⊢
    refine ht.alone htree fun k => ⟨?_, hobject k, ?_⟩
    · rw [removeStale_version, removeStale_version]
    · rw [removeStale_dest, removeStale_dest]

theorem Delivery.sections_unaware (ignoreAlreadyProcessed : Bool) {d : Delivery}
    (hd : d.kind = kind) (hitems : ∀ item ∈ d.items, T d.kind item (destinationFolder ctx item)) :
    Unaware env ctx T kind kind' (d.sections env ctx ignoreAlreadyProcessed) a := by
  subst hd
  cases d with
  | listing k ns items =>
    exact listingSections_unaware hf hbody hT hu hne ns ignoreAlreadyProcessed hitems
  | event k ev item =>
    exact eventSections_unaware hf hbody hT hu hne ignoreAlreadyProcessed ev
      (hitems item List.mem_cons_self)

/-- **A watcher** beside the other kind. -/
theorem taskSections_unaware (ignoreAlreadyProcessed : Bool) (requestUrl : Option String)
    {ds : List Delivery} (hds : ∀ d ∈ ds, d.kind = kind)
    (hitems : ∀ d ∈ ds, ∀ item ∈ d.items, T d.kind item (destinationFolder ctx item)) :
    Unaware env ctx T kind kind' (taskSections env ctx ignoreAlreadyProcessed requestUrl ds) a := by
  induction ds generalizing a with
  | nil => exact Sims.pure _ _
  | cons d ds ih =>
    refine Sims.run_bind (Delivery.sections_unaware hf hbody hT hu hne ignoreAlreadyProcessed
      (hds d List.mem_cons_self) (hitems d List.mem_cons_self)) ?_
    have hnotify := notify_silent env ctx requestUrl
    refine Sims.skip
      (fun s b h => h.hush (liftSys_hush (hnotify _) s) (liftSys_hush (hnotify _) _)) ?_
    exact Sims.run_bind (ih (fun x hx => hds x (List.mem_cons_of_mem d hx)) fun x hx =>
      hitems x (List.mem_cons_of_mem d hx)) (Sims.pure _ _)

end Programs

/-! ## Two watchers -/

section Watchers

variable (env : Env) (ctx : Ctx)

/-- The files of a run: the data keys of its items, in the folders that items of the same key are
put into. -/
def RunPlaces (ds : List Delivery) (q : Path) : Prop :=
  ∃ d ∈ ds, ∃ item ∈ d.items, ∃ e ∈ item.entries d.kind, ∃ d' ∈ ds, d'.kind = d.kind ∧
    ∃ item' ∈ d'.items, item'.key = item.key ∧
      (e.slot d.kind item.ns item.name (destinationFolder ctx item')).place env ctx = q

/-- Names that Kubernetes accepts, and no folder at or below a file. -/
structure FoldersApart (ds : List Delivery) : Prop where
  accepted : ∀ d ∈ ds, ∀ item ∈ d.items, item.Accepted d.kind
  apart : ∀ q, RunPlaces env ctx ds q → ∀ d ∈ ds, ∀ item ∈ d.items,
    ¬q <:+ canon env.proc.cwd (destinationFolder ctx item)

/-- A run comes to what it comes to by itself: its answers, what is filed under its kind, and its
files. -/
structure AsAlone (kind : Kind) (ds : List Delivery) (alone : List Bool × World)
    (fs : List Bool) (t : World) :
    Prop where
  answers : fs = alone.1
  version : ∀ key : String, t.maps.version[((kind, key) : MapKey)]? =
    alone.2.maps.version[((kind, key) : MapKey)]?
  object : ∀ key : String, t.maps.object[((kind, key) : MapKey)]? =
    alone.2.maps.object[((kind, key) : MapKey)]?
  dest : ∀ key : String, t.maps.dest[((kind, key) : MapKey)]? =
    alone.2.maps.dest[((kind, key) : MapKey)]?
  files : ∀ q, RunPlaces env ctx ds q → t.sys.tree.node q = alone.2.sys.tree.node q

/-- The items of a run, in any version the cache may have of them, and the folders that items of
their keys are put into. -/
def Resides (ds : List Delivery) (kind : Kind) (item : Item) (folder : String) : Prop :=
  (∃ d ∈ ds, d.kind = kind ∧ ∃ x ∈ d.items, x.ns = item.ns ∧ x.name = item.name ∧
      (x.entries kind).map Entry.id = (item.entries kind).map Entry.id) ∧
    ∃ d ∈ ds, d.kind = kind ∧ ∃ x ∈ d.items, x.key = item.key ∧ destinationFolder ctx x = folder

end Watchers

section Resides

variable {env : Env} {ctx : Ctx} {ds : List Delivery}

theorem resides_of_mem {d : Delivery} (hd : d ∈ ds) {item : Item} (hi : item ∈ d.items) :
    Resides ctx ds d.kind item (destinationFolder ctx item) :=
  ⟨⟨d, hd, rfl, item, hi, rfl, rfl, rfl⟩, d, hd, rfl, item, hi, rfl, rfl⟩

/-- An entry of an item is an entry of the item that was delivered. -/
theorem Resides.entry {kind : Kind} {item : Item} {folder : String}
    (h : Resides ctx ds kind item folder)
    {e : Entry} (he : e ∈ item.entries kind) : ∃ d ∈ ds, d.kind = kind ∧ ∃ x ∈ d.items,
      x.ns = item.ns ∧ x.name = item.name ∧ ∃ e' ∈ x.entries kind, e'.id = e.id := by
  obtain ⟨⟨d, hd, hkind, x, hx, hns, hname, hids⟩, -⟩ := h
  have hid : e.id ∈ (x.entries kind).map Entry.id := hids ▸ List.mem_map_of_mem he
  obtain ⟨e', he', hsame⟩ := List.mem_map.1 hid
  exact ⟨d, hd, hkind, x, hx, hns, hname, e', he', hsame⟩

theorem territory_of_folders (h : FoldersApart env ctx ds)
    (hs : ∀ d ∈ ds, ∀ item ∈ d.items, Direct (destinationFolder ctx item)) :
    Territory env ctx (Resides ctx ds) where
  retained := fun {kind item folder} ⟨⟨d, hd, hkind, x, hx, hns, hname, hids⟩, hfolder⟩ =>
    ⟨⟨d, hd, hkind, x, hx, hns, hname, hids.trans (ids_toRemovalItem kind item).symm⟩, hfolder⟩
  moved := by
    rintro kind item item' folder folder' ⟨hitem, -⟩ ⟨-, d, hd, hkind, x, hx, hkey, hfolder⟩ hsame
    exact ⟨hitem, d, hd, hkind, x, hx, hkey.trans hsame.symm, hfolder⟩
  accepted := by
    rintro kind item folder hitem
    obtain ⟨⟨d, hd, rfl, x, hx, hns, hname, hids⟩, -⟩ := id hitem
    have hx' := h.accepted d hd x hx
    refine ⟨hns ▸ hx'.ns, hname ▸ hx'.name, fun e he => ?_⟩
    have hid : e.id ∈ (x.entries d.kind).map Entry.id := hids ▸ List.mem_map_of_mem he
    obtain ⟨e', he', hsame⟩ := List.mem_map.1 hid
    have hkey : e'.dataKey = e.dataKey := congrArg Prod.snd hsame
    exact hkey ▸ hx'.keys e' he'
  direct := by
    rintro kind item folder ⟨-, d, hd, -, x, hx, -, rfl⟩
    exact hs d hd x hx
  apart := by
    rintro kind kind' item item' folder folder' e hitem he ⟨-, d', hd', -, x', hx', -, rfl⟩
    obtain ⟨d, hd, rfl, x, hx, hns, hname, e', he', hid⟩ := hitem.entry he
    obtain ⟨-, d₁, hd₁, hkind₁, x₁, hx₁, hkey₁, rfl⟩ := hitem
    refine h.apart _ ⟨d, hd, x, hx, e', he', d₁, hd₁, hkind₁, x₁, hx₁, ?_, ?_⟩ d' hd' x' hx'
    · rw [hkey₁]
      unfold Item.key
      rw [hns, hname]
    · rw [slot_congr hid, hns, hname]

theorem Maps.inside_empty (T : Kind → Item → String → Prop) : Maps.empty.Inside T :=
  ⟨fun k c hc => by simp [Maps.empty] at hc, fun k folder hfolder =>
    by simp [Maps.empty] at hfolder⟩

end Resides

section Runs

variable {env : Env} {ctx : Ctx} {body : String → ByteArray} {ds ds' : List Delivery} {w : World}
  {kind kind' : Kind}

theorem Together.symm {T : Kind → Item → String → Prop} {a b : World}
    (h : Together env ctx T kind kind' w a b) : Together env ctx T kind' kind w b a :=
  ⟨h.inside, h.other, h.own⟩

/-- Before both runs. -/
theorem Together.start (T : Kind → Item → String → Prop)
    (hcwd : w.sys.tree.node env.proc.cwd = some .dir)
    (hmaps : w.maps = .empty) : Together env ctx T kind kind' w w w := by
  have hself : ∀ k, Has env ctx T k w w := fun k =>
    ⟨fun _ => rfl, fun _ => rfl, fun _ => rfl, fun _ _ => rfl, fun _ _ => Iff.rfl, .refl _, hcwd⟩
  refine ⟨?_, hself kind, hself kind'⟩
  rw [hmaps]
  exact Maps.inside_empty T

/-- What one of two watchers comes to. -/
theorem beside_asAlone (hf : env.Faultless) (hbody : Fetches env ctx body)
    (hu : ctx.uniqueFilenames = true)
    (hcwd : w.sys.tree.node env.proc.cwd = some .dir) (hmaps : w.maps = .empty) (hne : kind ≠ kind')
    {all : List Delivery} (hall : Territory env ctx (Resides ctx all)) (hsub : ∀ d ∈ ds, d ∈ all)
    (hsub' : ∀ d ∈ ds', d ∈ all) (hds : ∀ d ∈ ds, d.kind = kind) (hds' : ∀ d ∈ ds', d.kind = kind')
    {ignoreAlreadyProcessed : Bool} {url url' : Option String} {fs : List Bool} {t : World}
    (hrun : Beside (taskSections env ctx ignoreAlreadyProcessed url ds)
      (taskSections env ctx ignoreAlreadyProcessed url' ds') w fs t) :
    AsAlone env ctx kind ds ((taskSections env ctx ignoreAlreadyProcessed url ds).run w) fs t := by
  have hown := taskSections_unaware (a := w) hf hbody hall hu hne ignoreAlreadyProcessed url hds
    fun d hd item hi => resides_of_mem (hsub d hd) hi
  have hother :=
    taskSections_unaware (a := w) hf hbody hall hu hne.symm ignoreAlreadyProcessed url' hds'
      fun d hd item hi => resides_of_mem (hsub' d hd) hi
  have hflip : (fun s b a => Together env ctx (Resides ctx all) kind kind' s a b) =
      Together env ctx (Resides ctx all) kind' kind := by
    funext s b a
    exact propext ⟨Together.symm, Together.symm⟩
  have hother' : Sims (fun s b a => Together env ctx (Resides ctx all) kind kind' s a b)
      (taskSections env ctx ignoreAlreadyProcessed url' ds') w
      ((taskSections env ctx ignoreAlreadyProcessed url' ds').run w) := by
    rw [hflip]
    exact hother
  obtain ⟨hans, b, ht⟩ := Sims.beside hrun hown hother' (Together.start _ hcwd hmaps)
  refine ⟨hans, ht.own.version, ht.own.object, ht.own.dest, fun q hq => ht.own.node q ?_⟩
  obtain ⟨d, hd, item, hi, e, he, d', hd', hkind, item', hi', hkey, rfl⟩ := hq
  refine ⟨item, destinationFolder ctx item', ⟨⟨d, hsub d hd, hds d hd, item, hi, rfl, rfl, rfl⟩,
    d', hsub d' hd', hds d' hd', item', hi', hkey, rfl⟩, e, hds d hd ▸ he, ?_⟩
  rw [hds d hd]

/-- **Watchers of different kinds do not interfere**: however a ConfigMap watcher and a Secret
watcher interleave, each comes to what it comes to by itself. -/
theorem kinds_do_not_interfere (hf : env.Faultless) (hbody : Fetches env ctx body)
    (hu : ctx.uniqueFilenames = true) (hcwd : w.sys.tree.node env.proc.cwd = some .dir)
    (hmaps : w.maps = .empty) (hds : ∀ d ∈ ds, d.kind = .configMap)
    (hds' : ∀ d ∈ ds', d.kind = .secret) (h : FoldersApart env ctx (ds ++ ds'))
    (hs : ∀ d ∈ ds ++ ds', ∀ item ∈ d.items, Direct (destinationFolder ctx item))
    (ignoreAlreadyProcessed : Bool) (url url' : Option String) :
    let configMaps := taskSections env ctx ignoreAlreadyProcessed url ds
    let secrets := taskSections env ctx ignoreAlreadyProcessed url' ds'
    (∀ fs t, Beside configMaps secrets w fs t →
      AsAlone env ctx .configMap ds (configMaps.run w) fs t) ∧
      ∀ fs t, Beside secrets configMaps w fs t →
      AsAlone env ctx .secret ds' (secrets.run w) fs t := by
  intro configMaps secrets
  have hT := territory_of_folders h hs
  have hleft : ∀ d ∈ ds, d ∈ ds ++ ds' := fun d hd => List.mem_append_left _ hd
  have hright : ∀ d ∈ ds', d ∈ ds ++ ds' := fun d hd => List.mem_append_right _ hd
  exact ⟨fun fs t hrun => beside_asAlone hf hbody hu hcwd hmaps
    (by decide) hT hleft hright hds hds' hrun,
    fun fs t hrun => beside_asAlone hf hbody hu hcwd hmaps
      (by decide) hT hright hleft hds' hds hrun⟩

end Runs

/-! ## A ConfigMap and a Secret of one name -/

def sampleMetadata (folder : String) : ObjectMeta :=
  ⟨some "ns", some "a", some "1", some (.ofList [(sampleCtx.folderAnnotation, folder)])⟩

def sampleConfigMapIn (folder : String) : Item :=
  .fromCm ⟨sampleMetadata folder, some (.ofList [("k", "v")]), none⟩

def sampleConfigMaps (ev : EventType) (folder : String) : List Delivery :=
  [.event .configMap ev (sampleConfigMapIn folder)]

def sampleSecrets (folder : String) : List Delivery :=
  [.event .secret .added (.fromSecret ⟨sampleMetadata folder, some (.ofList [("k", "w".toUTF8)])⟩)]

/-- The file of the ConfigMap. -/
def sampleFile (env : Env) (folder : String) : Path :=
  env.place (destinationFolder sampleUnique (sampleConfigMapIn folder)) "namespace_ns.configmap_a.k"

def sampleTask (env : Env) (ds : List Delivery) : Prog World (List Bool) :=
  taskSections env sampleUnique false none ds

/-- No file is at or above a folder, whatever folder it may be in. -/
theorem FoldersApart.of_all {env : Env} {ctx : Ctx} {ds : List Delivery}
    (haccepted : ∀ d ∈ ds, ∀ item ∈ d.items, item.Accepted d.kind)
    (hall : ∀ d ∈ ds, ∀ item ∈ d.items, ∀ e ∈ item.entries d.kind, ∀ d' ∈ ds, ∀ item' ∈ d'.items,
      ∀ d'' ∈ ds, ∀ item'' ∈ d''.items,
        ¬(e.slot d.kind item.ns item.name (destinationFolder ctx item')).place env ctx <:+
          canon env.proc.cwd (destinationFolder ctx item'')) : FoldersApart env ctx ds := by
  refine ⟨haccepted, ?_⟩
  rintro q ⟨d, hd, item, hi, e, he, d', hd', -, item', hi', -, rfl⟩ d'' hd'' item'' hi''
  exact hall d hd item hi e he d' hd' item' hi' d'' hd'' item'' hi''

theorem sample_foldersApart (env : Env) (ev : EventType) {folder folder' : String}
    (hall : ∀ d ∈ sampleConfigMaps ev folder ++ sampleSecrets folder', ∀ item ∈ d.items,
      ∀ e ∈ item.entries d.kind, ∀ d' ∈ sampleConfigMaps ev folder ++ sampleSecrets folder',
        ∀ item' ∈ d'.items,
      ∀ d'' ∈ sampleConfigMaps ev folder ++ sampleSecrets folder', ∀ item'' ∈ d''.items,
        ¬(e.slot d.kind item.ns item.name (destinationFolder sampleUnique item')).place env
          sampleUnique <:+
          canon env.proc.cwd (destinationFolder sampleUnique item'')) :
    FoldersApart env sampleUnique (sampleConfigMaps ev folder ++ sampleSecrets folder') := by
  refine .of_all (fun d hd item hi => ?_) hall
  simp only [sampleConfigMaps, sampleSecrets, List.cons_append, List.nil_append, List.mem_cons,
    List.not_mem_nil, or_false] at hd
  have hns : DnsLabel "ns" := by decide
  have hname : DnsSubdomain "a" := by decide
  have hkey : ConfigKey "k" := by decide
  obtain rfl | rfl := hd <;> obtain rfl := List.mem_singleton.1 hi
  all_goals
    refine ⟨hns, hname, fun e he => ?_⟩
    obtain rfl := List.mem_singleton.1 he
    exact hkey

theorem sampleFile_runPlaces (env : Env) (ev : EventType) (folder : String) :
    RunPlaces env sampleUnique (sampleConfigMaps ev folder) (sampleFile env folder) := by
  have hname : uniqueFilename (dataFileName "k") "ns" "configmap" "a" =
      "namespace_ns.configmap_a.k" := by
    decide +kernel
  refine ⟨_, List.mem_singleton_self _, _, List.mem_singleton_self _,
    ⟨contentTypeText, "k", .text "v"⟩,
    List.mem_singleton_self _, _, List.mem_singleton_self _, rfl, _,
    List.mem_singleton_self _, rfl, ?_⟩
  exact congrArg (env.place _) hname

/-- Both are put into one folder. -/
theorem kinds_do_not_interfere_sample :
    ((sampleTask sampleEnv (sampleConfigMaps .added "b")).run sampleWorld).1 = [true] ∧
      ∀ fs t, Beside (sampleTask sampleEnv (sampleConfigMaps .added "b"))
          (sampleTask sampleEnv (sampleSecrets "b")) sampleWorld fs t →
        fs = [true] ∧
          t.sys.tree.node ["namespace_ns.configmap_a.k", "b", "data"] =
            some (.file "v".toUTF8 0o644) := by
  have hanswers :
      ((sampleTask sampleEnv (sampleConfigMaps .added "b")).run sampleWorld).1 = [true] := by
    decide +kernel
  have hfile :
      ((sampleTask sampleEnv (sampleConfigMaps .added "b")).run sampleWorld).2.sys.tree.node
        ["namespace_ns.configmap_a.k", "b", "data"] = some (.file "v".toUTF8 0o644) := by
      decide +kernel
  refine ⟨hanswers, fun fs t hrun => ?_⟩
  have hfetches : Fetches sampleEnv sampleUnique fun _ => "body".toUTF8 := fun _ _ => rfl
  have h := (kinds_do_not_interfere (fun _ => rfl) hfetches
    rfl (by decide +kernel) rfl (by decide) (by decide)
      (sample_foldersApart sampleEnv .added (by decide +kernel))
    (by decide +kernel) false none none).1 fs t hrun
  exact ⟨h.answers.trans hanswers,
    (h.files _ (sampleFile_runPlaces sampleEnv .added "b")).trans hfile⟩

/-- A file of the ConfigMap was left in `/data/c` by an earlier process. -/
def sampleLeft : World :=
  { sampleWorld with sys := { sampleWorld.sys with
      tree := ((FileTree.empty.mkdir ["data"]).mkdir ["c", "data"]).setFile
        ["namespace_ns.configmap_a.k", "c", "data"] "v".toUTF8 0o644 } }

/-- The second file-system call fails, whoever makes it. -/
def sampleOneFault : Env :=
  { sampleEnv with fault := fun n => if n = 1 then some ⟨.other, 0⟩ else none }

/-- A run after which the file is not as it is when the watcher is alone. -/
theorem sample_interferes {env : Env} {ev : EventType} {folder : String} {w : World} (l : List Bool)
    (hl : (schedule l (sampleTask env (sampleConfigMaps ev folder))
      (sampleTask env (sampleSecrets "b")) w).any
      (fun t => decide (t.sys.tree.node (sampleFile env folder) ≠
        ((sampleTask env (sampleConfigMaps ev folder)).run w).2.sys.tree.node
          (sampleFile env folder))) = true) :
    ∃ fs t, Beside (sampleTask env (sampleConfigMaps ev folder))
      (sampleTask env (sampleSecrets "b")) w fs t ∧
      ¬AsAlone env sampleUnique .configMap (sampleConfigMaps ev folder)
        ((sampleTask env (sampleConfigMaps ev folder)).run w) fs t := by
  obtain ⟨t, ht, hne⟩ := (Option.any_eq_true _ _).1 hl
  obtain ⟨fs, hbeside⟩ := (both_of_schedule ht).beside
  exact ⟨fs, t, hbeside, fun h =>
    of_decide_eq_true hne (h.files _ (sampleFile_runPlaces env ev folder))⟩

/-- A ConfigMap is deleted, with the folder `b/../c`: by itself the watcher finds no file there,
since there is no `b` until a Secret is put into it. One is added with the folder `b/.`, which
cannot be created unless there is a `b`. And a call that fails once fails for the watcher that
happens to make it. -/
theorem kinds_interfere :
    (let ds := sampleConfigMaps .deleted "b/../c"
      let ds' := sampleSecrets "b"
      FoldersApart sampleEnv sampleUnique (ds ++ ds') ∧ sampleEnv.Faultless ∧
        ∃ fs t, Beside (sampleTask sampleEnv ds) (sampleTask sampleEnv ds') sampleLeft fs t ∧
          ¬AsAlone sampleEnv sampleUnique .configMap ds
            ((sampleTask sampleEnv ds).run sampleLeft) fs t) ∧
    (let ds := sampleConfigMaps .added "b/."
      let ds' := sampleSecrets "b"
      FoldersApart sampleEnv sampleUnique (ds ++ ds') ∧ sampleEnv.Faultless ∧
        (∀ d ∈ ds ++ ds', ∀ item ∈ d.items, Straight (destinationFolder sampleUnique item)) ∧
        ∃ fs t, Beside (sampleTask sampleEnv ds) (sampleTask sampleEnv ds') sampleWorld fs t ∧
          ¬AsAlone sampleEnv sampleUnique .configMap ds
            ((sampleTask sampleEnv ds).run sampleWorld) fs t) ∧
    (let ds := sampleConfigMaps .added "b"
      let ds' := sampleSecrets "b"
      FoldersApart sampleOneFault sampleUnique (ds ++ ds') ∧
        (∀ d ∈ ds ++ ds', ∀ item ∈ d.items, Direct (destinationFolder sampleUnique item)) ∧
        ∃ fs t, Beside (sampleTask sampleOneFault ds) (sampleTask sampleOneFault ds')
          sampleWorld fs t ∧
          ¬AsAlone sampleOneFault sampleUnique .configMap ds
            ((sampleTask sampleOneFault ds).run sampleWorld) fs t) := by
  -- the Secret's sections come first
  have hbackStep := @sample_interferes sampleEnv .deleted "b/../c" sampleLeft
    (List.replicate 6 false ++ List.replicate 7 true) (by decide +kernel)
  have hdot := @sample_interferes sampleEnv .added "b/." sampleWorld
    (List.replicate 6 false ++ List.replicate 7 true) (by decide +kernel)
  have hfault := @sample_interferes sampleOneFault .added "b" sampleWorld
    (List.replicate 6 false ++ List.replicate 7 true) (by decide +kernel)
  exact ⟨⟨sample_foldersApart sampleEnv .deleted (by decide +kernel), fun _ => rfl, hbackStep⟩,
    ⟨sample_foldersApart sampleEnv .added (by decide +kernel), fun _ => rfl,
      by decide +kernel, hdot⟩,
    sample_foldersApart sampleOneFault .added (by decide +kernel), by decide +kernel, hfault⟩

end Sidecar
