import Sidecar.Reading

/-!
# Polling

The same listing, pass after pass. One pass from any reachable maps brings them to a steady state:
every listed item is cached with its folder, and nothing is stale (`applyListing_steady`). From
steady maps a pass writes the files of the listing and removes none, so after one more pass each has
its digest, and every later pass finds nothing to do.
-/

namespace Sidecar

open Posix StateM

section Maps

variable (env : Env) (ctx : Ctx) (kind : Kind)

/-! ## The maps after a pass -/

/-- Resources that are not listed keep their entries. -/
theorem listItems_other {items : List Item} {k : MapKey}
    (hk : ∀ item ∈ items, (kind, item.key) ≠ k) (w : World) :
    (listItems env ctx kind false items w).2.maps.object[k]? = w.maps.object[k]? ∧
      (listItems env ctx kind false items w).2.maps.dest[k]? = w.maps.dest[k]? := by
  induction items generalizing w with
  | nil => exact ⟨rfl, rfl⟩
  | cons item items ih =>
    have hne := hk item List.mem_cons_self
    rw [listItems_cons]
    obtain ⟨ho, hd⟩ := ih (fun i hi => hk i (List.mem_cons_of_mem item hi))
      (listItem env ctx kind false item w).2
    rw [listItem_maps, Maps.enter_object, if_neg hne] at ho
    rw [listItem_maps, Maps.enter_dest, if_neg fun h => hne h.2] at hd
    exact ⟨ho, hd⟩

/-- Listed resources are cached with their folder. -/
theorem listItems_mem {items : List Item} (hn : (items.map Item.key).Nodup) {item : Item}
    (hi : item ∈ items) (w : World) :
    (listItems env ctx kind false items w).2.maps.object[((kind, item.key) : MapKey)]? =
        some (.fromItem item) ∧
      (listItems env ctx kind false items w).2.maps.dest[((kind, item.key) : MapKey)]? =
        some (destinationFolder ctx item) := by
  induction items generalizing w with
  | nil => cases hi
  | cons i items ih =>
    rw [List.map_cons, List.nodup_cons] at hn
    rw [listItems_cons]
    rcases List.mem_cons.1 hi with rfl | hi
    · have hother : ∀ i ∈ items, (kind, i.key) ≠ (kind, item.key) := fun i hi h =>
        hn.1 ((Prod.mk.inj h).2 ▸ List.mem_map_of_mem hi)
      obtain ⟨ho, hd⟩ := listItems_other env ctx kind hother (listItem env ctx kind false item w).2
      rw [listItem_maps, Maps.enter_object, if_pos rfl] at ho
      rw [listItem_maps, Maps.enter_dest, if_pos ⟨rfl, rfl⟩] at hd
      exact ⟨ho, hd⟩
    · exact ih hn.2 hi (listItem env ctx kind false i w).2

theorem listItems_wf (items : List Item) {w : World} (h : w.maps.WF) :
    (listItems env ctx kind false items w).2.maps.WF := by
  induction items generalizing w with
  | nil => exact h
  | cons item items ih =>
    rw [listItems_cons]
    refine ih ?_
    rw [listItem_maps]
    exact h.enter ..

/-- The stale cleanup forgets its items, and nothing else. -/
theorem removeStale_object (items : List Item) (w : World) (k : MapKey) :
    (removeStale env ctx kind items w).2.maps.object[k]? =
      if k ∈ items.map (fun i => (kind, i.key)) then none else w.maps.object[k]? := by
  induction items generalizing w with
  | nil => rfl
  | cons item items ih =>
    rw [removeStale_cons]
    dsimp only
    rw [ih, processResource_maps, Maps.enter_object, List.map_cons]
    by_cases hrest : k ∈ items.map fun i => (kind, i.key)
    · rw [if_pos hrest, if_pos (List.mem_cons_of_mem _ hrest)]
    · rw [if_neg hrest]
      by_cases hk : (kind, item.key) = k
      · have hmem : k ∈ (kind, item.key) :: items.map fun i => (kind, i.key) := by
          rw [hk]
          exact List.mem_cons_self
        rw [if_pos hk, if_pos hmem, if_pos rfl]
      · rw [if_neg hk, if_neg]
        rw [List.mem_cons, not_or]
        exact ⟨fun h => hk h.symm, hrest⟩

theorem removeStale_dest (items : List Item) (w : World) (k : MapKey) :
    (removeStale env ctx kind items w).2.maps.dest[k]? = w.maps.dest[k]? := by
  induction items generalizing w with
  | nil => rfl
  | cons item items ih =>
    rw [removeStale_cons]
    dsimp only
    rw [ih, processResource_maps, Maps.enter_dest, if_neg (by simp)]

/-! ## Steady maps -/

/-- Every item of the listing is cached with its folder, and nothing in scope is stale. -/
structure Steady (ns : String) (items : List Item) (m : Maps) : Prop where
  object : ∀ item ∈ items, m.object[((kind, item.key) : MapKey)]? = some (.fromItem item)
  dest : ∀ item ∈ items,
    m.dest[((kind, item.key) : MapKey)]? = some (destinationFolder ctx item)
  fresh : ∀ (k : MapKey) (c : CachedItem), m.object[k]? = some c →
    isStale kind ns (items.map Item.key) k c = false

/-- A pass forgets what is stale once its items are listed. -/
theorem applyListing_object {ns : String} {ignoreAlreadyProcessed : Bool} {items : List Item}
    {w : World}
    (hwf : (listItems env ctx kind ignoreAlreadyProcessed items w).2.maps.WF) (k : MapKey) :
    (applyListing env ctx kind ns ignoreAlreadyProcessed items w).2.maps.object[k]? =
      if k ∈ staleKeys env kind ns (items.map Item.key)
          (listItems env ctx kind ignoreAlreadyProcessed items w).2 then none
      else (listItems env ctx kind ignoreAlreadyProcessed items w).2.maps.object[k]? := by
  rw [applyListing_eq]
  dsimp only
  rw [removeStale_object, staleItems_keys env kind _ _ hwf,
    (staleItems_silent env kind ns (items.map Item.key) _).2]

/-- After a pass nothing in scope is stale. -/
theorem applyListing_fresh {ns : String} {ignoreAlreadyProcessed : Bool} {items : List Item}
    {w : World}
    (hwf : (listItems env ctx kind ignoreAlreadyProcessed items w).2.maps.WF)
    {k : MapKey} {c : CachedItem}
    (hc : (applyListing env ctx kind ns ignoreAlreadyProcessed items w).2.maps.object[k]? =
      some c) :
    isStale kind ns (items.map Item.key) k c = false := by
  rw [applyListing_object env ctx kind hwf] at hc
  split at hc
  · cases hc
  · next hk =>
    by_contra hstale
    exact hk ((mem_staleKeys env kind).2 ⟨c, hc, by simpa using hstale⟩)

/-- **One pass makes the maps steady.** -/
theorem applyListing_steady {ns : String} {items : List Item} (hn : (items.map Item.key).Nodup)
    {w : World} (hwf : w.maps.WF) :
    Steady ctx kind ns items (applyListing env ctx kind ns false items w).2.maps := by
  have hlisted : (listItems env ctx kind false items w).2.maps.WF :=
    listItems_wf env ctx kind items hwf
  refine ⟨fun item hi => ?_, fun item hi => ?_, fun k c => applyListing_fresh env ctx kind hlisted⟩
  · have hnot : ((kind, item.key) : MapKey) ∉ staleKeys env kind ns (items.map Item.key)
        (listItems env ctx kind false items w).2 := by
      intro hk
      obtain ⟨c, -, hstale⟩ := (mem_staleKeys env kind).1 hk
      have hmem : item.key ∈ items.map Item.key := List.mem_map_of_mem hi
      simp [isStale, hmem] at hstale
    rw [applyListing_object env ctx kind hlisted, if_neg hnot]
    exact (listItems_mem env ctx kind hn hi w).1
  · rw [applyListing_eq]
    dsimp only
    rw [removeStale_dest, (staleItems_silent env kind ns (items.map Item.key) _).2]
    exact (listItems_mem env ctx kind hn hi w).2

theorem HashMap.insert_same {V : Type} {m : HashMap V} {k : MapKey} {v : V} (h : m[k]? = some v) :
    m.insert k v = m := by
  refine Std.ExtTreeMap.ext_getElem? fun a => ?_
  rw [HashMap.getElem?_insert]
  split
  · next hk => rw [← hk, h]
  · rfl

/-- What a listed item writes. -/
def itemJobs (ctx : Ctx) (kind : Kind) (item : Item) : List Job :=
  (item.entries kind).map (Entry.job (destinationFolder ctx item) item false)

/-- The item is cached as it is, with its folder. -/
structure Maps.Current (m : Maps) (item : Item) : Prop where
  object : m.object[((kind, item.key) : MapKey)]? = some (.fromItem item)
  dest : m.dest[((kind, item.key) : MapKey)]? = some (destinationFolder ctx item)

variable {ctx kind} {ns : String} {items : List Item} {item : Item}

/-- Then it is written, nothing of it is removed, and the maps stay. -/
theorem Maps.Current.processResource {w : World} (h : Maps.Current ctx kind w.maps item) :
    ∃ as, (jobs as).Perm (itemJobs ctx kind item) ∧
      processResource env ctx kind item (some (destinationFolder ctx item)) false w =
        ((runActions env ctx kind as w.sys).1, ⟨(runActions env ctx kind as w.sys).2, w.maps⟩) := by
  have hold : (w.maps.enter kind item (some (destinationFolder ctx item)) false).1 =
      ⟨(CachedItem.fromItem item).toRemovalItem, destinationFolder ctx item⟩ := by
    rw [Maps.enter_old, h.dest]
    unfold Maps.oldItem
    rw [h.object]
    rfl
  have henter : (w.maps.enter kind item (some (destinationFolder ctx item)) false).2 = w.maps := by
    unfold Maps.enter
    simp only [Bool.false_eq_true, if_false, Option.getD_some]
    rw [HashMap.insert_same h.object, HashMap.insert_same h.dest]
  refine ⟨plan kind item ⟨(CachedItem.fromItem item).toRemovalItem, destinationFolder ctx item⟩
    (destinationFolder ctx item) false, ?_, ?_⟩
  · refine (jobs_plan_perm kind item _ _).trans ?_
    have hleft :
        Old.leftovers ⟨(CachedItem.fromItem item).toRemovalItem, destinationFolder ctx item⟩
        kind item (destinationFolder ctx item) = [] := by
      refine List.filter_eq_nil_iff.2 fun e he => ?_
      have hid := List.mem_map_of_mem (f := Entry.id) he
      rw [ids_toRemovalItem] at hid
      simp [isLeftover, hid]
    rw [hleft]
    simp [itemJobs]
  · rw [processResource_eq]
    dsimp only
    rw [henter, hold]
    rfl

/-- From steady maps a listed item is written, and nothing of it is removed. -/
theorem Steady.listItem {w : World} (h : Steady ctx kind ns items w.maps) (hi : item ∈ items) :
    ∃ as s, Silent w.sys s ∧ (jobs as).Perm (itemJobs ctx kind item) ∧
      listItem env ctx kind false item w =
        ((runActions env ctx kind as s).1, ⟨(runActions env ctx kind as s).2, w.maps⟩) := by
  obtain ⟨s, hs, heq⟩ := listItem_run env ctx kind item w (by simp : ¬(false = true ∧ _))
  have hcurrent : Maps.Current ctx kind w.maps item := ⟨h.object item hi, h.dest item hi⟩
  obtain ⟨as, hperm, hrun⟩ :=
    Maps.Current.processResource env (w := ⟨s, w.maps.record kind item false⟩) hcurrent
  exact ⟨as, s, hs, hperm, heq.trans hrun⟩

end Maps

/-! ## The files after a pass -/

section Files

variable {env : Env} {ctx : Ctx} {kind : Kind} {body : String → ByteArray}

/-- The file of a written data key has the digest of its bytes already (or it has no bytes). -/
def Job.Quiet (env : Env) (ctx : Ctx) (kind : Kind) (body : String → ByteArray) (j : Job)
    (files : Path → Option ByteArray) : Prop :=
  ∀ data, keyBytes body j.dataKey j.content = some data →
    Store.Settled env.sha256 files (j.assign env ctx kind data)

variable (hbody : Fetches env ctx body)
include hbody

/-- A write settles its file. -/
theorem Job.run_settles {j : Job} (hr : j.remove = false) {s : Sys}
    (h : (j.run env ctx kind s).2.ioErrors = s.ioErrors) :
    j.Quiet env ctx kind body (j.run env ctx kind s).2.tree.fileAt := by
  intro data hdata
  obtain ⟨d, hd, hdone⟩ | ⟨d, hd, hfiles, -, -⟩ | ⟨e, hd, -, -, -⟩ :=
    Job.run_io env ctx kind j (by simp [hr]) h
  all_goals rw [getFileDataAndName_eq hbody, hdata] at hd
  · cases hd
    rw [hdone.files]
    exact Store.step_settled _
  · cases hd
    rw [hfiles]
    exact Store.step_settled _
  · cases hd

/-- A write to a settled file changes nothing, nor does the removal of a file that is gone. -/
theorem Job.run_quiet {j : Job} {s : Sys} (hq : j.Quiet env ctx kind body s.tree.fileAt)
    (h : (j.run env ctx kind s).2.ioErrors = s.ioErrors) :
    (j.run env ctx kind s).1 = false ∧
      (j.run env ctx kind s).2.tree.fileAt = s.tree.fileAt := by
  cases hkey : keyBytes body j.dataKey j.content with
  | none =>
    -- the value of a `*.url` key is no text, so nothing is written or removed
    have herror := getFileDataAndName_eq hbody j.dataKey j.content s
    rw [hkey] at herror
    have hget := getFileDataAndName_silent env ctx j.dataKey j.content s
    rw [Job.run_eq, andThen_error herror]
    exact ⟨rfl, congrArg FileTree.fileAt hget.tree⟩
  | some data =>
    have hset := hq data hkey
    have hgone : j.remove = true → s.tree.fileAt (j.place env ctx kind) ≠ none →
        j.Reachable env ctx kind s.tree := by
      intro hr hpresent
      unfold Store.Settled at hset
      rw [Job.assign_of_remove hr] at hset
      exact absurd (Option.map_eq_none_iff.1 hset) hpresent
    obtain ⟨d, hd, hdone⟩ | ⟨d, hd, hfiles, hres, -⟩ | ⟨e, -, htree, hres, -⟩ :=
      Job.run_io env ctx kind j hgone h
    · rw [hdone.result, hdone.files, Store.step_of_settled (hq d (Computes.eq hbody ⟨s, hd⟩))]
      exact ⟨rfl, rfl⟩
    · rw [hfiles, Store.step_of_settled (hq d (Computes.eq hbody ⟨s, hd⟩))]
      exact ⟨hres, rfl⟩
    · exact ⟨hres, by rw [htree]⟩

omit hbody in
/-- Whether a write is settled only depends on its own file. -/
theorem Job.Quiet.congr {j : Job} {files files' : Path → Option ByteArray}
    (h : j.Quiet env ctx kind body files)
    (hp : files' (j.place env ctx kind) = files (j.place env ctx kind)) :
    j.Quiet env ctx kind body files' := fun data hdata =>
  (Store.settled_congr hp).2 (h data hdata)

/-- Writes to distinct places settle all their files. -/
theorem runActions_settle {as : List Action} (hr : ∀ j ∈ jobs as, j.remove = false)
    (hn : ((jobs as).map (Job.place env ctx kind)).Nodup) {s : Sys}
    (h : (runActions env ctx kind as s).2.ioErrors = s.ioErrors) :
    ∀ j ∈ jobs as, j.Quiet env ctx kind body (runActions env ctx kind as s).2.tree.fileAt := by
  refine runActions_clean env ctx kind (P := fun js _ out => (∀ j ∈ js, j.remove = false) →
    (js.map (Job.place env ctx kind)).Nodup → ∀ j ∈ js, j.Quiet env ctx kind body out.2.tree.fileAt)
    ?_ ?_ ?_ h hr hn
  · intro s _ _ j hj
    cases hj
  · intro js s t out _ ih
    exact ih
  · intro j js s out hfirst htouch ih hr hn j' hj'
    rw [List.map_cons, List.nodup_cons] at hn
    rcases List.mem_cons.1 hj' with rfl | hj'
    · refine (Job.run_settles hbody (hr j' List.mem_cons_self) hfirst).congr ?_
      refine htouch.files _ ?_
      rintro ⟨j'', hj'', hp⟩
      exact hn.1 (hp ▸ List.mem_map_of_mem hj'')
    · exact ih (fun x hx => hr x (List.mem_cons_of_mem j hx)) hn.2 j' hj'

/-- Jobs whose files are in place change nothing. -/
theorem runActions_quiet {as : List Action} {s : Sys}
    (hq : ∀ j ∈ jobs as, j.Quiet env ctx kind body s.tree.fileAt)
    (h : (runActions env ctx kind as s).2.ioErrors = s.ioErrors) :
    (runActions env ctx kind as s).1 = false ∧
      (runActions env ctx kind as s).2.tree.fileAt = s.tree.fileAt := by
  refine runActions_clean env ctx kind (P := fun js s out =>
    (∀ j ∈ js, j.Quiet env ctx kind body s.tree.fileAt) →
      out.1 = false ∧ out.2.tree.fileAt = s.tree.fileAt) ?_ ?_ ?_ h hq
  · intro s _
    exact ⟨rfl, rfl⟩
  · intro js s t out hsilent ih
    rwa [hsilent.tree] at ih
  · intro j js s out hfirst _ ih hq
    obtain ⟨hres, hfiles⟩ := Job.run_quiet hbody (hq j List.mem_cons_self) hfirst
    obtain ⟨hres', hfiles'⟩ := ih fun x hx =>
      (hq x (List.mem_cons_of_mem j hx)).congr (congrFun hfiles _)
    exact ⟨Bool.or_eq_false_iff.2 ⟨hres, hres'⟩, hfiles'.trans hfiles⟩

end Files

/-! ## Steady passes -/

section Passes

variable {env : Env} {ctx : Ctx} {kind : Kind} {ns : String} {items : List Item}
  {body : String → ByteArray}

/-- The target paths of all data keys of a listing. -/
def targets (env : Env) (ctx : Ctx) (kind : Kind) (items : List Item) : List Path :=
  items.flatMap fun item => (itemJobs ctx kind item).map (Job.place env ctx kind)

theorem itemJobs_write {item : Item} {j : Job} (h : j ∈ itemJobs ctx kind item) :
    j.remove = false := by
  obtain ⟨e, -, rfl⟩ := List.mem_map.1 h
  rfl

variable (env) in
/-- A steady pass over some of the items keeps the maps and touches their files only. -/
theorem listItems_touches {sub : List Item} (hsub : ∀ item ∈ sub, item ∈ items) {w : World}
    (hst : Steady ctx kind ns items w.maps) :
    (listItems env ctx kind false sub w).2.maps = w.maps ∧
      Touches (· ∈ targets env ctx kind sub) w.sys (listItems env ctx kind false sub w).2.sys := by
  induction sub generalizing w with
  | nil => exact ⟨rfl, (Touches.preorder _).refl _⟩
  | cons item sub ih =>
    rw [listItems_cons]
    obtain ⟨as, s, hs, hperm, heq⟩ := hst.listItem env (hsub item List.mem_cons_self)
    rw [heq]
    dsimp only
    obtain ⟨hm, ht⟩ := ih (fun i hi => hsub i (List.mem_cons_of_mem item hi))
      (w := ⟨(runActions env ctx kind as s).2, w.maps⟩) hst
    refine ⟨hm, ?_⟩
    have hp := Touches.preorder (· ∈ targets env ctx kind (item :: sub))
    refine hp.trans (hs.within _).toTouches (hp.trans
      ((runActions_touches env ctx kind as s).mono fun p => ?_) (ht.mono fun p hp => ?_))
    · rintro ⟨j, hj, rfl⟩
      exact List.mem_append_left _ (List.mem_map_of_mem (hperm.mem_iff.1 hj))
    · exact List.mem_append_right _ hp

/-- A steady pass without a failing call runs the first item's jobs and goes on with the others,
without a failing call in either. -/
theorem Steady.listItems_cons {item : Item} {sub : List Item}
    (hsub : ∀ i ∈ item :: sub, i ∈ items) {w : World} (hst : Steady ctx kind ns items w.maps)
    (h : (listItems env ctx kind false (item :: sub) w).2.sys.ioErrors = w.sys.ioErrors) :
    ∃ as s, Silent w.sys s ∧ (jobs as).Perm (itemJobs ctx kind item) ∧
      (runActions env ctx kind as s).2.ioErrors = s.ioErrors ∧
      let first := runActions env ctx kind as s
      let others := listItems env ctx kind false sub ⟨first.2, w.maps⟩
      listItems env ctx kind false (item :: sub) w = (first.1 || others.1, others.2) ∧
        others.2.sys.ioErrors = first.2.ioErrors ∧
        Touches (· ∈ targets env ctx kind sub) first.2 others.2.sys := by
  rw [Sidecar.listItems_cons] at h
  obtain ⟨as, s, hs, hperm, heq⟩ := hst.listItem env (hsub item List.mem_cons_self)
  rw [heq] at h
  dsimp only at h
  obtain ⟨-, ht⟩ := listItems_touches env (fun i hi => hsub i (List.mem_cons_of_mem item hi))
    (w := ⟨(runActions env ctx kind as s).2, w.maps⟩) hst
  have hact := (runActions_touches env ctx kind as s).trace
  obtain ⟨hfirst, hrest⟩ := count_squeeze (hs.trace.trans hact) ht.trace h
  refine ⟨as, s, hs, hperm, (count_squeeze hs.trace hact hfirst).2, ?_, hrest, ht⟩
  rw [Sidecar.listItems_cons, heq]

/-- The files of the listing have their digests. -/
def AllQuiet (env : Env) (ctx : Ctx) (kind : Kind) (body : String → ByteArray)
    (items : List Item) (s : Sys) : Prop :=
  ∀ item ∈ items, ∀ j ∈ itemJobs ctx kind item, j.Quiet env ctx kind body s.tree.fileAt

variable (hbody : Fetches env ctx body)
include hbody

/-- A steady pass settles every file of the listing. -/
theorem listItems_settle {sub : List Item} (hsub : ∀ item ∈ sub, item ∈ items)
    (hn : (targets env ctx kind sub).Nodup) {w : World} (hst : Steady ctx kind ns items w.maps)
    (h : (listItems env ctx kind false sub w).2.sys.ioErrors = w.sys.ioErrors) :
    AllQuiet env ctx kind body sub (listItems env ctx kind false sub w).2.sys := by
  induction sub generalizing w with
  | nil => exact fun _ hi => by cases hi
  | cons item sub ih =>
    obtain ⟨as, s, hs, hperm, hstep, heq, hrest, ht⟩ := hst.listItems_cons hsub h
    rw [heq]
    have hsub' : ∀ i ∈ sub, i ∈ items := fun i hi => hsub i (List.mem_cons_of_mem item hi)
    have hn' : ((itemJobs ctx kind item).map (Job.place env ctx kind) ++
        targets env ctx kind sub).Nodup := hn
    rw [List.nodup_append] at hn'
    have hquiet := runActions_settle hbody
      (fun j hj => itemJobs_write (hperm.mem_iff.1 hj))
      ((hperm.map _).nodup_iff.2 hn'.1) hstep
    intro i hi j hj
    rcases List.mem_cons.1 hi with rfl | hi
    · -- the files of the first item are not touched again
      refine (hquiet j (hperm.mem_iff.2 hj)).congr (ht.files _ fun hmem => ?_)
      exact hn'.2.2 _ (List.mem_map_of_mem hj) _ hmem rfl
    · exact ih hsub' hn'.2.1 (w := ⟨(runActions env ctx kind as s).2, w.maps⟩) hst hrest i hi j hj

/-- A steady pass over settled files changes nothing. -/
theorem listItems_quiet {sub : List Item} (hsub : ∀ item ∈ sub, item ∈ items) {w : World}
    (hst : Steady ctx kind ns items w.maps) (hq : AllQuiet env ctx kind body sub w.sys)
    (h : (listItems env ctx kind false sub w).2.sys.ioErrors = w.sys.ioErrors) :
    (listItems env ctx kind false sub w).1 = false ∧
      (listItems env ctx kind false sub w).2.sys.tree.fileAt = w.sys.tree.fileAt := by
  induction sub generalizing w with
  | nil => exact ⟨rfl, rfl⟩
  | cons item sub ih =>
    obtain ⟨as, s, hs, hperm, hstep, heq, hrest, ht⟩ := hst.listItems_cons hsub h
    rw [heq]
    have hsub' : ∀ i ∈ sub, i ∈ items := fun i hi => hsub i (List.mem_cons_of_mem item hi)
    obtain ⟨hres, hfiles⟩ := runActions_quiet hbody (fun j hj => by
      rw [hs.tree]
      exact hq item List.mem_cons_self j (hperm.mem_iff.1 hj)) hstep
    rw [hs.tree] at hfiles
    obtain ⟨hres', hfiles'⟩ := ih hsub' (w := ⟨(runActions env ctx kind as s).2, w.maps⟩) hst
      (fun i hi j hj => (hq i (List.mem_cons_of_mem item hi) j hj).congr (congrFun hfiles _)) hrest
    exact ⟨Bool.or_eq_false_iff.2 ⟨hres, hres'⟩, hfiles'.trans hfiles⟩

variable (env) in
omit hbody in
theorem staleItems_fresh {existKeys : List String} {w : World}
    (h : ∀ (k : MapKey) (c : CachedItem), w.maps.object[k]? = some c →
      isStale kind ns existKeys k c = false) : (staleItems env kind ns existKeys w).1 = [] := by
  rw [staleItems_eq]
  have hkeys : staleKeys env kind ns existKeys w = [] := by
    refine List.eq_nil_iff_forall_not_mem.2 fun k hk => ?_
    obtain ⟨c, hc, hstale⟩ := (mem_staleKeys env kind).1 hk
    rw [h k c hc] at hstale
    cases hstale
  rw [hkeys]
  rfl

variable (env) in
omit hbody in
/-- On steady maps the stale cleanup has nothing to do. -/
theorem Steady.applyListing {w : World} (hst : Steady ctx kind ns items w.maps) :
    (applyListing env ctx kind ns false items w).1 = (listItems env ctx kind false items w).1 ∧
      (applyListing env ctx kind ns false items w).2.maps = w.maps ∧
      Silent (listItems env ctx kind false items w).2.sys
        (applyListing env ctx kind ns false items w).2.sys := by
  obtain ⟨hmaps, -⟩ := listItems_touches env (fun _ h => h) hst
  have hfresh : ∀ (k : MapKey) (c : CachedItem),
      (listItems env ctx kind false items w).2.maps.object[k]? = some c →
        isStale kind ns (items.map Item.key) k c = false := by
    rw [hmaps]
    exact hst.fresh
  obtain ⟨hsilent, hsame⟩ := staleItems_silent env kind ns (items.map Item.key)
    (listItems env ctx kind false items w).2
  rw [applyListing_eq]
  dsimp only
  rw [staleItems_fresh env hfresh]
  refine ⟨Bool.or_false _, hsame.trans hmaps, hsilent⟩

end Passes

/-! ## Repeated passes -/

section Polls

variable {env : Env} {ctx : Ctx} {kind : Kind} {ns : String} {requestUrl : Option String}
  {items : List Item} {replies : Nat → ListReplies kind} {w : Nat → World} {N : Nat}

/-- `N` list passes that each read the same listing; between them nothing touches files or maps. -/
structure Polls (env : Env) (ctx : Ctx) (kind : Kind) (ns : String) (requestUrl : Option String)
    (items : List Item) (replies : Nat → ListReplies kind) (w : Nat → World) (N : Nat) : Prop where
  reads : ∀ n < N, (startPass env ctx kind ns (replies n) (w n)).1 = some (.ok items)
  silent : ∀ n < N, Silent
    (listResources env ctx kind ns requestUrl false (replies n) (w n)).2.sys (w (n + 1)).sys
  maps : ∀ n < N, (w (n + 1)).maps =
    (listResources env ctx kind ns requestUrl false (replies n) (w n)).2.maps

/-- The pass `n` leaves the world as its listing was applied, but for notifications. -/
theorem Polls.next (h : Polls env ctx kind ns requestUrl items replies w N) {n : Nat} (hn : n < N) :
    (w (n + 1)).maps =
        (applyListing env ctx kind ns false items
          (passStart env ctx kind ns (replies n) (w n))).2.maps ∧
      Silent (applyListing env ctx kind ns false items
        (passStart env ctx kind ns (replies n) (w n))).2.sys (w (n + 1)).sys := by
  have hmaps := h.maps n hn
  have hsilent := h.silent n hn
  rw [listResources_eq _ _ _ _ _ _ _ _ (h.reads n hn)] at hmaps hsilent
  exact ⟨hmaps, Silent.preorder.trans (notify_silent env ctx requestUrl _ _) hsilent⟩

variable (env ctx ns) in
theorem passStart_silent (replies : ListReplies kind) (w : World) :
    Silent w.sys (passStart env ctx kind ns replies w).sys :=
  (startPass_calm env ctx kind ns replies w).silent

theorem Polls.traceLe_succ (h : Polls env ctx kind ns requestUrl items replies w N) {n : Nat}
    (hn : n < N) : TraceLe (w n).sys (w (n + 1)).sys :=
  (passStart_silent env ctx ns (replies n) (w n)).trace.trans
    ((applyListing_le env ctx kind ns false items _).trans (h.next hn).2.trace)

theorem Polls.traceLe (h : Polls env ctx kind ns requestUrl items replies w N) {m n : Nat}
    (hmn : m ≤ n) (hn : n ≤ N) : TraceLe (w m).sys (w n).sys := by
  induction n, hmn using Nat.le_induction with
  | base => exact List.prefix_rfl
  | succ n _ ih => exact (ih (by omega)).trans (h.traceLe_succ (by omega))

/-- Without a failing call in a run there is none while the items of a pass are listed. -/
theorem Polls.io (h : Polls env ctx kind ns requestUrl items replies w N)
    (hio : (w N).sys.ioErrors = (w 0).sys.ioErrors) {n : Nat} (hn : n < N) :
    (listItems env ctx kind false items
      (passStart env ctx kind ns (replies n) (w n))).2.sys.ioErrors =
      (passStart env ctx kind ns (replies n) (w n)).sys.ioErrors := by
  have hstart := (passStart_silent env ctx ns (replies n) (w n)).trace
  have hlisted :=
    listItems_le env ctx kind false items (passStart env ctx kind ns (replies n) (w n))
  have hrest : TraceLe (listItems env ctx kind false items
      (passStart env ctx kind ns (replies n) (w n))).2.sys (w N).sys := by
    refine List.IsPrefix.trans ?_ ((h.next hn).2.trace.trans (h.traceLe hn le_rfl))
    rw [applyListing_eq]
    exact List.IsPrefix.trans (staleItems_silent ..).1.trace (removeStale_le env ctx kind _ _)
  have hbefore := (h.traceLe (Nat.zero_le n) hn.le).trans hstart
  exact (count_squeeze hbefore hlisted (count_squeeze (hbefore.trans hlisted) hrest hio).1).2

theorem Polls.steady (h : Polls env ctx kind ns requestUrl items replies w N)
    (hwf : (w 0).maps.WF) (hkeys : (items.map Item.key).Nodup) {n : Nat} (hn : n < N) :
    Steady ctx kind ns items (w (n + 1)).maps := by
  induction n with
  | zero =>
    rw [(h.next hn).1]
    exact applyListing_steady env ctx kind hkeys hwf
  | succ n ih =>
    have ih := ih (by omega)
    have hst :
        Steady ctx kind ns items (passStart env ctx kind ns (replies (n + 1)) (w (n + 1))).maps :=
      ih
    rw [(h.next hn).1, (hst.applyListing env).2.1]
    exact ih

/-- The listing's files have their digests from the second pass on. -/
theorem Polls.allQuiet (h : Polls env ctx kind ns requestUrl items replies w N)
    {body : String → ByteArray} (hbody : Fetches env ctx body) (hwf : (w 0).maps.WF)
    (hkeys : (items.map Item.key).Nodup) (hplaces : (targets env ctx kind items).Nodup)
    (hio : (w N).sys.ioErrors = (w 0).sys.ioErrors) {n : Nat} (hn : n + 1 < N) :
    AllQuiet env ctx kind body items (w (n + 2)).sys := by
  have hst :
      Steady ctx kind ns items (passStart env ctx kind ns (replies (n + 1)) (w (n + 1))).maps :=
    h.steady hwf hkeys (by omega)
  have hquiet := listItems_settle hbody (fun _ hi => hi) hplaces hst (h.io hio hn)
  intro item hi j hj
  rw [(h.next hn).2.tree, (hst.applyListing env).2.2.tree]
  exact hquiet item hi j hj

/-- A pass that found nothing to do: no change is reported, so neither `SCRIPT` nor `REQ_URL` runs
(the pass ends as its listing was applied), and files and maps stay. -/
structure QuietPass (env : Env) (ctx : Ctx) (kind : Kind) (ns : String) (requestUrl : Option String)
    (items : List Item) (replies : ListReplies kind) (w w' : World) : Prop where
  unchanged : (applyListing env ctx kind ns false items
    (passStart env ctx kind ns replies w)).1 = false
  unannounced : listResources env ctx kind ns requestUrl false replies w = (some (.ok ()),
    (applyListing env ctx kind ns false items (passStart env ctx kind ns replies w)).2)
  files : w'.sys.tree.fileAt = w.sys.tree.fileAt
  maps : w'.maps = w.maps

/-- **Polling the same listing comes to rest**: from the third pass on every pass is quiet. -/
theorem polling_quiet (h : Polls env ctx kind ns requestUrl items replies w N)
    {body : String → ByteArray} (hbody : Fetches env ctx body) (hreach : (w 0).maps.Reachable)
    (hkeys : (items.map Item.key).Nodup) (hplaces : (targets env ctx kind items).Nodup)
    (hio : (w N).sys.ioErrors = (w 0).sys.ioErrors) {n : Nat} (hthird : 2 ≤ n) (hn : n < N) :
    QuietPass env ctx kind ns requestUrl items (replies n) (w n) (w (n + 1)) := by
  obtain ⟨m, rfl⟩ : ∃ m, n = m + 2 := ⟨n - 2, by omega⟩
  have hst : Steady ctx kind ns items
      (passStart env ctx kind ns (replies (m + 2)) (w (m + 2))).maps :=
    h.steady hreach.wf hkeys (by omega)
  have hstart := passStart_silent env ctx ns (replies (m + 2)) (w (m + 2))
  have hq : AllQuiet env ctx kind body items
      (passStart env ctx kind ns (replies (m + 2)) (w (m + 2))).sys := by
    intro item hi j hj
    rw [hstart.tree]
    exact h.allQuiet hbody hreach.wf hkeys hplaces hio (by omega) item hi j hj
  obtain ⟨hres, hfiles⟩ := listItems_quiet hbody (fun _ hi => hi) hst hq (h.io hio hn)
  obtain ⟨hflag, hmaps, hsilent⟩ := hst.applyListing env
  obtain ⟨hnext, hrest⟩ := h.next hn
  have hunchanged := hflag.trans hres
  refine ⟨hunchanged, ?_, ?_, hnext.trans hmaps⟩
  · rw [listResources_eq _ _ _ _ _ _ _ _ (h.reads _ hn)]
    dsimp only
    rw [hunchanged]
    rfl
  · rw [hrest.tree, hsilent.tree, hfiles, hstart.tree]

/-- Polling a ConfigMap with a `*.url` key. -/
def samplePoll : Nat → World
  | 0 => sampleWorld
  | n + 1 => (listResources sampleEnv sampleCtx .configMap "ns" none false
      (sampleReplies [sampleConfigMap "ns" "a" "1" [("k", "v"), ("u.url", "x")]]) (samplePoll n)).2

theorem polling_quiet_sample :
    QuietPass sampleEnv sampleCtx .configMap "ns" none
      [sampleItem "ns" "a" "1" [("k", "v"), ("u.url", "x")]]
      (sampleReplies [sampleConfigMap "ns" "a" "1" [("k", "v"), ("u.url", "x")]])
      (samplePoll 2) (samplePoll 3) := by
  refine polling_quiet (w := samplePoll) (N := 3)
    ⟨fun _ _ => rfl, fun _ _ => Silent.preorder.refl _, fun _ _ => rfl⟩ sampleEnv_fetches .empty
    ?_ ?_ ?_ (by decide) (by decide)
  · decide +kernel
  · decide +kernel
  · decide +kernel

end Polls

end Sidecar
