import Sidecar.Passes

/-!
# Two worlds with one history

When bodies only depend on their URL, what a call does to the files is determined by the history of
the calls before it and by the files it finds (`Settles.agree`). Two more facts make calls
interchangeable: an update with the version that is tracked already changes nothing
(`Settles.redundant`), and stale resources can be removed in any order (`Settles.removeStale`).
-/

namespace Sidecar

open Posix StateM

/-! ## What a plan writes is determined -/

section Determined

variable {env : Env} {ctx : Ctx} {kind : Kind} {body : String → ByteArray} {js : List Job}

/-- The bytes of a job's data key. -/
def Job.bytes (body : String → ByteArray) (j : Job) : ByteArray :=
  (keyBytes body j.dataKey j.content).getD .empty

theorem Performed.bytes {done : List (Job × ByteArray)} {s : Sys} {out : Bool × Sys}
    (hbody : Fetches env ctx body) (h : Performed env ctx kind js done s out) :
    done = js.map fun j => (j, j.bytes body) := by
  rw [← h.jobs, List.map_map]
  refine (List.map_id done).symm.trans (List.map_congr_left fun d hd => ?_)
  have hbytes := Computes.eq hbody (h.computes d hd)
  simp only [id_eq, Function.comp, Job.bytes, hbytes, Option.getD_some]

/-- Plans that find the same files do the same. -/
theorem Performed.agree {done done' : List (Job × ByteArray)} {s s' : Sys} {out out' : Bool × Sys}
    (hbody : Fetches env ctx body) (h : Performed env ctx kind js done s out)
    (h' : Performed env ctx kind js done' s' out') (hfiles : s'.tree.fileAt = s.tree.fileAt) :
    out'.1 = out.1 ∧ out'.2.tree.fileAt = out.2.tree.fileAt := by
  rw [h.result, h'.result, h.files, h'.files, h.bytes hbody, h'.bytes hbody, hfiles]
  exact ⟨rfl, rfl⟩

end Determined

/-! ## Settled histories -/

/-- The resources of a history have distinct keys, and its slots distinct paths. -/
structure Separate (env : Env) (ctx : Ctx) (S : Slot → Prop) (calls : List Call) : Prop where
  keys : DistinctKeys calls
  inj : ∀ x, S x → ∀ y, S y → x.place env ctx = y.place env ctx → x = y
  cov : ∀ x, Occurs calls x → S x

theorem Separate.mono {env : Env} {ctx : Ctx} {S : Slot → Prop} {calls calls' : List Call}
    (h : Separate env ctx S calls) (hsub : ∀ c ∈ calls', c ∈ calls) :
    Separate env ctx S calls' where
  keys a ha b hb := h.keys a (hsub a ha) b (hsub b hb)
  inj := h.inj
  cov x hx := h.cov x (hx.mono hsub)

/-- The data keys of the tracked resources are files with the digests of their bytes. -/
structure Settles (env : Env) (ctx : Ctx) (body : String → ByteArray) (S : Slot → Prop)
    (calls : List Call) (w : World) : Prop extends Walked env ctx S calls w where
  settled : ∀ kind v folder, tracked calls (kind, v.key) = some v →
    lastFolder calls (kind, v.key) = some folder → ∀ e ∈ v.entries kind, ∃ data,
      keyBytes body e.dataKey e.content = some data ∧
      Store.Settled env.sha256 w.sys.tree.fileAt
        ⟨(e.slot kind v.ns v.name folder).place env ctx, some data⟩

section Settles

variable {env : Env} {ctx : Ctx} {body : String → ByteArray} {S : Slot → Prop} {calls : List Call}
  {w : World} {c : Call}

theorem Fresh.settles (h : Fresh env ctx S w) : Settles env ctx body S [] w where
  toWalked := h.walked
  settled _ _ _ hv := by cases hv

theorem Settles.idle {w' : World} (hs : Settles env ctx body S calls w) (h : Idle w w') :
    Settles env ctx body S calls w' where
  toWalked := hs.toWalked.idle h
  settled := by rw [h.sys.tree]; exact hs.settled

/-- Histories with the same outcome are interchangeable. -/
theorem Settles.congr {calls' : List Call} (hs : Settles env ctx body S calls w)
    (ht : ∀ k, tracked calls' k = tracked calls k)
    (hf : ∀ k, lastFolder calls' k = lastFolder calls k) : Settles env ctx body S calls' w where
  object k := (hs.object k).trans (by rw [ht])
  dest k := (hs.dest k).trans (hf k).symm
  walk := hs.walk
  settled kind v folder hv hfolder := hs.settled kind v folder (ht _ ▸ hv) (hf _ ▸ hfolder)

variable (hbody : Fetches env ctx body) (hs : Settles env ctx body S calls w)
  (hc : c.Allowed calls w) (hsep : Separate env ctx S (c :: calls))
  (hfail : (c.act env ctx w).2.failures = w.sys.failures)
include hbody hs hc hsep hfail

/-- A call settles the data keys of its resource and leaves the others settled. -/
theorem Settles.call : Settles env ctx body S (c :: calls) (c.run env ctx w).2 := by
  have hwalked := hs.toWalked.call hc hsep.keys hsep.inj hsep.cov hfail
  obtain ⟨done, hd⟩ := hs.performed hc hsep.keys hsep.inj hsep.cov hfail
  refine ⟨hwalked, fun kind v folder hv hfolder e he => ?_⟩
  have hocc := hsep.cov _ (occurs_of_tracked hsep.keys hv hfolder he)
  rw [Call.run_eq]
  by_cases hk : c.key = (kind, v.key)
  · obtain ⟨rfl, hjob⟩ := Call.job_of_tracked hk hv hfolder he
    rw [← hd.jobs] at hjob
    obtain ⟨d, hdm, hdj⟩ := List.mem_map.1 hjob
    have hset := hd.settled (hs.places_nodup hc hsep.keys hsep.inj hsep.cov) hdm
    have hcomp := Computes.eq hbody (hd.computes d hdm)
    rw [Job.assign_of_write (by rw [hdj]; rfl), hdj] at hset
    rw [hdj] at hcomp
    exact ⟨d.2, hcomp, hset⟩
  · rw [tracked_cons_of_ne hk] at hv
    rw [lastFolder_cons_of_ne hk] at hfolder
    obtain ⟨data, hdata, hset⟩ := hs.settled kind v folder hv hfolder e he
    refine ⟨data, hdata, (Store.settled_congr ?_).2 hset⟩
    exact hs.file_other hc hsep.keys hsep.inj hsep.cov hd hocc fun j hj hslot =>
      hs.job_ne hsep.keys hk hj (congrArg Slot.id hslot)

/-- The same call on the same files does the same. -/
theorem Settles.agree {w' : World} (hs' : Settles env ctx body S calls w')
    (hfiles : w'.sys.tree.fileAt = w.sys.tree.fileAt) (hc' : c.Allowed calls w')
    (hfail' : (c.act env ctx w').2.failures = w'.sys.failures) :
    (c.act env ctx w').1 = (c.act env ctx w).1 ∧
      (c.act env ctx w').2.tree.fileAt = (c.act env ctx w).2.tree.fileAt := by
  obtain ⟨done, hd⟩ := hs.performed hc hsep.keys hsep.inj hsep.cov hfail
  obtain ⟨done', hd'⟩ := hs'.performed hc' hsep.keys hsep.inj hsep.cov hfail'
  have hjobs : c.jobs w' = c.jobs w := Call.jobs_congr
    ((hs'.object c.key).trans (hs.object c.key).symm) ((hs'.dest c.key).trans (hs.dest c.key).symm)
  rw [hjobs] at hd'
  exact hd.agree hbody hd' hfiles

/-- To update a resource with the version and the folder it has changes nothing. -/
theorem Settles.redundant (hv : tracked calls c.key = some c.item) (hr : c.isRemoved = false)
    (hf : lastFolder calls c.key = c.folder?) :
    (c.act env ctx w).1 = false ∧ (c.act env ctx w).2.tree.fileAt = w.sys.tree.fileAt := by
  obtain ⟨done, hd⟩ := hs.performed hc hsep.keys hsep.inj hsep.cov hfail
  obtain ⟨folder, hfolder⟩ := folder_of_update hr
  rw [hfolder] at hf
  have hdest : c.dest w = folder := by
    rw [Call.dest, hr, hfolder]
    rfl
  -- every job writes a data key where it is settled already
  have hwrites : ∀ j ∈ c.jobs w, ∃ e ∈ c.item.entries c.kind, j = e.job folder c.item false := by
    intro j hj
    obtain ⟨e, he, rfl⟩ | ⟨e, he, rfl⟩ := (mem_jobs_update hr j).1 hj
    · exact ⟨e, he, by rw [hdest]⟩
    · obtain ⟨he, hleft⟩ := List.mem_filter.1 he
      have holdf : (c.old w).dest = c.dest w := by
        rw [hs.old_dest, hf, hdest]
        rfl
      obtain ⟨c₁, -, -, -, -, hids, hc₁⟩ := hs.old_item (c := c)
      have hid := List.mem_map_of_mem (f := Entry.id) he
      rw [hids, hc₁ _ hv] at hid
      exact absurd hid (of_decide_eq_true hleft holdf)
  have hsettled : ∀ a ∈ done.map fun d => d.1.assign env ctx c.kind d.2,
      Store.Settled env.sha256 w.sys.tree.fileAt a := by
    intro a ha
    obtain ⟨d, hdm, rfl⟩ := List.mem_map.1 ha
    obtain ⟨e, he, hj⟩ := hwrites d.1 (hd.jobs ▸ List.mem_map_of_mem hdm)
    have hcomp := Computes.eq hbody (hd.computes d hdm)
    obtain ⟨data, hdata, hset⟩ := hs.settled c.kind c.item folder hv hf e he
    rw [hj] at hcomp
    obtain rfl : data = d.2 := Option.some.inj (hdata.symm.trans hcomp)
    rw [Job.assign_of_write (by rw [hj]; rfl), hj]
    exact hset
  rw [hd.result, hd.files, Store.run_of_settled hsettled]
  exact ⟨rfl, rfl⟩

end Settles

/-! ## Removing a tracked resource -/

section Remove

variable {env : Env} {ctx : Ctx} {body : String → ByteArray} {S : Slot → Prop} {calls : List Call}
  {w : World} {kind : Kind}

/-- The places of the data keys of a stale item, given the folders. -/
def stalePlaces (env : Env) (ctx : Ctx) (kind : Kind) (m : Maps) (item : Item) : List Path :=
  (item.entries kind).map fun e =>
    (e.slot kind item.ns item.name ((m.dest[((kind, item.key) : MapKey)]?).getD "")).place env ctx

/-- Removing a stale resource removes its files, which are all there. -/
theorem Settles.cleanup {item : Item} (hs : Settles env ctx body S calls w)
    (hc : (Call.cleanup kind item).Allowed calls w)
    (hsep : Separate env ctx S (.cleanup kind item :: calls))
    (hfail : ((Call.cleanup kind item).act env ctx w).2.failures = w.sys.failures) :
    ((Call.cleanup kind item).act env ctx w).1 = !(item.entries kind).isEmpty ∧
      ∀ p, ((Call.cleanup kind item).act env ctx w).2.tree.fileAt p =
        if p ∈ stalePlaces env ctx kind w.maps item then none else w.sys.tree.fileAt p := by
  obtain ⟨done, hd⟩ := hs.performed hc hsep.keys hsep.inj hsep.cov hfail
  have hn := hs.places_nodup hc hsep.keys hsep.inj hsep.cov
  generalize hfolder : (w.maps.dest[((kind, item.key) : MapKey)]?).getD "" = folder
  have hdest : ((Call.cleanup kind item).old w).dest = folder := by
    unfold Call.old
    rw [Maps.enter_old, ← hfolder]
    simp [Call.folder?, Call.kind, Call.item]
  have hjobs :
      (Call.cleanup kind item).jobs w = (item.entries kind).map (Entry.job folder item true) := by
    unfold Call.jobs Call.dest
    rw [show (Call.cleanup kind item).isRemoved = true from rfl, if_pos rfl,
      jobs_plan_removed, hdest]
    rfl
  have hplaces : ((Call.cleanup kind item).jobs w).map (Job.place env ctx kind) =
      stalePlaces env ctx kind w.maps item := by
    rw [hjobs, List.map_map]
    unfold stalePlaces
    rw [hfolder]
    rfl
  constructor
  · -- every file is there before
    have hpresent : ∀ e ∈ item.entries kind,
        w.sys.tree.fileAt ((e.slot kind item.ns item.name folder).place env ctx) ≠ none := by
      intro e he
      obtain ⟨cached, hcached, hitem⟩ := hc
      have hobj := hs.object (kind, item.key)
      rw [hcached] at hobj
      obtain ⟨v, hv, rfl⟩ := Option.map_eq_some_iff.1 hobj.symm
      obtain ⟨vf, hvf⟩ := lastFolder_of_tracked hv
      have hkey : item.key = v.key := by rw [hitem]; rfl
      rw [hkey] at hv hvf
      have hvf' : vf = folder := by
        rw [← hfolder, hkey, hs.dest, hvf]
        rfl
      have hid := List.mem_map_of_mem (f := Entry.id) he
      rw [hitem, ids_toRemovalItem] at hid
      obtain ⟨e₁, he₁, hid⟩ := List.mem_map.1 hid
      obtain ⟨data, -, hset⟩ := hs.settled kind v vf hv hvf e₁ he₁
      rw [slot_congr hid, hvf'] at hset
      unfold Store.Settled at hset
      intro hnone
      rw [hitem] at hnone
      dsimp only at hset
      rw [show (CachedItem.fromItem v).toRemovalItem.ns = v.ns from rfl,
        show (CachedItem.fromItem v).toRemovalItem.name = v.name from rfl] at hnone
      rw [hnone] at hset
      cases hset
    rw [hd.result, Bool.eq_iff_iff, Store.changed_iff (by rw [hd.path_eq]; exact hn)]
    constructor
    · rintro ⟨a, ha, -⟩
      obtain ⟨d, hdm, rfl⟩ := List.mem_map.1 ha
      have hj : d.1 ∈ (Call.cleanup kind item).jobs w := hd.jobs ▸ List.mem_map_of_mem hdm
      rw [hjobs] at hj
      obtain ⟨e, he, -⟩ := List.mem_map.1 hj
      simpa using List.ne_nil_of_mem he
    · intro hne
      obtain ⟨e, he⟩ := List.exists_mem_of_ne_nil (item.entries kind) (by simpa using hne)
      have hj : e.job folder item true ∈ (Call.cleanup kind item).jobs w := by
        rw [hjobs]
        exact List.mem_map_of_mem he
      rw [← hd.jobs] at hj
      obtain ⟨d, hdm, hdj⟩ := List.mem_map.1 hj
      refine ⟨_, List.mem_map.2 ⟨d, hdm, rfl⟩, fun hset => hpresent e he ?_⟩
      rw [Job.assign_of_remove (by rw [hdj]; rfl), hdj] at hset
      exact Option.map_eq_none_iff.1 hset
  · intro p
    split
    · next hp =>
      rw [← hplaces] at hp
      obtain ⟨j, hj, rfl⟩ := List.mem_map.1 hp
      refine hd.file_removed hn hj ?_
      rw [hjobs] at hj
      obtain ⟨e, -, rfl⟩ := List.mem_map.1 hj
      rfl
    · next hp =>
      refine hd.file_other fun j hj e => hp ?_
      rw [← hplaces, ← e]
      exact List.mem_map_of_mem hj

theorem stalePlaces_congr {m m' : Maps} {item : Item}
    (h : m'.dest[((kind, item.key) : MapKey)]? = m.dest[((kind, item.key) : MapKey)]?) :
    stalePlaces env ctx kind m' item = stalePlaces env ctx kind m item := by
  unfold stalePlaces
  rw [h]

/-- Stale resources are removed with all their files, whatever the order. -/
theorem Settles.removeStale {items : List Item} {full : List Call} (hbody : Fetches env ctx body)
    (hs : Settles env ctx body S calls w) (hsep : Separate env ctx S full)
    (hsub : ∀ c ∈ calls, c ∈ full) (hmem : ∀ i ∈ items, Call.cleanup kind i ∈ full)
    (hn : (items.map Item.key).Nodup)
    (hstale : ∀ i ∈ items, ∃ cached, w.maps.object[((kind, i.key) : MapKey)]? = some cached ∧
      i = cached.toRemovalItem)
    (hfail : (removeStale env ctx kind items w).2.sys.failures = w.sys.failures) :
    (removeStale env ctx kind items w).1 = items.any (fun i => !(i.entries kind).isEmpty) ∧
      (∀ p, (removeStale env ctx kind items w).2.sys.tree.fileAt p =
        if p ∈ items.flatMap (stalePlaces env ctx kind w.maps) then none else w.sys.tree.fileAt p) ∧
      Settles env ctx body S ((items.map (Call.cleanup kind)).reverse ++ calls)
        (removeStale env ctx kind items w).2 := by
  induction items generalizing calls w with
  | nil => exact ⟨rfl, fun p => rfl, hs⟩
  | cons item items ih =>
    rw [List.map_cons, List.nodup_cons] at hn
    rw [removeStale_cons] at hfail ⊢
    have hlog := log_silent .debug s!"Removing {kind.asStr}: {item.ns}/{item.name}" w.sys
    generalize (log .debug s!"Removing {kind.asStr}: {item.ns}/{item.name}" w.sys).2 = logged at *
    have hs' : Settles env ctx body S calls ⟨logged, w.maps⟩ := hs.idle ⟨hlog, rfl, rfl⟩
    have hrun : processResource env ctx kind item none true ⟨logged, w.maps⟩ =
        (Call.cleanup kind item).run env ctx ⟨logged, w.maps⟩ := rfl
    dsimp only at hfail ⊢
    rw [hrun] at hfail ⊢
    have hc : (Call.cleanup kind item).Allowed calls ⟨logged, w.maps⟩ :=
      hstale item List.mem_cons_self
    have hsep' : Separate env ctx S (.cleanup kind item :: calls) := hsep.mono fun c hc => by
      rcases List.mem_cons.1 hc with rfl | hc
      · exact hmem item List.mem_cons_self
      · exact hsub c hc
    have hle := (Call.cleanup kind item).run_traceLe env ctx ⟨logged, w.maps⟩
    obtain ⟨hbefore, hrest⟩ :=
      count_squeeze (hlog.trace.trans hle) (removeStale_le env ctx kind items _) hfail
    have hfirst := (count_squeeze hlog.trace hle hbefore).2
    have hother : ∀ i ∈ items, ((kind, item.key) : MapKey) ≠ (kind, i.key) := fun i hi e =>
      hn.1 ((Prod.mk.inj e).2 ▸ List.mem_map_of_mem hi)
    have hdest :
        ∀ k : MapKey, ((Call.cleanup kind item).run env ctx ⟨logged, w.maps⟩).2.maps.dest[k]? =
          w.maps.dest[k]? := by
      intro k
      rw [Call.run_eq, Maps.enter_dest, if_neg (by simp [Call.isRemoved])]
    rw [Call.run_eq] at hfirst
    have hcall := hs'.call hbody hc hsep' hfirst
    obtain ⟨hflag, hfiles⟩ := hs'.cleanup hc hsep' hfirst
    obtain ⟨hflag', hfiles', hsettles⟩ := ih hcall
      (fun c hc => by
        rcases List.mem_cons.1 hc with rfl | hc
        · exact hmem item List.mem_cons_self
        · exact hsub c hc)
      (fun i hi => hmem i (List.mem_cons_of_mem item hi)) hn.2
      (fun i hi => by
        obtain ⟨cached, hcached, heq⟩ := hstale i (List.mem_cons_of_mem item hi)
        refine ⟨cached, ?_, heq⟩
        rw [Call.run_eq, Maps.enter_object]
        exact (if_neg (hother i hi)).trans hcached) hrest
    refine ⟨?_, fun p => ?_, ?_⟩
    · rw [hflag', List.any_cons, ← hflag, Call.run_eq]
    · rw [hfiles', List.flatMap_cons, Call.run_eq]
      dsimp only
      rw [hfiles, hlog.tree]
      have hplaces : items.flatMap (stalePlaces env ctx kind ((Call.cleanup kind item).run env ctx
          ⟨logged, w.maps⟩).2.maps) = items.flatMap (stalePlaces env ctx kind w.maps) :=
        List.flatMap_congr fun i _ => stalePlaces_congr (hdest _)
      rw [Call.run_eq] at hplaces
      dsimp only at hplaces
      rw [hplaces]
      simp only [List.mem_append]
      by_cases hrest : p ∈ items.flatMap (stalePlaces env ctx kind w.maps)
      · simp [hrest]
      · simp [hrest]
    · rw [List.map_cons, List.reverse_cons, List.append_assoc]
      exact hsettles

end Remove

/-- After the removals the resources are not tracked; their folders are still known. -/
theorem tracked_cleanups (kind : Kind) (items : List Item) (calls : List Call) (k : MapKey) :
    tracked ((items.map (Call.cleanup kind)).reverse ++ calls) k =
      if k ∈ items.map (fun i => ((kind, i.key) : MapKey)) then none else tracked calls k := by
  induction items generalizing calls with
  | nil => rfl
  | cons item items ih =>
    rw [List.map_cons, List.reverse_cons, List.append_assoc, List.singleton_append,
      ih, tracked_cons,
      List.map_cons]
    by_cases hrest : k ∈ items.map fun i => ((kind, i.key) : MapKey)
    · rw [if_pos hrest, if_pos (List.mem_cons_of_mem _ hrest)]
    · rw [if_neg hrest]
      by_cases hk : (Call.cleanup kind item).key = k
      · have hmem : k ∈ (kind, item.key) :: items.map fun i => ((kind, i.key) : MapKey) :=
          List.mem_cons.2 (.inl hk.symm)
        rw [if_pos hk, if_pos hmem]
        rfl
      · rw [if_neg hk, if_neg]
        rw [List.mem_cons, not_or]
        exact ⟨fun e => hk e.symm, hrest⟩

theorem lastFolder_cleanups (kind : Kind) (items : List Item) (calls : List Call) (k : MapKey) :
    lastFolder ((items.map (Call.cleanup kind)).reverse ++ calls) k = lastFolder calls k := by
  induction items generalizing calls with
  | nil => rfl
  | cons item items ih =>
    rw [List.map_cons, List.reverse_cons, List.append_assoc, List.singleton_append, ih,
      lastFolder_cons,
      if_neg fun h => by cases h.1]

end Sidecar
