import Sidecar.History

/-!
# Sync invariant over whole runs

The invariant `Synced` ties the three maps to the file store: `object` holds the resources whose
last call was an update, `dest` the folder of the last update, and of the slots of the run exactly
those of the tracked resources in their folders are files, with the bytes last computed for them.

`Reaches.synced` is the run lemma, `Synced.call` its step.
-/

namespace Sidecar

open Posix StateM

/-! ## The invariant -/

/-- No two different byte strings computed in the run have the same digest. -/
def NoCollision (env : Env) (s : Sys) : Prop :=
  ∀ p ∈ s.produced, ∀ q ∈ s.produced, env.sha256 p.2 = env.sha256 q.2 → p.2 = q.2

structure Synced (env : Env) (ctx : Ctx) (S : Slot → Prop) (calls : List Call) (w : World) : Prop
    extends Walked env ctx S calls w where
  /-- The data keys of a tracked resource are files with the bytes last computed for them. -/
  present : ∀ kind v folder, tracked calls (kind, v.key) = some v →
    lastFolder calls (kind, v.key) = some folder → ∀ e ∈ v.entries kind,
      ∃ data, w.sys.tree.fileAt ((e.slot kind v.ns v.name folder).place env ctx) = some data ∧
        lastProduced (e.slot kind v.ns v.name folder).id w.sys.produced = some data ∧
        Computes env ctx e.dataKey e.content data
  /-- No other slot is a file. -/
  absent : ∀ slot, S slot → ¬Holds calls slot → w.sys.tree.fileAt (slot.place env ctx) = none

/-! ## The step lemma -/

section Preserves

variable {env : Env} {ctx : Ctx} {S : Slot → Prop} {calls : List Call} {w : World} {c : Call}
  (hs : Synced env ctx S calls w) (hc : c.Allowed calls w) (hkeys : DistinctKeys (c :: calls))
  (hinj : ∀ x, S x → ∀ y, S y → x.place env ctx = y.place env ctx → x = y)
  (hcov : ∀ x, Occurs (c :: calls) x → S x)
include hs hc hkeys hinj hcov

omit hc hkeys hinj hcov in
/-- The bytes in a file of the run are the last ones computed for its slot. -/
theorem Synced.file_produced {slot : Slot} (hslot : S slot) {data : ByteArray}
    (hf : w.sys.tree.fileAt (slot.place env ctx) = some data) :
    (slot.id, data) ∈ w.sys.produced := by
  by_cases hh : Holds calls slot
  · obtain ⟨v, hv, hfolder, e, he, hslot⟩ := hh
    obtain ⟨d, hd, hlast, -⟩ := hs.present slot.kind v slot.folder hv hfolder e he
    rw [← hslot] at hd hlast
    rw [hf] at hd
    cases hd
    exact mem_of_lastProduced hlast
  · rw [hs.absent slot hslot hh] at hf
    cases hf

/-- A data key that a call wrote is a file with the bytes computed for it. -/
theorem Synced.present_written {done : List (Job × ByteArray)}
    (hd : Performed env ctx c.kind (c.jobs w) done w.sys (c.act env ctx w))
    (hcoll : NoCollision env (c.act env ctx w).2) {d : Job × ByteArray} (hdm : d ∈ done)
    (hr : d.1.remove = false) :
    (c.act env ctx w).2.tree.fileAt (d.1.place env ctx c.kind) = some d.2 ∧
      lastProduced (d.1.id c.kind) (c.act env ctx w).2.produced = some d.2 := by
  have hn := hs.places_nodup hc hkeys hinj hcov
  have hjob : d.1 ∈ c.jobs w := hd.jobs ▸ List.mem_map_of_mem hdm
  have hnew : (d.1.id c.kind, d.2) ∈ written c.kind done :=
    List.mem_filterMap.2 ⟨d, hdm, by simp [hr]⟩
  constructor
  · obtain hfile | ⟨data, hfile, hold, hdig⟩ := hd.file_written hn hdm hr
    · exact hfile
    · -- the old bytes were computed in the run, so an equal digest means equal bytes
      have hmem := hs.file_produced (hcov _ (hs.jobs_occur hc hkeys hjob)) hold
      have heq : data = d.2 := hcoll _ (hd.produced ▸ List.mem_append_left _ hmem) _
        (hd.produced ▸ List.mem_append_right _ hnew) hdig
      rw [hfile, heq]
  · rw [hd.produced, lastProduced_append, lastProduced_of_unique hnew]
    · rfl
    · intro p hp hid
      obtain ⟨d', hdm', hr', rfl⟩ := written_mem hp
      -- both are written to the folder of the call
      have hupdate : c.isRemoved = false := by
        cases hrem : c.isRemoved with
        | false => rfl
        | true =>
          obtain ⟨e, -, hj⟩ := (mem_jobs_remove hrem _).1 hjob
          rw [hj] at hr
          cases hr
      have hfolder : ∀ x ∈ done, x.1.remove = false → x.1.folder = c.dest w := by
        intro x hx hxr
        obtain ⟨e, -, hj⟩ | ⟨e, -, hj⟩ :=
          (mem_jobs_update hupdate x.1).1 (hd.jobs ▸ List.mem_map_of_mem hx)
        · rw [hj]
          rfl
        · rw [hj] at hxr
          cases hxr
      have hslot : d'.1.slot c.kind = d.1.slot c.kind := by
        simp only [Job.id, DataId.mk.injEq] at hid
        simp only [Job.slot, Slot.mk.injEq, hfolder d' hdm' hr', hfolder d hdm hr]
        exact ⟨trivial, hid.2.1, hid.2.2.1, hid.2.2.2.1, hid.2.2.2.2, trivial⟩
      rw [hd.unique hn hdm' hdm (by rw [Job.place_slot, Job.place_slot, hslot])]

/-- After a call the data keys of the tracked resources are files. -/
theorem Synced.present_call {done : List (Job × ByteArray)}
    (hd : Performed env ctx c.kind (c.jobs w) done w.sys (c.act env ctx w))
    (hcoll : NoCollision env (c.act env ctx w).2) {kind : Kind} {v : Item} {folder : String}
    (hv : tracked (c :: calls) (kind, v.key) = some v)
    (hfolder : lastFolder (c :: calls) (kind, v.key) = some folder) {e : Entry}
    (he : e ∈ v.entries kind) :
    ∃ data, (c.act env ctx w).2.tree.fileAt ((e.slot kind v.ns v.name folder).place env ctx) =
        some data ∧
      lastProduced (e.slot kind v.ns v.name folder).id (c.act env ctx w).2.produced = some data ∧
      Computes env ctx e.dataKey e.content data := by
  have hocc := hcov _ (occurs_of_tracked hkeys hv hfolder he)
  by_cases hk : c.key = (kind, v.key)
  · -- the resource of the call: each of its keys was written
    obtain ⟨rfl, hjob⟩ := Call.job_of_tracked hk hv hfolder he
    rw [← hd.jobs] at hjob
    obtain ⟨d, hdm, hdj⟩ := List.mem_map.1 hjob
    have hwritten := hs.present_written hc hkeys hinj hcov hd hcoll hdm (by rw [hdj]; rfl)
    have hcomp := hd.computes d hdm
    rw [hdj] at hwritten hcomp
    exact ⟨d.2, hwritten.1, hwritten.2, hcomp⟩
  · rw [tracked_cons_of_ne hk] at hv
    rw [lastFolder_cons_of_ne hk] at hfolder
    obtain ⟨data, hfile, hlast, hcomp⟩ := hs.present kind v folder hv hfolder e he
    refine ⟨data, ?_, ?_, hcomp⟩
    · rw [hs.file_other hc hkeys hinj hcov hd hocc fun j hj hslot => ?_, hfile]
      exact hs.job_ne hkeys hk hj (congrArg Slot.id hslot)
    · rw [hd.produced, lastProduced_append, lastProduced_eq_none, hlast]
      · rfl
      · intro p hp
        obtain ⟨d, hdm, -, rfl⟩ := written_mem hp
        exact hs.job_ne hkeys hk (hd.jobs ▸ List.mem_map_of_mem hdm)

/-- After a call no other slot is a file. -/
theorem Synced.absent_call {done : List (Job × ByteArray)}
    (hd : Performed env ctx c.kind (c.jobs w) done w.sys (c.act env ctx w)) {slot : Slot}
    (hslot : S slot) (hh : ¬Holds (c :: calls) slot) :
    (c.act env ctx w).2.tree.fileAt (slot.place env ctx) = none := by
  by_cases hjob : ∃ j ∈ c.jobs w, j.slot c.kind = slot
  · obtain ⟨j, hj, rfl⟩ := hjob
    cases hr : j.remove with
    | true => exact hd.file_removed (hs.places_nodup hc hkeys hinj hcov) hj hr
    | false =>
      -- a slot that was written is held
      refine absurd ?_ hh
      cases hrem : c.isRemoved with
      | true =>
        obtain ⟨e, -, rfl⟩ := (mem_jobs_remove hrem j).1 hj
        cases hr
      | false =>
        obtain ⟨e, he, rfl⟩ | ⟨e, -, rfl⟩ := (mem_jobs_update hrem j).1 hj
        · obtain ⟨folder, hf⟩ := folder_of_update hrem
          have hdest : c.dest w = folder := by
            rw [Call.dest, hrem, hf]
            rfl
          refine ⟨c.item, ?_, ?_, e, he, rfl⟩
          · exact (tracked_cons_self c calls).trans (by rw [hrem]; rfl)
          · rw [hdest]
            exact (lastFolder_cons c calls c.key).trans (by rw [if_pos ⟨hrem, rfl⟩, hf]; rfl)
        · cases hr
  · have hnot : ∀ j ∈ c.jobs w, j.slot c.kind ≠ slot := fun j hj e => hjob ⟨j, hj, e⟩
    rw [hs.file_other hc hkeys hinj hcov hd hslot hnot]
    refine hs.absent slot hslot fun hheld => ?_
    by_cases hk : c.key = (slot.kind, slot.ns ++ slot.name)
    · exact hjob (hs.held_job hc hkeys hheld hk.symm)
    · obtain ⟨v, hv, hf, e, he, hse⟩ := hheld
      have hk' : c.key ≠ (slot.kind, v.key) := by
        rw [hse] at hk
        exact hk
      exact hh ⟨v, (tracked_cons_of_ne hk' calls).trans hv,
        (lastFolder_cons_of_ne hk' calls).trans hf, e, he, hse⟩

/-- **A call without a failure preserves the invariant.** -/
theorem Synced.call (hfail : (c.run env ctx w).2.sys.failures = w.sys.failures)
    (hcoll : NoCollision env (c.run env ctx w).2.sys) :
    Synced env ctx S (c :: calls) (c.run env ctx w).2 := by
  have hwalked := hs.toWalked.call hc hkeys hinj hcov (by rwa [Call.run_eq] at hfail)
  rw [Call.run_eq] at hfail hcoll hwalked ⊢
  obtain ⟨done, hd⟩ := hs.performed hc hkeys hinj hcov hfail
  exact {
    toWalked := hwalked
    present := fun kind v folder hv hf e he =>
      hs.present_call hc hkeys hinj hcov hd hcoll hv hf he
    absent := fun slot hslot hh => hs.absent_call hc hkeys hinj hcov hd hslot hh }

end Preserves

/-! ## The run lemma -/

theorem Synced.idle {env : Env} {ctx : Ctx} {S : Slot → Prop} {calls : List Call} {w w' : World}
    (hs : Synced env ctx S calls w) (h : Idle w w') : Synced env ctx S calls w' where
  toWalked := hs.toWalked.idle h
  present := by rw [h.sys.tree, h.sys.produced]; exact hs.present
  absent := by rw [h.sys.tree]; exact hs.absent

theorem Fresh.synced {env : Env} {ctx : Ctx} {S : Slot → Prop} {w : World}
    (h : Fresh env ctx S w) : Synced env ctx S [] w where
  toWalked := h.walked
  present _ _ _ hv := by cases hv
  absent slot hslot _ := h.files slot hslot

/-- **The invariant holds after every call of a run** without failures, when the resources have
distinct keys, the slots distinct paths and the computed bytes distinct digests. -/
theorem Reaches.synced {env : Env} {ctx : Ctx} {S : Slot → Prop} {w₀ w : World}
    {calls : List Call} (h : Reaches env ctx w₀ calls w) (hfresh : Fresh env ctx S w₀)
    (hkeys : DistinctKeys calls)
    (hinj : ∀ x, S x → ∀ y, S y → x.place env ctx = y.place env ctx → x = y)
    (hcov : ∀ x, Occurs calls x → S x) (hfail : w.sys.failures = w₀.sys.failures)
    (hcoll : NoCollision env w.sys) : Synced env ctx S calls w := by
  induction h with
  | start => exact hfresh.synced
  | @call calls w c hreach hallowed ih =>
    have hle := c.run_traceLe env ctx w
    obtain ⟨hbefore, hstep⟩ := count_squeeze hreach.traceLe hle hfail
    have hsub : ∀ c' ∈ calls, c' ∈ c :: calls := fun _ => List.mem_cons_of_mem c
    have hprod : ∀ p ∈ w.sys.produced, p ∈ (c.run env ctx w).2.sys.produced := by
      intro p hp
      obtain ⟨t, ht⟩ := hle
      unfold Sys.produced at hp ⊢
      rw [← ht, List.filterMap_append]
      exact List.mem_append_left _ hp
    have hs := ih (fun a ha b hb => hkeys a (hsub a ha) b (hsub b hb))
      (fun x hx => hcov x (hx.mono hsub)) hbefore
      (fun p hp q hq => hcoll p (hprod p hp) q (hprod q hq))
    exact hs.call hallowed hkeys hinj hcov hstep hcoll
  | idle hreach hidle ih =>
    have hbefore := (count_squeeze hreach.traceLe hidle.sys.trace hfail).1
    unfold NoCollision at hcoll
    rw [hidle.sys.produced] at hcoll
    exact (ih hkeys hcov hbefore hcoll).idle hidle

/-! ## Maps and files after a run -/

/-- What holds of maps and files after every call of a run. -/
structure SyncInvariant (env : Env) (ctx : Ctx) (calls : List Call) (w : World) : Prop where
  /-- A resource in `object` has a folder in `dest`; each data key of the version last processed is
  a file there with the bytes last produced for it: its value, or the body behind it. -/
  files : ∀ (k : MapKey) (c : CachedItem), w.maps.object[k]? = some c → ∃ v folder,
    tracked calls k = some v ∧ c = .fromItem v ∧ w.maps.dest[k]? = some folder ∧
      ∀ e ∈ v.entries k.1, ∃ data,
        w.sys.tree.fileAt ((e.slot k.1 v.ns v.name folder).place env ctx) = some data ∧
        lastProduced (e.slot k.1 v.ns v.name folder).id w.sys.produced = some data ∧
        (isUrlKey e.dataKey = false → data = e.content.bytes) ∧
        (isUrlKey e.dataKey = true → ∃ url s, e.content.url? = some url ∧
          data = bodyIfOk (request env (some url) (some "GET") ctx.enable5xx none s).1)
  /-- No other slot of the run is a file. -/
  nothingElse : ∀ slot, Occurs calls slot → w.sys.tree.fileAt (slot.place env ctx) ≠ none →
    ∃ v, w.maps.object[((slot.kind, v.key) : MapKey)]? = some (.fromItem v) ∧
      w.maps.dest[((slot.kind, v.key) : MapKey)]? = some slot.folder ∧
      ∃ e ∈ v.entries slot.kind, slot = e.slot slot.kind v.ns v.name slot.folder

/-- **Sync invariant over whole runs.** -/
theorem sync_invariant {env : Env} {ctx : Ctx} {w₀ w : World} {calls : List Call}
    (hrun : Reaches env ctx w₀ calls w) (hmaps : w₀.maps = .empty)
    (hfiles : ∀ slot, Occurs calls slot → w₀.sys.tree.fileAt (slot.place env ctx) = none)
    (hkeys : DistinctKeys calls)
    (hinj : ∀ x, Occurs calls x → ∀ y, Occurs calls y → x.place env ctx = y.place env ctx → x = y)
    (hfail : w.sys.failures = w₀.sys.failures) (hcoll : NoCollision env w.sys) :
    SyncInvariant env ctx calls w := by
  have hfresh : Fresh env ctx (Occurs calls) w₀ := ⟨by rw [hmaps]; rfl, by rw [hmaps]; rfl, hfiles⟩
  have hs := hrun.synced hfresh hkeys hinj (fun _ h => h) hfail hcoll
  constructor
  · intro ⟨kind, key⟩ c hc
    rw [hs.object] at hc
    obtain ⟨v, hv, rfl⟩ := Option.map_eq_some_iff.1 hc
    obtain ⟨c, -, hck, rfl⟩ := exists_call_of_tracked hv
    obtain rfl : key = c.item.key := (congrArg Prod.snd hck).symm
    obtain ⟨folder, hf⟩ := lastFolder_of_tracked hv
    refine ⟨c.item, folder, hv, rfl, (hs.dest _).trans hf, fun e he => ?_⟩
    obtain ⟨data, hfile, hlast, hcomp⟩ := hs.present _ c.item folder hv hf e he
    exact ⟨data, hfile, hlast, hcomp.of_plain, hcomp.of_url⟩
  · intro slot hslot hf
    by_cases hh : Holds calls slot
    · obtain ⟨v, hv, hfolder, hentry⟩ := hh
      exact ⟨v, (hs.object _).trans (by rw [hv]; rfl), (hs.dest _).trans hfolder, hentry⟩
    · exact absurd (hs.absent slot hslot hh) hf

/-- A ConfigMap is updated: one key is dropped, one added, one moves with its folder. -/
def sampleCalls : List Call :=
  [.upsert .configMap (sampleItem "ns" "a" "2" [("k", "w"), ("j", "v")]) "/other",
    .upsert .configMap (sampleItem "ns" "a" "1" [("k", "v"), ("i", "v")]) "/data"]

def sampleRun : List Call → World
  | [] => sampleWorld
  | c :: cs => (c.run sampleEnv sampleCtx (sampleRun cs)).2

theorem sync_invariant_sample :
    SyncInvariant sampleEnv sampleCtx sampleCalls (sampleRun sampleCalls) := by
  have hrun : Reaches sampleEnv sampleCtx sampleWorld sampleCalls (sampleRun sampleCalls) :=
    .call _ (.call _ .start trivial) trivial
  refine sync_invariant hrun rfl ?_ ?_ ?_ ?_ ?_
  · intro slot hslot
    revert slot
    simp only [← mem_slotsOf]
    decide +kernel
  · unfold DistinctKeys Call.sameResource
    decide +kernel
  · simp only [← mem_slotsOf]
    decide +kernel
  · decide +kernel
  · unfold NoCollision
    decide +kernel

end Sidecar
