import Sidecar.SharedPaths
import Sidecar.Versions

/-!
# Updates that fail

The version check records the version of an item before any of its files is written, and nothing
takes that back when a write fails. So the item is skipped as long as it is delivered in that
version, and its files come with its next version (`failed_update_recorded`).
-/

namespace Sidecar

open Posix StateM

/-! ## The calls of an update -/

/-- The paths an update can remove. -/
def Delivery.removes (env : Env) (ctx : Ctx) (m : Maps) : Delivery → List Path
  | .listing kind ns items => removedPaths env ctx kind ns items m
  | .event kind _ item => leftoverTargets env ctx kind m item

/-- The calls of an update: one for each item that was not processed in its version. -/
structure UpdateCalls (env : Env) (ctx : Ctx) (d : Delivery) (w : World) (calls : List Call) :
    Prop where
  nodup : (calls.map Call.key).Nodup
  kind : ∀ c ∈ calls, c.kind = d.kind
  removes : ∀ c ∈ calls, ∀ j ∈ c.jobs w, j.remove = true →
    j.place env ctx d.kind ∈ d.removes env ctx w.maps
  writes : ∀ c ∈ calls, ∀ j ∈ c.jobs w, j.remove = false → ∃ item ∈ d.items,
    c = upsertOf ctx d.kind item ∧
      ∃ e ∈ item.entries d.kind, j = e.job (destinationFolder ctx item) item false
  due : ∀ item ∈ d.items, ¬Maps.Seen d.kind item w.maps → upsertOf ctx d.kind item ∈ calls
  skipped : ∀ item ∈ d.items, Maps.Seen d.kind item w.maps →
    ∀ c ∈ calls, c.key ≠ (d.kind, item.key)

section Calls

variable {env : Env} {ctx : Ctx} {kind : Kind} {ns : String} {items : List Item} {item : Item}
  {w w' : World} {calls : List Call}

theorem exists_entry_of_write {j : Job} (hj : j ∈ (upsertOf ctx kind item).jobs w)
    (hr : j.remove = false) :
    ∃ e ∈ item.entries kind, j = e.job (destinationFolder ctx item) item false := by
  obtain ⟨e, he, rfl⟩ | ⟨e, -, rfl⟩ := (mem_jobs_update rfl j).1 hj
  · exact ⟨e, he, rfl⟩
  · cases hr

theorem PassCalls.toUpdate (h : PassCalls ctx kind ns true items w calls)
    (hn : (items.map Item.key).Nodup) : UpdateCalls env ctx (.listing kind ns items) w calls where
  nodup := h.nodup
  kind c hc := (h.removes env hc).1
  removes c hc := (h.removes env hc).2
  writes c hc j hj hr := by
    obtain ⟨cached, -, -, rfl⟩ | ⟨item, hitem, rfl⟩ := h.cases c hc
    · obtain ⟨e, -, rfl⟩ := (mem_jobs_remove rfl j).1 hj
      cases hr
    · exact ⟨item, (due_sublist ..).mem hitem, rfl, exists_entry_of_write hj hr⟩
  due item hi hnew := h.due item (mem_due hn hi fun hs => hnew hs.2)
  skipped item hi hseen c hc hk := by
    obtain ⟨cached, -, hstale, rfl⟩ | ⟨item', hdue, rfl⟩ := h.cases c hc
    · -- what is stale is not listed
      have hkey : cached.toRemovalItem.key = item.key := (Prod.mk.inj hk).2
      have hmem : cached.toRemovalItem.key ∈ items.map Item.key := hkey ▸ List.mem_map_of_mem hi
      simp [isStale, hmem] at hstale
    · have hkey : item'.key = item.key := (Prod.mk.inj hk).2
      obtain rfl := List.inj_on_of_nodup_map hn ((due_sublist ..).mem hdue) hi hkey
      exact not_seen_of_due hn hdue hseen

theorem event_update_calls {ev : EventType} (hev : ev ≠ .deleted) :
    ∃ calls, Reaches env ctx w calls (applyEvent env ctx kind true ev item w).2 ∧
      UpdateCalls env ctx (.event kind ev item) w calls := by
  have hstart : Reaches env ctx w [] w := .start
  have hreach : Reaches env ctx w ((if true = true ∧ Maps.Seen kind item w.maps then []
      else [upsertOf ctx kind item]) ++ []) (applyEvent env ctx kind true ev item w).2 :=
    applyEvent_update_reaches hev item hstart
  refine ⟨_, hreach, ?_⟩
  rw [List.append_nil]
  by_cases hseen : Maps.Seen kind item w.maps
  · rw [if_pos ⟨rfl, hseen⟩]
    refine ⟨List.nodup_nil, by simp, by simp, by simp, fun i hi hnew => ?_, by simp⟩
    rw [List.mem_singleton.1 hi] at hnew
    exact absurd hseen hnew
  · rw [if_neg fun hs => hseen hs.2]
    refine ⟨List.nodup_singleton _, ?_, ?_, ?_, ?_, ?_⟩
    · intro c hc
      rw [List.mem_singleton.1 hc]
      rfl
    · intro c hc j hj hr
      rw [List.mem_singleton.1 hc] at hj
      exact upsert_leftovers hj hr
    · intro c hc j hj hr
      obtain rfl := List.mem_singleton.1 hc
      exact ⟨item, List.mem_singleton_self item, rfl, exists_entry_of_write hj hr⟩
    · intro i hi _
      rw [List.mem_singleton.1 hi]
      exact List.mem_singleton_self _
    · intro i hi hi'
      rw [List.mem_singleton.1 hi] at hi'
      exact absurd hi' hseen

theorem Reaches.after_hush {u : World} (hu : Hush w u) (h : Reaches env ctx u calls w') :
    Reaches env ctx w calls w' := by
  induction h with
  | start => exact .idle .start hu.idle
  | call c _ hallowed ih => exact ih.call c hallowed
  | idle _ hidle ih => exact ih.idle hidle

/-- **An update** is the calls for the items that were not processed in their version. -/
theorem Takes.update_calls {d : Delivery} {f : Bool} (h : Takes env ctx true w d f w')
    (hwf : w.maps.WF) (hu : d.IsUpdate) (hn : (d.items.map Item.key).Nodup) :
    ∃ calls, Reaches env ctx w calls w' ∧ UpdateCalls env ctx d w calls := by
  obtain ⟨⟨s, m⟩, hush, -, hend⟩ := h.cases
  obtain rfl : m = w.maps := hush.maps
  have hcalls : ∃ calls, Reaches env ctx ⟨s, w.maps⟩ calls (d.apply env ctx true ⟨s, w.maps⟩).2 ∧
      UpdateCalls env ctx d ⟨s, w.maps⟩ calls := by
    cases d with
    | listing kind ns items =>
      obtain ⟨calls, hreach, hpass⟩ := applyListing_calls env ctx kind ns true
        (show (World.mk s w.maps).maps.WF from hwf) hn
      exact ⟨calls, hreach, hpass.toUpdate hn⟩
    | event kind ev item => exact event_update_calls hu
  obtain ⟨calls, hreach, hupdate⟩ := hcalls
  -- what calls plan depends on the maps only
  exact ⟨calls, (hreach.idle hend.idle).after_hush hush,
    ⟨hupdate.nodup, hupdate.kind, hupdate.removes, hupdate.writes, hupdate.due, hupdate.skipped⟩⟩

end Calls

/-! ## Files with their content -/

section Filed

variable {env : Env} {ctx : Ctx} {kind : Kind} {j : Job}

/-- The file of a job has the content of its data key, up to the digest. -/
def Job.Filed (env : Env) (ctx : Ctx) (kind : Kind) (j : Job) (s : Sys) : Prop :=
  ∃ data, Computes env ctx j.dataKey j.content data ∧
    (s.tree.fileAt (j.place env ctx kind)).map env.sha256 = some (env.sha256 data)

theorem Job.Filed.congr {s t : Sys} (h : j.Filed env ctx kind s)
    (hst : t.tree.fileAt (j.place env ctx kind) = s.tree.fileAt (j.place env ctx kind)) :
    j.Filed env ctx kind t := by
  obtain ⟨data, hdata, hfile⟩ := h
  exact ⟨data, hdata, hst ▸ hfile⟩

theorem Job.run_filed (hw : j.remove = false) {s : Sys}
    (h : (j.run env ctx kind s).2.failures = s.failures) :
    j.Filed env ctx kind (j.run env ctx kind s).2 := by
  obtain ⟨data, hdata, hdone⟩ := Job.run_ok env ctx kind j (by simp [hw]) h
  have hset : Store.Settled env.sha256
      (Store.step env.sha256 s.tree.fileAt (j.assign env ctx kind data)).2
      (j.assign env ctx kind data) :=
    Store.step_settled _
  rw [← hdone.files, Job.assign_of_write hw] at hset
  exact ⟨data, hdata, hset⟩

/-- Actions without a failure leave the content of a data key where no other job goes. -/
theorem runActions_filed {as : List Action} (hw : j.remove = false)
    (honly : ∀ x ∈ jobs as, x.place env ctx kind = j.place env ctx kind → x = j) {s : Sys}
    (hf : j ∈ jobs as ∨ j.Filed env ctx kind s)
    (h : (runActions env ctx kind as s).2.failures = s.failures) :
    j.Filed env ctx kind (runActions env ctx kind as s).2 := by
  refine runActions_clean env ctx kind (P := fun js s out =>
    (∀ x ∈ js, x.place env ctx kind = j.place env ctx kind → x = j) →
      (j ∈ js ∨ j.Filed env ctx kind s) → j.Filed env ctx kind out.2) ?_ ?_ ?_ h honly hf
  · rintro s - (hj | hf)
    · cases hj
    · exact hf
  · intro js s t out hsilent ih honly hf
    refine ih honly (hf.imp_right fun hf => hf.congr ?_)
    rw [hsilent.tree]
  · intro x js s out hfirst _ ih honly hf
    refine ih (fun y hy => honly y (List.mem_cons_of_mem x hy)) ?_
    by_cases hplace : x.place env ctx kind = j.place env ctx kind
    · obtain rfl := honly x List.mem_cons_self hplace
      exact .inr (Job.run_filed hw hfirst)
    · have hsame := (x.run_touches env ctx kind s).files (j.place env ctx kind) (Ne.symm hplace)
      obtain hj | hf := hf
      · rcases List.mem_cons.1 hj with rfl | hj
        · exact absurd rfl hplace
        · exact .inl hj
      · exact .inr (hf.congr hsame)

variable {w₀ w : World} {calls : List Call}

/-- Calls about different resources leave the content of a data key where no other job goes. -/
theorem Reaches.filed (h : Reaches env ctx w₀ calls w) (hn : (calls.map Call.key).Nodup)
    (hkind : ∀ c ∈ calls, c.kind = kind) (hw : j.remove = false)
    (honly : ∀ c ∈ calls, ∀ x ∈ c.jobs w₀, x.place env ctx kind = j.place env ctx kind → x = j)
    (hf : (∃ c ∈ calls, j ∈ c.jobs w₀) ∨ j.Filed env ctx kind w₀.sys)
    (hfail : w.sys.failures = w₀.sys.failures) : j.Filed env ctx kind w.sys := by
  induction h with
  | start =>
    obtain ⟨c, hc, -⟩ | hf := hf
    · cases hc
    · exact hf
  | @call calls w c hreach _ ih =>
    obtain ⟨hbefore, hstep⟩ := count_squeeze hreach.traceLe (c.run_traceLe env ctx w) hfail
    have hjobs := hreach.jobs_start hn
    obtain rfl := hkind c List.mem_cons_self
    have hown := honly c List.mem_cons_self
    rw [← hjobs] at hown
    have hbefore' := ih (List.nodup_cons.1 hn).2 (fun x hx => hkind x (List.mem_cons_of_mem c hx))
      (fun x hx => honly x (List.mem_cons_of_mem c hx))
    rw [Call.run_eq] at hstep ⊢
    refine runActions_filed hw hown ?_ hstep
    obtain ⟨c', hc', hj⟩ | hf := hf
    · rcases List.mem_cons.1 hc' with rfl | hc'
      · rw [← hjobs] at hj
        exact .inl hj
      · exact .inr (hbefore' (.inl ⟨c', hc', hj⟩) hbefore)
    · exact .inr (hbefore' (.inr hf) hbefore)
  | idle hreach hidle ih =>
    have hbefore := (count_squeeze hreach.traceLe hidle.sys.trace hfail).1
    exact (ih hn hkind honly hf hbefore).congr (by rw [hidle.sys.tree])

/-- A file where no job goes stays as it is. -/
theorem Reaches.file_other {p : Path} (h : Reaches env ctx w₀ calls w)
    (hn : (calls.map Call.key).Nodup)
    (hp : ∀ c ∈ calls, ∀ x ∈ c.jobs w₀, x.place env ctx c.kind ≠ p) :
    w.sys.tree.fileAt p = w₀.sys.tree.fileAt p := by
  induction h with
  | start => rfl
  | @call calls w c hreach _ ih =>
    have hown := hp c List.mem_cons_self
    rw [← hreach.jobs_start hn] at hown
    rw [Call.run_eq]
    refine ((runActions_touches env ctx c.kind _ w.sys).files p ?_).trans
      (ih (List.nodup_cons.1 hn).2 fun x hx => hp x (List.mem_cons_of_mem c hx))
    rintro ⟨j, hj, rfl⟩
    exact hown j hj rfl
  | idle _ hidle ih =>
    rw [hidle.sys.tree]
    exact ih hn hp

end Filed

/-! ## An update that failed -/

section Failed

variable {env : Env} {ctx : Ctx} {d d' : Delivery} {item next : Item} {w w₁ w₂ w₃ : World}

/-- The item was delivered for an update, with the version check on. -/
structure Updates (env : Env) (ctx : Ctx) (w : World) (d : Delivery) (item : Item) (w' : World) :
    Prop where
  takes : ∃ f, Takes env ctx true w d f w'
  update : d.IsUpdate
  nodup : (d.items.map Item.key).Nodup
  mem : item ∈ d.items

/-- `process_resource` was not called for the resource. -/
def Skips (env : Env) (ctx : Ctx) (k : MapKey) (w w' : World) : Prop :=
  ∃ calls, Reaches env ctx w calls w' ∧ ∀ c ∈ calls, c.key ≠ k

/-- `process_resource` was called for the item. -/
def Processes (env : Env) (ctx : Ctx) (kind : Kind) (item : Item) (w w' : World) : Prop :=
  ∃ calls, Reaches env ctx w calls w' ∧ upsertOf ctx kind item ∈ calls

/-- The path of a data key is that of no other data key delivered, and none the update removes. -/
structure Delivery.Alone (env : Env) (ctx : Ctx) (m : Maps) (d : Delivery)
    (item : Item) (e : Entry) :
    Prop where
  only : ∀ item' ∈ d.items, ∀ e' ∈ item'.entries d.kind,
    item'.target env ctx d.kind (destinationFolder ctx item') e' =
      item.target env ctx d.kind (destinationFolder ctx item) e → item' = item ∧ e' = e
  stays : item.target env ctx d.kind (destinationFolder ctx item) e ∉ d.removes env ctx m

/-- A job at the path of such a data key is the data key's. -/
theorem UpdateCalls.only {e : Entry} {calls : List Call} (h : UpdateCalls env ctx d w calls)
    (ha : d.Alone env ctx w.maps item e) {c : Call} (hc : c ∈ calls) {x : Job} (hx : x ∈ c.jobs w)
    (hplace : x.place env ctx d.kind =
      item.target env ctx d.kind (destinationFolder ctx item) e) :
    c = upsertOf ctx d.kind item ∧ x = e.job (destinationFolder ctx item) item false := by
  cases hr : x.remove with
  | true => exact absurd (hplace ▸ h.removes c hc x hx hr) ha.stays
  | false =>
    obtain ⟨item', hi', rfl, e', he', rfl⟩ := h.writes c hc x hx hr
    obtain ⟨rfl, rfl⟩ := ha.only item' hi' e' he' hplace
    exact ⟨rfl, rfl⟩

/-- **What becomes of an update that failed.** Its version is on record whatever failed. When the
resource is delivered next, it is skipped if it is still that version, and its files stay as they
are. In another version it is processed, and if nothing fails then its data keys have their
files. -/
theorem failed_update_recorded {ds : List Delivery} (hreach : w.maps.Reachable)
    (h : Updates env ctx w d item w₁) (hbetween : Delivered env ctx true w₁ ds w₂)
    (hmiss : ∀ d₀ ∈ ds, d₀.Misses (d.kind, item.key)) (h' : Updates env ctx w₂ d' next w₃)
    (hkey : (d'.kind, next.key) = (d.kind, item.key)) :
    Maps.Seen d.kind item w₁.maps ∧
    (next.resourceVersion = item.resourceVersion → Skips env ctx (d.kind, item.key) w₂ w₃ ∧
      ∀ e ∈ next.entries d'.kind, d'.Alone env ctx w₂.maps next e →
        w₃.sys.tree.fileAt (next.target env ctx d'.kind (destinationFolder ctx next) e) =
          w₂.sys.tree.fileAt (next.target env ctx d'.kind (destinationFolder ctx next) e)) ∧
    (next.resourceVersion ≠ item.resourceVersion → Processes env ctx d'.kind next w₂ w₃ ∧
      (w₃.sys.failures = w₂.sys.failures →
        ∀ e ∈ next.entries d'.kind, d'.Alone env ctx w₂.maps next e →
          (e.job (destinationFolder ctx next) next false).Filed env ctx d'.kind w₃.sys)) := by
  obtain ⟨f, htakes⟩ := h.takes
  obtain ⟨f', htakes'⟩ := h'.takes
  have hseen := htakes.seen h.update h.nodup h.mem
  have hwf : w₂.maps.WF := (hbetween.reachable (htakes.reachable hreach)).wf
  obtain ⟨calls, hcalls, hupdate⟩ := htakes'.update_calls hwf h'.update h'.nodup
  have hversion : w₂.maps.version[((d'.kind, next.key) : MapKey)]? = some item.resourceVersion := by
    rw [hkey, hbetween.version_other hmiss]
    exact hseen
  refine ⟨hseen, fun hsame => ?_, fun hother => ?_⟩
  · have hskipped := hupdate.skipped next h'.mem (by rw [Maps.Seen, hversion, hsame])
    refine ⟨⟨calls, hcalls, hkey ▸ hskipped⟩, fun e _ ha => ?_⟩
    refine hcalls.file_other hupdate.nodup fun c hc x hx hplace => ?_
    rw [hupdate.kind c hc] at hplace
    obtain ⟨rfl, -⟩ := hupdate.only ha hc hx hplace
    exact hskipped _ hc rfl
  · have hnew : ¬Maps.Seen d'.kind next w₂.maps := by
      rw [Maps.Seen, hversion, Option.some.injEq]
      exact fun e => hother e.symm
    have hdue := hupdate.due next h'.mem hnew
    refine ⟨⟨calls, hcalls, hdue⟩, fun hfail e he ha => ?_⟩
    have hjob :
        e.job (destinationFolder ctx next) next false ∈ (upsertOf ctx d'.kind next).jobs w₂ :=
      (mem_jobs_update rfl _).2 (.inl ⟨e, he, rfl⟩)
    exact hcalls.filed hupdate.nodup hupdate.kind rfl
      (fun c hc x hx hplace => (hupdate.only ha hc hx hplace).2) (.inl ⟨_, hdue, hjob⟩) hfail

/-- The second file-system call of a run fails: `create_dir_all`, when the target folder is not
there. -/
def sampleFaulty : Env :=
  { sampleEnv with fault := fun n => if n = 1 then some ⟨.other, 0⟩ else none }

/-- A ConfigMap is added while the target folder cannot be made. -/
def sampleFailed : World :=
  (handleEvent sampleFaulty sampleCtx .configMap none true .added
    (sampleItem "ns" "a" "1" [("k", "v")]) sampleWorld).2

/-- Then it is delivered again. -/
def sampleRetried (resourceVersion : String) : World :=
  (handleEvent sampleFaulty sampleCtx .configMap none true .modified
    (sampleItem "ns" "a" resourceVersion [("k", "v")]) sampleFailed).2

theorem sampleFailed_updates : Updates sampleFaulty sampleCtx sampleWorld
    (.event .configMap .added (sampleItem "ns" "a" "1" [("k", "v")]))
    (sampleItem "ns" "a" "1" [("k", "v")]) sampleFailed :=
  ⟨⟨_, .event⟩, nofun, List.nodup_singleton _, List.mem_singleton_self _⟩

theorem sampleRetried_updates (resourceVersion : String) :
    Updates sampleFaulty sampleCtx sampleFailed
      (.event .configMap .modified (sampleItem "ns" "a" resourceVersion [("k", "v")]))
      (sampleItem "ns" "a" resourceVersion [("k", "v")]) (sampleRetried resourceVersion) :=
  ⟨⟨_, .event⟩, nofun, List.nodup_singleton _, List.mem_singleton_self _⟩

theorem failed_update_recorded_sample :
    Skips sampleFaulty sampleCtx (.configMap, "nsa") sampleFailed (sampleRetried "1") ∧
      ∀ e ∈ (sampleItem "ns" "a" "2" [("k", "v")]).entries .configMap,
        (e.job (destinationFolder sampleCtx (sampleItem "ns" "a" "2" [("k", "v")]))
          (sampleItem "ns" "a" "2" [("k", "v")]) false).Filed sampleFaulty sampleCtx .configMap
          (sampleRetried "2").sys := by
  constructor
  · exact ((failed_update_recorded .empty sampleFailed_updates .start (by simp)
      (sampleRetried_updates "1") rfl).2.1 rfl).1
  · have hprocessed := (failed_update_recorded .empty sampleFailed_updates .start (by simp)
      (sampleRetried_updates "2") rfl).2.2 (by decide)
    refine fun e he => hprocessed.2 (by decide +kernel) e he ⟨?_, ?_⟩
    · intro item' hi e' he' _
      obtain rfl := List.mem_singleton.1 hi
      rw [List.mem_singleton.1 he, List.mem_singleton.1 he']
      exact ⟨rfl, rfl⟩
    · obtain rfl := List.mem_singleton.1 he
      decide +kernel

/-- A data key that could not be written is written when the same version is delivered again. -/
def FailedUpdateRetried (env : Env) (ctx : Ctx) : Prop :=
  ∀ w w₁ w₂ d d' item, w.maps.Reachable → Updates env ctx w d item w₁ →
    Updates env ctx w₁ d' item w₂ → d'.kind = d.kind → w.sys.failures < w₁.sys.failures →
    (∃ e ∈ item.entries d.kind,
      w₁.sys.tree.fileAt (item.target env ctx d.kind (destinationFolder ctx item) e) = none) →
    w₂.sys.failures = w₁.sys.failures → ∀ e ∈ item.entries d.kind,
      (e.job (destinationFolder ctx item) item false).Filed env ctx d.kind w₂.sys

/-- The version is skipped, and the file does not come. -/
theorem failed_update_skipped : ¬FailedUpdateRetried sampleFaulty sampleCtx := by
  intro h
  obtain ⟨data, -, hfile⟩ := h sampleWorld sampleFailed (sampleRetried "1") _ _ _ .empty
    sampleFailed_updates (sampleRetried_updates "1") rfl (by decide +kernel)
    ⟨_, mem_sample_entries "ns" "a" "1", by decide +kernel⟩ (by decide +kernel) _
    (mem_sample_entries "ns" "a" "1")
  have hnone : (sampleRetried "1").sys.tree.fileAt ["k", "data"] = none := by decide +kernel
  have hfile' : ((sampleRetried "1").sys.tree.fileAt ["k", "data"]).map sampleFaulty.sha256 =
      some (sampleFaulty.sha256 data) := hfile
  rw [hnone] at hfile'
  cases hfile'

end Failed

end Sidecar
