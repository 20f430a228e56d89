import Sidecar.Outcomes
import Sidecar.Polling
import Sidecar.Remains
import Sidecar.VersionCheck

/-!
# The order of the stale cleanup

The stale entries are removed in the order the hash map happens to be iterated. One removal does
depend on the others, since of two resources that share a file only the first one finds it. All of
them together do not: the files that go are those at the places of some job, and the answer tells
whether there was one (`removeStale_sweeps`). Places and jobs are the same in every order, so what
the cleanup comes to is too (`stale_order_irrelevant`).
-/

namespace Sidecar

open Posix StateM

/-! ## Removals -/

/-- A run of removals takes the files at `P`, and answers whether there was one. -/
structure Sweeps (P : Path → Prop) (s : Sys) (out : Bool × Sys) : Prop where
  answer : out.1 = true ↔ ∃ q, P q ∧ s.tree.IsFile q
  swept : FileTree.Swept P s.tree out.2.tree

section Sweeps

variable {P Q : Path → Prop} {s t : Sys} {out : Bool × Sys}

theorem Sweeps.congr (h : Sweeps P s out) (hPQ : ∀ q, P q ↔ Q q) : Sweeps Q s out := by
  refine ⟨?_, h.swept.congr hPQ⟩
  rw [h.answer]
  exact exists_congr fun q => and_congr_left' (hPQ q)

theorem Sweeps.before (hst : t.tree = s.tree) (h : Sweeps P t out) : Sweeps P s out :=
  ⟨hst ▸ h.answer, hst ▸ h.swept⟩

theorem Sweeps.idle (hP : ∀ q, ¬P q) (hst : out.2.tree = s.tree) (hout : out.1 = false) :
    Sweeps P s out where
  answer := by
    rw [hout]
    exact iff_of_false (by simp) fun ⟨q, hq, _⟩ => hP q hq
  swept := by
    rw [hst]
    exact FileTree.swept_self fun q hq => absurd hq (hP q)

/-- Of a file that both take, the second finds nothing. -/
theorem Sweeps.trans {first : Bool × Sys} (h : Sweeps P s first) (h' : Sweeps Q first.2 out) :
    Sweeps (fun q => P q ∨ Q q) s (first.1 || out.1, out.2) := by
  refine ⟨?_, h.swept.trans h'.swept⟩
  rw [Bool.or_eq_true, h.answer, h'.answer]
  constructor
  · rintro (⟨q, hq, hf⟩ | ⟨q, hq, hf⟩)
    · exact ⟨q, .inl hq, hf⟩
    · exact ⟨q, .inr hq, ((h.swept.isFile_iff q).1 hf).1⟩
  · rintro ⟨q, hq, hf⟩
    by_cases hp : P q
    · exact .inl ⟨q, hp, hf⟩
    · exact .inr ⟨q, hq.resolve_left hp, (h.swept.isFile_iff q).2 ⟨hf, hp⟩⟩

end Sweeps

/-! ## One job -/

section Jobs

variable {env : Env} {ctx : Ctx} {kind : Kind}

/-- Where a job takes the file: it has bytes, and the kernel can walk there. -/
def Job.Clears (env : Env) (ctx : Ctx) (kind : Kind) (t : FileTree) (j : Job) (q : Path) : Prop :=
  j.decodes = true ∧ j.Reachable env ctx kind t ∧ q = j.place env ctx kind

/-- Only directories are asked for. -/
theorem Job.clears_congr {t t' : FileTree}
    (h : ∀ q, t'.node q = some .dir ↔ t.node q = some .dir) (j : Job)
    (q : Path) : j.Clears env ctx kind t' q ↔ j.Clears env ctx kind t q := by
  have hwalk : j.Reachable env ctx kind t' ↔ j.Reachable env ctx kind t :=
    ⟨fun hw => Walkable.mono hw fun q => (h q).1, fun hw => Walkable.mono hw fun q => (h q).2⟩
  unfold Job.Clears
  rw [hwalk]

theorem Job.run_sweeps {j : Job} (hr : j.remove = true) {s : Sys}
    (h : (j.run env ctx kind s).2.ioErrors = s.ioErrors) :
    Sweeps (j.Clears env ctx kind s.tree) s (j.run env ctx kind s) := by
  have hget := getFileDataAndName_silent env ctx j.dataKey j.content s
  cases hd : j.decodes with
  | false =>
    refine .idle (fun q hq => ?_) (Job.run_not_decodes hd s) ?_
    · rw [hq.1] at hd
      cases hd
    · rw [Job.run_eq, andThen_error (getFileDataAndName_of_not_decodes env ctx hd s)]
  | true =>
    obtain ⟨data, hdata⟩ := getFileDataAndName_of_decodes env ctx hd s
    have hrun : j.run env ctx kind s = removeFile env j.folder (j.filename ctx kind)
        (getFileDataAndName env ctx j.dataKey j.content s).2 := by
      rw [Job.run_eq, andThen_ok hdata]
      dsimp only
      rw [Job.put_of_remove env ctx kind j hr]
      rfl
    rw [hrun] at h ⊢
    refine .before hget.tree ?_
    have hle := (removeFile_within env j.folder (j.filename ctx kind)
      (getFileDataAndName env ctx j.dataKey j.content s).2).trace
    obtain ⟨hanswer, hswept⟩ := removeFile_spec (count_squeeze hget.trace hle h).2
    rw [hget.tree] at hanswer hswept
    have hsame : ∀ q, Walkable env j.folder (j.filename ctx kind) s.tree ∧
        q = env.place j.folder (j.filename ctx kind) ↔ j.Clears env ctx kind s.tree q := fun q =>
      (and_iff_right hd).symm
    refine .congr ⟨?_, hget.tree ▸ hswept⟩ hsame
    rw [hanswer, hget.tree]
    constructor
    · rintro ⟨hw, hf⟩
      exact ⟨_, ⟨hw, rfl⟩, hf⟩
    · rintro ⟨q, ⟨hw, rfl⟩, hf⟩
      exact ⟨hw, hf⟩

/-- Removals take the files at the places of their jobs. -/
theorem runActions_sweeps {as : List Action} (hr : ∀ j ∈ jobs as, j.remove = true) {s : Sys}
    (h : (runActions env ctx kind as s).2.ioErrors = s.ioErrors) :
    Sweeps (fun q => ∃ j ∈ jobs as, j.Clears env ctx kind s.tree q) s
      (runActions env ctx kind as s) := by
  refine runActions_clean env ctx kind (P := fun js s out => (∀ j ∈ js, j.remove = true) →
    Sweeps (fun q => ∃ j ∈ js, j.Clears env ctx kind s.tree q) s out) ?_ ?_ ?_ h hr
  · intro s _
    exact .idle (by simp) rfl rfl
  · intro js s t out hsilent ih hr
    have hsweeps := ih hr
    rw [hsilent.tree] at hsweeps
    exact hsweeps.before hsilent.tree
  · intro j js s out hfirst _ ih hr
    have hj : Sweeps (j.Clears env ctx kind s.tree) s (j.run env ctx kind s) :=
      Job.run_sweeps (hr j List.mem_cons_self) hfirst
    have hothers := ih fun x hx => hr x (List.mem_cons_of_mem j hx)
    refine (hj.trans hothers).congr fun q => ?_
    simp only [Job.clears_congr hj.swept.dir_iff, List.exists_mem_cons_iff]

end Jobs

/-! ## The cleanup -/

section Cleanup

variable {env env' : Env} {ctx : Ctx} {kind : Kind} {w : World}

/-- What the removal of stale items removes: their entries, in the folders on record. -/
def staleJobs (kind : Kind) (m : Maps) (items : List Item) : List Job :=
  items.flatMap fun i =>
    (i.entries kind).map (Entry.job ((m.dest[((kind, i.key) : MapKey)]?).getD "") i true)

theorem staleJobs_cons (m : Maps) (item : Item) (items : List Item) :
    staleJobs kind m (item :: items) =
      (item.entries kind).map
        (Entry.job ((m.dest[((kind, item.key) : MapKey)]?).getD "") item true) ++
      staleJobs kind m items := List.flatMap_cons

theorem staleJobs_congr {m m' : Maps} (h : ∀ k : MapKey, m'.dest[k]? = m.dest[k]?)
    (items : List Item) :
    staleJobs kind m' items = staleJobs kind m items := by
  unfold staleJobs
  simp only [h]

/-- A removal from the cleanup. -/
theorem cleanup_sweeps {item : Item}
    (h : (processResource env ctx kind item none true w).2.sys.ioErrors = w.sys.ioErrors) :
    Sweeps (fun q => ∃ j ∈ staleJobs kind w.maps [item], j.Clears env ctx kind w.sys.tree q) w.sys
      ((processResource env ctx kind item none true w).1,
        (processResource env ctx kind item none true w).2.sys) := by
  have hjobs : jobs (plan kind item (w.maps.enter kind item none true).1
      (w.maps.enter kind item none true).1.dest true) = staleJobs kind w.maps [item] := by
    rw [jobs_plan_removed, Maps.enter_old, Option.or_none]
    exact (List.append_nil _).symm
  rw [processResource_eq] at h ⊢
  dsimp only [if_true] at h ⊢
  rw [← hjobs]
  refine runActions_sweeps (fun j hj => ?_) h
  rw [jobs_plan_removed] at hj
  obtain ⟨e, -, rfl⟩ := List.mem_map.1 hj
  rfl

/-- **The removals of a cleanup** take the files of all their jobs. -/
theorem removeStale_sweeps {items : List Item}
    (h : (removeStale env ctx kind items w).2.sys.ioErrors = w.sys.ioErrors) :
    Sweeps (fun q => ∃ j ∈ staleJobs kind w.maps items, j.Clears env ctx kind w.sys.tree q) w.sys
      ((removeStale env ctx kind items w).1, (removeStale env ctx kind items w).2.sys) := by
  induction items generalizing w with
  | nil => exact .idle (by simp [staleJobs]) rfl rfl
  | cons item items ih =>
    have hlog := log_silent .debug s!"Removing {kind.asStr}: {item.ns}/{item.name}" w.sys
    rw [removeStale_cons] at h ⊢
    dsimp only at h ⊢
    generalize hlogged : (⟨(log .debug s!"Removing {kind.asStr}: {item.ns}/{item.name}" w.sys).2,
      w.maps⟩ : World) = logged at h ⊢
    have hmaps : logged.maps = w.maps := by rw [← hlogged]
    have htree : logged.sys.tree = w.sys.tree := by rw [← hlogged]; exact hlog.tree
    have hle : TraceLe w.sys logged.sys := by rw [← hlogged]; exact hlog.trace
    have hone := (World.le_frame env ctx kind).process item none true logged
    have hall :=
      removeStale_le env ctx kind items (processResource env ctx kind item none true logged).2
    obtain ⟨hfirst, hrest⟩ := count_squeeze (hle.trans hone) hall h
    have hitem := (cleanup_sweeps (count_squeeze hle hone hfirst).2).before htree
    have hothers := ih hrest
    have hdest :
        ∀ k : MapKey, (processResource env ctx kind item none true logged).2.maps.dest[k]? =
          w.maps.dest[k]? := fun k => by
      rw [processResource_maps, Maps.enter_dest, if_neg (by simp), hmaps]
    refine (hitem.trans hothers).congr fun q => ?_
    rw [staleJobs_congr hdest, hmaps, htree]
    simp only [Job.clears_congr fun q => (hitem.swept.dir_iff q)]
    rw [staleJobs_cons, staleJobs_cons]
    simp only [List.mem_append, or_and_right, exists_or]
    simp [staleJobs]

theorem staleJobs_perm {items items' : List Item} (hp : items.Perm items') (m : Maps) :
    (staleJobs kind m items).Perm (staleJobs kind m items') := hp.flatMap_right _

/-- The stale cleanup of a list pass. -/
def staleCleanup (env : Env) (ctx : Ctx) (kind : Kind) (ns : String) (existKeys : List String) :
    StateM World Bool := do
  let stale ← staleItems env kind ns existKeys
  removeStale env ctx kind stale

theorem applyListing_cleanup (env : Env) (ctx : Ctx) (kind : Kind) (ns : String)
    (ignoreAlreadyProcessed : Bool) (items : List Item) :
    applyListing env ctx kind ns ignoreAlreadyProcessed items = (do
      let changed ← listItems env ctx kind ignoreAlreadyProcessed items
      let removed ← staleCleanup env ctx kind ns (items.map Item.key)
      pure (changed || removed)) := rfl

theorem Maps.ext_fields {m m' : Maps} (hversion : m.version = m'.version)
    (hobject : m.object = m'.object) (hdest : m.dest = m'.dest) : m = m' := by
  cases m
  cases m'
  simp only at hversion hobject hdest
  rw [hversion, hobject, hdest]

/-- The cleanup forgets the stale resources. -/
theorem staleCleanup_maps (env : Env) (ctx : Ctx) (kind : Kind) (ns : String)
    (existKeys : List String) (w : World) (k : MapKey) :
    let stale := (staleOf kind ns existKeys w.maps).map fun i => ((kind, i.key) : MapKey)
    let m := (staleCleanup env ctx kind ns existKeys w).2.maps
    m.object[k]? = (if k ∈ stale then none else w.maps.object[k]?) ∧ m.dest[k]? = w.maps.dest[k]? ∧
      m.version = w.maps.version := by
  have hperm := staleItems_perm env kind ns existKeys w
  have hmaps := (staleItems_silent env kind ns existKeys w).2
  unfold staleCleanup
  dsimp only
  rw [bind_apply, removeStale_object, removeStale_dest, removeStale_version, hmaps]
  refine ⟨?_, rfl, rfl⟩
  simp only [(hperm.map fun i => ((kind, i.key) : MapKey)).mem_iff]

theorem staleCleanup_sweeps {ns : String} {existKeys : List String}
    (h : (staleCleanup env ctx kind ns existKeys w).2.sys.ioErrors = w.sys.ioErrors) :
    Sweeps (fun q => ∃ j ∈ staleJobs kind w.maps (staleOf kind ns existKeys w.maps),
        j.Clears env ctx kind w.sys.tree q) w.sys
      ((staleCleanup env ctx kind ns existKeys w).1,
        (staleCleanup env ctx kind ns existKeys w).2.sys) := by
  obtain ⟨hsilent, hmaps⟩ := staleItems_silent env kind ns existKeys w
  have hperm := staleItems_perm env kind ns existKeys w
  unfold staleCleanup at h ⊢
  rw [bind_apply] at h ⊢
  generalize (staleItems env kind ns existKeys w).1 = stale at h hperm ⊢
  generalize (staleItems env kind ns existKeys w).2 = scanned at h hsilent hmaps ⊢
  have hle := removeStale_le env ctx kind stale scanned
  have hsweeps := (removeStale_sweeps (count_squeeze hsilent.trace hle h).2).before hsilent.tree
  refine hsweeps.congr fun q => ?_
  rw [hmaps, hsilent.tree]
  exact exists_congr fun j => and_congr_left' ((staleJobs_perm hperm w.maps).mem_iff)

/-- **The order of the cleanup does not matter**: in whatever order the maps are iterated, and
whatever the fetches of `*.url` keys answer, a cleanup without a failing file-system call ends with
the same maps, the same files and the same answer. -/
theorem stale_order_irrelevant {ns : String} {existKeys : List String}
    (hproc : env'.proc = env.proc)
    (h : (staleCleanup env ctx kind ns existKeys w).2.sys.ioErrors = w.sys.ioErrors)
    (h' : (staleCleanup env' ctx kind ns existKeys w).2.sys.ioErrors = w.sys.ioErrors) :
    (staleCleanup env' ctx kind ns existKeys w).2.maps =
      (staleCleanup env ctx kind ns existKeys w).2.maps ∧
      (staleCleanup env' ctx kind ns existKeys w).2.sys.tree =
        (staleCleanup env ctx kind ns existKeys w).2.sys.tree ∧
      (staleCleanup env' ctx kind ns existKeys w).1 =
        (staleCleanup env ctx kind ns existKeys w).1 := by
  have hmaps := fun k => staleCleanup_maps env ctx kind ns existKeys w k
  have hmaps' := fun k => staleCleanup_maps env' ctx kind ns existKeys w k
  dsimp only at hmaps hmaps'
  have hsweeps := staleCleanup_sweeps h
  have hclears : ∀ (j : Job) q, j.Clears env' ctx kind w.sys.tree q ↔
      j.Clears env ctx kind w.sys.tree q := by
    intro j q
    unfold Job.Clears Job.Reachable Walkable Job.place Env.place
    rw [hproc]
  have hsweeps' := (staleCleanup_sweeps h').congr fun q =>
    exists_congr fun j => and_congr_right' (hclears j q)
  refine ⟨?_, hsweeps'.swept.unique hsweeps.swept, ?_⟩
  · have hobject := Std.ExtTreeMap.ext_getElem? fun k => (hmaps' k).1.trans (hmaps k).1.symm
    have hdest := Std.ExtTreeMap.ext_getElem? fun k => (hmaps' k).2.1.trans (hmaps k).2.1.symm
    have hversion := (hmaps' (kind, "")).2.2.trans (hmaps (kind, "")).2.2.symm
    exact Maps.ext_fields hversion hobject hdest
  · exact Bool.eq_iff_iff.2 (hsweeps'.answer.trans hsweeps.answer.symm)

end Cleanup

/-- The maps are iterated backwards, and every fetch fails. -/
def sampleBackwards : Env :=
  { sampleEnv with
    hashOrder := ⟨fun _ l => l.reverse, fun _ l => l.reverse_perm⟩
    net := fun _ _ => .error "connection refused" }

/-- Two ConfigMaps that share a file, one of them with the key of a URL. -/
def sampleShared : World :=
  sampleAdded [sampleItem "ns" "a" "1" [("k", "v")],
    sampleItem "ns" "b" "1" [("k.url", "http://host/k")]]

theorem stale_order_irrelevant_sample :
    (staleCleanup sampleBackwards sampleCtx .configMap "ns" [] sampleShared).2.sys.tree =
        (staleCleanup sampleEnv sampleCtx .configMap "ns" [] sampleShared).2.sys.tree ∧
      (staleCleanup sampleBackwards sampleCtx .configMap "ns" [] sampleShared).1 =
        (staleCleanup sampleEnv sampleCtx .configMap "ns" [] sampleShared).1 :=
  (@stale_order_irrelevant sampleEnv sampleBackwards sampleCtx .configMap sampleShared "ns" [] rfl
    (by decide +kernel) (by decide +kernel)).2

end Sidecar
