import Sidecar.Passes
import Sidecar.Reading

/-!
# What a removal leaves alone

A removal takes the files of its own resource and no others (`removal_spares`), so a file stays as
long as its path is none that the event or the pass removes. Nothing protects a path that two
resources share: the first of them to go takes the file with it (`removal_takes_shared_file`).
-/

namespace Sidecar

open Posix StateM

/-! ## Files that stay -/

section Keeps

variable {env : Env} {ctx : Ctx} {kind : Kind} {p : Path}

theorem Job.step_present {j : Job} (hr : j.remove = false) (data : ByteArray)
    (files : Path → Option ByteArray) :
    (Store.step env.sha256 files (j.assign env ctx kind data)).2 (j.place env ctx kind) ≠ none := by
  intro hnone
  have hset : Store.Settled env.sha256
      (Store.step env.sha256 files (j.assign env ctx kind data)).2 (j.assign env ctx kind data) :=
    Store.step_settled _
  rw [Job.assign_of_write hr] at hset hnone
  unfold Store.Settled at hset
  dsimp only at hset
  rw [hnone] at hset
  cases hset

/-- A job that does not remove the file at a path leaves one there, whatever fails. -/
theorem Job.run_keeps {j : Job} (hr : j.remove = true → j.place env ctx kind ≠ p) :
    Moves (KeepsFile p) (j.run env ctx kind) := by
  refine Job.run_moves env ctx kind j (KeepsFile.preorder p)
    (fun _ _ h => (h.touches fun _ => False).keepsFile not_false) fun data s => ?_
  cases hremove : j.remove with
  | true =>
    exact (j.put_touches env ctx kind data s).keepsFile fun e => hr hremove e.symm
  | false =>
    rw [Job.put_of_write env ctx kind j hremove]
    exact writeDataToFile_keepsFile env j.folder (j.filename ctx kind) data j.contentType p
      (j.handed kind data s)

theorem runActions_keeps {as : List Action}
    (hr : ∀ j ∈ jobs as, j.remove = true → j.place env ctx kind ≠ p) :
    Moves (KeepsFile p) (runActions env ctx kind as) :=
  runActions_moves env ctx kind (KeepsFile.preorder p)
    (fun _ _ h => (h.touches fun _ => False).keepsFile not_false) fun j hj =>
    Job.run_keeps (hr j hj)

/-- Actions without a failure leave a file where they write one and do not remove it. -/
theorem runActions_writes {as : List Action} {j : Job} (hj : j ∈ jobs as) (hw : j.remove = false)
    (hr : ∀ x ∈ jobs as, x.remove = true → x.place env ctx kind ≠ j.place env ctx kind) {s : Sys}
    (h : (runActions env ctx kind as s).2.failures = s.failures) :
    (runActions env ctx kind as s).2.tree.fileAt (j.place env ctx kind) ≠ none := by
  refine runActions_clean env ctx kind
    (P := fun js s out => (j ∈ js ∨ s.tree.fileAt (j.place env ctx kind) ≠ none) →
      (∀ x ∈ js, x.remove = true → x.place env ctx kind ≠ j.place env ctx kind) →
        out.2.tree.fileAt (j.place env ctx kind) ≠ none) ?_ ?_ ?_ h (.inl hj) hr
  · rintro s (hj | hpresent) _
    · cases hj
    · exact hpresent
  · intro js s t out hsilent ih
    rwa [hsilent.tree] at ih
  · intro x js s out hfirst _ ih hj hr
    refine ih ?_ fun y hy => hr y (List.mem_cons_of_mem x hy)
    rcases hj with hj | hpresent
    · rcases List.mem_cons.1 hj with rfl | hj
      · obtain ⟨data, -, hdone⟩ := Job.run_ok env ctx kind j (by simp [hw]) hfirst
        rw [hdone.files]
        exact .inr (Job.step_present hw data _)
      · exact .inl hj
    · exact .inr (Job.run_keeps (hr x List.mem_cons_self) s hpresent)

end Keeps

/-! ## Calls about different resources -/

section Calls

variable {env : Env} {ctx : Ctx} {w₀ w : World} {calls : List Call} {p : Path}

/-- The plans of calls about different resources are known from the start. -/
theorem Reaches.jobs_start {c : Call} (h : Reaches env ctx w₀ calls w)
    (hn : ((c :: calls).map Call.key).Nodup) : c.jobs w = c.jobs w₀ := by
  rw [List.map_cons, List.nodup_cons] at hn
  obtain ⟨ho, hd⟩ := h.maps_other (k := c.key) fun c' hc' e => hn.1 (e ▸ List.mem_map_of_mem hc')
  exact Call.jobs_congr ho hd

theorem Reaches.keeps (h : Reaches env ctx w₀ calls w) (hn : (calls.map Call.key).Nodup)
    (hr : ∀ c ∈ calls, ∀ j ∈ c.jobs w₀, j.remove = true → j.place env ctx c.kind ≠ p)
    (hp : w₀.sys.tree.fileAt p ≠ none) : w.sys.tree.fileAt p ≠ none := by
  induction h with
  | start => exact hp
  | @call calls w c hreach _ ih =>
    have hp' := ih (List.nodup_cons.1 hn).2 fun c' hc' => hr c' (List.mem_cons_of_mem c hc')
    have hrem := hr c List.mem_cons_self
    rw [← hreach.jobs_start hn] at hrem
    rw [Call.run_eq]
    exact runActions_keeps hrem _ hp'
  | idle _ hidle ih =>
    rw [hidle.sys.tree]
    exact ih hn hr

/-- A file that some call writes and no call removes is there in the end. -/
theorem Reaches.writes {c : Call} {j : Job} (h : Reaches env ctx w₀ calls w)
    (hn : (calls.map Call.key).Nodup) (hc : c ∈ calls) (hj : j ∈ c.jobs w₀) (hw : j.remove = false)
    (hr : ∀ c' ∈ calls, ∀ x ∈ c'.jobs w₀, x.remove = true →
      x.place env ctx c'.kind ≠ j.place env ctx c.kind)
    (hfail : w.sys.failures = w₀.sys.failures) :
    w.sys.tree.fileAt (j.place env ctx c.kind) ≠ none := by
  induction h with
  | start => cases hc
  | @call calls w c' hreach _ ih =>
    have hle := c'.run_traceLe env ctx w
    obtain ⟨hbefore, hstep⟩ := count_squeeze hreach.traceLe hle hfail
    have hrem := hr c' List.mem_cons_self
    have hjobs := hreach.jobs_start hn
    rw [← hjobs] at hrem
    rw [Call.run_eq] at hstep ⊢
    rcases List.mem_cons.1 hc with rfl | hc
    · rw [← hjobs] at hj
      exact runActions_writes hj hw hrem hstep
    · have hp :=
        ih (List.nodup_cons.1 hn).2 hc (fun x hx => hr x (List.mem_cons_of_mem c' hx)) hbefore
      exact runActions_keeps hrem _ hp
  | idle hreach hidle ih =>
    rw [hidle.sys.tree]
    exact ih hn hc hr (count_squeeze hreach.traceLe hidle.sys.trace hfail).1

end Calls

/-! ## The paths that are removed -/

section Removed

variable (env : Env) (ctx : Ctx) (kind : Kind)

/-- The path of a data key of an item in a folder. -/
def Item.target (item : Item) (folder : String) (e : Entry) : Path :=
  (e.slot kind item.ns item.name folder).place env ctx

theorem Entry.place_job (folder : String) (item : Item) (remove : Bool) (e : Entry) :
    (e.job folder item remove).place env ctx kind = item.target env ctx kind folder e := rfl

/-- The folder the files of a resource are removed from: the recorded one, else its own. -/
def Maps.removalFolder (m : Maps) (item : Item) : String :=
  (m.dest[((kind, item.key) : MapKey)]?).getD (destinationFolder ctx item)

/-- What removing a stale resource removes: the targets of its cached data keys in the recorded
folder. -/
def staleTargets (m : Maps) (k : MapKey) (cached : CachedItem) : List Path :=
  (cached.toRemovalItem.entries kind).map
    (cached.toRemovalItem.target env ctx kind ((m.dest[k]?).getD ""))

/-- What updating a resource removes: the targets of the data keys that it no longer has, or no
longer has in that folder. -/
def leftoverTargets (m : Maps) (item : Item) : List Path :=
  (Old.leftovers ⟨m.oldItem kind item, m.removalFolder ctx kind item⟩ kind item
    (destinationFolder ctx item)).map
    ((m.oldItem kind item).target env ctx kind (m.removalFolder ctx kind item))

/-- The paths a list pass can remove. -/
def removedPaths (ns : String) (items : List Item) (m : Maps) : List Path :=
  (m.object.toList.filter fun kc => isStale kind ns (items.map Item.key) kc.1 kc.2).flatMap
      (fun kc => staleTargets env ctx kind m kc.1 kc.2) ++
    items.flatMap (leftoverTargets env ctx kind m)

variable {env ctx kind} {ns : String} {items : List Item} {w : World} {p : Path}

theorem upsertOf_old (item : Item) (w : World) : (upsertOf ctx kind item).old w =
    ⟨w.maps.oldItem kind item, w.maps.removalFolder ctx kind item⟩ := by
  unfold Call.old
  rw [Maps.enter_old]
  unfold upsertOf Maps.removalFolder
  cases h : w.maps.dest[((kind, item.key) : MapKey)]? <;>
    simp [Call.folder?, Call.kind, Call.item, h]

theorem upsert_leftovers {item : Item} {j : Job} (hj : j ∈ (upsertOf ctx kind item).jobs w)
    (hr : j.remove = true) : j.place env ctx kind ∈ leftoverTargets env ctx kind w.maps item := by
  obtain ⟨e, -, rfl⟩ | ⟨e, he, rfl⟩ := (mem_jobs_update rfl j).1 hj
  · cases hr
  · rw [upsertOf_old] at he ⊢
    exact List.mem_map.2 ⟨e, he, rfl⟩

theorem upsert_removes {item : Item} (hi : item ∈ items) {j : Job}
    (hj : j ∈ (upsertOf ctx kind item).jobs w) (hr : j.remove = true) :
    j.place env ctx kind ∈ removedPaths env ctx kind ns items w.maps :=
  List.mem_append_right _ (List.mem_flatMap.2 ⟨item, hi, upsert_leftovers hj hr⟩)

theorem cleanup_removes {cached : CachedItem}
    (hc : w.maps.object[((kind, cached.toRemovalItem.key) : MapKey)]? = some cached)
    (hstale : isStale kind ns (items.map Item.key) (kind, cached.toRemovalItem.key) cached = true)
    {j : Job} (hj : j ∈ (Call.cleanup kind cached.toRemovalItem).jobs w) :
    j.place env ctx kind ∈ removedPaths env ctx kind ns items w.maps := by
  obtain ⟨e, he, rfl⟩ := (mem_jobs_remove rfl j).1 hj
  have hdest : ((Call.cleanup kind cached.toRemovalItem).old w).dest =
      (w.maps.dest[((kind, cached.toRemovalItem.key) : MapKey)]?).getD "" := by
    unfold Call.old
    rw [Maps.enter_old]
    simp [Call.folder?, Call.kind, Call.item]
  rw [hdest]
  refine List.mem_append_left _ (List.mem_flatMap.2
    ⟨(_, cached), List.mem_filter.2 ⟨?_, hstale⟩, ?_⟩)
  · exact Std.ExtTreeMap.mem_toList_iff_getElem?_eq_some.2 hc
  · exact List.mem_map.2 ⟨e, he, rfl⟩

end Removed

/-! ## A list pass -/

section Pass

variable {env : Env} {ctx : Ctx} {kind : Kind} {ns : String} {items : List Item}
  {ignoreAlreadyProcessed : Bool} {w : World}

variable (env) in
/-- A pass removes nothing but its `removedPaths`. -/
theorem PassCalls.removes {calls : List Call}
    (h : PassCalls ctx kind ns ignoreAlreadyProcessed items w calls) {c : Call} (hc : c ∈ calls) :
    c.kind = kind ∧ ∀ j ∈ c.jobs w, j.remove = true →
      j.place env ctx kind ∈ removedPaths env ctx kind ns items w.maps := by
  obtain ⟨cached, hcached, hs, rfl⟩ | ⟨item, hitem, rfl⟩ := h.cases c hc
  · exact ⟨rfl, fun j hj _ => cleanup_removes hcached hs hj⟩
  · exact ⟨rfl, fun j hj hr => upsert_removes ((due_sublist ..).mem hitem) hj hr⟩

/-- A file that the pass does not remove is still there. -/
theorem applyListing_keeps (hwf : w.maps.WF) (hn : (items.map Item.key).Nodup) {p : Path}
    (hp : p ∉ removedPaths env ctx kind ns items w.maps)
    (hf : w.sys.tree.fileAt p ≠ none) :
    (applyListing env ctx kind ns ignoreAlreadyProcessed items w).2.sys.tree.fileAt p ≠ none := by
  obtain ⟨calls, hreach, hcalls⟩ := applyListing_calls env ctx kind ns ignoreAlreadyProcessed hwf hn
  refine hreach.keeps hcalls.nodup (fun c hc j hj hr e => hp ?_) hf
  obtain ⟨hkind, hrem⟩ := hcalls.removes env hc
  rw [← e, hkind]
  exact hrem j hj hr

/-- The data keys of an item that was not skipped are files, unless the pass removes them again. -/
theorem applyListing_writes (hwf : w.maps.WF) (hn : (items.map Item.key).Nodup) {item : Item}
    (hi : item ∈ items) (hdue : ¬(ignoreAlreadyProcessed = true ∧ Maps.Seen kind item w.maps))
    {e : Entry} (he : e ∈ item.entries kind)
    (hp : item.target env ctx kind (destinationFolder ctx item) e ∉
      removedPaths env ctx kind ns items w.maps)
    (hfail : (applyListing env ctx kind ns ignoreAlreadyProcessed items w).2.sys.failures =
      w.sys.failures) :
    (applyListing env ctx kind ns ignoreAlreadyProcessed items w).2.sys.tree.fileAt
      (item.target env ctx kind (destinationFolder ctx item) e) ≠ none := by
  obtain ⟨calls, hreach, hcalls⟩ := applyListing_calls env ctx kind ns ignoreAlreadyProcessed hwf hn
  have hjob : e.job (destinationFolder ctx item) item false ∈ (upsertOf ctx kind item).jobs w :=
    (mem_jobs_update rfl _).2 (.inl ⟨e, he, rfl⟩)
  have hwrites := hreach.writes hcalls.nodup (hcalls.due item (mem_due hn hi hdue)) hjob rfl
  rw [show (upsertOf ctx kind item).kind = kind from rfl, Entry.place_job] at hwrites
  refine hwrites (fun c hc j hj hr eq => hp ?_) hfail
  obtain ⟨hkind, hrem⟩ := hcalls.removes env hc
  rw [← eq, hkind]
  exact hrem j hj hr

end Pass

/-! ## Removals spare other resources -/

section Removal

variable {env : Env} {ctx : Ctx} {kind : Kind} {requestUrl : Option String}
  {ignoreAlreadyProcessed : Bool} {w : World}

variable (ignoreAlreadyProcessed) in
/-- A `DELETED` event touches the targets of its resource only. -/
theorem applyEvent_delete_files (item : Item) {p : Path}
    (hp : ∀ e ∈ item.entries kind,
      item.target env ctx kind (w.maps.removalFolder ctx kind item) e ≠ p) :
    (applyEvent env ctx kind ignoreAlreadyProcessed .deleted item w).2.sys.tree.fileAt p =
      w.sys.tree.fileAt p := by
  obtain ⟨s, hs, heq⟩ := applyEvent_delete env ctx kind item w ignoreAlreadyProcessed
  have hrun : (applyEvent env ctx kind ignoreAlreadyProcessed .deleted item w).2.sys =
      ((Call.delete kind item (destinationFolder ctx item)).act env ctx
        ⟨s, w.maps.forget kind item ignoreAlreadyProcessed⟩).2 := by
    rw [heq]
    exact congrArg (fun out : Bool × World => out.2.sys)
      (Call.run_eq env ctx (.delete kind item (destinationFolder ctx item)) _)
  rw [hrun, ← hs.tree]
  refine (runActions_touches env ctx kind _ s).files p ?_
  rintro ⟨j, hj, rfl⟩
  obtain ⟨e, he, rfl⟩ := (mem_jobs_remove (c := .delete kind item (destinationFolder ctx item))
    (w := ⟨s, w.maps.forget kind item ignoreAlreadyProcessed⟩) rfl j).1 hj
  have hfolder : ((Call.delete kind item (destinationFolder ctx item)).old
      ⟨s, w.maps.forget kind item ignoreAlreadyProcessed⟩).dest =
      w.maps.removalFolder ctx kind item := by
    unfold Call.old
    rw [Maps.enter_old]
    unfold Maps.removalFolder
    simp only [Call.kind, Call.item, Call.folder?, Maps.forget_dest]
    cases w.maps.dest[((kind, item.key) : MapKey)]? <;> rfl
  rw [hfolder] at hp
  exact hp e he (Entry.place_job ..).symm

/-- **What a removal leaves alone.** A `DELETED` event changes no file but the targets of the data
keys it carries. A list pass over resources with distinct keys leaves a file wherever there was one
and wherever a data key of a processed item belongs, but for its `removedPaths`. -/
theorem removal_spares (hreach : w.maps.Reachable) :
    (∀ item p, (∀ e ∈ item.entries kind,
        item.target env ctx kind (w.maps.removalFolder ctx kind item) e ≠ p) →
      (handleEvent env ctx kind requestUrl ignoreAlreadyProcessed .deleted item
        w).2.sys.tree.fileAt p =
        w.sys.tree.fileAt p) ∧
    ∀ ns replies items, (startPass env ctx kind ns replies w).1 = some (.ok items) →
      (items.map Item.key).Nodup →
      (listResources env ctx kind ns requestUrl ignoreAlreadyProcessed replies w).2.sys.failures =
        w.sys.failures →
      (∀ p, p ∉ removedPaths env ctx kind ns items w.maps → w.sys.tree.fileAt p ≠ none →
        (listResources env ctx kind ns requestUrl ignoreAlreadyProcessed replies
          w).2.sys.tree.fileAt p ≠
          none) ∧
      ∀ item ∈ items, ¬(ignoreAlreadyProcessed = true ∧ Maps.Seen kind item w.maps) →
        ∀ e ∈ item.entries kind, item.target env ctx kind (destinationFolder ctx item) e ∉
            removedPaths env ctx kind ns items w.maps →
          (listResources env ctx kind ns requestUrl ignoreAlreadyProcessed replies
            w).2.sys.tree.fileAt
            (item.target env ctx kind (destinationFolder ctx item) e) ≠ none := by
  constructor
  · intro item p hp
    rw [← applyEvent_delete_files ignoreAlreadyProcessed item hp]
    exact congrArg (FileTree.fileAt · p) (notify_silent env ctx requestUrl _ _).tree
  · intro ns replies items hitems hn hfail
    have hstart := (startPass_calm env ctx kind ns replies w).silent
    rw [listResources_eq _ _ _ _ _ _ _ _ hitems] at hfail ⊢
    dsimp only at hfail ⊢
    have hnotify := notify_silent env ctx requestUrl (applyListing env ctx kind ns
      ignoreAlreadyProcessed items (passStart env ctx kind ns replies w)).1
      (applyListing env ctx kind ns
      ignoreAlreadyProcessed items (passStart env ctx kind ns replies w)).2.sys
    have happlied := applyListing_le env ctx kind ns ignoreAlreadyProcessed items
      (passStart env ctx kind ns replies w)
    have hfail' := (count_squeeze hstart.trace happlied
      (count_squeeze (hstart.trace.trans happlied) hnotify.trace hfail).1).2
    have hwf : (passStart env ctx kind ns replies w).maps.WF := hreach.wf
    rw [hnotify.tree]
    constructor
    · intro p hp hf
      refine applyListing_keeps hwf hn hp ?_
      rwa [show (passStart env ctx kind ns replies w).sys.tree = w.sys.tree from hstart.tree]
    · intro item hi hdue e he hp
      exact applyListing_writes hwf hn hi hdue he hp hfail'

def sampleTwo : World :=
  sampleAdded [sampleItem "ns" "a" "1" [("j", "v")], sampleItem "ns" "b" "1" [("k", "v")]]

/-- `b` has no key of `a`, which is deleted, or stale in a listing of `b`. -/
theorem removal_spares_sample :
    (handleEvent sampleEnv sampleCtx .configMap none false .deleted
      (sampleItem "ns" "a" "1" [("j", "v")])
        sampleTwo).2.sys.tree.fileAt ["k", "data"] = sampleTwo.sys.tree.fileAt ["k", "data"] ∧
      ∀ e ∈ (sampleItem "ns" "b" "1" [("k", "v")]).entries .configMap,
        (listResources sampleEnv sampleCtx .configMap "ns" none false
          (sampleReplies [sampleConfigMap "ns" "b" "1" [("k", "v")]]) sampleTwo).2.sys.tree.fileAt
          ((sampleItem "ns" "b" "1" [("k", "v")]).target sampleEnv sampleCtx .configMap
            (destinationFolder sampleCtx (sampleItem "ns" "b" "1" [("k", "v")])) e) ≠ none := by
  obtain ⟨hevent, hpass⟩ := @removal_spares sampleEnv sampleCtx .configMap none false sampleTwo
    (sampleAdded_reachable _)
  refine ⟨hevent _ _ (by decide +kernel), fun e he => ?_⟩
  have hlost : ∀ e ∈ (sampleItem "ns" "b" "1" [("k", "v")]).entries .configMap,
      (sampleItem "ns" "b" "1" [("k", "v")]).target sampleEnv sampleCtx .configMap
        (destinationFolder sampleCtx (sampleItem "ns" "b" "1" [("k", "v")])) e ∉
        removedPaths sampleEnv sampleCtx .configMap "ns" [sampleItem "ns" "b" "1" [("k", "v")]]
          sampleTwo.maps := by
    decide +kernel
  exact (hpass "ns" (sampleReplies [sampleConfigMap "ns" "b" "1" [("k", "v")]])
    [sampleItem "ns" "b" "1" [("k", "v")]] rfl (by decide +kernel) (by decide +kernel)).2 _
    List.mem_cons_self (by decide) e he (hlost e he)

/-- Nothing keeps a `DELETED` event from the files of other tracked resources. -/
def EventSparesTracked (env : Env) (ctx : Ctx) (kind : Kind) : Prop :=
  ∀ requestUrl ignoreAlreadyProcessed (w : World) (item other : Item) folder,
    ∀ e ∈ other.entries kind,
    w.maps.Reachable → w.maps.object[((kind, other.key) : MapKey)]? = some (.fromItem other) →
    other.key ≠ item.key → w.maps.dest[((kind, other.key) : MapKey)]? = some folder →
    w.sys.tree.fileAt (other.target env ctx kind folder e) ≠ none →
    (handleEvent env ctx kind requestUrl ignoreAlreadyProcessed .deleted item w).2.sys.failures =
      w.sys.failures →
    (handleEvent env ctx kind requestUrl ignoreAlreadyProcessed .deleted item w).2.sys.tree.fileAt
      (other.target env ctx kind folder e) ≠ none

/-- After a list pass every data key of every listed item is a file. -/
def PassProvides (env : Env) (ctx : Ctx) (kind : Kind) : Prop :=
  ∀ requestUrl ignoreAlreadyProcessed (w : World) ns replies items, w.maps.Reachable →
    (startPass env ctx kind ns replies w).1 = some (.ok items) →
    (listResources env ctx kind ns requestUrl ignoreAlreadyProcessed replies w).2.sys.failures =
      w.sys.failures →
    ∀ item ∈ items, ∀ e ∈ item.entries kind,
      (listResources env ctx kind ns requestUrl ignoreAlreadyProcessed replies w).2.sys.tree.fileAt
        (item.target env ctx kind (destinationFolder ctx item) e) ≠ none

/-- Two ConfigMaps with the key `k`: deleting one takes the file of the other. A ConfigMap that is
renamed loses its file: the pass writes it for the new name and removes it for the old one. -/
theorem removal_takes_shared_file :
    ¬EventSparesTracked sampleEnv sampleCtx .configMap ∧
      ¬PassProvides sampleEnv sampleCtx .configMap := by
  constructor
  · intro h
    refine h none false
      (sampleAdded [sampleItem "ns" "a" "1" [("k", "v")], sampleItem "ns" "b" "1" [("k", "v")]])
      (sampleItem "ns" "a" "1" [("k", "v")]) (sampleItem "ns" "b" "1" [("k", "v")]) "/data"
      _ (mem_sample_entries "ns" "b" "1") (sampleAdded_reachable _) rfl ?_ ?_ ?_ ?_ ?_
    all_goals decide +kernel
  · intro h
    refine h none false (sampleAdded [sampleItem "ns" "a" "1" [("k", "v")]]) "ns"
      (sampleReplies [sampleConfigMap "ns" "b" "1" [("k", "v")]])
      [sampleItem "ns" "b" "1" [("k", "v")]] (sampleAdded_reachable _) rfl ?_
      (sampleItem "ns" "b" "1" [("k", "v")]) List.mem_cons_self
      _ (mem_sample_entries "ns" "b" "1") ?_
    · decide +kernel
    · decide +kernel

end Removal

end Sidecar
