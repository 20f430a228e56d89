import Sidecar.Endings
import Sidecar.Polling
import Sidecar.Readded

/-!
# The initial sync

A process starts with empty maps, on whatever files an earlier one has left. As long as its listings
are about different resources the passes only write: afterwards each listed data key has its bytes
and no other file has changed (`startup_files`). A second life over files that are in place
therefore changes nothing and announces nothing (`restart_quiet`). What it does not do is clean up:
no file goes during the initial sync, whatever fails (`startup_deletes_nothing`), so the file of a
resource that went while no process was running stays.
-/

namespace Sidecar

open Posix StateM

/-! ## Writing files -/

section OnlyWrites

variable {env : Env} {ctx : Ctx} {s₀ s : Sys} {js : List (Kind × Job)} {changed : Bool}

/-- The file of a data key of a resource of some kind. -/
def placeOf (env : Env) (ctx : Ctx) (j : Kind × Job) : Path := j.2.place env ctx j.1

/-- What writing leads to, in between anything that leaves the files alone: the data keys written so
far, and whether a file has changed. -/
inductive OnlyWrites (env : Env) (ctx : Ctx) (s₀ : Sys) : List (Kind × Job) → Bool → Sys → Prop
  | start : OnlyWrites env ctx s₀ [] false s₀
  | idle {js : List (Kind × Job)} {changed : Bool} {s s' : Sys} :
      OnlyWrites env ctx s₀ js changed s → Silent s s' →
    OnlyWrites env ctx s₀ js changed s'
  | item {js : List (Kind × Job)} {changed : Bool} {s : Sys} (kind : Kind) (as : List Action) :
    OnlyWrites env ctx s₀ js changed s → (∀ j ∈ jobs as, j.remove = false) →
    OnlyWrites env ctx s₀ (js ++ (jobs as).map (kind, ·))
      (changed || (runActions env ctx kind as s).1)
      (runActions env ctx kind as s).2

theorem OnlyWrites.touches (h : OnlyWrites env ctx s₀ js changed s) :
    Touches (fun p => ∃ j ∈ js, placeOf env ctx j = p) s₀ s := by
  have hp : ∀ js : List (Kind × Job), Preorder (Touches fun p => ∃ j ∈ js, placeOf env ctx j = p) :=
    fun js => Touches.preorder _
  induction h with
  | start => exact (hp []).refl _
  | idle _ hs ih => exact (hp _).trans ih (hs.touches _)
  | item kind as _ _ ih =>
    refine (hp _).trans (ih.mono ?_) ((runActions_touches env ctx kind as _).mono ?_)
    · rintro p ⟨j, hj, rfl⟩
      exact ⟨j, List.mem_append_left _ hj, rfl⟩
    · rintro p ⟨j, hj, rfl⟩
      exact ⟨(kind, j), List.mem_append_right _ (List.mem_map_of_mem hj), rfl⟩

/-- Writing deletes nothing, whatever fails. -/
theorem OnlyWrites.keepsFile (h : OnlyWrites env ctx s₀ js changed s) (p : Path) :
    KeepsFile p s₀ s := by
  induction h with
  | start => exact (KeepsFile.preorder p).refl _
  | idle _ hs ih =>
    exact (KeepsFile.preorder p).trans ih ((hs.touches fun _ => False).keepsFile not_false)
  | item kind as _ hwrite ih =>
    refine (KeepsFile.preorder p).trans ih (runActions_keepsFile (fun j hj hremove => ?_) _)
    rw [hwrite j hj] at hremove
    cases hremove

variable {body : String → ByteArray} (hbody : Fetches env ctx body)
include hbody

/-- What was written to different places is in place. -/
theorem OnlyWrites.settled (h : OnlyWrites env ctx s₀ js changed s)
    (hn : (js.map (placeOf env ctx)).Nodup)
    (hio : s.ioErrors = s₀.ioErrors) : ∀ j ∈ js, j.2.Quiet env ctx j.1 body s.tree.fileAt := by
  induction h with
  | start => exact fun _ hj => by cases hj
  | idle hbefore hs ih =>
    have hio' := (count_squeeze hbefore.touches.trace hs.trace hio).1
    rw [hs.tree]
    exact ih hn hio'
  | @item js changed s kind as hbefore hwrite ih =>
    rw [List.map_append, List.nodup_append] at hn
    obtain ⟨hfirst, hact⟩ :=
      count_squeeze hbefore.touches.trace (runActions_touches env ctx kind as s).trace hio
    intro j hj
    rcases List.mem_append.1 hj with hj | hj
    · -- written before, and not touched since
      refine (ih hn.1 hfirst j hj).congr ((runActions_touches env ctx kind as s).files _ ?_)
      rintro ⟨j', hj', hplace⟩
      exact hn.2.2 _ (List.mem_map_of_mem hj)
        _ (List.mem_map_of_mem (List.mem_map_of_mem hj')) hplace.symm
    · obtain ⟨j', hj', rfl⟩ := List.mem_map.1 hj
      have hplaces := hn.2.1
      rw [List.map_map] at hplaces
      exact runActions_settle hbody hwrite hplaces hact j' hj'

/-- Writing what is in place changes nothing. -/
theorem OnlyWrites.quiet (h : OnlyWrites env ctx s₀ js changed s)
    (hq : ∀ j ∈ js, j.2.Quiet env ctx j.1 body s₀.tree.fileAt) (hio : s.ioErrors = s₀.ioErrors) :
    changed = false ∧ s.tree.fileAt = s₀.tree.fileAt := by
  induction h with
  | start => exact ⟨rfl, rfl⟩
  | idle hbefore hs ih =>
    rw [hs.tree]
    exact ih hq (count_squeeze hbefore.touches.trace hs.trace hio).1
  | @item js changed s kind as hbefore hwrite ih =>
    obtain ⟨hfirst, hact⟩ :=
      count_squeeze hbefore.touches.trace (runActions_touches env ctx kind as s).trace hio
    obtain ⟨hchanged, hfiles⟩ := ih (fun j hj => hq j (List.mem_append_left _ hj)) hfirst
    obtain ⟨hchanged', hfiles'⟩ := runActions_quiet hbody (fun j hj => by
      rw [hfiles]
      exact hq (kind, j) (List.mem_append_right _ (List.mem_map_of_mem hj))) hact
    exact ⟨Bool.or_eq_false_iff.2 ⟨hchanged, hchanged'⟩, hfiles'.trans hfiles⟩

end OnlyWrites

/-! ## Listings of resources the maps do not know -/

/-- The maps know nothing of the resource. -/
structure Maps.Unknown (m : Maps) (k : MapKey) : Prop where
  object : m.object[k]? = none
  dest : m.dest[k]? = none
  version : m.version[k]? = none

/-- The maps after the items have been entered: the others are as before. -/
structure Entered (kind : Kind) (items : List Item) (m m' : Maps) : Prop where
  object : ∀ item ∈ items, m'.object[((kind, item.key) : MapKey)]? = some (.fromItem item)
  other : ∀ k : MapKey, (∀ item ∈ items, (kind, item.key) ≠ k) →
    m'.object[k]? = m.object[k]? ∧ m'.dest[k]? = m.dest[k]? ∧ m'.version[k]? = m.version[k]?

section Listed

variable {env : Env} {ctx : Ctx} {kind : Kind} {s₀ : Sys} {js : List (Kind × Job)} {changed : Bool}

theorem Maps.Unknown.congr {m m' : Maps} {k : MapKey} (h : m.Unknown k)
    (hk : m'.object[k]? = m.object[k]? ∧ m'.dest[k]? = m.dest[k]? ∧
      m'.version[k]? = m.version[k]?) : m'.Unknown k :=
  ⟨hk.1.trans h.object, hk.2.1.trans h.dest, hk.2.2.trans h.version⟩

/-- The maps after one listed item. -/
def Maps.afterItem (m : Maps) (ctx : Ctx) (kind : Kind) (ignoreAlreadyProcessed : Bool)
    (item : Item) : Maps :=
  ((m.record kind item ignoreAlreadyProcessed).enter kind item
    (some (destinationFolder ctx item)) false).2

variable (ctx kind) in
theorem Maps.afterItem_object (m : Maps) (ignoreAlreadyProcessed : Bool) (item : Item) :
    (m.afterItem ctx kind ignoreAlreadyProcessed item).object[((kind, item.key) : MapKey)]? =
      some (.fromItem item) := by
  unfold afterItem
  rw [Maps.enter_object, if_pos rfl, if_neg Bool.false_ne_true]

variable (ctx kind) in
theorem Maps.afterItem_other (m : Maps) (ignoreAlreadyProcessed : Bool) (item : Item) {k : MapKey}
    (hk : (kind, item.key) ≠ k) :
    (m.afterItem ctx kind ignoreAlreadyProcessed item).object[k]? = m.object[k]? ∧
      (m.afterItem ctx kind ignoreAlreadyProcessed item).dest[k]? = m.dest[k]? ∧
      (m.afterItem ctx kind ignoreAlreadyProcessed item).version[k]? = m.version[k]? := by
  unfold afterItem
  rw [Maps.enter_object, Maps.enter_dest, Maps.enter_version, if_neg hk, if_neg fun h => hk h.2,
    Maps.record_object, Maps.record_dest]
  refine ⟨rfl, rfl, ?_⟩
  unfold Maps.record
  split
  · rw [HashMap.getElem?_insert, if_neg hk]
  · rfl

/-- From its own data keys, in its own folder, an item is written and nothing of it is removed. -/
theorem jobs_plan_own (item : Item) : (jobs (plan kind item
    ⟨(CachedItem.fromItem item).toRemovalItem, destinationFolder ctx item⟩
      (destinationFolder ctx item) false)).Perm
    (itemJobs ctx kind item) := by
  refine (jobs_plan_perm kind item _ _).trans ?_
  have hleft : Old.leftovers ⟨(CachedItem.fromItem item).toRemovalItem, destinationFolder ctx item⟩
      kind item (destinationFolder ctx item) = [] := by
    refine List.filter_eq_nil_iff.2 fun e he => ?_
    have hid := List.mem_map_of_mem (f := Entry.id) he
    rw [ids_toRemovalItem] at hid
    simp [isLeftover, hid]
  rw [hleft, List.map_nil, List.append_nil]
  exact .refl _

variable (env ctx) in
/-- An item the maps do not know is written, and nothing is removed for it. -/
theorem listItem_unknown (ignoreAlreadyProcessed : Bool) {item : Item} {w : World}
    (h : w.maps.Unknown (kind, item.key)) :
    ∃ as s, Silent w.sys s ∧ (jobs as).Perm (itemJobs ctx kind item) ∧
      listItem env ctx kind ignoreAlreadyProcessed item w = ((runActions env ctx kind as s).1,
        ⟨(runActions env ctx kind as s).2,
          w.maps.afterItem ctx kind ignoreAlreadyProcessed item⟩) := by
  have hdue : ¬(ignoreAlreadyProcessed = true ∧ Maps.Seen kind item w.maps) := by
    rintro ⟨-, hseen⟩
    unfold Maps.Seen at hseen
    rw [h.version] at hseen
    cases hseen
  obtain ⟨s, hs, heq⟩ := listItem_run env ctx kind item w hdue
  have hold : ((w.maps.record kind item ignoreAlreadyProcessed).enter kind item
      (some (destinationFolder ctx item)) false).1 =
      ⟨(CachedItem.fromItem item).toRemovalItem, destinationFolder ctx item⟩ := by
    rw [Maps.enter_old, Maps.record_dest, h.dest]
    unfold Maps.oldItem
    rw [Maps.record_object, h.object]
    rfl
  refine ⟨_, s, hs, jobs_plan_own item, ?_⟩
  rw [heq, processResource_eq]
  dsimp only
  rw [hold]
  rfl

/-- What the items of a listing write. -/
def listedJobs (ctx : Ctx) (kind : Kind) (items : List Item) : List (Kind × Job) :=
  items.flatMap fun item => (itemJobs ctx kind item).map (kind, ·)

variable (env) in
theorem listItems_unknown (ignoreAlreadyProcessed : Bool) {items : List Item}
    (hn : (items.map Item.key).Nodup)
    {w : World} (hk : ∀ item ∈ items, w.maps.Unknown (kind, item.key))
    (h : OnlyWrites env ctx s₀ js changed w.sys) :
    let out := listItems env ctx kind ignoreAlreadyProcessed items w
    ∃ js', js'.Perm (listedJobs ctx kind items) ∧
      OnlyWrites env ctx s₀ (js ++ js') (changed || out.1) out.2.sys ∧
      Entered kind items w.maps out.2.maps := by
  induction items generalizing w js changed with
  | nil =>
    refine ⟨[], .refl _, ?_, ⟨fun _ hi => absurd hi List.not_mem_nil, fun _ _ => ⟨rfl, rfl, rfl⟩⟩⟩
    rw [List.append_nil]
    exact (Bool.or_false changed).symm ▸ h
  | cons item items ih =>
    rw [List.map_cons, List.nodup_cons] at hn
    obtain ⟨as, s, hs, hperm, heq⟩ := listItem_unknown env ctx ignoreAlreadyProcessed
      (hk item List.mem_cons_self)
    rw [listItems_cons, heq]
    have hwrite : ∀ j ∈ jobs as, j.remove = false := fun j hj => itemJobs_write (hperm.mem_iff.1 hj)
    have hne : ∀ i ∈ items, ((kind, item.key) : MapKey) ≠ (kind, i.key) := fun i hi e =>
      hn.1 ((Prod.mk.inj e).2 ▸ List.mem_map_of_mem hi)
    have hother :=
      fun (k : MapKey) => Maps.afterItem_other ctx kind (k := k) w.maps ignoreAlreadyProcessed item
    obtain ⟨js', hperm', hwrites, hobject, hrest⟩ := ih hn.2
      (w := ⟨(runActions env ctx kind as s).2,
        w.maps.afterItem ctx kind ignoreAlreadyProcessed item⟩)
      (fun i hi => (hk i (List.mem_cons_of_mem item hi)).congr (hother _ (hne i hi)))
      ((h.idle hs).item kind as hwrite)
    refine ⟨(jobs as).map (kind, ·) ++ js', (hperm.map _).append hperm', ?_, ?_, ?_⟩
    · rw [← List.append_assoc]
      exact Bool.or_assoc changed _ _ ▸ hwrites
    · intro i hi
      rcases List.mem_cons.1 hi with rfl | hi
      · refine (hrest _ fun i' hi' => (hne i' hi').symm).1.trans ?_
        exact Maps.afterItem_object ..
      · exact hobject i hi
    · intro k hk'
      obtain ⟨ho, hd, hv⟩ := hrest k fun i hi => hk' i (List.mem_cons_of_mem item hi)
      obtain ⟨ho', hd', hv'⟩ := hother k (hk' item List.mem_cons_self)
      exact ⟨ho.trans ho', hd.trans hd', hv.trans hv'⟩

variable (env) in
/-- A pass over items that the maps do not know, and with nothing stale in its scope, only
writes. -/
theorem applyListing_unknown (ns : String) (ignoreAlreadyProcessed : Bool) {items : List Item}
    (hn : (items.map Item.key).Nodup) {w : World}
    (hk : ∀ item ∈ items, w.maps.Unknown (kind, item.key))
    (hstale : ∀ (k : MapKey) (c : CachedItem), w.maps.object[k]? = some c →
      isStale kind ns [] k c = false)
    (h : OnlyWrites env ctx s₀ js changed w.sys) :
    let out := applyListing env ctx kind ns ignoreAlreadyProcessed items w
    ∃ js', js'.Perm (listedJobs ctx kind items) ∧
      OnlyWrites env ctx s₀ (js ++ js') (changed || out.1) out.2.sys ∧
      Entered kind items w.maps out.2.maps := by
  obtain ⟨js', hperm, hwrites, hentered⟩ := listItems_unknown env ignoreAlreadyProcessed hn hk h
  have hnone : (staleItems env kind ns (items.map Item.key)
      (listItems env ctx kind ignoreAlreadyProcessed items w).2).1 = [] := by
    refine List.eq_nil_iff_forall_not_mem.2 fun i hi => ?_
    obtain ⟨k, c, hc, -, hs, -⟩ := exists_of_mem_staleItems hi
    by_cases hlisted : ∃ item ∈ items, ((kind, item.key) : MapKey) = k
    · obtain ⟨item, hitem, rfl⟩ := hlisted
      have hmem : item.key ∈ items.map Item.key := List.mem_map_of_mem hitem
      simp [isStale, hmem] at hs
    · rw [(hentered.other k fun item hitem e => hlisted ⟨item, hitem, e⟩).1] at hc
      have hout := hstale k c hc
      unfold isStale at hs hout
      rw [Bool.and_eq_true] at hs
      simp [hs.1] at hout
  obtain ⟨hsilent, hmaps⟩ := staleItems_silent env kind ns (items.map Item.key)
    (listItems env ctx kind ignoreAlreadyProcessed items w).2
  rw [applyListing_eq]
  dsimp only
  rw [hnone]
  refine ⟨js', hperm, ?_, ?_⟩
  · exact (Bool.or_false (listItems env ctx kind ignoreAlreadyProcessed items w).1).symm ▸
      hwrites.idle hsilent
  · exact hmaps ▸ hentered

end Listed

/-! ## The passes of the initial sync -/

/-- A listing as an initial pass reads it. -/
structure Listing where
  kind : Kind
  ns : String
  items : List Item

namespace Listing

def target (l : Listing) : Kind × String := (l.kind, l.ns)

def keys (l : Listing) : List MapKey := l.items.map fun item => (l.kind, item.key)

/-- What the listing wants in the files. -/
def jobs (ctx : Ctx) (l : Listing) : List (Kind × Job) := listedJobs ctx l.kind l.items

end Listing

/-- Successful initial passes with the listings they read, and whether each found a file to change;
time may pass between them. -/
inductive Startup (env : Env) (settings : Settings) (w₀ : World) : List Listing →
    List Bool → World → Prop
  | start : Startup env settings w₀ [] [] w₀
  | wait {ls : List Listing} {changes : List Bool} {w : World} (ms : Nat) :
    Startup env settings w₀ ls changes w → Startup env settings w₀ ls changes (w.later ms)
  | pass {ls : List Listing} {changes : List Bool} {w : World} (l : Listing)
      {replies : ListReplies l.kind} :
    Startup env settings w₀ ls changes w →
    (startPass env settings.ctx l.kind l.ns replies w).1 = some (.ok l.items) →
    (listResources env settings.ctx l.kind l.ns settings.initRequestUrl settings.initIgnore
      replies w).1 =
      some (.ok ()) →
    Startup env settings w₀ (ls ++ [l])
      (changes ++ [(applyListing env settings.ctx l.kind l.ns settings.initIgnore l.items
        (passStart env settings.ctx l.kind l.ns replies w)).1])
      (listResources env settings.ctx l.kind l.ns settings.initRequestUrl
        settings.initIgnore replies w).2

/-- An initial sync has read a listing in each of its passes. -/
theorem InitialSync.startup {env : Env} {settings : Settings} {w₀ w : World}
    {done : List (Kind × String)} (h : InitialSync env settings w₀ done w) :
    ∃ ls changes, ls.map Listing.target = done ∧ Startup env settings w₀ ls changes w := by
  induction h with
  | start => exact ⟨[], [], rfl, .start⟩
  | wait ms _ ih =>
    obtain ⟨ls, changes, hdone, hstartup⟩ := ih
    exact ⟨ls, changes, hdone, hstartup.wait ms⟩
  | @pass done w kind ns replies _ hok _ ih =>
    obtain ⟨ls, changes, rfl, hstartup⟩ := ih
    obtain ⟨items, hitems⟩ : ∃ items, (startPass env settings.ctx kind ns replies w).1 =
        some (.ok items) := by
      have hfinish := hok
      rw [listResources_eq_finish] at hfinish
      cases hread : (startPass env settings.ctx kind ns replies w).1 with
      | none =>
        rw [hread] at hfinish
        cases hfinish
      | some read =>
        cases read with
        | error e =>
          rw [hread] at hfinish
          cases hfinish
        | ok items => exact ⟨items, rfl⟩
    exact ⟨ls ++ [⟨kind, ns, items⟩], _, List.map_append,
      hstartup.pass ⟨kind, ns, items⟩ hitems hok⟩

/-- The listings are about different resources: none is listed twice under one key, a namespace
lists its own resources, and no two passes for one kind have the same scope. -/
structure ListedOnce (ls : List Listing) : Prop where
  keys : (ls.flatMap Listing.keys).Nodup
  inScope : ∀ l ∈ ls, l.ns ≠ "ALL" → ∀ item ∈ l.items, item.ns = l.ns
  scopes : ls.Pairwise fun l l' => l.kind = l'.kind → l.ns ≠ "ALL" ∧ l'.ns ≠ "ALL" ∧ l.ns ≠ l'.ns

/-- A sync so far has only written, and the maps hold what was listed. -/
structure Begun (env : Env) (ctx : Ctx) (s₀ : Sys) (ls : List Listing) (changes : List Bool)
    (w : World) : Prop where
  writes : ∃ js, js.Perm (ls.flatMap (Listing.jobs ctx)) ∧
    OnlyWrites env ctx s₀ js (changes.any id) w.sys
  object : ∀ l ∈ ls, ∀ item ∈ l.items, w.maps.object[((l.kind, item.key) : MapKey)]? =
    some (.fromItem item)
  unknown : ∀ k, k ∉ ls.flatMap Listing.keys → w.maps.Unknown k

/-! ## On the small environment -/

/-- A listing with one ConfigMap. -/
def sampleListing (ns name key : String) : Listing :=
  ⟨.configMap, ns, [sampleItem ns name "1" [(key, "v")]]⟩

def sampleListings : List Listing := [sampleListing "ns" "a" "k", sampleListing "other" "b" "l"]

def sampleSettings : Settings :=
  ⟨⟨none, none⟩, sampleCtx, [.configMap], ["ns", "other"], none, false, false⟩

/-- The pass that reads the listing. -/
def sampleRead (ns name key : String) (w : World) : Option (Except WErr Unit) × World :=
  listResources sampleEnv sampleCtx .configMap ns none true
    (sampleReplies [sampleConfigMap ns name "1" [(key, "v")]]) w

def sampleSynced : World := (sampleRead "other" "b" "l" (sampleRead "ns" "a" "k" sampleWorld).2).2

/-- The process is started again. -/
def sampleRestarted : World := ⟨sampleSynced.sys, .empty⟩

theorem Startup.sample {w₀ : World} {ls : List Listing} {changes : List Bool} (w : World)
    (h : Startup sampleEnv sampleSettings w₀ ls changes w) (ns name key : String)
    (hread : (startPass sampleEnv sampleCtx .configMap ns
      (sampleReplies [sampleConfigMap ns name "1" [(key, "v")]]) w).1 =
        some (.ok [sampleItem ns name "1" [(key, "v")]]))
    (hok : (sampleRead ns name key w).1 = some (.ok ())) :
    ∃ changes', Startup sampleEnv sampleSettings w₀ (ls ++ [sampleListing ns name key]) changes'
      (sampleRead ns name key w).2 :=
  ⟨_, h.pass (sampleListing ns name key) hread hok⟩

theorem sample_startup : ∃ changes,
    Startup sampleEnv sampleSettings sampleWorld sampleListings changes sampleSynced := by
  obtain ⟨changes, hfirst⟩ := Startup.sample sampleWorld .start "ns" "a" "k" rfl (by decide +kernel)
  exact hfirst.sample _ "other" "b" "l" rfl (by decide +kernel)

theorem sample_listedOnce : ListedOnce sampleListings := by
  refine ⟨by decide +kernel, fun l hl _ item hitem => ?_, by simp [sampleListings, sampleListing]⟩
  obtain rfl | hl := List.mem_cons.1 hl
  · obtain rfl := List.mem_singleton.1 hitem
    rfl
  · obtain rfl := List.mem_singleton.1 hl
    obtain rfl := List.mem_singleton.1 hitem
    rfl

section Startup

variable {env : Env} {settings : Settings} {w₀ w : World} {ls : List Listing} {changes : List Bool}

theorem ListedOnce.init {l : Listing} (h : ListedOnce (ls ++ [l])) : ListedOnce ls := by
  have hkeys := h.keys
  rw [List.flatMap_append, List.nodup_append] at hkeys
  exact ⟨hkeys.1, fun l' hl' => h.inScope l' (List.mem_append_left _ hl'),
    (List.pairwise_append.1 h.scopes).1⟩

/-- What earlier passes have put in the maps is not stale for a later one. -/
theorem Begun.not_stale {l : Listing} (h : Begun env settings.ctx w₀.sys ls changes w)
    (hsep : ListedOnce (ls ++ [l]))
    {k : MapKey} {c : CachedItem} (hc : w.maps.object[k]? = some c) :
    isStale l.kind l.ns [] k c = false := by
  have hk : k ∈ ls.flatMap Listing.keys := by
    by_contra hk
    rw [(h.unknown k hk).object] at hc
    cases hc
  obtain ⟨l', hl', hk⟩ := List.mem_flatMap.1 hk
  obtain ⟨item, hitem, rfl⟩ := List.mem_map.1 hk
  rw [h.object l' hl' item hitem] at hc
  cases hc
  by_contra hstale
  unfold isStale at hstale
  simp only [Bool.not_eq_false, Bool.and_eq_true, Bool.or_eq_true, beq_iff_eq] at hstale
  obtain ⟨⟨hkind, hns⟩, -⟩ := hstale
  obtain ⟨hall, hall', hne⟩ :=
    (List.pairwise_append.1 hsep.scopes).2.2 l' hl' l List.mem_cons_self hkind
  have hitemNs := hsep.inScope l' (List.mem_append_left _ hl') hall item hitem
  rcases hns with hns | hns
  · exact hall' hns
  · exact hne (hitemNs.symm.trans hns)

theorem Begun.pass {l : Listing} {replies : ListReplies l.kind}
    (h : Begun env settings.ctx w₀.sys ls changes w) (hsep : ListedOnce (ls ++ [l]))
    (hread : (startPass env settings.ctx l.kind l.ns replies w).1 = some (.ok l.items)) :
    Begun env settings.ctx w₀.sys (ls ++ [l])
      (changes ++ [(applyListing env settings.ctx l.kind l.ns settings.initIgnore l.items
        (passStart env settings.ctx l.kind l.ns replies w)).1])
      (listResources env settings.ctx l.kind l.ns settings.initRequestUrl settings.initIgnore
        replies w).2 := by
  have hkeys := hsep.keys
  rw [List.flatMap_append, List.flatMap_singleton, List.nodup_append] at hkeys
  have hfresh : ∀ item ∈ l.items, ((l.kind, item.key) : MapKey) ∉ ls.flatMap Listing.keys :=
    fun item hitem hold =>
    hkeys.2.2 _ hold _ (List.mem_map_of_mem hitem) rfl
  have hn : (l.items.map Item.key).Nodup := by
    refine List.Nodup.of_map (fun key : String => ((l.kind, key) : MapKey)) ?_
    rw [List.map_map]
    exact hkeys.2.1
  obtain ⟨js, hperm, hwrites⟩ := h.writes
  obtain ⟨js', hperm', hwrites', hentered⟩ := applyListing_unknown env l.ns settings.initIgnore hn
    (w := passStart env settings.ctx l.kind l.ns replies w)
    (fun item hitem => h.unknown _ (hfresh item hitem)) (fun _ _ hc => h.not_stale hsep hc)
    (hwrites.idle (startPass_calm env settings.ctx l.kind l.ns replies w).silent)
  rw [listResources_eq _ _ _ _ _ _ _ _ hread]
  refine ⟨⟨js ++ js', ?_, ?_⟩, ?_, ?_⟩
  · rw [List.flatMap_append, List.flatMap_singleton]
    exact hperm.append hperm'
  · rw [List.any_append, List.any_cons, List.any_nil, Bool.or_false]
    exact hwrites'.idle (notify_silent env settings.ctx settings.initRequestUrl _ _)
  · intro l' hl' item hitem
    rcases List.mem_append.1 hl' with hl' | hl'
    · refine (hentered.other _ fun i hi e => hfresh i hi ?_).1.trans (h.object l' hl' item hitem)
      rw [e]
      exact List.mem_flatMap.2 ⟨l', hl', List.mem_map_of_mem hitem⟩
    · obtain rfl := List.mem_singleton.1 hl'
      exact hentered.object item hitem
  · intro k hk
    rw [List.flatMap_append, List.flatMap_singleton, List.mem_append, not_or] at hk
    refine (h.unknown k hk.1).congr (hentered.other k fun i hi e => hk.2 ?_)
    exact e ▸ List.mem_map_of_mem hi

theorem Startup.begun (h : Startup env settings w₀ ls changes w) (hempty : w₀.maps = .empty)
    (hsep : ListedOnce ls) :
    Begun env settings.ctx w₀.sys ls changes w := by
  induction h with
  | start =>
    refine ⟨⟨[], .refl _, .start⟩, fun _ hl => absurd hl List.not_mem_nil, fun k _ => ?_⟩
    rw [hempty]
    exact ⟨rfl, rfl, rfl⟩
  | wait ms _ ih =>
    obtain ⟨⟨js, hperm, hwrites⟩, hobject, hunknown⟩ := ih hsep
    exact ⟨⟨js, hperm, hwrites.idle ⟨List.prefix_rfl, rfl, rfl⟩⟩, hobject, hunknown⟩
  | pass l _ hread _ ih => exact (ih hsep.init).pass hsep hread

/-! ## The files after the initial sync -/

/-- The files and the cache are as the listings say, and the other files as they were. -/
structure InPlace (env : Env) (ctx : Ctx) (body : String → ByteArray) (ls : List Listing)
    (w₀ w : World) : Prop where
  written : ∀ j ∈ ls.flatMap (Listing.jobs ctx), j.2.Quiet env ctx j.1 body w.sys.tree.fileAt
  others : ∀ p, p ∉ (ls.flatMap (Listing.jobs ctx)).map (placeOf env ctx) →
    w.sys.tree.fileAt p = w₀.sys.tree.fileAt p
  cached : ∀ (k : MapKey) (c : CachedItem), w.maps.object[k]? = some c ↔
    ∃ l ∈ ls, ∃ item ∈ l.items, k = (l.kind, item.key) ∧ c = .fromItem item

theorem Startup.written (h : Startup env settings w₀ ls changes w) (hempty : w₀.maps = .empty)
    (hsep : ListedOnce ls)
    (hplaces : ((ls.flatMap (Listing.jobs settings.ctx)).map (placeOf env settings.ctx)).Nodup)
    {body : String → ByteArray} (hbody : Fetches env settings.ctx body)
    (hio : w.sys.ioErrors = w₀.sys.ioErrors) :
    ∀ j ∈ ls.flatMap (Listing.jobs settings.ctx),
      j.2.Quiet env settings.ctx j.1 body w.sys.tree.fileAt := by
  obtain ⟨js, hperm, hwrites⟩ := (h.begun hempty hsep).writes
  intro j hj
  exact hwrites.settled hbody ((hperm.map _).nodup_iff.2 hplaces) hio j (hperm.mem_iff.2 hj)

/-- **The initial sync puts the files in place**, whatever files are there before it. -/
theorem startup_files (h : Startup env settings w₀ ls changes w) (hempty : w₀.maps = .empty)
    (hsep : ListedOnce ls)
    (hplaces : ((ls.flatMap (Listing.jobs settings.ctx)).map (placeOf env settings.ctx)).Nodup)
    {body : String → ByteArray} (hbody : Fetches env settings.ctx body)
    (hio : w.sys.ioErrors = w₀.sys.ioErrors) :
    InPlace env settings.ctx body ls w₀ w := by
  obtain ⟨⟨js, hperm, hwrites⟩, hobject, hunknown⟩ := h.begun hempty hsep
  refine ⟨h.written hempty hsep hplaces hbody hio, ?_, ?_⟩
  · intro p hp
    refine hwrites.touches.files p ?_
    rintro ⟨j, hj, rfl⟩
    exact hp (List.mem_map_of_mem (hperm.mem_iff.1 hj))
  · intro k c
    constructor
    · intro hc
      have hk : k ∈ ls.flatMap Listing.keys := by
        by_contra hk
        rw [(hunknown k hk).object] at hc
        cases hc
      obtain ⟨l, hl, hk⟩ := List.mem_flatMap.1 hk
      obtain ⟨item, hitem, rfl⟩ := List.mem_map.1 hk
      rw [hobject l hl item hitem] at hc
      exact ⟨l, hl, item, hitem, rfl, (Option.some.inj hc).symm⟩
    · rintro ⟨l, hl, item, hitem, rfl, rfl⟩
      exact hobject l hl item hitem

theorem startup_files_sample :
    InPlace sampleEnv sampleCtx (fun _ => "body".toUTF8) sampleListings sampleWorld
    sampleSynced := by
  obtain ⟨changes, h⟩ := sample_startup
  exact startup_files h rfl sample_listedOnce (by decide +kernel) sampleEnv_fetches
    (by decide +kernel)

/-- **The initial sync deletes nothing**, whatever fails. -/
theorem startup_deletes_nothing (h : Startup env settings w₀ ls changes w)
    (hempty : w₀.maps = .empty)
    (hsep : ListedOnce ls) (p : Path) (hp : w₀.sys.tree.fileAt p ≠ none) :
    w.sys.tree.fileAt p ≠ none := by
  obtain ⟨js, -, hwrites⟩ := (h.begun hempty hsep).writes
  exact hwrites.keepsFile p hp

theorem startup_deletes_nothing_sample :
    (sampleRead "other" "b" "l" (sampleRead "ns" "a" "k" sampleRestarted).2).2.sys.tree.fileAt
      (sampleEnv.place "/data" "l") ≠ none := by
  obtain ⟨changes, hfirst⟩ :=
    Startup.sample sampleRestarted .start "ns" "a" "k" rfl (by decide +kernel)
  obtain ⟨changes', hsecond⟩ := hfirst.sample _ "other" "b" "l" rfl (by decide +kernel)
  exact startup_deletes_nothing hsecond rfl sample_listedOnce _ (by decide +kernel)

/-- **A restart is quiet**: a second life that begins with the files of the listed resources as the
first initial sync left them, and that reads no other resources, finds nothing to change in any
pass. -/
theorem restart_quiet (h : Startup env settings w₀ ls changes w) (hempty : w₀.maps = .empty)
    (hsep : ListedOnce ls)
    (hplaces : ((ls.flatMap (Listing.jobs settings.ctx)).map (placeOf env settings.ctx)).Nodup)
    {body : String → ByteArray} (hbody : Fetches env settings.ctx body)
    (hio : w.sys.ioErrors = w₀.sys.ioErrors)
    {w₁ w' : World} {ls' : List Listing} {changes' : List Bool}
    (hagain : Startup env settings w₁ ls' changes' w') (hempty' : w₁.maps = .empty)
    (hsep' : ListedOnce ls')
    (hsub : ls'.flatMap (Listing.jobs settings.ctx) ⊆ ls.flatMap (Listing.jobs settings.ctx))
    (hkept : ∀ j ∈ ls.flatMap (Listing.jobs settings.ctx),
      w₁.sys.tree.fileAt (placeOf env settings.ctx j) = w.sys.tree.fileAt
        (placeOf env settings.ctx j))
    (hio' : w'.sys.ioErrors = w₁.sys.ioErrors) :
    (∀ change ∈ changes', change = false) ∧ w'.sys.tree.fileAt = w₁.sys.tree.fileAt := by
  obtain ⟨js, hperm, hwrites⟩ := (hagain.begun hempty' hsep').writes
  have hwritten := h.written hempty hsep hplaces hbody hio
  obtain ⟨hchanged, hfiles⟩ := hwrites.quiet hbody (fun j hj => by
    have hj' := hsub (hperm.mem_iff.1 hj)
    exact (hwritten j hj').congr (hkept j hj')) hio'
  refine ⟨fun change hmem => ?_, hfiles⟩
  by_contra htrue
  have hany : changes'.any id = true := List.any_eq_true.2 ⟨change, hmem, by simpa using htrue⟩
  rw [hchanged] at hany
  cases hany

theorem restart_quiet_sample :
    (sampleRead "ns" "a" "k" sampleRestarted).2.sys.tree.fileAt =
      sampleRestarted.sys.tree.fileAt := by
  obtain ⟨changes, h⟩ := sample_startup
  obtain ⟨changes', hagain⟩ :=
    Startup.sample sampleRestarted .start "ns" "a" "k" rfl (by decide +kernel)
  have hsub : ([sampleListing "ns" "a" "k"].flatMap (Listing.jobs sampleCtx)) ⊆
      sampleListings.flatMap (Listing.jobs sampleCtx) := by
    rw [List.flatMap_singleton, sampleListings, List.flatMap_cons]
    exact List.subset_append_left _ _
  have hsep : ListedOnce ([sampleListing "ns" "a" "k"] ++ [sampleListing "other" "b" "l"]) :=
    sample_listedOnce
  have hkept : sampleRestarted.sys = sampleSynced.sys := by rw [sampleRestarted]
  have hquiet := restart_quiet h rfl sample_listedOnce (by decide +kernel) sampleEnv_fetches
    (by decide +kernel) hagain
    rfl hsep.init hsub (fun _ _ => by rw [hkept]) (by decide +kernel)
  exact hquiet.2

end Startup

end Sidecar
