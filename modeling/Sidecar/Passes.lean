import Sidecar.History

/-!
# List passes and events as calls

A list pass makes one call for every item its version check lets through (`due`) and then one for
every stale resource; an event makes one call or none. So what holds of histories of calls holds of
whatever passes and events lead to (`applyListing_reaches`, `applyEvent_update_reaches`,
`applyEvent_delete_reaches`).

Calls about different resources do not see each other in the maps (`Reaches.maps_other`).
-/

namespace Sidecar

open Posix StateM

/-! ## The calls of a pass -/

/-- The call for a listed item. -/
def upsertOf (ctx : Ctx) (kind : Kind) (item : Item) : Call :=
  .upsert kind item (destinationFolder ctx item)

/-- What becomes of an item that is delivered: the version check skips it, or there is a call. -/
inductive Upserted (env : Env) (ctx : Ctx) (kind : Kind)
    (ignoreAlreadyProcessed : Bool) (item : Item) (w : World) (out : Bool × World) : Prop
  | skipped {s : Sys} (hignore : ignoreAlreadyProcessed = true) (hseen : Maps.Seen kind item w.maps)
    (hs : Silent w.sys s) (hout : out = (false, ⟨s, w.maps⟩))
  | called {s : Sys} (hdue : ¬(ignoreAlreadyProcessed = true ∧ Maps.Seen kind item w.maps))
    (hs : Silent w.sys s) (hout : out = (upsertOf ctx kind item).run env ctx
      ⟨s, w.maps.record kind item ignoreAlreadyProcessed⟩)

theorem listItem_upserted (env : Env) (ctx : Ctx) (kind : Kind) (ignoreAlreadyProcessed : Bool)
    (item : Item) (w : World) : Upserted env ctx kind ignoreAlreadyProcessed item w
      (listItem env ctx kind ignoreAlreadyProcessed item w) := by
  by_cases hskip : ignoreAlreadyProcessed = true ∧ Maps.Seen kind item w.maps
  · obtain ⟨rfl, hseen⟩ := hskip
    obtain ⟨s, hs, heq⟩ := listItem_skip env ctx kind item w hseen
    exact .skipped rfl hseen hs heq
  · obtain ⟨s, hs, heq⟩ := listItem_run env ctx kind item w hskip
    exact .called hskip hs heq

theorem applyEvent_upserted (env : Env) (ctx : Ctx) (kind : Kind) (ignoreAlreadyProcessed : Bool)
    {ev : EventType} (hev : ev ≠ .deleted) (item : Item) (w : World) :
    Upserted env ctx kind ignoreAlreadyProcessed item w
      (applyEvent env ctx kind ignoreAlreadyProcessed ev item w) := by
  by_cases hskip : ignoreAlreadyProcessed = true ∧ Maps.Seen kind item w.maps
  · obtain ⟨rfl, hseen⟩ := hskip
    obtain ⟨s, hs, heq⟩ := applyEvent_skip env ctx kind item w hev hseen
    exact .skipped rfl hseen hs heq
  · obtain ⟨s, hs, heq⟩ := applyEvent_update env ctx kind item w hev hskip
    exact .called hskip hs heq

/-- The items of a listing that the version check lets through. -/
def due (kind : Kind) (ignoreAlreadyProcessed : Bool) : HashMap String → List Item → List Item
  | _, [] => []
  | version, item :: items =>
    if ignoreAlreadyProcessed = true ∧ version[((kind, item.key) : MapKey)]? =
      some item.resourceVersion
    then due kind ignoreAlreadyProcessed version items
    else item :: due kind ignoreAlreadyProcessed
      (if ignoreAlreadyProcessed then version.insert (kind, item.key) item.resourceVersion
        else version) items

section Due

variable {kind : Kind} {ignoreAlreadyProcessed : Bool} {version : HashMap String} {item : Item}

theorem due_skip (h : ignoreAlreadyProcessed = true ∧
    version[((kind, item.key) : MapKey)]? = some item.resourceVersion) (items : List Item) :
    due kind ignoreAlreadyProcessed version (item :: items) =
      due kind ignoreAlreadyProcessed version items := if_pos h

theorem due_cons (h : ¬(ignoreAlreadyProcessed = true ∧
    version[((kind, item.key) : MapKey)]? = some item.resourceVersion)) (items : List Item) :
    due kind ignoreAlreadyProcessed version (item :: items) =
      item :: due kind ignoreAlreadyProcessed
        (if ignoreAlreadyProcessed then version.insert (kind, item.key) item.resourceVersion
          else version) items := if_neg h

end Due

theorem due_sublist (kind : Kind) (ignoreAlreadyProcessed : Bool) (version : HashMap String)
    (items : List Item) : (due kind ignoreAlreadyProcessed version items).Sublist items := by
  induction items generalizing version with
  | nil => exact List.Sublist.slnil
  | cons item items ih =>
    unfold due
    split
    · exact (ih _).cons item
    · exact (ih _).cons_cons item

/-- An item with a key of its own that was not processed in this version is due. -/
theorem mem_due {kind : Kind} {ignoreAlreadyProcessed : Bool} {version : HashMap String}
    {items : List Item} (hn : (items.map Item.key).Nodup) {item : Item} (hi : item ∈ items)
    (h : ¬(ignoreAlreadyProcessed = true ∧
      version[((kind, item.key) : MapKey)]? = some item.resourceVersion)) :
    item ∈ due kind ignoreAlreadyProcessed version items := by
  induction items generalizing version with
  | nil => cases hi
  | cons i items ih =>
    rw [List.map_cons, List.nodup_cons] at hn
    unfold due
    rcases List.mem_cons.1 hi with rfl | hi
    · rw [if_neg h]
      exact List.mem_cons_self
    · split
      · exact ih hn.2 hi h
      · refine List.mem_cons_of_mem _ (ih hn.2 hi ?_)
        have hne : ((kind, i.key) : MapKey) ≠ (kind, item.key) := fun e =>
          hn.1 ((Prod.mk.inj e).2 ▸ List.mem_map_of_mem hi)
        split
        · rwa [HashMap.getElem?_insert, if_neg hne]
        · exact h

/-- An item that is due was not processed in this version. -/
theorem not_seen_of_due {kind : Kind} {version : HashMap String} {items : List Item}
    (hn : (items.map Item.key).Nodup) {item : Item} (hi : item ∈ due kind true version items) :
    version[((kind, item.key) : MapKey)]? ≠ some item.resourceVersion := by
  induction items generalizing version with
  | nil => cases hi
  | cons i items ih =>
    rw [List.map_cons, List.nodup_cons] at hn
    by_cases hskip : true = true ∧ version[((kind, i.key) : MapKey)]? = some i.resourceVersion
    · rw [due_skip hskip] at hi
      exact ih hn.2 hi
    · rw [due_cons hskip] at hi
      rcases List.mem_cons.1 hi with rfl | hi
      · exact fun h => hskip ⟨rfl, h⟩
      · have hne : ((kind, i.key) : MapKey) ≠ (kind, item.key) := fun e =>
          hn.1 ((Prod.mk.inj e).2 ▸ List.mem_map_of_mem ((due_sublist ..).mem hi))
        have := ih hn.2 hi
        rwa [if_pos rfl, HashMap.getElem?_insert, if_neg hne] at this

section Reaches

variable {env : Env} {ctx : Ctx} {kind : Kind} {w₀ w : World} {calls : List Call}

theorem Maps.record_object (kind : Kind) (item : Item) (m : Maps) (ignoreAlreadyProcessed : Bool) :
    (m.record kind item ignoreAlreadyProcessed).object = m.object := by
  unfold record
  split <;> rfl

theorem Maps.record_dest (kind : Kind) (item : Item) (m : Maps) (ignoreAlreadyProcessed : Bool) :
    (m.record kind item ignoreAlreadyProcessed).dest = m.dest := by
  unfold record
  split <;> rfl

theorem Maps.forget_object (kind : Kind) (item : Item) (m : Maps) (ignoreAlreadyProcessed : Bool) :
    (m.forget kind item ignoreAlreadyProcessed).object = m.object := by
  unfold forget
  split <;> rfl

theorem Maps.forget_dest (kind : Kind) (item : Item) (m : Maps) (ignoreAlreadyProcessed : Bool) :
    (m.forget kind item ignoreAlreadyProcessed).dest = m.dest := by
  unfold forget
  split <;> rfl

theorem idle_record {s : Sys} (hs : Silent w.sys s) (kind : Kind) (item : Item)
    (ignoreAlreadyProcessed : Bool) :
    Idle w ⟨s, w.maps.record kind item ignoreAlreadyProcessed⟩ :=
  ⟨hs, Maps.record_object .., Maps.record_dest ..⟩

theorem Call.run_version (env : Env) (ctx : Ctx) (c : Call) (w : World) :
    (c.run env ctx w).2.maps.version = w.maps.version := by
  rw [Call.run_eq, Maps.enter_version]

variable (kind) in
/-- The items that are due are called for, and the version map changes as `due` says. -/
theorem listItems_reaches (ignoreAlreadyProcessed : Bool) (items : List Item)
    (h : Reaches env ctx w₀ calls w) :
    Reaches env ctx w₀
      (((due kind ignoreAlreadyProcessed w.maps.version items).map
        (upsertOf ctx kind)).reverse ++ calls)
      (listItems env ctx kind ignoreAlreadyProcessed items w).2 := by
  induction items generalizing w calls with
  | nil => exact h
  | cons item items ih =>
    rw [listItems_cons]
    obtain ⟨hignore, hseen, hs, heq⟩ | ⟨hdue, hs, heq⟩ :=
      listItem_upserted env ctx kind ignoreAlreadyProcessed item w
    · rw [due_skip ⟨hignore, hseen⟩, heq]
      exact ih (w := ⟨_, w.maps⟩) (h.idle ⟨hs, rfl, rfl⟩)
    · rw [due_cons hdue]
      have hcall := (h.idle (idle_record hs kind item ignoreAlreadyProcessed)).call
        (upsertOf ctx kind item) trivial
      rw [← heq] at hcall
      have hversion : (listItem env ctx kind ignoreAlreadyProcessed item w).2.maps.version =
          if ignoreAlreadyProcessed then
            w.maps.version.insert (kind, item.key) item.resourceVersion
          else w.maps.version := by
        rw [heq, Call.run_version]
        cases ignoreAlreadyProcessed <;> rfl
      have := ih hcall
      rw [hversion] at this
      rwa [List.map_cons, List.reverse_cons, List.append_assoc]

/-- Stale resources are removed one after the other. -/
theorem removeStale_reaches {items : List Item} (hn : (items.map Item.key).Nodup)
    (hstale : ∀ i ∈ items, ∃ cached, w.maps.object[((kind, i.key) : MapKey)]? = some cached ∧
      i = cached.toRemovalItem) (h : Reaches env ctx w₀ calls w) :
    Reaches env ctx w₀ ((items.map (Call.cleanup kind)).reverse ++ calls)
      (removeStale env ctx kind items w).2 := by
  induction items generalizing w calls with
  | nil => exact h
  | cons item items ih =>
    rw [List.map_cons, List.nodup_cons] at hn
    rw [removeStale_cons]
    have hlog := log_silent .debug s!"Removing {kind.asStr}: {item.ns}/{item.name}" w.sys
    have hcall := (h.idle (show Idle w ⟨_, w.maps⟩ from ⟨hlog, rfl, rfl⟩)).call (.cleanup kind item)
      (hstale item List.mem_cons_self)
    have := ih hn.2 (fun i hi => by
      obtain ⟨cached, hcached, heq⟩ := hstale i (List.mem_cons_of_mem item hi)
      refine ⟨cached, ?_, heq⟩
      have hne : ((kind, item.key) : MapKey) ≠ (kind, i.key) := fun e =>
        hn.1 ((Prod.mk.inj e).2 ▸ List.mem_map_of_mem hi)
      rw [Call.run_eq, Maps.enter_object]
      exact (if_neg hne).trans hcached) hcall
    rwa [List.map_cons, List.reverse_cons, List.append_assoc]

/-- The stale cleanup leaves the version of a resource on record. -/
theorem removeStale_version (items : List Item) (w : World) :
    (removeStale env ctx kind items w).2.maps.version = w.maps.version := by
  induction items generalizing w with
  | nil => rfl
  | cons item items ih =>
    rw [removeStale_cons]
    dsimp only
    rw [ih, processResource_maps, Maps.enter_version]

/-- Maps stay well formed. -/
theorem Reaches.wf (h : Reaches env ctx w₀ calls w) (hwf : w₀.maps.WF) : w.maps.WF := by
  induction h with
  | start => exact hwf
  | call c _ _ ih =>
    rw [Call.run_eq]
    exact ih.enter ..
  | idle _ hidle ih => exact ih.congr hidle.object hidle.dest

/-- A stale item is what the cache keeps of a stale resource. -/
theorem exists_of_mem_staleItems {ns : String} {existKeys : List String} {i : Item}
    (hi : i ∈ (staleItems env kind ns existKeys w).1) :
    ∃ (k : MapKey) (cached : CachedItem), w.maps.object[k]? = some cached ∧ k.1 = kind ∧
      isStale kind ns existKeys k cached = true ∧ i = cached.toRemovalItem := by
  rw [staleItems_eq, List.mem_filterMap] at hi
  obtain ⟨k, hk, hmap⟩ := hi
  obtain ⟨cached, hc, hstale⟩ := (mem_staleKeys env kind).1 hk
  have hkind : k.1 = kind := by
    unfold isStale at hstale
    simp only [Bool.and_eq_true, beq_iff_eq] at hstale
    exact hstale.1.1
  rw [hc] at hmap
  exact ⟨k, cached, hc, hkind, hstale, (Option.some.inj hmap).symm⟩

theorem mem_staleItems {ns : String} {existKeys : List String} {i : Item} (hwf : w.maps.WF)
    (hi : i ∈ (staleItems env kind ns existKeys w).1) :
    ∃ cached, w.maps.object[((kind, i.key) : MapKey)]? = some cached ∧
      isStale kind ns existKeys (kind, i.key) cached = true ∧ i = cached.toRemovalItem := by
  obtain ⟨k, cached, hc, rfl, hstale, rfl⟩ := exists_of_mem_staleItems hi
  have hkey : k = (k.1, cached.toRemovalItem.key) := Prod.ext rfl (hwf.key k cached hc)
  exact ⟨cached, hkey ▸ hc, hkey ▸ hstale, rfl⟩

variable (env kind) in
theorem staleItems_keys_nodup (ns : String) (existKeys : List String) (hwf : w.maps.WF) :
    ((staleItems env kind ns existKeys w).1.map Item.key).Nodup := by
  have hkeys := staleItems_keys env kind ns existKeys hwf
  have hn := staleKeys_nodup env kind ns existKeys w
  rw [← hkeys] at hn
  refine List.Nodup.of_map (fun key : String => ((kind, key) : MapKey)) ?_
  rwa [List.map_map]

variable (kind) in
/-- A list pass is a sequence of calls. -/
theorem applyListing_reaches (ns : String) (ignoreAlreadyProcessed : Bool) (items : List Item)
    (hwf : w₀.maps.WF) (h : Reaches env ctx w₀ calls w) :
    let listed := (listItems env ctx kind ignoreAlreadyProcessed items w).2
    let stale := (staleItems env kind ns (items.map Item.key) listed).1
    Reaches env ctx w₀ ((stale.map (Call.cleanup kind)).reverse ++
        (((due kind ignoreAlreadyProcessed w.maps.version items).map (upsertOf ctx kind)).reverse ++
          calls)) (applyListing env ctx kind ns ignoreAlreadyProcessed items w).2 := by
  dsimp only
  rw [applyListing_eq]
  dsimp only
  have hlisted := listItems_reaches kind ignoreAlreadyProcessed items h
  have hlwf := hlisted.wf hwf
  generalize (listItems env ctx kind ignoreAlreadyProcessed items w).2 = listed at hlisted hlwf ⊢
  obtain ⟨hsilent, hmaps⟩ := staleItems_silent env kind ns (items.map Item.key) listed
  refine removeStale_reaches (staleItems_keys_nodup env kind ns _ hlwf) (fun i hi => ?_)
    (hlisted.idle ⟨hsilent, by rw [hmaps], by rw [hmaps]⟩)
  obtain ⟨cached, hc, -, hi⟩ := mem_staleItems hlwf hi
  exact ⟨cached, hmaps ▸ hc, hi⟩

/-- An added or modified resource is called for, unless the version check skips it. -/
theorem applyEvent_update_reaches {ignoreAlreadyProcessed : Bool} {ev : EventType}
    (hev : ev ≠ .deleted) (item : Item) (h : Reaches env ctx w₀ calls w) :
    Reaches env ctx w₀ ((if ignoreAlreadyProcessed = true ∧ Maps.Seen kind item w.maps then []
      else [upsertOf ctx kind item]) ++ calls)
      (applyEvent env ctx kind ignoreAlreadyProcessed ev item w).2 := by
  obtain ⟨hignore, hseen, hs, heq⟩ | ⟨hdue, hs, heq⟩ :=
    applyEvent_upserted env ctx kind ignoreAlreadyProcessed hev item w
  · rw [if_pos ⟨hignore, hseen⟩, heq]
    exact h.idle ⟨hs, rfl, rfl⟩
  · rw [if_neg hdue, heq]
    exact (h.idle (idle_record hs kind item ignoreAlreadyProcessed)).call
      (upsertOf ctx kind item) trivial

/-! ## Calls about different resources -/

theorem Reaches.maps_other (h : Reaches env ctx w₀ calls w) {k : MapKey}
    (hk : ∀ c ∈ calls, c.key ≠ k) :
    w.maps.object[k]? = w₀.maps.object[k]? ∧ w.maps.dest[k]? = w₀.maps.dest[k]? := by
  induction h with
  | start => exact ⟨rfl, rfl⟩
  | @call calls w c _ _ ih =>
    have hne : ((c.kind, c.item.key) : MapKey) ≠ k := hk c List.mem_cons_self
    obtain ⟨ho, hd⟩ := ih fun c' hc' => hk c' (List.mem_cons_of_mem c hc')
    rw [Call.run_eq, Maps.enter_object, Maps.enter_dest, if_neg hne, if_neg fun h => hne h.2]
    exact ⟨ho, hd⟩
  | idle _ hidle ih =>
    rw [hidle.object, hidle.dest]
    exact ih hk

/-- The plan of a call depends on the entries of its resource. -/
theorem Call.jobs_congr {c : Call} {w w' : World}
    (ho : w'.maps.object[c.key]? = w.maps.object[c.key]?)
    (hd : w'.maps.dest[c.key]? = w.maps.dest[c.key]?) : c.jobs w' = c.jobs w := by
  have hold : c.old w' = c.old w := by
    unfold Call.old
    rw [Maps.enter_old, Maps.enter_old]
    unfold Maps.oldItem
    unfold Call.key at ho hd
    rw [ho, hd]
  unfold Call.jobs Call.dest
  rw [hold]

/-- The calls of a list pass: stale resources are cleaned up and items that are due updated, each
resource once. -/
structure PassCalls (ctx : Ctx) (kind : Kind) (ns : String) (ignoreAlreadyProcessed : Bool)
    (items : List Item) (w : World) (calls : List Call) : Prop where
  nodup : (calls.map Call.key).Nodup
  cases : ∀ c ∈ calls,
    (∃ cached, w.maps.object[((kind, cached.toRemovalItem.key) : MapKey)]? = some cached ∧
      isStale kind ns (items.map Item.key) (kind, cached.toRemovalItem.key) cached = true ∧
      c = .cleanup kind cached.toRemovalItem) ∨
    ∃ item ∈ due kind ignoreAlreadyProcessed w.maps.version items, c = upsertOf ctx kind item
  due : ∀ item ∈ due kind ignoreAlreadyProcessed w.maps.version items,
    upsertOf ctx kind item ∈ calls

theorem applyListing_calls (env : Env) (ctx : Ctx) (kind : Kind) (ns : String)
    (ignoreAlreadyProcessed : Bool) {items : List Item} (hwf : w.maps.WF)
    (hn : (items.map Item.key).Nodup) :
    ∃ calls, Reaches env ctx w calls
      (applyListing env ctx kind ns ignoreAlreadyProcessed items w).2 ∧
      PassCalls ctx kind ns ignoreAlreadyProcessed items w calls := by
  have hstart : Reaches env ctx w [] w := .start
  have hreach := applyListing_reaches kind ns ignoreAlreadyProcessed items hwf hstart
  have hlisted := listItems_reaches kind ignoreAlreadyProcessed items hstart
  dsimp only at hreach
  generalize (listItems env ctx kind ignoreAlreadyProcessed items w).2 = listed at hreach hlisted
  rw [List.append_nil] at hreach hlisted
  have hsub := due_sublist kind ignoreAlreadyProcessed w.maps.version items
  have hstale : ∀ i ∈ (staleItems env kind ns (items.map Item.key) listed).1, ∃ cached,
      w.maps.object[((kind, i.key) : MapKey)]? = some cached ∧
      isStale kind ns (items.map Item.key) (kind, i.key) cached = true ∧
      i = cached.toRemovalItem := by
    intro i hi
    obtain ⟨cached, hc, hstale, heq⟩ := mem_staleItems (hlisted.wf hwf) hi
    refine ⟨cached, ?_, hstale, heq⟩
    -- what is stale is not listed, so no item of the pass has changed its entry
    rw [(hlisted.maps_other fun c hc' e => ?_).1] at hc
    · exact hc
    · obtain ⟨item, hitem, rfl⟩ := List.mem_map.1 (List.mem_reverse.1 hc')
      have hkey : item.key = i.key := (Prod.mk.inj e).2
      have hmem : i.key ∈ items.map Item.key := hkey ▸ List.mem_map_of_mem (hsub.mem hitem)
      simp [isStale, hmem] at hstale
  refine ⟨_, hreach, ?_, ?_, ?_⟩
  · rw [List.map_append, List.map_reverse, List.map_reverse, List.map_map, List.map_map,
      List.nodup_append, List.nodup_reverse, List.nodup_reverse]
    have hinj : Function.Injective fun key : String => ((kind, key) : MapKey) := fun _ _ e =>
      (Prod.mk.inj e).2
    refine ⟨?_, ?_, ?_⟩
    · have := (staleItems_keys_nodup env kind ns (items.map Item.key) (hlisted.wf hwf)).map hinj
      rwa [List.map_map] at this
    · have := (hn.sublist (hsub.map Item.key)).map hinj
      rwa [List.map_map] at this
    · intro x hx y hy hxy
      obtain ⟨i, hi, rfl⟩ := List.mem_map.1 (List.mem_reverse.1 hx)
      obtain ⟨item, hitem, rfl⟩ := List.mem_map.1 (List.mem_reverse.1 hy)
      obtain ⟨cached, -, hs, -⟩ := hstale i hi
      have hkey : i.key = item.key := (Prod.mk.inj hxy).2
      have hmem : i.key ∈ items.map Item.key := hkey ▸ List.mem_map_of_mem (hsub.mem hitem)
      simp [isStale, hmem] at hs
  · intro c hc
    rcases List.mem_append.1 hc with hc | hc
    · obtain ⟨i, hi, rfl⟩ := List.mem_map.1 (List.mem_reverse.1 hc)
      obtain ⟨cached, hcached, hs, rfl⟩ := hstale i hi
      exact .inl ⟨cached, hcached, hs, rfl⟩
    · obtain ⟨item, hitem, rfl⟩ := List.mem_map.1 (List.mem_reverse.1 hc)
      exact .inr ⟨item, hitem, rfl⟩
  · exact fun item hi => List.mem_append_right _ (List.mem_reverse.2 (List.mem_map_of_mem hi))

end Reaches

end Sidecar
