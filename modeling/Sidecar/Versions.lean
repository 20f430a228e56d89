import Sidecar.Deliveries

/-!
# The versions on record

With the version check on, an update records the version of each of its items before anything is
written (`Takes.seen`), and no delivery without a resource changes its record
(`Delivered.version_other`). List passes, events and sequences of deliveries lead to reachable maps.
-/

namespace Sidecar

open Posix StateM

section Versions

variable {env : Env} {ctx : Ctx} {kind : Kind} {ignoreAlreadyProcessed : Bool} {item : Item}
  {items : List Item} {k : MapKey} {w w' : World}

theorem Maps.record_version_other (hk : (kind, item.key) ≠ k) (m : Maps) :
    (m.record kind item ignoreAlreadyProcessed).version[k]? = m.version[k]? := by
  cases ignoreAlreadyProcessed with
  | false => rfl
  | true =>
    have hinsert := HashMap.getElem?_insert m.version (kind, item.key) item.resourceVersion k
    rwa [if_neg hk] at hinsert

theorem Upserted.version_other {out : Bool × World}
    (h : Upserted env ctx kind ignoreAlreadyProcessed item w out) (hk : (kind, item.key) ≠ k) :
    out.2.maps.version[k]? = w.maps.version[k]? := by
  obtain ⟨-, -, -, rfl⟩ | ⟨-, -, rfl⟩ := h
  · rfl
  · rw [Call.run_version]
    exact Maps.record_version_other hk w.maps

/-- The version is on record, whatever became of the files. -/
theorem Upserted.seen {out : Bool × World} (h : Upserted env ctx kind true item w out) :
    Maps.Seen kind item out.2.maps := by
  obtain ⟨-, hseen, -, rfl⟩ | ⟨-, -, rfl⟩ := h
  · exact hseen
  · unfold Maps.Seen
    rw [Call.run_version]
    have hinsert := HashMap.getElem?_insert w.maps.version (kind, item.key) item.resourceVersion
      (kind, item.key)
    rwa [if_pos rfl] at hinsert

theorem listItems_version_other (hk : ∀ item ∈ items, (kind, item.key) ≠ k) (w : World) :
    (listItems env ctx kind ignoreAlreadyProcessed items w).2.maps.version[k]? =
      w.maps.version[k]? := by
  induction items generalizing w with
  | nil => rfl
  | cons item items ih =>
    rw [listItems_cons]
    have hfirst := listItem_upserted env ctx kind ignoreAlreadyProcessed item w
    exact (ih (fun i hi => hk i (List.mem_cons_of_mem item hi)) _).trans
      (hfirst.version_other (hk item List.mem_cons_self))

theorem listItems_seen (hn : (items.map Item.key).Nodup) (hi : item ∈ items) (w : World) :
    Maps.Seen kind item (listItems env ctx kind true items w).2.maps := by
  induction items generalizing w with
  | nil => cases hi
  | cons i items ih =>
    rw [List.map_cons, List.nodup_cons] at hn
    rw [listItems_cons]
    rcases List.mem_cons.1 hi with rfl | hi
    · -- no later item of the listing has its key
      have hlater : ∀ i ∈ items, ((kind, i.key) : MapKey) ≠ (kind, item.key) := fun i hi e =>
        hn.1 ((Prod.mk.inj e).2 ▸ List.mem_map_of_mem hi)
      exact (listItems_version_other hlater _).trans
        (listItem_upserted env ctx kind true item w).seen
    · exact ih hn.2 hi _

theorem applyListing_version (ns : String) (w : World) :
    (applyListing env ctx kind ns ignoreAlreadyProcessed items w).2.maps.version =
      (listItems env ctx kind ignoreAlreadyProcessed items w).2.maps.version := by
  rw [applyListing_eq]
  dsimp only
  rw [removeStale_version, (staleItems_silent env kind ns (items.map Item.key) _).2]

/-- A resource is not in a delivery. -/
def Delivery.Misses (k : MapKey) (d : Delivery) : Prop := ∀ item ∈ d.items, (d.kind, item.key) ≠ k

theorem Delivery.apply_version_other {d : Delivery} (h : d.Misses k) (w : World) :
    (d.apply env ctx ignoreAlreadyProcessed w).2.maps.version[k]? = w.maps.version[k]? := by
  cases d with
  | listing kind ns items =>
    unfold apply
    dsimp only
    rw [applyListing_version]
    exact listItems_version_other h w
  | event kind ev item =>
    have hk : (kind, item.key) ≠ k := h item List.mem_cons_self
    by_cases hev : ev = .deleted
    · subst hev
      obtain ⟨s, -, heq⟩ := applyEvent_delete env ctx kind item w ignoreAlreadyProcessed
      unfold apply
      dsimp only
      rw [heq, processResource_maps, Maps.enter_version]
      dsimp only [Maps.forget]
      split
      · have herase := HashMap.getElem?_erase w.maps.version (kind, item.key) k
        rwa [if_neg hk] at herase
      · rfl
    · exact (applyEvent_upserted env ctx kind ignoreAlreadyProcessed hev item w).version_other hk

/-- The delivery has resources to update: a listing, or an added or modified one. -/
def Delivery.IsUpdate : Delivery → Prop
  | .listing .. => True
  | .event _ ev _ => ev ≠ .deleted

theorem Delivery.apply_seen {d : Delivery} (hu : d.IsUpdate) (hn : (d.items.map Item.key).Nodup)
    (hi : item ∈ d.items) (w : World) : Maps.Seen d.kind item (d.apply env ctx true w).2.maps := by
  cases d with
  | listing kind ns items =>
    unfold Maps.Seen apply
    dsimp only
    rw [applyListing_version]
    exact listItems_seen hn hi w
  | event kind ev item' =>
    obtain rfl := List.mem_singleton.1 hi
    exact (applyEvent_upserted env ctx kind true hu item w).seen

theorem Takes.version_other {d : Delivery} {f : Bool}
    (h : Takes env ctx ignoreAlreadyProcessed w d f w') (hm : d.Misses k) :
    w'.maps.version[k]? = w.maps.version[k]? := by
  obtain ⟨u, hu, -, hend⟩ := h.cases
  rw [hend.maps, d.apply_version_other hm, hu.maps]

theorem Takes.seen {d : Delivery} {f : Bool} (h : Takes env ctx true w d f w') (hu : d.IsUpdate)
    (hn : (d.items.map Item.key).Nodup) (hi : item ∈ d.items) : Maps.Seen d.kind item w'.maps := by
  obtain ⟨u, -, -, hend⟩ := h.cases
  rw [hend.maps]
  exact d.apply_seen hu hn hi u

/-- Deliveries without a resource leave its version on record. -/
theorem Delivered.version_other {ds : List Delivery}
    (h : Delivered env ctx ignoreAlreadyProcessed w ds w') (hm : ∀ d ∈ ds, d.Misses k) :
    w'.maps.version[k]? = w.maps.version[k]? := by
  induction h with
  | start => rfl
  | take _ htake ih =>
    rw [htake.version_other (hm _ List.mem_cons_self)]
    exact ih fun d hd => hm d (List.mem_cons_of_mem _ hd)
  | hush _ hhush ih => rw [hhush.maps, ih hm]

theorem Delivery.apply_reachable (d : Delivery) :
    Moves World.KeepsReachable (d.apply env ctx ignoreAlreadyProcessed) := by
  cases d with
  | listing kind ns items => exact (World.reachable_frame env ctx kind).applyListing ns _ items
  | event kind ev item => exact (World.reachable_frame env ctx kind).applyEvent _ ev item

theorem Takes.reachable {d : Delivery} {f : Bool}
    (h : Takes env ctx ignoreAlreadyProcessed w d f w') (hw : w.maps.Reachable) :
    w'.maps.Reachable := by
  obtain ⟨u, hu, -, hend⟩ := h.cases
  rw [hend.maps]
  exact d.apply_reachable u (hu.maps ▸ hw)

theorem Delivered.reachable {ds : List Delivery}
    (h : Delivered env ctx ignoreAlreadyProcessed w ds w') (hw : w.maps.Reachable) :
    w'.maps.Reachable := by
  induction h with
  | start => exact hw
  | take _ htake ih => exact htake.reachable ih
  | hush _ hhush ih => rwa [hhush.maps]

end Versions

end Sidecar
