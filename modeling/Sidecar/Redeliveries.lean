import Sidecar.Polling
import Sidecar.Versions

/-!
# The same delivery again

A pass or event leaves maps that know what it delivered (`Takes.known`). Delivered again to such
maps, it leaves files that are in place as they are, and reports no change (`Takes.quiet_again`).
-/

namespace Sidecar

open Posix StateM

namespace Delivery

variable {env : Env} {ctx : Ctx} {body : String → ByteArray} {ignoreAlreadyProcessed : Bool}
  {w : World}

/-! ## What a delivery leaves in the maps -/

/-- The maps know the resource as it is delivered: its version with the version check on, else its
data and its folder. -/
def KnownItem (ctx : Ctx) (ignoreAlreadyProcessed : Bool) (kind : Kind) (item : Item) (m : Maps) :
    Prop :=
  if ignoreAlreadyProcessed then Maps.Seen kind item m else Maps.Current ctx kind m item

/-- The maps know what is delivered. For a listing nothing in scope is stale. -/
def Known (ctx : Ctx) (ignoreAlreadyProcessed : Bool) : Delivery → Maps → Prop
  | listing kind ns items, m =>
    (∀ item ∈ items, KnownItem ctx ignoreAlreadyProcessed kind item m) ∧
      ∀ (k : MapKey) (c : CachedItem), m.object[k]? = some c →
        isStale kind ns (items.map Item.key) k c = false
  | event _ .deleted _, _ => True
  | event kind _ item, m => KnownItem ctx ignoreAlreadyProcessed kind item m

theorem known_listing (kind : Kind) (ns : String) {items : List Item}
    (hn : (items.map Item.key).Nodup) (hw : w.maps.Reachable) :
    (listing kind ns items).Known ctx ignoreAlreadyProcessed
      (applyListing env ctx kind ns ignoreAlreadyProcessed items w).2.maps := by
  have hlisted := (World.reachable_frame env ctx kind).listItems ignoreAlreadyProcessed items w hw
  refine ⟨fun item hi => ?_, fun k c => applyListing_fresh env ctx kind hlisted.wf⟩
  unfold KnownItem
  cases ignoreAlreadyProcessed with
  | true => exact apply_seen (d := .listing kind ns items) trivial hn hi w
  | false =>
    have hst : Steady ctx kind ns items (applyListing env ctx kind ns false items w).2.maps :=
      applyListing_steady env ctx kind hn hw.wf
    exact ⟨hst.object item hi, hst.dest item hi⟩

theorem known_update {kind : Kind} {ev : EventType} (hev : ev ≠ .deleted) (item : Item) :
    KnownItem ctx ignoreAlreadyProcessed kind item
      (applyEvent env ctx kind ignoreAlreadyProcessed ev item w).2.maps := by
  unfold KnownItem
  cases ignoreAlreadyProcessed with
  | true =>
    exact apply_seen (d := .event kind ev item) hev (List.nodup_singleton _) List.mem_cons_self w
  | false =>
    obtain ⟨s, -, heq⟩ := applyEvent_update env ctx kind item w hev
      (by simp : ¬(false = true ∧ _))
    rw [heq, processResource_maps]
    refine ⟨?_, ?_⟩
    · rw [Maps.enter_object, if_pos rfl]
      rfl
    · rw [Maps.enter_dest, if_pos ⟨rfl, rfl⟩]
      rfl

/-- Whatever fails, the maps know a delivery that was processed. -/
theorem known (d : Delivery) (hn : (d.items.map Item.key).Nodup) (hw : w.maps.Reachable) :
    d.Known ctx ignoreAlreadyProcessed (d.apply env ctx ignoreAlreadyProcessed w).2.maps := by
  cases d with
  | listing kind ns items => exact known_listing kind ns hn hw
  | event kind ev item =>
    cases ev with
    | added => exact known_update (by simp) item
    | modified => exact known_update (by simp) item
    | deleted => exact trivial

/-! ## Files in place -/

/-- The jobs of a delivery that the maps know. -/
def jobs (ctx : Ctx) (m : Maps) : Delivery → List Job
  | listing kind _ items => items.flatMap (itemJobs ctx kind)
  | event kind .deleted item => (item.entries kind).map
    (Entry.job ((m.dest[((kind, item.key) : MapKey)]?).getD (destinationFolder ctx item)) item true)
  | event kind _ item => itemJobs ctx kind item

/-- The files of the delivery are in place: the one of a written data key has the digest of its
bytes, that of a removed one is gone. -/
def InPlace (env : Env) (ctx : Ctx) (body : String → ByteArray) (d : Delivery) (w : World) : Prop :=
  ∀ j ∈ d.jobs ctx w.maps, j.Quiet env ctx d.kind body w.sys.tree.fileAt

theorem InPlace.congr {d : Delivery} {w' : World} (h : d.InPlace env ctx body w) (hw : Hush w w') :
    d.InPlace env ctx body w' := by
  unfold InPlace
  rw [hw.maps, hw.sys.tree]
  exact h

variable (hbody : Fetches env ctx body)
include hbody

/-- A known resource whose files are in place is skipped or found unchanged. -/
theorem processResource_quiet {kind : Kind} {item : Item} (h : Maps.Current ctx kind w.maps item)
    (hq : ∀ j ∈ itemJobs ctx kind item, j.Quiet env ctx kind body w.sys.tree.fileAt)
    (hio : (processResource env ctx kind item (some (destinationFolder ctx item))
      false w).2.sys.ioErrors =
      w.sys.ioErrors) :
    (processResource env ctx kind item (some (destinationFolder ctx item)) false w).1 = false := by
  obtain ⟨as, hperm, heq⟩ := h.processResource env
  rw [heq] at hio ⊢
  exact (runActions_quiet hbody (fun j hj => hq j (hperm.mem_iff.1 hj)) hio).1

omit hbody in
/-- A listing whose versions are all on record is skipped. -/
theorem listItems_skip {kind : Kind} {items : List Item}
    (h : ∀ item ∈ items, Maps.Seen kind item w.maps) :
    (listItems env ctx kind true items w).1 = false ∧
      (listItems env ctx kind true items w).2.maps = w.maps := by
  induction items generalizing w with
  | nil => exact ⟨rfl, rfl⟩
  | cons item items ih =>
    obtain ⟨s, -, heq⟩ := listItem_skip env ctx kind item w (h item List.mem_cons_self)
    rw [listItems_cons, heq]
    exact ih (w := ⟨s, w.maps⟩) fun i hi => h i (List.mem_cons_of_mem item hi)

theorem listing_quiet {kind : Kind} {ns : String} {items : List Item}
    (hknown : (listing kind ns items).Known ctx ignoreAlreadyProcessed w.maps)
    (hplace : (listing kind ns items).InPlace env ctx body w)
    (hio : (applyListing env ctx kind ns ignoreAlreadyProcessed items w).2.sys.ioErrors =
      w.sys.ioErrors) :
    (applyListing env ctx kind ns ignoreAlreadyProcessed items w).1 = false := by
  obtain ⟨hitems, hfresh⟩ := hknown
  cases ignoreAlreadyProcessed with
  | true =>
    obtain ⟨hflag, hmaps⟩ := @listItems_skip env ctx w kind items hitems
    rw [applyListing_eq]
    dsimp only
    rw [hflag, staleItems_fresh env (by rw [hmaps]; exact hfresh)]
    rfl
  | false =>
    have hst : Steady ctx kind ns items w.maps :=
      ⟨fun item hi => (hitems item hi).object, fun item hi => (hitems item hi).dest, hfresh⟩
    obtain ⟨hflag, -, hsilent⟩ := hst.applyListing env
    have hlisted := listItems_le env ctx kind false items w
    rw [hflag]
    refine (listItems_quiet hbody (fun _ hi => hi) hst (fun item hi j hj => ?_)
      (count_squeeze hlisted hsilent.trace hio).1).1
    exact hplace j (List.mem_flatMap.2 ⟨item, hi, hj⟩)

theorem update_quiet {kind : Kind} {ev : EventType} {item : Item} (hev : ev ≠ .deleted)
    (hknown : KnownItem ctx ignoreAlreadyProcessed kind item w.maps)
    (hplace : ∀ j ∈ itemJobs ctx kind item, j.Quiet env ctx kind body w.sys.tree.fileAt)
    (hio : (applyEvent env ctx kind ignoreAlreadyProcessed ev item w).2.sys.ioErrors =
      w.sys.ioErrors) :
    (applyEvent env ctx kind ignoreAlreadyProcessed ev item w).1 = false := by
  cases ignoreAlreadyProcessed with
  | true =>
    obtain ⟨s, -, heq⟩ := applyEvent_skip env ctx kind item w hev hknown
    rw [heq]
  | false =>
    obtain ⟨s, hs, heq⟩ := applyEvent_update env ctx kind item w hev
      (by simp : ¬(false = true ∧ _))
    rw [heq] at hio ⊢
    have hcall :
        TraceLe s (processResource env ctx kind item (some (destinationFolder ctx item)) false
          ⟨s, w.maps⟩).2.sys := (World.le_frame env ctx kind).process item _ false ⟨s, w.maps⟩
    exact processResource_quiet hbody (w := ⟨s, w.maps⟩) hknown (hs.tree ▸ hplace)
      (count_squeeze hs.trace hcall hio).2

/-- A removal looks for the files of the delivered item in the folder on record. -/
theorem deleted_quiet {kind : Kind} {item : Item}
    (hplace : (event kind .deleted item).InPlace env ctx body w)
    (hio : (applyEvent env ctx kind ignoreAlreadyProcessed .deleted item w).2.sys.ioErrors =
      w.sys.ioErrors) :
    (applyEvent env ctx kind ignoreAlreadyProcessed .deleted item w).1 = false := by
  obtain ⟨s, hs, heq⟩ := applyEvent_delete env ctx kind item w ignoreAlreadyProcessed
  have hdest : (w.maps.forget kind item ignoreAlreadyProcessed).dest = w.maps.dest := by
    unfold Maps.forget
    split <;> rfl
  rw [heq, processResource_eq] at hio ⊢
  dsimp only at hio ⊢
  refine (runActions_quiet hbody (fun j hj => ?_)
    (count_squeeze hs.trace (runActions_touches env ctx kind _ s).trace hio).2).1
  rw [if_pos rfl, jobs_plan_removed, Maps.enter_old, hdest] at hj
  have hfolder : ∀ o : Option String, (o.or (some (destinationFolder ctx item))).getD "" =
      o.getD (destinationFolder ctx item) := fun o => by cases o <;> rfl
  dsimp only at hj
  rw [hfolder] at hj
  rw [hs.tree]
  exact hplace j hj

/-- **A known delivery whose files are in place reports no change.** -/
theorem quiet {d : Delivery} (hknown : d.Known ctx ignoreAlreadyProcessed w.maps)
    (hplace : d.InPlace env ctx body w)
    (hio : (d.apply env ctx ignoreAlreadyProcessed w).2.sys.ioErrors = w.sys.ioErrors) :
    (d.apply env ctx ignoreAlreadyProcessed w).1 = false := by
  cases d with
  | listing kind ns items => exact listing_quiet hbody hknown hplace hio
  | event kind ev item =>
    cases ev with
    | added => exact update_quiet hbody (by simp) hknown hplace hio
    | modified => exact update_quiet hbody (by simp) hknown hplace hio
    | deleted => exact deleted_quiet hbody hplace hio

end Delivery

/-! ## Passes and events -/

section Takes

variable {env : Env} {ctx : Ctx} {body : String → ByteArray} {ignoreAlreadyProcessed : Bool}
  {d : Delivery} {f : Bool} {w w' : World}

theorem Takes.known (h : Takes env ctx ignoreAlreadyProcessed w d f w')
    (hn : (d.items.map Item.key).Nodup) (hw : w.maps.Reachable) :
    d.Known ctx ignoreAlreadyProcessed w'.maps := by
  obtain ⟨u, hu, -, hend⟩ := h.cases
  rw [hend.maps]
  exact d.known hn (hu.maps ▸ hw)

theorem Takes.quiet (h : Takes env ctx ignoreAlreadyProcessed w d f w')
    (hbody : Fetches env ctx body) (hknown : d.Known ctx ignoreAlreadyProcessed w.maps)
    (hplace : d.InPlace env ctx body w) (hio : w'.sys.ioErrors = w.sys.ioErrors) : f = false := by
  obtain ⟨u, hu, rfl, hend⟩ := h.cases
  have happly := d.apply_le env ctx ignoreAlreadyProcessed u
  refine Delivery.quiet hbody (hu.maps ▸ hknown) (hplace.congr hu) ?_
  exact (count_squeeze hu.sys.trace happly
    (count_squeeze (hu.sys.trace.trans happly) hend.sys.trace hio).1).2

/-- Between the two deliveries anything may happen that leaves the maps alone. -/
theorem Takes.quiet_again {f' : Bool} {u u' : World}
    (hfirst : Takes env ctx ignoreAlreadyProcessed w d f w') (hn : (d.items.map Item.key).Nodup)
    (hw : w.maps.Reachable) (hmaps : u.maps = w'.maps)
    (hsecond : Takes env ctx ignoreAlreadyProcessed u d f' u') (hbody : Fetches env ctx body)
    (hplace : d.InPlace env ctx body u) (hio : u'.sys.ioErrors = u.sys.ioErrors) : f' = false :=
  hsecond.quiet hbody (hmaps ▸ hfirst.known hn hw) hplace hio

end Takes

end Sidecar
