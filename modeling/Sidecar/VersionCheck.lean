import Sidecar.Twins
import Sidecar.Deliveries

/-!
# The version check agrees with the plain path

The same deliveries are fed to a world that ignores what it has processed already and to one that
processes everything (`Lockstep`). A delivery that the version check skips is an update with the
version that is tracked, so the other world does nothing for it either; `Twin` is the relation that
carries this through list passes and events. It links the version map to the history: a recorded
version is the tracked one, or one that was removed and does not come back.
-/

namespace Sidecar

open Posix StateM

/-! ## The calls of a delivery -/

/-- The maps after every item of a listing was processed. -/
def Maps.listed (ctx : Ctx) (kind : Kind) (items : List Item) (m : Maps) : Maps :=
  items.foldl (fun m item => (m.enter kind item (some (destinationFolder ctx item)) false).2) m

/-- The stale resources as they are removed, in the order of their keys. -/
def staleOf (kind : Kind) (ns : String) (existKeys : List String) (m : Maps) : List Item :=
  (m.object.toList.filter fun kc => isStale kind ns existKeys kc.1 kc.2).map fun kc =>
    kc.2.toRemovalItem

/-- The calls of a delivery when nothing is skipped, latest first. -/
def Delivery.calls (ctx : Ctx) (d : Delivery) (m : Maps) : List Call :=
  match d with
  | .listing kind ns items =>
    ((staleOf kind ns (items.map Item.key) (m.listed ctx kind items)).map
      (Call.cleanup kind)).reverse ++
      (items.map (upsertOf ctx kind)).reverse
  | .event kind .deleted item => [.delete kind item (destinationFolder ctx item)]
  | .event kind _ item => [upsertOf ctx kind item]

theorem staleItems_perm (env : Env) (kind : Kind) (ns : String)
    (existKeys : List String) (w : World) :
    (staleItems env kind ns existKeys w).1.Perm (staleOf kind ns existKeys w.maps) := by
  have hperm := (env.hashOrder.perm w.sys.scanTick w.maps.object.keys).filterMap fun k =>
    (w.maps.object[k]?.filter (isStale kind ns existKeys k)).map CachedItem.toRemovalItem
  refine hperm.trans (List.Perm.of_eq ?_)
  unfold staleOf
  rw [← Std.ExtTreeMap.map_fst_toList_eq_keys, List.filterMap_map, ← List.filterMap_eq_map,
    List.filterMap_filter]
  refine List.filterMap_congr fun kc hkc => ?_
  have hlookup := Std.ExtTreeMap.mem_toList_iff_getElem?_eq_some.1 hkc
  simp only [Function.comp, hlookup, Option.filter]
  split <;> rfl

/-! ## Versions in a history -/

/-- The resource was removed after it had been delivered in this version. -/
def Retired : List Call → MapKey → String → Prop
  | [], _, _ => False
  | c :: cs, k, resourceVersion => Retired cs k resourceVersion ∨
    c.isRemoved = true ∧ c.key = k ∧
      ∃ c' ∈ cs, c'.isRemoved = false ∧ c'.key = k ∧ c'.item.resourceVersion = resourceVersion

/-- A removed resource is not delivered again with a version it had before. -/
def NoReturn : List Call → Prop
  | [] => True
  | c :: cs => NoReturn cs ∧ (c.isRemoved = false → ¬Retired cs c.key c.item.resourceVersion)

/-- `DELETED` carries the data of the version last processed. -/
def DeletesLast : List Call → Prop
  | [] => True
  | c :: cs => DeletesLast cs ∧
    match c with
    | .delete kind item _ => ∀ v, tracked cs (kind, item.key) = some v →
        item.text = v.text ∧ item.binary = v.binary
    | _ => True

/-- Kind, namespace, name and version determine the item. -/
def Versioned (calls : List Call) : Prop :=
  ∀ c ∈ calls, ∀ c' ∈ calls, c.isRemoved = false → c'.isRemoved = false → c.sameResource c' →
    c.item.resourceVersion = c'.item.resourceVersion → c.item = c'.item

theorem NoReturn.suffix {cs : List Call} :
    ∀ {later : List Call}, NoReturn (later ++ cs) → NoReturn cs
  | [], h => h
  | _ :: _, h => NoReturn.suffix h.1

theorem DeletesLast.suffix {cs : List Call} :
    ∀ {later : List Call}, DeletesLast (later ++ cs) → DeletesLast cs
  | [], h => h
  | _ :: _, h => DeletesLast.suffix h.1

/-- A tracked version comes from an update. -/
theorem exists_update_of_tracked {calls : List Call} {k : MapKey} {v : Item}
    (h : tracked calls k = some v) :
    ∃ c ∈ calls, c.isRemoved = false ∧ c.key = k ∧ c.item = v := by
  induction calls with
  | nil => cases h
  | cons c cs ih =>
    rw [tracked_cons] at h
    split at h
    · next hk =>
      cases hr : c.isRemoved with
      | true => rw [hr] at h; cases h
      | false =>
        rw [hr] at h
        exact ⟨c, List.mem_cons_self, hr, hk, Option.some.inj h⟩
    · obtain ⟨c', hc', hrest⟩ := ih h
      exact ⟨c', List.mem_cons_of_mem c hc', hrest⟩

/-- A version on record is the tracked one, or was removed. -/
def Recorded (calls : List Call) (k : MapKey) (resourceVersion : String) : Prop :=
  (∃ v, tracked calls k = some v ∧ v.resourceVersion = resourceVersion) ∨
    Retired calls k resourceVersion

theorem Recorded.other {calls : List Call} {c : Call} {k : MapKey} {rv : String} (hk : c.key ≠ k)
    (h : Recorded calls k rv) : Recorded (c :: calls) k rv := by
  obtain ⟨v, hv, hrv⟩ | h := h
  · exact .inl ⟨v, (tracked_cons_of_ne hk calls).trans hv, hrv⟩
  · exact .inr (.inl h)

theorem Recorded.removed {calls : List Call} {c : Call} {k : MapKey} {rv : String}
    (hr : c.isRemoved = true) (h : Recorded calls k rv) : Recorded (c :: calls) k rv := by
  by_cases hk : c.key = k
  · obtain ⟨v, hv, hrv⟩ | h := h
    · obtain ⟨c', hc', hr', hk', rfl⟩ := exists_update_of_tracked hv
      exact .inr (.inr ⟨hr, hk, c', hc', hr', hk', hrv⟩)
    · exact .inr (.inl h)
  · exact h.other hk

/-! ## Two worlds -/

/-- Two worlds with the same files and the same history; a resource is in its own folder. -/
structure Paired (env : Env) (ctx : Ctx) (body : String → ByteArray) (S : Slot → Prop)
    (calls : List Call) (w₁ w₂ : World) : Prop where
  on : Settles env ctx body S calls w₁
  off : Settles env ctx body S calls w₂
  files : w₁.sys.tree.fileAt = w₂.sys.tree.fileAt
  placed : ∀ k v, tracked calls k = some v → lastFolder calls k = some (destinationFolder ctx v)

/-- The first world checks versions, the second does not. -/
structure Twin (env : Env) (ctx : Ctx) (body : String → ByteArray) (S : Slot → Prop)
    (calls : List Call) (w₁ w₂ : World) : Prop extends Paired env ctx body S calls w₁ w₂ where
  recorded : ∀ (k : MapKey) (rv : String), w₁.maps.version[k]? = some rv → Recorded calls k rv

section Twin

variable {env : Env} {ctx : Ctx} {body : String → ByteArray} {S : Slot → Prop} {calls : List Call}
  {w₁ w₂ : World} {kind : Kind}

theorem Paired.idle {w₁' w₂' : World} (hp : Paired env ctx body S calls w₁ w₂) (h₁ : Idle w₁ w₁')
    (h₂ : Idle w₂ w₂') : Paired env ctx body S calls w₁' w₂' where
  on := hp.on.idle h₁
  off := hp.off.idle h₂
  files := by rw [h₁.sys.tree, h₂.sys.tree, hp.files]
  placed := hp.placed

theorem Twin.hush {w₁' w₂' : World} (ht : Twin env ctx body S calls w₁ w₂) (h₁ : Hush w₁ w₁')
    (h₂ : Hush w₂ w₂') : Twin env ctx body S calls w₁' w₂' where
  toPaired := ht.toPaired.idle h₁.idle h₂.idle
  recorded := by rw [h₁.maps]; exact ht.recorded

theorem Paired.object (hp : Paired env ctx body S calls w₁ w₂) : w₁.maps.object = w₂.maps.object :=
  Std.ExtTreeMap.ext_getElem? fun k => (hp.on.object k).trans (hp.off.object k).symm

theorem Paired.dest (hp : Paired env ctx body S calls w₁ w₂) : w₁.maps.dest = w₂.maps.dest :=
  Std.ExtTreeMap.ext_getElem? fun k => (hp.on.dest k).trans (hp.off.dest k).symm

theorem placed_upsert (hp : ∀ k v, tracked calls k = some v →
      lastFolder calls k = some (destinationFolder ctx v)) (item : Item) :
    ∀ k v, tracked (upsertOf ctx kind item :: calls) k = some v →
      lastFolder (upsertOf ctx kind item :: calls) k = some (destinationFolder ctx v) := by
  intro k v hv
  by_cases hk : (upsertOf ctx kind item).key = k
  · rw [← hk, tracked_cons_self] at hv
    obtain rfl : item = v := Option.some.inj hv
    rw [lastFolder_cons, if_pos ⟨rfl, hk⟩]
    rfl
  · rw [tracked_cons_of_ne hk] at hv
    rw [lastFolder_cons_of_ne hk]
    exact hp k v hv

theorem placed_removed {c : Call} (hr : c.isRemoved = true)
    (hp : ∀ k v, tracked calls k = some v → lastFolder calls k = some (destinationFolder ctx v)) :
    ∀ k v, tracked (c :: calls) k = some v →
      lastFolder (c :: calls) k = some (destinationFolder ctx v) := by
  intro k v hv
  by_cases hk : c.key = k
  · rw [← hk, tracked_cons_self, hr] at hv
    cases hv
  · rw [tracked_cons_of_ne hk] at hv
    rw [lastFolder_cons_of_ne hk]
    exact hp k v hv

variable (hbody : Fetches env ctx body)
include hbody

/-- The same call in both worlds. -/
theorem Paired.both {c : Call} (hp : Paired env ctx body S calls w₁ w₂) (hc₁ : c.Allowed calls w₁)
    (hc₂ : c.Allowed calls w₂) (hsep : Separate env ctx S (c :: calls))
    (hplaced : ∀ k v, tracked (c :: calls) k = some v →
      lastFolder (c :: calls) k = some (destinationFolder ctx v))
    (hfail₁ : (c.run env ctx w₁).2.sys.failures = w₁.sys.failures)
    (hfail₂ : (c.run env ctx w₂).2.sys.failures = w₂.sys.failures) :
    (c.run env ctx w₁).1 = (c.run env ctx w₂).1 ∧
      Paired env ctx body S (c :: calls) (c.run env ctx w₁).2 (c.run env ctx w₂).2 := by
  rw [Call.run_eq] at hfail₁ hfail₂
  obtain ⟨hflag, hfiles⟩ := hp.off.agree hbody hc₂ hsep hfail₂ hp.on hp.files hc₁ hfail₁
  have hon := hp.on.call hbody hc₁ hsep hfail₁
  have hoff := hp.off.call hbody hc₂ hsep hfail₂
  rw [Call.run_eq, Call.run_eq] at *
  exact ⟨hflag, hon, hoff, hfiles, hplaced⟩

/-- An item that the first world skips changes nothing in the second. -/
theorem Twin.skip {item : Item} (ht : Twin env ctx body S calls w₁ w₂)
    (hseen : Maps.Seen kind item w₁.maps)
    (hsep : Separate env ctx S (upsertOf ctx kind item :: calls))
    (hver : Versioned (upsertOf ctx kind item :: calls))
    (hret : ¬Retired calls (kind, item.key) item.resourceVersion)
    (hfail : ((upsertOf ctx kind item).run env ctx w₂).2.sys.failures = w₂.sys.failures) :
    ((upsertOf ctx kind item).run env ctx w₂).1 = false ∧
      Twin env ctx body S (upsertOf ctx kind item :: calls) w₁
        ((upsertOf ctx kind item).run env ctx w₂).2 := by
  -- the version on record is the tracked one, so it is this very item
  have hv : tracked calls (kind, item.key) = some item := by
    obtain ⟨v, hv, hrv⟩ | h := ht.recorded _ _ hseen
    · obtain ⟨c', hc', hr', hk', hcv⟩ := exists_update_of_tracked hv
      have hmem := List.mem_cons_of_mem (upsertOf ctx kind item) hc'
      have hsame := hsep.keys c' hmem _ List.mem_cons_self hk'
      have hitem := hver c' hmem _ List.mem_cons_self hr' rfl hsame (by rw [hcv, hrv]; rfl)
      rw [hv, ← hcv, hitem]
      rfl
    · exact absurd h hret
  have hf := ht.placed _ _ hv
  rw [Call.run_eq] at hfail
  obtain ⟨hflag, hfiles⟩ :=
    ht.off.redundant hbody (c := upsertOf ctx kind item) trivial hsep hfail hv rfl hf
  have hoff := ht.off.call hbody (c := upsertOf ctx kind item) trivial hsep hfail
  rw [Call.run_eq] at hoff ⊢
  have htracked : ∀ k, tracked (upsertOf ctx kind item :: calls) k = tracked calls k := by
    intro k
    by_cases hk : (upsertOf ctx kind item).key = k
    · rw [← hk, tracked_cons_self]
      exact hv.symm
    · exact tracked_cons_of_ne hk calls
  refine ⟨hflag, ⟨ht.on.congr htracked ?_, hoff, ht.files.trans hfiles.symm,
    placed_upsert ht.placed item⟩, ?_⟩
  · intro k
    by_cases hk : (upsertOf ctx kind item).key = k
    · rw [lastFolder_cons, if_pos ⟨rfl, hk⟩, ← hk]
      exact hf.symm
    · exact lastFolder_cons_of_ne hk calls
  · intro k rv hrv
    obtain ⟨v, hv', hrv'⟩ | h := ht.recorded k rv hrv
    · exact .inl ⟨v, (htracked k).trans hv', hrv'⟩
    · exact .inr (.inl h)

/-- **A delivered item** leads to the same in both worlds. -/
theorem Twin.upsert {item : Item} {out₁ out₂ : Bool × World}
    (ht : Twin env ctx body S calls w₁ w₂) (h₁ : Upserted env ctx kind true item w₁ out₁)
    (h₂ : Upserted env ctx kind false item w₂ out₂)
    (hsep : Separate env ctx S (upsertOf ctx kind item :: calls))
    (hver : Versioned (upsertOf ctx kind item :: calls))
    (hret : NoReturn (upsertOf ctx kind item :: calls))
    (hfail₁ : out₁.2.sys.failures = w₁.sys.failures)
    (hfail₂ : out₂.2.sys.failures = w₂.sys.failures) :
    out₁.1 = out₂.1 ∧ Twin env ctx body S (upsertOf ctx kind item :: calls) out₁.2 out₂.2 := by
  obtain ⟨h, -, -, -⟩ | @⟨s₂, -, hs₂, rfl⟩ := h₂
  · cases h
  have hle₂ := (upsertOf ctx kind item).run_traceLe env ctx ⟨s₂, w₂.maps⟩
  replace hfail₂ := (count_squeeze hs₂.trace hle₂ hfail₂).2
  obtain @⟨s₁, -, hseen, hs₁, rfl⟩ | @⟨s₁, -, hs₁, rfl⟩ := h₁
  · have hush₁ : Hush w₁ ⟨s₁, w₁.maps⟩ := ⟨hs₁, rfl⟩
    have hush₂ : Hush w₂ ⟨s₂, w₂.maps⟩ := ⟨hs₂, rfl⟩
    obtain ⟨hflag, ht'⟩ := (ht.hush hush₁ hush₂).skip hbody hseen hsep hver (hret.2 rfl) hfail₂
    exact ⟨hflag.symm, ht'⟩
  · have hle₁ := (upsertOf ctx kind item).run_traceLe env ctx ⟨s₁, w₁.maps.record kind item true⟩
    replace hfail₁ := (count_squeeze hs₁.trace hle₁ hfail₁).2
    obtain ⟨hflag, hp⟩ := (ht.toPaired.idle (idle_record hs₁ kind item true)
      (idle_record hs₂ kind item false)).both hbody (c :=
        upsertOf ctx kind item) trivial trivial hsep
          (placed_upsert ht.placed item) hfail₁ hfail₂
    refine ⟨hflag, hp, fun k rv hrv => ?_⟩
    rw [Call.run_version] at hrv
    -- the version that was recorded is the one that is tracked now
    have hrv' : (w₁.maps.version.insert (kind, item.key) item.resourceVersion)[k]? = some rv := hrv
    rw [HashMap.getElem?_insert] at hrv'
    split at hrv'
    · next hk =>
        exact .inl ⟨item, by rw [← hk]; exact tracked_cons_self _ calls, Option.some.inj hrv'⟩
    · next hk => exact (ht.recorded k rv hrv').other hk

/-- A `DELETED` event leads to the same in both worlds. -/
theorem Twin.delete {item : Item} (ht : Twin env ctx body S calls w₁ w₂)
    (hdata : ∀ v, tracked calls (kind, item.key) = some v →
      item.text = v.text ∧ item.binary = v.binary)
    (hsep : Separate env ctx S (.delete kind item (destinationFolder ctx item) :: calls))
    (hfail₁ : (applyEvent env ctx kind true .deleted item w₁).2.sys.failures = w₁.sys.failures)
    (hfail₂ : (applyEvent env ctx kind false .deleted item w₂).2.sys.failures = w₂.sys.failures) :
    (applyEvent env ctx kind true .deleted item w₁).1 =
        (applyEvent env ctx kind false .deleted item w₂).1 ∧
      Twin env ctx body S (.delete kind item (destinationFolder ctx item) :: calls)
        (applyEvent env ctx kind true .deleted item w₁).2
        (applyEvent env ctx kind false .deleted item w₂).2 := by
  obtain ⟨s₁, hs₁, heq₁⟩ := applyEvent_delete env ctx kind item w₁ true
  obtain ⟨s₂, hs₂, heq₂⟩ := applyEvent_delete env ctx kind item w₂ false
  rw [heq₁] at hfail₁ ⊢
  rw [heq₂] at hfail₂ ⊢
  generalize hcall : Call.delete kind item (destinationFolder ctx item) = c at hsep ⊢
  have hrun : ∀ w, processResource env ctx kind item (some (destinationFolder ctx item)) true w =
      c.run env ctx w := by
    intro w
    rw [← hcall]
    rfl
  have hremoved : c.isRemoved = true := by rw [← hcall]; rfl
  have hallowed : ∀ w, c.Allowed calls w := fun w => hcall ▸ hdata
  rw [hrun] at hfail₁ hfail₂ ⊢
  rw [hrun]
  have hle₁ := c.run_traceLe env ctx ⟨s₁, w₁.maps.forget kind item true⟩
  have hle₂ := c.run_traceLe env ctx ⟨s₂, w₂.maps.forget kind item false⟩
  replace hfail₁ := (count_squeeze hs₁.trace hle₁ hfail₁).2
  replace hfail₂ := (count_squeeze hs₂.trace hle₂ hfail₂).2
  have hidle₁ : Idle w₁ ⟨s₁, w₁.maps.forget kind item true⟩ :=
    ⟨hs₁, Maps.forget_object .., Maps.forget_dest ..⟩
  have hidle₂ : Idle w₂ ⟨s₂, w₂.maps.forget kind item false⟩ :=
    ⟨hs₂, Maps.forget_object .., Maps.forget_dest ..⟩
  obtain ⟨hflag, hp⟩ := (ht.toPaired.idle hidle₁ hidle₂).both hbody (hallowed _) (hallowed _) hsep
      (placed_removed hremoved ht.placed) hfail₁ hfail₂
  refine ⟨hflag, hp, fun k rv hrv => (ht.recorded k rv ?_).removed hremoved⟩
  rw [Call.run_version] at hrv
  dsimp only [Maps.forget] at hrv
  split at hrv
  · have hrv' : (w₁.maps.version.erase (kind, item.key))[k]? = some rv := hrv
    rw [HashMap.getElem?_erase] at hrv'
    split at hrv'
    · cases hrv'
    · exact hrv'
  · exact hrv

/-- The items of a listing, one after the other. -/
theorem Twin.listItems {items : List Item} (ht : Twin env ctx body S calls w₁ w₂)
    (hsep : Separate env ctx S ((items.map (upsertOf ctx kind)).reverse ++ calls))
    (hver : Versioned ((items.map (upsertOf ctx kind)).reverse ++ calls))
    (hret : NoReturn ((items.map (upsertOf ctx kind)).reverse ++ calls))
    (hfail₁ : (listItems env ctx kind true items w₁).2.sys.failures = w₁.sys.failures)
    (hfail₂ : (listItems env ctx kind false items w₂).2.sys.failures = w₂.sys.failures) :
    (listItems env ctx kind true items w₁).1 = (listItems env ctx kind false items w₂).1 ∧
      Twin env ctx body S ((items.map (upsertOf ctx kind)).reverse ++ calls)
        (listItems env ctx kind true items w₁).2 (listItems env ctx kind false items w₂).2 := by
  induction items generalizing calls w₁ w₂ with
  | nil => exact ⟨rfl, ht⟩
  | cons item items ih =>
    rw [List.map_cons, List.reverse_cons, List.append_assoc, List.singleton_append] at *
    rw [listItems_cons] at hfail₁ hfail₂
    rw [listItems_cons, listItems_cons]
    have hsub : ∀ c ∈ upsertOf ctx kind item :: calls,
        c ∈ (items.map (upsertOf ctx kind)).reverse ++ upsertOf ctx kind item :: calls :=
      fun c hc => List.mem_append_right _ hc
    obtain ⟨hfirst₁, hrest₁⟩ := count_squeeze (listItem_le env ctx kind true item w₁)
      (listItems_le env ctx kind true items _) hfail₁
    obtain ⟨hfirst₂, hrest₂⟩ := count_squeeze (listItem_le env ctx kind false item w₂)
      (listItems_le env ctx kind false items _) hfail₂
    obtain ⟨hflag, ht'⟩ := ht.upsert hbody (listItem_upserted env ctx kind true item w₁)
      (listItem_upserted env ctx kind false item w₂) (hsep.mono hsub)
      (fun a ha b hb => hver a (hsub a ha) b (hsub b hb)) hret.suffix hfirst₁ hfirst₂
    obtain ⟨hflag', ht''⟩ := ih ht' hsep hver hret hrest₁ hrest₂
    dsimp only
    rw [hflag, hflag']
    exact ⟨rfl, ht''⟩

omit hbody in
theorem Recorded.cleanups {k : MapKey} {rv : String} (items : List Item) (h : Recorded calls k rv) :
    Recorded ((items.map (Call.cleanup kind)).reverse ++ calls) k rv := by
  induction items generalizing calls with
  | nil => exact h
  | cons item items ih =>
    rw [List.map_cons, List.reverse_cons, List.append_assoc, List.singleton_append]
    exact ih (h.removed (c := .cleanup kind item) rfl)

omit hbody in
/-- Cleanups in another order are the same history. -/
theorem Settles.perm {items items' : List Item} {w : World} (hp : items.Perm items')
    (hs : Settles env ctx body S ((items.map (Call.cleanup kind)).reverse ++ calls) w) :
    Settles env ctx body S ((items'.map (Call.cleanup kind)).reverse ++ calls) w := by
  refine hs.congr (fun k => ?_) fun k => ?_
  · rw [tracked_cleanups, tracked_cleanups]
    exact if_congr (hp.map _).mem_iff.symm rfl rfl
  · rw [lastFolder_cleanups, lastFolder_cleanups]

/-- The stale cleanup, in whatever order the two worlds come to it. -/
theorem Twin.removeStale {stale items₁ items₂ : List Item} (ht : Twin env ctx body S calls w₁ w₂)
    (hp₁ : items₁.Perm stale) (hp₂ : items₂.Perm stale) (hn : (stale.map Item.key).Nodup)
    (hstale : ∀ i ∈ stale, ∃ cached, w₂.maps.object[((kind, i.key) : MapKey)]? = some cached ∧
      i = cached.toRemovalItem)
    (hsep : Separate env ctx S ((stale.map (Call.cleanup kind)).reverse ++ calls))
    (hfail₁ : (removeStale env ctx kind items₁ w₁).2.sys.failures = w₁.sys.failures)
    (hfail₂ : (removeStale env ctx kind items₂ w₂).2.sys.failures = w₂.sys.failures) :
    (removeStale env ctx kind items₁ w₁).1 = (removeStale env ctx kind items₂ w₂).1 ∧
      Twin env ctx body S ((stale.map (Call.cleanup kind)).reverse ++ calls)
        (removeStale env ctx kind items₁ w₁).2 (removeStale env ctx kind items₂ w₂).2 := by
  have hsub : ∀ c ∈ calls, c ∈ (stale.map (Call.cleanup kind)).reverse ++ calls :=
    fun c hc => List.mem_append_right _ hc
  have hmem : ∀ i ∈ stale, Call.cleanup kind i ∈ (stale.map (Call.cleanup kind)).reverse ++ calls :=
    fun i hi => List.mem_append_left _ (List.mem_reverse.2 (List.mem_map_of_mem hi))
  obtain ⟨hflag₁, hfiles₁, hs₁⟩ := ht.on.removeStale hbody hsep hsub
    (fun i hi => hmem i (hp₁.mem_iff.1 hi)) ((hp₁.map _).nodup_iff.2 hn)
    (fun i hi => ht.object ▸ hstale i (hp₁.mem_iff.1 hi)) hfail₁
  obtain ⟨hflag₂, hfiles₂, hs₂⟩ := ht.off.removeStale hbody hsep hsub
    (fun i hi => hmem i (hp₂.mem_iff.1 hi)) ((hp₂.map _).nodup_iff.2 hn)
    (fun i hi => hstale i (hp₂.mem_iff.1 hi)) hfail₂
  have hitems := hp₁.trans hp₂.symm
  refine ⟨?_, ⟨hs₁.perm hp₁, hs₂.perm hp₂, ?_, fun k v hv => ?_⟩, fun k rv hrv => ?_⟩
  · rw [hflag₁, hflag₂]
    exact hitems.any_eq
  · funext p
    rw [hfiles₁, hfiles₂, ht.files]
    refine if_congr ?_ rfl rfl
    simp only [List.mem_flatMap]
    refine exists_congr fun i => and_congr hitems.mem_iff ?_
    have hplaces : stalePlaces env ctx kind w₁.maps i = stalePlaces env ctx kind w₂.maps i :=
      stalePlaces_congr (by rw [ht.dest])
    rw [hplaces]
  · rw [tracked_cleanups] at hv
    rw [lastFolder_cleanups]
    split at hv
    · cases hv
    · exact ht.placed k v hv
  · rw [removeStale_version] at hrv
    exact (ht.recorded k rv hrv).cleanups stale

variable (env) in
omit hbody in
theorem listItems_maps (items : List Item) (w : World) :
    (Sidecar.listItems env ctx kind false items w).2.maps = w.maps.listed ctx kind items := by
  induction items generalizing w with
  | nil => rfl
  | cons item items ih =>
    rw [listItems_cons]
    dsimp only
    rw [ih, listItem_maps]
    rfl

/-- **A list pass** leads to the same in both worlds. -/
theorem Twin.applyListing {ns : String} {items : List Item} (ht : Twin env ctx body S calls w₁ w₂)
    (hwf : w₂.maps.WF)
    (hsep : Separate env ctx S ((Delivery.listing kind ns items).calls ctx w₂.maps ++ calls))
    (hver : Versioned ((Delivery.listing kind ns items).calls ctx w₂.maps ++ calls))
    (hret : NoReturn ((Delivery.listing kind ns items).calls ctx w₂.maps ++ calls))
    (hfail₁ : (applyListing env ctx kind ns true items w₁).2.sys.failures = w₁.sys.failures)
    (hfail₂ : (applyListing env ctx kind ns false items w₂).2.sys.failures = w₂.sys.failures) :
    (applyListing env ctx kind ns true items w₁).1 =
      (applyListing env ctx kind ns false items w₂).1 ∧
      Twin env ctx body S ((Delivery.listing kind ns items).calls ctx w₂.maps ++ calls)
        (applyListing env ctx kind ns true items w₁).2
        (applyListing env ctx kind ns false items w₂).2 := by
  unfold Delivery.calls at *
  dsimp only at *
  rw [List.append_assoc] at *
  rw [← listItems_maps env] at *
  rw [applyListing_eq] at hfail₁ hfail₂
  rw [applyListing_eq, applyListing_eq]
  dsimp only at *
  have hsub : ∀ c ∈ (items.map (upsertOf ctx kind)).reverse ++ calls, c ∈ _ := fun c hc =>
    List.mem_append_right ((staleOf kind ns (items.map Item.key)
      (Sidecar.listItems env ctx kind false items w₂).2.maps).map (Call.cleanup kind)).reverse hc
  have hlist₁ := listItems_le env ctx kind true items w₁
  have hlist₂ := listItems_le env ctx kind false items w₂
  have hstart : Reaches env ctx w₂ [] w₂ := .start
  have hu₂ := (listItems_reaches kind false items hstart).wf hwf
  have hlisted := fun h₁ h₂ => ht.listItems hbody (hsep.mono hsub)
    (fun a ha b hb => hver a (hsub a ha) b (hsub b hb)) hret.suffix h₁ h₂
  generalize Sidecar.listItems env ctx kind true items w₁ = out₁ at *
  generalize Sidecar.listItems env ctx kind false items w₂ = out₂ at *
  obtain ⟨hscan₁, hmaps₁⟩ := staleItems_silent env kind ns (items.map Item.key) out₁.2
  obtain ⟨hscan₂, hmaps₂⟩ := staleItems_silent env kind ns (items.map Item.key) out₂.2
  have hrem₁ := removeStale_le env ctx kind (staleItems env kind ns (items.map Item.key) out₁.2).1
    (staleItems env kind ns (items.map Item.key) out₁.2).2
  have hrem₂ := removeStale_le env ctx kind (staleItems env kind ns (items.map Item.key) out₂.2).1
    (staleItems env kind ns (items.map Item.key) out₂.2).2
  obtain ⟨hfirst₁, hrest₁⟩ := count_squeeze hlist₁ (hscan₁.trace.trans hrem₁) hfail₁
  obtain ⟨hfirst₂, hrest₂⟩ := count_squeeze hlist₂ (hscan₂.trace.trans hrem₂) hfail₂
  obtain ⟨hflag, ht'⟩ := hlisted hfirst₁ hfirst₂
  have hobject : staleOf kind ns (items.map Item.key) out₁.2.maps =
      staleOf kind ns (items.map Item.key) out₂.2.maps := by
    unfold staleOf
    rw [ht'.object]
  have hperm₁ := staleItems_perm env kind ns (items.map Item.key) out₁.2
  have hperm₂ := staleItems_perm env kind ns (items.map Item.key) out₂.2
  rw [hobject] at hperm₁
  obtain ⟨hflag', ht''⟩ :=
    (ht'.hush ⟨hscan₁, hmaps₁⟩ ⟨hscan₂, hmaps₂⟩).removeStale hbody hperm₁ hperm₂
      ((hperm₂.map _).nodup_iff.1 (staleItems_keys_nodup env kind ns _ hu₂))
      (fun i hi => by
        obtain ⟨cached, hc, -, heq⟩ := mem_staleItems hu₂ (hperm₂.mem_iff.2 hi)
        exact ⟨cached, hmaps₂ ▸ hc, heq⟩)
      hsep (count_squeeze hscan₁.trace hrem₁ hrest₁).2 (count_squeeze hscan₂.trace hrem₂ hrest₂).2
  rw [hflag, hflag']
  exact ⟨rfl, ht''⟩

/-- **A delivery** leads to the same in both worlds. -/
theorem Twin.takes {d : Delivery} {f g : Bool} {w₁' w₂' : World}
    (ht : Twin env ctx body S calls w₁ w₂) (h₁ : Takes env ctx true w₁ d f w₁')
    (h₂ : Takes env ctx false w₂ d g w₂') (hsep : Separate env ctx S (d.calls ctx w₂.maps ++ calls))
    (hver : Versioned (d.calls ctx w₂.maps ++ calls))
    (hret : NoReturn (d.calls ctx w₂.maps ++ calls))
    (hdel : DeletesLast (d.calls ctx w₂.maps ++ calls))
    (hfail₁ : w₁'.sys.failures = w₁.sys.failures) (hfail₂ : w₂'.sys.failures = w₂.sys.failures) :
    f = g ∧ Twin env ctx body S (d.calls ctx w₂.maps ++ calls) w₁' w₂' := by
  obtain ⟨u₁, hu₁, rfl, hend₁⟩ := h₁.cases
  obtain ⟨u₂, hu₂, rfl, hend₂⟩ := h₂.cases
  have hle₁ := d.apply_le env ctx true u₁
  have hle₂ := d.apply_le env ctx false u₂
  replace hfail₁ := (count_squeeze hu₁.sys.trace hle₁
    (count_squeeze (hu₁.sys.trace.trans hle₁) hend₁.sys.trace hfail₁).1).2
  replace hfail₂ := (count_squeeze hu₂.sys.trace hle₂
    (count_squeeze (hu₂.sys.trace.trans hle₂) hend₂.sys.trace hfail₂).1).2
  have ht' := ht.hush hu₁ hu₂
  rw [← hu₂.maps] at hsep hver hret hdel ⊢
  suffices h : (d.apply env ctx true u₁).1 = (d.apply env ctx false u₂).1 ∧
      Twin env ctx body S (d.calls ctx u₂.maps ++ calls) (d.apply env ctx true u₁).2
        (d.apply env ctx false u₂).2 from ⟨h.1, h.2.hush hend₁ hend₂⟩
  cases d with
  | listing kind ns items =>
    exact ht'.applyListing hbody ht'.off.wf hsep hver hret hfail₁ hfail₂
  | event kind ev item =>
    have hupsert : ev ≠ .deleted → _ := fun hev =>
      ht'.upsert hbody (applyEvent_upserted env ctx kind true hev item u₁)
        (applyEvent_upserted env ctx kind false hev item u₂)
    cases ev with
    | added => exact hupsert (by decide) hsep hver hret hfail₁ hfail₂
    | modified => exact hupsert (by decide) hsep hver hret hfail₁ hfail₂
    | deleted => exact ht'.delete hbody hdel.2 hsep hfail₁ hfail₂

end Twin

/-! ## Runs -/

/-- The same deliveries in two worlds, with the calls of the second and the outcomes in both, latest
first; between deliveries neither files nor maps change. -/
inductive Lockstep (env : Env) (ctx : Ctx) (a b : World) :
    List Call → List Bool → List Bool → World → World → Prop
  | start : Lockstep env ctx a b [] [] [] a b
  | deliver {calls : List Call} {fs gs : List Bool} {f g : Bool} {w₁ w₂ w₁' w₂' : World}
    (d : Delivery) : Lockstep env ctx a b calls fs gs w₁ w₂ → Takes env ctx true w₁ d f w₁' →
      Takes env ctx false w₂ d g w₂' →
      Lockstep env ctx a b (d.calls ctx w₂.maps ++ calls) (f :: fs) (g :: gs) w₁' w₂'
  | idle {calls : List Call} {fs gs : List Bool} {w₁ w₂ w₁' w₂' : World} :
    Lockstep env ctx a b calls fs gs w₁ w₂ → Hush w₁ w₁' → Hush w₂ w₂' →
      Lockstep env ctx a b calls fs gs w₁' w₂'

section Lockstep

variable {env : Env} {ctx : Ctx} {body : String → ByteArray} {S : Slot → Prop} {a b w₁ w₂ : World}
  {calls : List Call} {fs gs : List Bool}

theorem Lockstep.traceLe (h : Lockstep env ctx a b calls fs gs w₁ w₂) :
    TraceLe a.sys w₁.sys ∧ TraceLe b.sys w₂.sys := by
  induction h with
  | start => exact ⟨List.prefix_rfl, List.prefix_rfl⟩
  | deliver d _ h₁ h₂ ih => exact ⟨ih.1.trans h₁.traceLe, ih.2.trans h₂.traceLe⟩
  | idle _ h₁ h₂ ih => exact ⟨ih.1.trans h₁.sys.trace, ih.2.trans h₂.sys.trace⟩

/-- The run lemma. -/
theorem Lockstep.twin (h : Lockstep env ctx a b calls fs gs w₁ w₂) (hbody : Fetches env ctx body)
    (h₀ : Twin env ctx body S [] a b) (hsep : Separate env ctx S calls) (hver : Versioned calls)
    (hret : NoReturn calls) (hdel : DeletesLast calls) (hfail₁ : w₁.sys.failures = a.sys.failures)
    (hfail₂ : w₂.sys.failures = b.sys.failures) :
    fs = gs ∧ Twin env ctx body S calls w₁ w₂ := by
  induction h with
  | start => exact ⟨rfl, h₀⟩
  | @deliver calls _ _ _ _ w₁ w₂ _ _ d hrun h₁ h₂ ih =>
    obtain ⟨hbefore₁, hstep₁⟩ := count_squeeze hrun.traceLe.1 h₁.traceLe hfail₁
    obtain ⟨hbefore₂, hstep₂⟩ := count_squeeze hrun.traceLe.2 h₂.traceLe hfail₂
    have hsub : ∀ c ∈ calls, c ∈ d.calls ctx w₂.maps ++ calls := fun c hc =>
      List.mem_append_right _ hc
    obtain ⟨hflags, ht⟩ := ih (hsep.mono hsub) (fun a ha b hb => hver a (hsub a ha) b (hsub b hb))
      hret.suffix hdel.suffix hbefore₁ hbefore₂
    obtain ⟨hflag, ht'⟩ := ht.takes hbody h₁ h₂ hsep hver hret hdel hstep₁ hstep₂
    exact ⟨congrArg₂ List.cons hflag hflags, ht'⟩
  | idle hrun h₁ h₂ ih =>
    obtain ⟨hflags, ht⟩ := ih hsep hver hret hdel
      (count_squeeze hrun.traceLe.1 h₁.sys.trace hfail₁).1
      (count_squeeze hrun.traceLe.2 h₂.sys.trace hfail₂).1
    exact ⟨hflags, ht.hush h₁ h₂⟩

/-- **The version check agrees with the plain path.** -/
theorem version_check_agrees (h : Lockstep env ctx a b calls fs gs w₁ w₂) (ha : a.maps = .empty)
    (hb : b.maps = .empty) (hfiles : a.sys.tree.fileAt = b.sys.tree.fileAt)
    (hnone : ∀ slot, Occurs calls slot → b.sys.tree.fileAt (slot.place env ctx) = none)
    (hbody : Fetches env ctx body) (hver : Versioned calls) (hret : NoReturn calls)
    (hdel : DeletesLast calls) (hkeys : DistinctKeys calls)
    (hinj : ∀ x, Occurs calls x → ∀ y, Occurs calls y → x.place env ctx = y.place env ctx → x = y)
    (hfail₁ : w₁.sys.failures = a.sys.failures) (hfail₂ : w₂.sys.failures = b.sys.failures) :
    fs = gs ∧ w₁.maps.object = w₂.maps.object ∧ w₁.maps.dest = w₂.maps.dest ∧
      w₁.sys.tree.fileAt = w₂.sys.tree.fileAt := by
  have hfresh₁ : Fresh env ctx (Occurs calls) a :=
    ⟨by rw [ha]; rfl, by rw [ha]; rfl, fun slot hslot => hfiles ▸ hnone slot hslot⟩
  have hfresh₂ : Fresh env ctx (Occurs calls) b := ⟨by rw [hb]; rfl, by rw [hb]; rfl, hnone⟩
  have h₀ : Twin env ctx body (Occurs calls) [] a b := {
    on := hfresh₁.settles
    off := hfresh₂.settles
    files := hfiles
    placed := fun k v hv => by cases hv
    recorded := fun k rv hrv => by
      rw [ha] at hrv
      have hnone : (Maps.empty.version)[k]? = none := Std.ExtTreeMap.getElem?_empty
      rw [hnone] at hrv
      cases hrv }
  obtain ⟨hflags, ht⟩ := h.twin hbody h₀ ⟨hkeys, hinj, fun _ hx => hx⟩ hver hret hdel hfail₁ hfail₂
  exact ⟨hflags, ht.object, ht.dest, ht.files⟩

/-- A ConfigMap is added, and delivered again after a reconnect. -/
def sampleRedelivered (ignoreAlreadyProcessed : Bool) : World :=
  let item := sampleItem "ns" "a" "1" [("k", "v")]
  let added := (handleEvent sampleEnv sampleCtx .configMap none ignoreAlreadyProcessed .added item
    sampleWorld).2
  (handleEvent sampleEnv sampleCtx .configMap none ignoreAlreadyProcessed .added item added).2

theorem version_check_agrees_sample :
    (sampleRedelivered true).maps.object = (sampleRedelivered false).maps.object ∧
      (sampleRedelivered true).maps.dest = (sampleRedelivered false).maps.dest ∧
      (sampleRedelivered true).sys.tree.fileAt = (sampleRedelivered false).sys.tree.fileAt := by
  have hcall : ∀ c ∈ [upsertOf sampleCtx .configMap (sampleItem "ns" "a" "1" [("k", "v")]),
      upsertOf sampleCtx .configMap (sampleItem "ns" "a" "1" [("k", "v")])],
      c = upsertOf sampleCtx .configMap (sampleItem "ns" "a" "1" [("k", "v")]) := by simp
  refine (version_check_agrees (.deliver (.event .configMap .added _)
    (.deliver (.event .configMap .added (sampleItem "ns" "a" "1" [("k", "v")]))
      .start .event .event)
    .event .event) rfl rfl rfl ?_ sampleEnv_fetches ?_ ?_ ?_ ?_ ?_ ?_ ?_).2
  · intro slot hslot
    revert slot
    simp only [← mem_slotsOf]
    decide +kernel
  · intro c hc c' hc' _ _ _ _
    rw [hcall c hc, hcall c' hc']
  · simp [NoReturn, Retired, Delivery.calls]
  · exact ⟨⟨trivial, trivial⟩, trivial⟩
  · unfold DistinctKeys Call.sameResource
    decide +kernel
  · simp only [← mem_slotsOf]
    decide +kernel
  · decide +kernel
  · decide +kernel

end Lockstep

end Sidecar
