import Sidecar.Reading

/-!
# The cache without payloads

The cache keeps of a resource its key names, and the values of `*.url` keys only. A program that
caches whole resources, and gives whole resources to the leftover removal and to the stale cleanup,
is defined next to the one from the source (`Whole`). Forgetting the payloads of its maps is a
simulation (`cache_agrees`): no removal reads a value that was left out.
-/

namespace Sidecar

open Posix StateM

/-! ## The program that caches whole resources -/

structure WholeMaps where
  version : HashMap String
  object : HashMap Item
  dest : HashMap String

structure WholeWorld where
  sys : Sys
  maps : WholeMaps

namespace Whole

def liftSys {α : Type} (x : M α) : StateM WholeWorld α := fun w =>
  ((x w.sys).1, { w with sys := (x w.sys).2 })

def withMaps {α : Type} (f : WholeMaps → α × WholeMaps) : StateM WholeWorld α := fun w =>
  ((f w.maps).1, { w with maps := (f w.maps).2 })

def enter (m : WholeMaps) (kind : Kind) (item : Item) (destFolder : Option String)
    (isRemoved : Bool) : Old × WholeMaps :=
  let key : MapKey := (kind, item.key)
  let oldItem := m.object[key]?.getD item
  let oldDest := (m.dest[key]?.or destFolder).getD ""
  let m' := if isRemoved then { m with object := m.object.erase key }
    else { m with
      object := m.object.insert key item
      dest := m.dest.insert key (destFolder.getD "") }
  (⟨oldItem, oldDest⟩, m')

def processResource (env : Env) (ctx : Ctx) (kind : Kind) (item : Item)
    (destFolder : Option String) (isRemoved : Bool) : StateM WholeWorld Bool := do
  let old ← withMaps fun m => enter m kind item destFolder isRemoved
  let dest := if isRemoved then old.dest else destFolder.getD ""
  liftSys (syncItem env ctx kind item old dest isRemoved)

def listSeen (m : WholeMaps) (kind : Kind) (item : Item) : Bool × WholeMaps :=
  let k : MapKey := (kind, item.key)
  if m.version[k]? = some item.resourceVersion then (true, m)
  else (false, { m with version := m.version.insert k item.resourceVersion })

def listItem (env : Env) (ctx : Ctx) (kind : Kind) (ignoreAlreadyProcessed : Bool) (item : Item) :
    StateM WholeWorld Bool := do
  let skip ← (if ignoreAlreadyProcessed then withMaps fun m => listSeen m kind item
    else pure false)
  if skip then
    liftSys (log .debug s!"Ignoring {kind.asStr} {item.ns}/{item.name}")
    pure false
  else
    liftSys (log .debug s!"Working on {kind.asStr}: {item.ns}/{item.name}")
    let dest ← liftSys (getDestinationFolder item ctx)
    processResource env ctx kind item (some dest) false

def listItems (env : Env) (ctx : Ctx) (kind : Kind) (ignoreAlreadyProcessed : Bool) :
    List Item → StateM WholeWorld Bool
  | [] => pure false
  | item :: items => do
    let changed ← listItem env ctx kind ignoreAlreadyProcessed item
    let rest ← listItems env ctx kind ignoreAlreadyProcessed items
    pure (changed || rest)

def isStale (kind : Kind) (ns : String) (existKeys : List String) (k : MapKey)
    (item : Item) : Bool :=
  k.1 == kind && (ns == "ALL" || item.ns == ns) && !existKeys.contains k.2

def staleItems (env : Env) (kind : Kind) (ns : String) (existKeys : List String) :
    StateM WholeWorld (List Item) := fun w =>
  let keys := env.hashOrder.order w.sys.scanTick w.maps.object.keys
  (keys.filterMap fun k => w.maps.object[k]?.filter (isStale kind ns existKeys k),
    { w with sys := { w.sys with scanTick := w.sys.scanTick + 1 } })

def removeStaleItem (env : Env) (ctx : Ctx) (kind : Kind) (item : Item) :
    StateM WholeWorld Bool := do
  liftSys (log .debug s!"Removing {kind.asStr}: {item.ns}/{item.name}")
  processResource env ctx kind item none true

def removeStale (env : Env) (ctx : Ctx) (kind : Kind) : List Item → StateM WholeWorld Bool
  | [] => pure false
  | item :: items => do
    let changed ← removeStaleItem env ctx kind item
    let rest ← removeStale env ctx kind items
    pure (changed || rest)

def applyListing (env : Env) (ctx : Ctx) (kind : Kind) (ns : String)
    (ignoreAlreadyProcessed : Bool) (items : List Item) : StateM WholeWorld Bool := do
  let changed ← listItems env ctx kind ignoreAlreadyProcessed items
  let stale ← staleItems env kind ns (items.map Item.key)
  let removed ← removeStale env ctx kind stale
  pure (changed || removed)

def syncListing (env : Env) (ctx : Ctx) (kind : Kind) (ns : String) (requestUrl : Option String)
    (ignoreAlreadyProcessed : Bool) (items : List Item) : StateM WholeWorld (Except WErr Unit) := do
  let filesChanged ← applyListing env ctx kind ns ignoreAlreadyProcessed items
  liftSys (notify env ctx requestUrl filesChanged)

def listResources (env : Env) (ctx : Ctx) (kind : Kind) (ns : String) (requestUrl : Option String)
    (ignoreAlreadyProcessed : Bool) (replies : ListReplies kind) :
    StateM WholeWorld (Option (Except WErr Unit)) := do
  let argsRepr := if ns ≠ "ALL" then s!"\x7b'namespace': '{ns}'\x7d" else "\x7b\x7d"
  liftSys (log .info s!"Performing list-based sync on {kind.asStr} resources: {argsRepr}")
  match ← liftSys (readListing env ctx kind ns replies) with
  | none => pure none
  | some (.error e) => pure (some (.error e))
  | some (.ok items) =>
    let result ← syncListing env ctx kind ns requestUrl ignoreAlreadyProcessed items
    pure (some result)

def watchSeen (m : WholeMaps) (kind : Kind) (ev : EventType) (item : Item) : Bool × WholeMaps :=
  let k : MapKey := (kind, item.key)
  if m.version[k]? = some item.resourceVersion then
    match ev with
    | .added | .modified => (true, m)
    | .deleted => (false, { m with version := m.version.erase k })
  else
    match ev with
    | .added | .modified => (false, { m with version := m.version.insert k item.resourceVersion })
    | .deleted => (false, m)

def applyEvent (env : Env) (ctx : Ctx) (kind : Kind) (ignoreAlreadyProcessed : Bool)
    (ev : EventType) (item : Item) : StateM WholeWorld Bool := do
  let skip ← (if ignoreAlreadyProcessed then withMaps fun m => watchSeen m kind ev item
    else pure false)
  if skip then
    liftSys (log .debug s!"Ignoring {ev.asStr} {kind.asStr} {item.ns}/{item.name}")
    pure false
  else
    liftSys (log .debug s!"Working on {ev.asStr} {kind.asStr} {item.ns}/{item.name}")
    let dest ← liftSys (getDestinationFolder item ctx)
    let itemRemoved := ev == .deleted
    processResource env ctx kind item (some dest) itemRemoved

def handleEvent (env : Env) (ctx : Ctx) (kind : Kind) (requestUrl : Option String)
    (ignoreAlreadyProcessed : Bool) (ev : EventType) (item : Item) :
    StateM WholeWorld (Except WErr Unit) := do
  let filesChanged ← applyEvent env ctx kind ignoreAlreadyProcessed ev item
  liftSys (notify env ctx requestUrl filesChanged)

end Whole

/-! ## What a removal reads -/

/-- The removal of an entry reads its key, and its value if it is a URL. -/
def SameRemoval (e e' : String × Content) : Prop :=
  e.1 = e'.1 ∧ (isUrlKey e.1 = true → e.2 = e'.2)

section Removal

variable (env : Env) (ctx : Ctx) (kind : Kind) {item item' : Item} (hns : item'.ns = item.ns)
  (hname : item'.name = item.name)
include hns hname

theorem updateFile_removal {dataKey : String} {content content' : Content}
    (hurl : isUrlKey dataKey = true → content' = content) (destFolder contentType : String) :
    updateFile env ctx dataKey content' destFolder item' kind contentType true =
      updateFile env ctx dataKey content destFolder item kind contentType true := by
  have hput : ∀ (filename : String) (data data' : ByteArray),
      putFile env ctx dataKey destFolder item' kind contentType true filename data' =
        putFile env ctx dataKey destFolder item kind contentType true filename data := by
    intro filename data data'
    unfold putFile
    rw [hns, hname]
    rfl
  unfold updateFile
  congr 1
  cases hkey : isUrlKey dataKey with
  | true =>
    rw [hurl hkey]
    exact congrArg _ (funext fun out => hput out.1 out.2 out.2)
  | false =>
    funext s
    have hdata : ∀ c : Content, (getFileDataAndName env ctx dataKey c s).1 =
        .ok (dataFileName dataKey, c.bytes) := fun c => by rw [getFileDataAndName_of_plain hkey]
    rw [andThen_ok (hdata content'), andThen_ok (hdata content), getFileDataAndName_of_plain hkey,
      getFileDataAndName_of_plain hkey]
    exact congrFun (hput ..) s

theorem iterateData_removal {es es' : List (String × Content)} (h : List.Forall₂ SameRemoval es' es)
    (destFolder contentType : String) :
    iterateData env ctx destFolder item' kind contentType true es' =
      iterateData env ctx destFolder item kind contentType true es := by
  induction h with
  | nil => rfl
  | @cons e' e es' es he _ ih =>
    obtain ⟨key', content'⟩ := e'
    obtain ⟨key, content⟩ := e
    obtain ⟨rfl, hurl⟩ := he
    unfold iterateData
    rw [ih, updateFile_removal env ctx kind hns hname hurl]

end Removal

/-! ## Forgetting payloads -/

/-- What the cache gives back of an item. -/
def Item.retained (item : Item) : Item := (CachedItem.fromItem item).toRemovalItem

def WholeMaps.strip (m : WholeMaps) : Maps := ⟨m.version, m.object.map fun _ => .fromItem, m.dest⟩

def WholeWorld.strip (w : WholeWorld) : World := ⟨w.sys, w.maps.strip⟩

theorem strip_object (m : WholeMaps) (k : MapKey) :
    m.strip.object[k]? = m.object[k]?.map .fromItem := Std.ExtTreeMap.getElem?_map

/-- The entries that the cache gives back, of those keys that a filter lets through. -/
theorem retained_entries {V : Type} (wrap : V → Content) (elided : V) (keep : String → Bool)
    (m : BTreeMap V) :
    List.Forall₂ SameRemoval
      (mapEntries wrap
        (((m.map keepUrlValue).map fun _ v => v.getD elided).filter fun k _ => keep k))
      (mapEntries wrap (m.filter fun k _ => keep k)) := by
  simp only [mapEntries, Std.ExtTreeMap.toList_filter, Std.ExtTreeMap.toList_map, List.filter_map,
    List.map_map, List.forall₂_map_left_iff, List.forall₂_map_right_iff, List.forall₂_same,
    Function.comp_def]
  refine fun kv _ => ⟨rfl, fun hurl => ?_⟩
  have hends : Text.endsWith kv.1 ".url" = true := by
    unfold isUrlKey Text.stripSuffix at hurl
    split at hurl
    · assumption
    · cases hurl
  simp [keepUrlValue, hends]

theorem retained_entries_all {V : Type} (wrap : V → Content) (elided : V) (m : BTreeMap V) :
    List.Forall₂ SameRemoval
      (mapEntries wrap ((m.map keepUrlValue).map fun _ v => v.getD elided))
      (mapEntries wrap m) := by
  have h := retained_entries wrap elided (fun _ => true) m
  simp only [mapEntries, Std.ExtTreeMap.toList_filter, List.filter_true] at h
  exact h

section Fields

variable (env : Env) (ctx : Ctx) (kind : Kind)

theorem iterateData_retained (item : Item) {es es' : List (String × Content)}
    (h : List.Forall₂ SameRemoval es' es) (destFolder contentType : String) :
    iterateData env ctx destFolder item.retained kind contentType true es' =
      iterateData env ctx destFolder item kind contentType true es :=
  @iterateData_removal env ctx kind item item.retained rfl rfl _ _ h destFolder contentType

/-- A field as the cache gives it back. -/
def retainedField {V : Type} (elided : V) (field : Option (BTreeMap V)) : Option (BTreeMap V) :=
  (field.map fun m => m.map keepUrlValue).map fun m => m.map fun _ v => v.getD elided

theorem applyField_retained {V : Type} (wrap : V → Content) (elided : V) (item : Item)
    (dest contentType : String) (found : Option String) (new : Option (BTreeMap V)) :
    applyField env ctx kind item.retained dest true (mapEntries wrap) contentType found
        (retainedField elided new) =
      applyField env ctx kind item dest true (mapEntries wrap) contentType found new := by
  cases new with
  | none => rfl
  | some m =>
    unfold applyField retainedField
    simp only [Option.map_some]
    rw [iterateData_retained env ctx kind item (retained_entries_all wrap elided m)]

theorem dropLeftovers_retained {V : Type} (wrap : V → Content) (elided : V) (item : Item)
    (oldDest dest : String) (isRemoved : Bool) (contentType : String)
    (new oldField : Option (BTreeMap V)) :
    dropLeftovers env ctx kind ⟨item.retained, oldDest⟩ dest isRemoved
      (mapEntries wrap) contentType new
        (retainedField elided oldField) =
      dropLeftovers env ctx kind ⟨item, oldDest⟩ dest isRemoved (mapEntries wrap) contentType new
        oldField := by
  cases oldField with
  | none => rfl
  | some m =>
    unfold dropLeftovers retainedField
    simp only [Option.map_some]
    congr 1
    by_cases hdest : oldDest = dest
    · rw [if_pos hdest, if_pos hdest]
      exact iterateData_retained env ctx kind item
        (retained_entries wrap elided (fun k => !(new.any fun n => n.contains k)) m) _ _
    · rw [if_neg hdest, if_neg hdest]
      exact iterateData_retained env ctx kind item (retained_entries_all wrap elided m) _ _

/-- Leftovers are removed alike. -/
theorem syncField_old {V : Type} (wrap : V → Content) (elided : V) (item old : Item)
    (oldDest dest : String) (isRemoved : Bool) (contentType : String) (found : Option String)
    (new oldField : Option (BTreeMap V)) :
    syncField env ctx kind item ⟨old.retained, oldDest⟩ dest isRemoved (mapEntries wrap) contentType
        found new (retainedField elided oldField) =
      syncField env ctx kind item ⟨old, oldDest⟩ dest isRemoved (mapEntries wrap) contentType found
        new oldField := by
  unfold syncField
  rw [dropLeftovers_retained]

theorem retained_text (item : Item) : item.retained.text = retainedField "" item.text := rfl

theorem retained_binary (item : Item) :
    item.retained.binary = retainedField ByteArray.empty item.binary := rfl

theorem retainedField_isNone {V : Type} (elided : V) (field : Option (BTreeMap V)) :
    (retainedField elided field).isNone = field.isNone := by
  cases field <;> rfl

theorem syncItem_old (item old : Item) (oldDest dest : String) (isRemoved : Bool) :
    syncItem env ctx kind item ⟨old.retained, oldDest⟩ dest isRemoved =
      syncItem env ctx kind item ⟨old, oldDest⟩ dest isRemoved := by
  unfold syncItem textEntries binEntries
  simp only [retained_text, retained_binary, syncField_old]

/-- A stale resource is removed alike, whatever the old item. -/
theorem syncItem_stale (item : Item) (old old' : Old) (dest : String) :
    syncItem env ctx kind item.retained old' dest true =
      syncItem env ctx kind item old dest true := by
  have hfield : ∀ {V : Type} (i : Item) (o : Old) (entries : BTreeMap V → List (String × Content))
      (ct : String) (found : Option String) (new oldField : Option (BTreeMap V)),
      syncField env ctx kind i o dest true entries ct found new oldField =
        (applyField env ctx kind i dest true entries ct found new >>= fun written =>
          pure (written || false)) := by
    intro V i o entries ct found new oldField
    cases oldField <;> rfl
  unfold syncItem textEntries binEntries
  simp only [retained_text, retained_binary, retainedField_isNone, hfield, applyField_retained]

end Fields

/-! ## The simulation -/

theorem withMaps_simulates {α : Type} {f : WholeMaps → α × WholeMaps} {g : Maps → α × Maps}
    (h : ∀ m, g m.strip = ((f m).1, (f m).2.strip)) :
    Simulates WholeWorld.strip (Whole.withMaps f) (withMaps g) := by
  intro w
  unfold withMaps Whole.withMaps WholeWorld.strip
  dsimp only
  rw [h]

theorem liftSys_simulates {α : Type} (x : M α) :
    Simulates WholeWorld.strip (Whole.liftSys x) (liftSys x) := fun _ => rfl

theorem strip_insert (object : HashMap Item) (k : MapKey) (item : Item) :
    (object.map fun _ => CachedItem.fromItem).insert k (.fromItem item) =
      (object.insert k item).map fun _ => .fromItem := by
  refine Std.ExtTreeMap.ext_getElem? fun a => ?_
  rw [HashMap.getElem?_insert, Std.ExtTreeMap.getElem?_map, Std.ExtTreeMap.getElem?_map,
    HashMap.getElem?_insert]
  split <;> rfl

theorem strip_erase (object : HashMap Item) (k : MapKey) :
    (object.map fun _ => CachedItem.fromItem).erase k = (object.erase k).map fun _ =>
      .fromItem := by
  refine Std.ExtTreeMap.ext_getElem? fun a => ?_
  rw [HashMap.getElem?_erase, Std.ExtTreeMap.getElem?_map, Std.ExtTreeMap.getElem?_map,
    HashMap.getElem?_erase]
  split <;> rfl

/-- The critical section: the old item is what the cache gives back of the whole one. -/
theorem enter_strip (m : WholeMaps) (kind : Kind) (item : Item) (destFolder : Option String)
    (isRemoved : Bool) :
    m.strip.enter kind item destFolder isRemoved =
      (⟨(Whole.enter m kind item destFolder isRemoved).1.item.retained,
          (Whole.enter m kind item destFolder isRemoved).1.dest⟩,
        (Whole.enter m kind item destFolder isRemoved).2.strip) := by
  refine Prod.ext ?_ ?_
  · rw [Maps.enter_old]
    unfold Maps.oldItem Whole.enter
    rw [strip_object]
    dsimp only
    cases m.object[((kind, item.key) : MapKey)]? <;> rfl
  · unfold Maps.enter Whole.enter WholeMaps.strip
    dsimp only
    cases isRemoved with
    | true => simp only [if_true, strip_erase]
    | false => simp only [Bool.false_eq_true, if_false, strip_insert]

section Programs

variable (env : Env) (ctx : Ctx) (kind : Kind)

theorem processResource_simulates (item : Item) (destFolder : Option String) (isRemoved : Bool) :
    Simulates WholeWorld.strip (Whole.processResource env ctx kind item destFolder isRemoved)
      (processResource env ctx kind item destFolder isRemoved) := by
  intro w
  unfold processResource Whole.processResource
  simp only [bind_apply, withMaps, Whole.withMaps, WholeWorld.strip, enter_strip, liftSys,
    Whole.liftSys,
    syncItem_old]

/-- The removal of a stale resource. -/
theorem processResource_stale (item : Item) :
    Simulates WholeWorld.strip (Whole.processResource env ctx kind item none true)
      (processResource env ctx kind item.retained none true) := by
  intro w
  have hdest : (w.maps.strip.enter kind item.retained none true).1.dest =
      (Whole.enter w.maps kind item none true).1.dest := by
    have h := congrArg (fun out => out.1.dest) (enter_strip w.maps kind item none true)
    exact h
  have hmaps : (w.maps.strip.enter kind item.retained none true).2 =
      (Whole.enter w.maps kind item none true).2.strip :=
    congrArg Prod.snd (enter_strip w.maps kind item none true)
  unfold processResource Whole.processResource
  simp only [bind_apply, withMaps, Whole.withMaps, WholeWorld.strip, liftSys,
    Whole.liftSys, if_true,
    hdest, hmaps]
  rw [syncItem_stale env ctx kind item (Whole.enter w.maps kind item none true).1]

theorem listSeen_strip (m : WholeMaps) (item : Item) :
    m.strip.listSeen kind item =
      ((Whole.listSeen m kind item).1, (Whole.listSeen m kind item).2.strip) := by
  unfold Maps.listSeen Whole.listSeen WholeMaps.strip
  dsimp only
  split <;> rfl

theorem watchSeen_strip (m : WholeMaps) (ev : EventType) (item : Item) :
    m.strip.watchSeen kind ev item =
      ((Whole.watchSeen m kind ev item).1, (Whole.watchSeen m kind ev item).2.strip) := by
  unfold Maps.watchSeen Whole.watchSeen WholeMaps.strip
  dsimp only
  split <;> cases ev <;> rfl

theorem listItem_simulates (ignoreAlreadyProcessed : Bool) (item : Item) :
    Simulates WholeWorld.strip (Whole.listItem env ctx kind ignoreAlreadyProcessed item)
      (listItem env ctx kind ignoreAlreadyProcessed item) := by
  refine .bind (.ite (withMaps_simulates fun m => listSeen_strip kind m item) (.pure _)) fun skip =>
    .ite (.bind (liftSys_simulates _) fun _ => .pure _) ?_
  exact .bind (liftSys_simulates _) fun _ => .bind (liftSys_simulates _) fun _ =>
    processResource_simulates env ctx kind item _ _

theorem applyEvent_simulates (ignoreAlreadyProcessed : Bool) (ev : EventType) (item : Item) :
    Simulates WholeWorld.strip (Whole.applyEvent env ctx kind ignoreAlreadyProcessed ev item)
      (applyEvent env ctx kind ignoreAlreadyProcessed ev item) := by
  refine .bind (.ite (withMaps_simulates fun m => watchSeen_strip kind m ev item) (.pure _))
    fun skip => .ite (.bind (liftSys_simulates _) fun _ => .pure _) ?_
  exact .bind (liftSys_simulates _) fun _ => .bind (liftSys_simulates _) fun _ =>
    processResource_simulates env ctx kind item _ _

theorem handleEvent_simulates (requestUrl : Option String) (ignoreAlreadyProcessed : Bool)
    (ev : EventType) (item : Item) :
    Simulates WholeWorld.strip
      (Whole.handleEvent env ctx kind requestUrl ignoreAlreadyProcessed ev item)
      (handleEvent env ctx kind requestUrl ignoreAlreadyProcessed ev item) :=
  .bind (applyEvent_simulates env ctx kind ignoreAlreadyProcessed ev item) fun _ =>
    liftSys_simulates _

theorem listItems_simulates (ignoreAlreadyProcessed : Bool) (items : List Item) :
    Simulates WholeWorld.strip (Whole.listItems env ctx kind ignoreAlreadyProcessed items)
      (listItems env ctx kind ignoreAlreadyProcessed items) := by
  induction items with
  | nil => exact .pure _
  | cons item items ih =>
    exact .bind (listItem_simulates env ctx kind _ item) fun _ => .bind ih fun _ => .pure _

/-- The stale resources: the same keys in the same order. -/
theorem staleItems_strip (ns : String) (existKeys : List String) (w : WholeWorld) :
    staleItems env kind ns existKeys w.strip =
      ((Whole.staleItems env kind ns existKeys w).1.map Item.retained,
        (Whole.staleItems env kind ns existKeys w).2.strip) := by
  unfold staleItems Whole.staleItems
  refine Prod.ext ?_ rfl
  have hkeys : w.strip.maps.object.keys = w.maps.object.keys := Std.ExtTreeMap.keys_map
  dsimp only
  rw [hkeys, List.map_filterMap]
  refine List.filterMap_congr fun k _ => ?_
  have hobj : w.strip.maps.object[k]? = w.maps.object[k]?.map .fromItem := strip_object w.maps k
  rw [hobj]
  cases w.maps.object[k]? with
  | none => rfl
  | some item =>
    have hstale :
        isStale kind ns existKeys k (.fromItem item) = Whole.isStale kind ns existKeys k item :=
      rfl
    simp only [Option.map_some, Option.filter_some, hstale]
    split <;> rfl

theorem removeStale_simulates (items : List Item) :
    Simulates WholeWorld.strip (Whole.removeStale env ctx kind items)
      (removeStale env ctx kind (items.map Item.retained)) := by
  induction items with
  | nil => exact .pure _
  | cons item items ih =>
    exact .bind (liftSys_simulates _) fun _ =>
      .bind (processResource_stale env ctx kind item) fun _ =>
      .bind ih fun _ => .pure _

theorem applyListing_simulates (ns : String) (ignoreAlreadyProcessed : Bool) (items : List Item) :
    Simulates WholeWorld.strip (Whole.applyListing env ctx kind ns ignoreAlreadyProcessed items)
      (applyListing env ctx kind ns ignoreAlreadyProcessed items) :=
  .bind (listItems_simulates env ctx kind ignoreAlreadyProcessed items) fun _ =>
    .bind_map (staleItems_strip env kind ns _) fun stale =>
      .bind (removeStale_simulates env ctx kind stale) fun _ => .pure _

theorem listResources_simulates (ns : String) (requestUrl : Option String)
    (ignoreAlreadyProcessed : Bool) (replies : ListReplies kind) :
    Simulates WholeWorld.strip
      (Whole.listResources env ctx kind ns requestUrl ignoreAlreadyProcessed replies)
      (listResources env ctx kind ns requestUrl ignoreAlreadyProcessed replies) := by
  refine .bind (liftSys_simulates _) fun _ => .bind (liftSys_simulates _) fun out => ?_
  match out with
  | none => exact .pure _
  | some (.error e) => exact .pure _
  | some (.ok items) =>
    exact .bind (.bind (applyListing_simulates env ctx kind ns _ items) fun _ =>
      liftSys_simulates _)
        fun _ => .pure _

end Programs

/-! ## The calls of a list pass, one by one -/

section Flags

variable (env : Env) (ctx : Ctx) (kind : Kind)

def removeStaleItem (item : Item) : StateM World Bool := do
  liftSys (log .debug s!"Removing {kind.asStr}: {item.ns}/{item.name}")
  processResource env ctx kind item none true

/-- `files_changed` of every call of a list pass, in their order; an item that is skipped makes no
call and is no change. -/
def applyListingFlags (ns : String) (ignoreAlreadyProcessed : Bool) (items : List Item) :
    StateM World (List Bool) := do
  let listed ← items.mapM' (listItem env ctx kind ignoreAlreadyProcessed)
  let stale ← staleItems env kind ns (items.map Item.key)
  let removed ← stale.mapM' (removeStaleItem env ctx kind)
  pure (listed ++ removed)

def Whole.applyListingFlags (ns : String) (ignoreAlreadyProcessed : Bool) (items : List Item) :
    StateM WholeWorld (List Bool) := do
  let listed ← items.mapM' (Whole.listItem env ctx kind ignoreAlreadyProcessed)
  let stale ← Whole.staleItems env kind ns (items.map Item.key)
  let removed ← stale.mapM' (Whole.removeStaleItem env ctx kind)
  pure (listed ++ removed)

theorem listItems_flags (ignoreAlreadyProcessed : Bool) (items : List Item) :
    listItems env ctx kind ignoreAlreadyProcessed items =
      (fun flags => flags.any id) <$> items.mapM'
        (listItem env ctx kind ignoreAlreadyProcessed) := by
  induction items with
  | nil => rfl
  | cons item items ih =>
    funext w
    simp only [listItems, List.mapM'_cons, ih, bind_apply, map_apply, pure_apply, List.any_cons, id]

theorem removeStale_flags (items : List Item) :
    removeStale env ctx kind items =
      (fun flags => flags.any id) <$> items.mapM' (removeStaleItem env ctx kind) := by
  induction items with
  | nil => rfl
  | cons item items ih =>
    funext w
    simp only [removeStale, removeStaleItem, List.mapM'_cons, ih, bind_apply, map_apply, pure_apply,
      List.any_cons, id]

/-- A list pass has changed files if one of its calls has. -/
theorem applyListing_flags (ns : String) (ignoreAlreadyProcessed : Bool) (items : List Item) :
    applyListing env ctx kind ns ignoreAlreadyProcessed items =
      (fun flags => flags.any id) <$> applyListingFlags env ctx kind ns
        ignoreAlreadyProcessed items := by
  funext w
  unfold applyListing applyListingFlags
  simp only [listItems_flags, removeStale_flags, bind_apply, map_apply, pure_apply, List.any_append]

theorem applyListingFlags_simulates (ns : String) (ignoreAlreadyProcessed : Bool)
    (items : List Item) :
    Simulates WholeWorld.strip
      (Whole.applyListingFlags env ctx kind ns ignoreAlreadyProcessed items)
      (applyListingFlags env ctx kind ns ignoreAlreadyProcessed items) := by
  refine .bind (.mapM' (fun item => listItem_simulates env ctx kind _ item) items) fun _ =>
    .bind_map (staleItems_strip env kind ns _) fun stale => .bind ?_ fun _ => .pure _
  refine .mapM'_map (fun item => ?_) stale
  exact .bind (liftSys_simulates _) fun _ => processResource_stale env ctx kind item

end Flags

/-! ## Runs -/

/-- A list pass with the server's replies, or a watch event. -/
inductive Step
  | pass (kind : Kind) (ns : String) (requestUrl : Option String) (ignoreAlreadyProcessed : Bool)
    (replies : ListReplies kind)
  | event (kind : Kind) (requestUrl : Option String) (ignoreAlreadyProcessed : Bool)
      (ev : EventType)
    (item : Item)

/-- What a step comes to: the result (`none` while the server has not answered), and `files_changed`
of every call it made. -/
structure Outcome where
  result : Option (Except WErr Unit)
  flags : List Bool

section Runs

variable (env : Env) (ctx : Ctx)

def Step.run : Step → StateM World Outcome
  | .pass kind ns requestUrl ignoreAlreadyProcessed replies => fun w =>
    let out := listResources env ctx kind ns requestUrl ignoreAlreadyProcessed replies w
    let flags := match (startPass env ctx kind ns replies w).1 with
      | some (.ok items) =>
        (applyListingFlags env ctx kind ns ignoreAlreadyProcessed items
          (passStart env ctx kind ns replies w)).1
      | _ => []
    (⟨out.1, flags⟩, out.2)
  | .event kind requestUrl ignoreAlreadyProcessed ev item => fun w =>
    let out := handleEvent env ctx kind requestUrl ignoreAlreadyProcessed ev item w
    (⟨some out.1, [(applyEvent env ctx kind ignoreAlreadyProcessed ev item w).1]⟩, out.2)

def Whole.run : Step → StateM WholeWorld Outcome
  | .pass kind ns requestUrl ignoreAlreadyProcessed replies => fun w =>
    let out := Whole.listResources env ctx kind ns requestUrl ignoreAlreadyProcessed replies w
    let read := startPass env ctx kind ns replies w.strip
    let flags := match read.1 with
      | some (.ok items) =>
        (Whole.applyListingFlags env ctx kind ns ignoreAlreadyProcessed items ⟨read.2, w.maps⟩).1
      | _ => []
    (⟨out.1, flags⟩, out.2)
  | .event kind requestUrl ignoreAlreadyProcessed ev item => fun w =>
    let out := Whole.handleEvent env ctx kind requestUrl ignoreAlreadyProcessed ev item w
    (⟨some out.1, [(Whole.applyEvent env ctx kind ignoreAlreadyProcessed ev item w).1]⟩, out.2)

theorem Step.run_simulates (step : Step) :
    Simulates WholeWorld.strip (Whole.run env ctx step) (step.run env ctx) := by
  cases step with
  | pass kind ns requestUrl ignoreAlreadyProcessed replies =>
    intro w
    have hout := listResources_simulates env ctx kind ns requestUrl ignoreAlreadyProcessed replies w
    have hflags :=
      fun items => applyListingFlags_simulates env ctx kind ns ignoreAlreadyProcessed items
        ⟨(startPass env ctx kind ns replies w.strip).2, w.maps⟩
    unfold Step.run Whole.run
    dsimp only
    rw [hout]
    split
    · next items hitems =>
      have hstart : passStart env ctx kind ns replies w.strip =
          WholeWorld.strip ⟨(startPass env ctx kind ns replies w.strip).2, w.maps⟩ := rfl
      rw [hstart, hflags items]
    · rfl
  | event kind requestUrl ignoreAlreadyProcessed ev item =>
    intro w
    have hout := handleEvent_simulates env ctx kind requestUrl ignoreAlreadyProcessed ev item w
    have hflag := applyEvent_simulates env ctx kind ignoreAlreadyProcessed ev item w
    unfold Step.run Whole.run
    dsimp only
    rw [hout, hflag]

/-- **The cache without payloads** does what one with whole resources does: over any list passes and
events, the same results, the same `files_changed` of every call, the same disk, requests and log
lines (all of them are in the state of the process), and maps with the same keys. -/
theorem cache_agrees (steps : List Step) (s : Sys) :
    let cached := steps.mapM' (Step.run env ctx) ⟨s, .empty⟩
    let whole := steps.mapM' (Whole.run env ctx) ⟨s, ⟨∅, ∅, ∅⟩⟩
    cached.1 = whole.1 ∧ cached.2.sys = whole.2.sys ∧
      cached.2.maps.version = whole.2.maps.version ∧ cached.2.maps.dest = whole.2.maps.dest ∧
      cached.2.maps.object.keys = whole.2.maps.object.keys := by
  have hempty : WholeWorld.strip ⟨s, ⟨∅, ∅, ∅⟩⟩ = ⟨s, .empty⟩ := by
    have hobject : (∅ : HashMap Item).map (fun _ => CachedItem.fromItem) = ∅ :=
      Std.ExtTreeMap.map_eq_empty_iff.2 rfl
    unfold WholeWorld.strip WholeMaps.strip
    dsimp only
    rw [hobject]
    rfl
  have hrun := Simulates.mapM' (Step.run_simulates env ctx) steps ⟨s, ⟨∅, ∅, ∅⟩⟩
  rw [hempty] at hrun
  dsimp only
  rw [hrun]
  exact ⟨rfl, rfl, rfl, rfl, Std.ExtTreeMap.keys_map⟩

end Runs

end Sidecar
