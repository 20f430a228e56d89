import Sidecar.Registry

/-!
# List passes and watch events as calls of `process_resource`

What `listItem`, `applyEvent` and the stale cleanup do around `process_resource`: a version check
that may skip the item, log lines, and the destination folder. Each either skips, which leaves files
and maps alone, or is the call with the item's folder.
-/

namespace Sidecar

open Posix StateM

/-- `process_resource` computes its old item and folder, then runs its plan. -/
theorem processResource_eq (env : Env) (ctx : Ctx) (kind : Kind) (item : Item)
    (destFolder : Option String) (isRemoved : Bool) (w : World) :
    processResource env ctx kind item destFolder isRemoved w =
      (let entered := w.maps.enter kind item destFolder isRemoved
      let dest := if isRemoved then entered.1.dest else destFolder.getD ""
      let out := runActions env ctx kind (plan kind item entered.1 dest isRemoved) w.sys
      (out.1, ⟨out.2, entered.2⟩)) := by
  unfold processResource
  rw [bind_apply, syncItem_eq_runActions]
  rfl

/-- The folder an item is placed in. -/
def destinationFolder (ctx : Ctx) (item : Item) : String :=
  match item.annotations[ctx.folderAnnotation]? with
  | some annotationValue =>
    if isAbsolute annotationValue then annotationValue
    else if Text.endsWith ctx.targetFolder "/" then ctx.targetFolder ++ annotationValue
    else s!"{ctx.targetFolder}/{annotationValue}"
  | none => ctx.targetFolder

theorem getDestinationFolder_fst (item : Item) (ctx : Ctx) (s : Sys) :
    (getDestinationFolder item ctx s).1 = destinationFolder ctx item := by
  unfold getDestinationFolder destinationFolder
  cases item.annotations[ctx.folderAnnotation]? <;> rfl

theorem liftSys_getDestinationFolder_fst (item : Item) (ctx : Ctx) (w : World) :
    (liftSys (getDestinationFolder item ctx) w).1 = destinationFolder ctx item :=
  getDestinationFolder_fst item ctx w.sys

/-! ## What passes and events do to the world -/

section Frame

variable (env : Env) (ctx : Ctx) (kind : Kind)

/-- A relation between worlds that the parts of list passes and events move along. -/
structure World.Frame (R : World → World → Prop) : Prop where
  preorder : Preorder R
  log (level : Level) (msg : String) : Moves R (liftSys (log level msg))
  folder (item : Item) : Moves R (liftSys (getDestinationFolder item ctx))
  listSeen (item : Item) : Moves R (withMaps fun m => m.listSeen kind item)
  watchSeen (ev : EventType) (item : Item) : Moves R (withMaps fun m => m.watchSeen kind ev item)
  scan (ns : String) (existKeys : List String) : Moves R (staleItems env kind ns existKeys)
  process (item : Item) (destFolder : Option String) (isRemoved : Bool) :
    Moves R (processResource env ctx kind item destFolder isRemoved)

namespace World.Frame

variable {env ctx kind} {R : World → World → Prop} (h : World.Frame env ctx kind R)
include h

theorem listItem (ignoreAlreadyProcessed : Bool) (item : Item) :
    Moves R (listItem env ctx kind ignoreAlreadyProcessed item) :=
  .bind h.preorder (.ite (h.listSeen item) (.pure h.preorder _)) fun _ =>
    .ite (.bind h.preorder (h.log _ _) fun _ => .pure h.preorder _)
      (.bind h.preorder (h.log _ _) fun _ => .bind h.preorder (h.folder item) fun _ =>
        h.process _ _ _)

theorem applyEvent (ignoreAlreadyProcessed : Bool) (ev : EventType) (item : Item) :
    Moves R (applyEvent env ctx kind ignoreAlreadyProcessed ev item) :=
  .bind h.preorder (.ite (h.watchSeen ev item) (.pure h.preorder _)) fun _ =>
    .ite (.bind h.preorder (h.log _ _) fun _ => .pure h.preorder _)
      (.bind h.preorder (h.log _ _) fun _ => .bind h.preorder (h.folder item) fun _ =>
        h.process _ _ _)

theorem listItems (ignoreAlreadyProcessed : Bool) (items : List Item) :
    Moves R (listItems env ctx kind ignoreAlreadyProcessed items) := by
  induction items with
  | nil => exact .pure h.preorder _
  | cons item items ih =>
    exact .bind h.preorder (h.listItem _ item) fun _ => .bind h.preorder ih fun _ =>
      .pure h.preorder _

theorem removeStale (items : List Item) : Moves R (removeStale env ctx kind items) := by
  induction items with
  | nil => exact .pure h.preorder _
  | cons item items ih =>
    exact .bind h.preorder (h.log _ _) fun _ => .bind h.preorder (h.process _ _ _) fun _ =>
      .bind h.preorder ih fun _ => .pure h.preorder _

theorem applyListing (ns : String) (ignoreAlreadyProcessed : Bool) (items : List Item) :
    Moves R (applyListing env ctx kind ns ignoreAlreadyProcessed items) :=
  .bind h.preorder (h.listItems _ items) fun _ => .bind h.preorder (h.scan ns _) fun stale =>
    .bind h.preorder (h.removeStale stale) fun _ => .pure h.preorder _

end World.Frame

/-- A preorder on the process alone. -/
theorem World.frame_of_sys {R : Sys → Sys → Prop} (hp : Preorder R)
    (hlog : ∀ level msg, Moves R (log level msg))
    (hscan : ∀ s : Sys, R s { s with scanTick := s.scanTick + 1 })
    (hrun : ∀ as, Moves R (runActions env ctx kind as)) :
    World.Frame env ctx kind fun w w' => R w.sys w'.sys where
  preorder := ⟨fun w => hp.refl w.sys, hp.trans⟩
  log level msg w := hlog level msg w.sys
  folder item w := by
    have hfolder : Moves R (getDestinationFolder item ctx) := by
      unfold getDestinationFolder
      split
      · exact .bind hp (hlog _ _) fun _ => .pure hp _
      · exact .pure hp _
    exact hfolder w.sys
  listSeen item w := hp.refl w.sys
  watchSeen ev item w := hp.refl w.sys
  scan ns existKeys w := hscan w.sys
  process item destFolder isRemoved w := by
    rw [processResource_eq]
    exact hrun _ w.sys

end Frame

/-! ## The trace of a pass -/

/-- What happened to the process is in the trace of its world. -/
def World.Le (w w' : World) : Prop := TraceLe w.sys w'.sys

section Le

variable (env : Env) (ctx : Ctx) (kind : Kind)

theorem World.le_frame : World.Frame env ctx kind World.Le :=
  World.frame_of_sys env ctx kind TraceLe.preorder (fun _ _ => Silent.moves (log_silent _ _))
    (fun _ => List.prefix_rfl) fun as s => (runActions_touches env ctx kind as s).trace

theorem listItem_le (ignoreAlreadyProcessed : Bool) (item : Item) :
    Moves World.Le (listItem env ctx kind ignoreAlreadyProcessed item) :=
  (World.le_frame env ctx kind).listItem _ item

theorem applyEvent_le (ignoreAlreadyProcessed : Bool) (ev : EventType) (item : Item) :
    Moves World.Le (applyEvent env ctx kind ignoreAlreadyProcessed ev item) :=
  (World.le_frame env ctx kind).applyEvent _ ev item

theorem listItems_le (ignoreAlreadyProcessed : Bool) (items : List Item) :
    Moves World.Le (listItems env ctx kind ignoreAlreadyProcessed items) :=
  (World.le_frame env ctx kind).listItems _ items

theorem removeStale_le (items : List Item) : Moves World.Le (removeStale env ctx kind items) :=
  (World.le_frame env ctx kind).removeStale items

theorem applyListing_le (ns : String) (ignoreAlreadyProcessed : Bool) (items : List Item) :
    Moves World.Le (applyListing env ctx kind ns ignoreAlreadyProcessed items) :=
  (World.le_frame env ctx kind).applyListing ns _ items

end Le

/-! ## Reachable maps -/

/-- From reachable maps a program comes to reachable maps. -/
def World.KeepsReachable (w w' : World) : Prop := w.maps.Reachable → w'.maps.Reachable

/-- List passes and events lead to reachable maps only. -/
theorem World.reachable_frame (env : Env) (ctx : Ctx) (kind : Kind) :
    World.Frame env ctx kind World.KeepsReachable where
  preorder := ⟨fun _ h => h, fun h h' hw => h' (h hw)⟩
  log _ _ _ h := h
  folder _ _ h := h
  listSeen item _ h := h.listSeen kind item
  watchSeen ev item _ h := h.watchSeen kind ev item
  scan _ _ _ h := h
  process item destFolder isRemoved w h := by
    rw [processResource_eq]
    exact h.enter kind item destFolder isRemoved

/-! ## One item -/

section Item

variable (env : Env) (ctx : Ctx) (kind : Kind) (item : Item) (w : World)

/-- The maps after the version check of an item that is not skipped. -/
def Maps.record (m : Maps) (ignoreAlreadyProcessed : Bool) : Maps :=
  if ignoreAlreadyProcessed then
    { m with version := m.version.insert (kind, item.key) item.resourceVersion }
  else m

/-- The item was processed in this version. -/
def Maps.Seen (m : Maps) : Prop :=
  m.version[((kind, item.key) : MapKey)]? = some item.resourceVersion

instance (m : Maps) : Decidable (Maps.Seen kind item m) := inferInstanceAs (Decidable (_ = _))

theorem listItem_skip (h : Maps.Seen kind item w.maps) :
    ∃ s, Silent w.sys s ∧ listItem env ctx kind true item w = (false, ⟨s, w.maps⟩) := by
  have hseen : w.maps.listSeen kind item = (true, w.maps) := if_pos h
  refine ⟨_, log_silent .debug s!"Ignoring {kind.asStr} {item.ns}/{item.name}" w.sys, ?_⟩
  unfold listItem
  rw [bind_apply]
  simp only [if_true, withMaps, hseen]
  rfl

/-- The log lines of an item that is not skipped. -/
theorem announce_silent (msg : String) (s : Sys) :
    Silent s (getDestinationFolder item ctx (log .debug msg s).2).2 :=
  Silent.preorder.trans (log_silent .debug msg s) (getDestinationFolder_silent item ctx _)

theorem listItem_run {ignoreAlreadyProcessed : Bool}
    (h : ¬(ignoreAlreadyProcessed = true ∧ Maps.Seen kind item w.maps)) :
    ∃ s, Silent w.sys s ∧ listItem env ctx kind ignoreAlreadyProcessed item w =
      processResource env ctx kind item (some (destinationFolder ctx item)) false
        ⟨s, w.maps.record kind item ignoreAlreadyProcessed⟩ := by
  refine ⟨_, announce_silent ctx item s!"Working on {kind.asStr}: {item.ns}/{item.name}" w.sys, ?_⟩
  unfold listItem
  rw [bind_apply]
  cases ignoreAlreadyProcessed with
  | false =>
    simp only [Bool.false_eq_true, if_false, pure_apply, bind_apply]
    rw [liftSys_getDestinationFolder_fst]
    rfl
  | true =>
    have hseen : w.maps.listSeen kind item = (false, w.maps.record kind item true) :=
      if_neg fun hs => h ⟨rfl, hs⟩
    simp only [if_true, withMaps, hseen, Bool.false_eq_true, if_false, bind_apply]
    rw [liftSys_getDestinationFolder_fst]
    rfl

/-- The maps after the version check of a `DELETED` event. -/
def Maps.forget (m : Maps) (ignoreAlreadyProcessed : Bool) : Maps :=
  if ignoreAlreadyProcessed = true ∧ Maps.Seen kind item m then
    { m with version := m.version.erase (kind, item.key) }
  else m

theorem Maps.watchSeen_of_seen {m : Maps} (h : Maps.Seen kind item m) (ev : EventType) :
    m.watchSeen kind ev item =
      match ev with
      | .added | .modified => (true, m)
      | .deleted => (false, { m with version := m.version.erase (kind, item.key) }) := if_pos h

theorem Maps.watchSeen_of_not_seen {m : Maps} (h : ¬Maps.Seen kind item m) (ev : EventType) :
    m.watchSeen kind ev item =
      match ev with
      | .added | .modified => (false, m.record kind item true)
      | .deleted => (false, m) := if_neg h

theorem applyEvent_skip {ev : EventType} (hev : ev ≠ .deleted) (h : Maps.Seen kind item w.maps) :
    ∃ s, Silent w.sys s ∧ applyEvent env ctx kind true ev item w = (false, ⟨s, w.maps⟩) := by
  have hseen : w.maps.watchSeen kind ev item = (true, w.maps) := by
    rw [Maps.watchSeen_of_seen kind item h]
    cases ev with
    | added => rfl
    | modified => rfl
    | deleted => exact absurd rfl hev
  refine ⟨_, log_silent .debug s!"Ignoring {ev.asStr} {kind.asStr} {item.ns}/{item.name}" w.sys, ?_⟩
  unfold applyEvent
  rw [bind_apply]
  simp only [if_true, withMaps, hseen]
  rfl

/-- An event that is not skipped is a call; only the version map changes before it. -/
theorem applyEvent_call {ignoreAlreadyProcessed : Bool} {ev : EventType} {m : Maps}
    (h : (if ignoreAlreadyProcessed then w.maps.watchSeen kind ev item else (false, w.maps)) =
      (false, m)) :
    ∃ s, Silent w.sys s ∧ applyEvent env ctx kind ignoreAlreadyProcessed ev item w =
      processResource env ctx kind item (some (destinationFolder ctx item)) (ev == .deleted)
        ⟨s, m⟩ := by
  refine ⟨_, announce_silent ctx item
    s!"Working on {ev.asStr} {kind.asStr} {item.ns}/{item.name}" w.sys, ?_⟩
  unfold applyEvent
  rw [bind_apply]
  cases ignoreAlreadyProcessed with
  | false =>
    cases h
    simp only [Bool.false_eq_true, if_false, pure_apply, bind_apply]
    rw [liftSys_getDestinationFolder_fst]
    rfl
  | true =>
    rw [if_pos rfl] at h
    simp only [if_true, withMaps, h, Bool.false_eq_true, if_false, bind_apply]
    rw [liftSys_getDestinationFolder_fst]
    rfl

theorem applyEvent_update {ignoreAlreadyProcessed : Bool} {ev : EventType} (hev : ev ≠ .deleted)
    (h : ¬(ignoreAlreadyProcessed = true ∧ Maps.Seen kind item w.maps)) :
    ∃ s, Silent w.sys s ∧ applyEvent env ctx kind ignoreAlreadyProcessed ev item w =
      processResource env ctx kind item (some (destinationFolder ctx item)) false
        ⟨s, w.maps.record kind item ignoreAlreadyProcessed⟩ := by
  have hremoved : (ev == .deleted) = false := by simpa using hev
  rw [← hremoved]
  refine applyEvent_call env ctx kind item w ?_
  cases ignoreAlreadyProcessed with
  | false => rfl
  | true =>
    rw [if_pos rfl, Maps.watchSeen_of_not_seen kind item fun hs => h ⟨rfl, hs⟩]
    cases ev with
    | added => rfl
    | modified => rfl
    | deleted => exact absurd rfl hev

theorem applyEvent_delete (ignoreAlreadyProcessed : Bool) :
    ∃ s, Silent w.sys s ∧ applyEvent env ctx kind ignoreAlreadyProcessed .deleted item w =
      processResource env ctx kind item (some (destinationFolder ctx item)) true
        ⟨s, w.maps.forget kind item ignoreAlreadyProcessed⟩ := by
  refine applyEvent_call env ctx kind item w ?_
  cases ignoreAlreadyProcessed with
  | false => rfl
  | true =>
    by_cases hs : Maps.Seen kind item w.maps
    · rw [if_pos rfl, Maps.watchSeen_of_seen kind item hs, Maps.forget, if_pos ⟨rfl, hs⟩]
    · rw [if_pos rfl, Maps.watchSeen_of_not_seen kind item hs, Maps.forget, if_neg fun h => hs h.2]

end Item

/-! ## Lists of items -/

section Lists

variable (env : Env) (ctx : Ctx) (kind : Kind)

theorem processResource_maps (item : Item) (destFolder : Option String) (isRemoved : Bool)
    (w : World) : (processResource env ctx kind item destFolder isRemoved w).2.maps =
      (w.maps.enter kind item destFolder isRemoved).2 := by
  rw [processResource_eq]

theorem listItem_maps (item : Item) (w : World) :
    (listItem env ctx kind false item w).2.maps =
      (w.maps.enter kind item (some (destinationFolder ctx item)) false).2 := by
  obtain ⟨s, -, h⟩ := listItem_run env ctx kind item w (by simp : ¬(false = true ∧ _))
  rw [h, processResource_maps]
  rfl

theorem listItems_cons (ignoreAlreadyProcessed : Bool) (item : Item) (items : List Item)
    (w : World) :
    listItems env ctx kind ignoreAlreadyProcessed (item :: items) w =
      (let first := listItem env ctx kind ignoreAlreadyProcessed item w
      let rest := listItems env ctx kind ignoreAlreadyProcessed items first.2
      (first.1 || rest.1, rest.2)) := rfl

theorem removeStale_cons (item : Item) (items : List Item) (w : World) :
    removeStale env ctx kind (item :: items) w =
      (let logged := (log .debug s!"Removing {kind.asStr}: {item.ns}/{item.name}" w.sys).2
      let first := processResource env ctx kind item none true ⟨logged, w.maps⟩
      let rest := removeStale env ctx kind items first.2
      (first.1 || rest.1, rest.2)) := rfl

theorem applyListing_eq (ns : String) (ignoreAlreadyProcessed : Bool) (items : List Item)
    (w : World) :
    applyListing env ctx kind ns ignoreAlreadyProcessed items w =
      (let listed := listItems env ctx kind ignoreAlreadyProcessed items w
      let stale := staleItems env kind ns (items.map Item.key) listed.2
      let removed := removeStale env ctx kind stale.1 stale.2
      (listed.1 || removed.1, removed.2)) := rfl

/-- The keys that are stale, in the order they are cleaned up. -/
def staleKeys (ns : String) (existKeys : List String) (w : World) : List MapKey :=
  (env.hashOrder.order w.sys.scanTick w.maps.object.keys).filter fun k =>
    (w.maps.object[k]?.any (isStale kind ns existKeys k))

theorem staleKeys_nodup (ns : String) (existKeys : List String) (w : World) :
    (staleKeys env kind ns existKeys w).Nodup :=
  (((env.hashOrder.perm _ _).nodup_iff).2 Std.ExtTreeMap.nodup_keys).filter _

theorem mem_staleKeys {ns : String} {existKeys : List String} {w : World} {k : MapKey} :
    k ∈ staleKeys env kind ns existKeys w ↔
      ∃ cached, w.maps.object[k]? = some cached ∧ isStale kind ns existKeys k cached = true := by
  unfold staleKeys
  rw [List.mem_filter, (env.hashOrder.perm _ _).mem_iff, Std.ExtTreeMap.mem_keys,
    Option.any_eq_true]
  constructor
  · rintro ⟨-, cached, hc, hstale⟩
    exact ⟨cached, hc, hstale⟩
  · rintro ⟨cached, hc, hstale⟩
    refine ⟨?_, cached, hc, hstale⟩
    rw [Std.ExtTreeMap.mem_iff_isSome_getElem?, hc]
    rfl

/-- What the stale cleanup removes. -/
theorem staleItems_eq (ns : String) (existKeys : List String) (w : World) :
    (staleItems env kind ns existKeys w).1 =
      (staleKeys env kind ns existKeys w).filterMap fun k =>
        w.maps.object[k]?.map CachedItem.toRemovalItem := by
  unfold staleItems staleKeys
  rw [List.filterMap_filter]
  refine List.filterMap_congr fun k _ => ?_
  cases w.maps.object[k]? with
  | none => rfl
  | some cached =>
    simp only [Option.filter, Option.any]
    split <;> rfl

/-- The items that are cleaned up have the stale keys. -/
theorem staleItems_keys (ns : String) (existKeys : List String) {w : World} (hwf : w.maps.WF) :
    (staleItems env kind ns existKeys w).1.map (fun i => (kind, i.key)) =
      staleKeys env kind ns existKeys w := by
  rw [staleItems_eq, List.map_filterMap]
  conv_rhs => rw [← List.filterMap_some (l := staleKeys env kind ns existKeys w)]
  refine List.filterMap_congr fun k hk => ?_
  obtain ⟨c, hc, hstale⟩ := (mem_staleKeys env kind).1 hk
  have hkind : k.1 = kind := by
    unfold isStale at hstale
    simp only [Bool.and_eq_true, beq_iff_eq] at hstale
    exact hstale.1.1
  rw [hc]
  have hkey := hwf.key k c hc
  simp only [Option.map_some, Option.some.injEq]
  rw [← hkind]
  exact Prod.ext rfl hkey.symm

theorem staleItems_silent (ns : String) (existKeys : List String) (w : World) :
    Silent w.sys (staleItems env kind ns existKeys w).2.sys ∧
      (staleItems env kind ns existKeys w).2.maps = w.maps :=
  ⟨⟨List.prefix_rfl, rfl, rfl⟩, rfl⟩

end Lists

/-! ## Sample worlds -/

/-- ConfigMaps are added one after the other. -/
def sampleAdded (items : List Item) : World :=
  items.foldl
    (fun w item => (applyEvent sampleEnv sampleCtx .configMap false .added item w).2) sampleWorld

theorem sampleAdded_reachable (items : List Item) : (sampleAdded items).maps.Reachable := by
  suffices h : ∀ w : World, w.maps.Reachable → (items.foldl (fun w item =>
      (applyEvent sampleEnv sampleCtx .configMap false .added item w).2) w).maps.Reachable from
    h sampleWorld .empty
  induction items with
  | nil => exact fun w h => h
  | cons item items ih =>
    exact fun w h => ih _
      ((World.reachable_frame sampleEnv sampleCtx .configMap).applyEvent false .added item w h)

theorem mem_sample_entries (ns name resourceVersion : String) : ⟨contentTypeText, "k", .text "v"⟩ ∈
    (sampleItem ns name resourceVersion [("k", "v")]).entries .configMap := by
  have hentries : (sampleItem ns name resourceVersion [("k", "v")]).entries .configMap =
      [⟨contentTypeText, "k", .text "v"⟩] := rfl
  rw [hentries]
  exact List.mem_singleton_self _

end Sidecar
