import Sidecar.Lib.Feed
import Sidecar.Versions

/-!
# Watching with gaps

The initial list pass files the resources that match. From then on a connection starts with an
`ADDED` event for every resource that matches and goes on with every change, so the watcher is a
replica that is fed with gaps (`Watch.Sound` maps its runs to runs of `Feed`). A resource that is
deleted while no connection is open keeps its entry (`stale_survives_reconnect`); there are no other
such entries (`watch_follows_cluster`).
-/

namespace Sidecar

open Posix StateM

/-! ## Entries -/

/-- A watcher of the namespace covers the namespace of a resource. -/
def InScope (ns itemNs : String) : Prop := ns = "ALL" ∨ itemNs = ns

/-- `object` has an entry under the key, for a resource the watcher covers. -/
def HasEntry (kind : Kind) (ns : String) (m : Maps) (key : String) : Prop :=
  ∃ cached, m.object[((kind, key) : MapKey)]? = some cached ∧ InScope ns cached.ns

/-- The maps agree on the resources a watcher covers. -/
def AgreeIn (kind : Kind) (ns : String) (m m' : Maps) : Prop :=
  ∀ item : Item, InScope ns item.ns →
    m'.object[((kind, item.key) : MapKey)]? = m.object[((kind, item.key) : MapKey)]? ∧
    m'.version[((kind, item.key) : MapKey)]? = m.version[((kind, item.key) : MapKey)]?

section Entries

variable {kind : Kind} {ns : String} {m m' : Maps}

theorem AgreeIn.symm (h : AgreeIn kind ns m m') : AgreeIn kind ns m' m := fun item hi =>
  ⟨(h item hi).1.symm, (h item hi).2.symm⟩

/-- An entry is that of a resource. -/
theorem Maps.WF.exists_item (hwf : m.WF) {key : String} {cached : CachedItem}
    (hc : m.object[((kind, key) : MapKey)]? = some cached) :
    ∃ item : Item, item.key = key ∧ item.ns = cached.ns :=
  ⟨cached.toRemovalItem, (hwf.key _ cached hc).symm, rfl⟩

theorem AgreeIn.hasEntry (h : AgreeIn kind ns m m') (hwf : m.WF) {key : String}
    (he : HasEntry kind ns m key) : HasEntry kind ns m' key := by
  obtain ⟨cached, hc, hns⟩ := he
  obtain ⟨item, rfl, heq⟩ := hwf.exists_item hc
  exact ⟨cached, (h item (heq ▸ hns)).1.trans hc, hns⟩

theorem AgreeIn.hasEntry_eq (h : AgreeIn kind ns m m') (hwf : m.WF) (hwf' : m'.WF) :
    HasEntry kind ns m' = HasEntry kind ns m :=
  funext fun _ => propext ⟨h.symm.hasEntry hwf', h.hasEntry hwf⟩

end Entries

/-! ## One event -/

abbrev WatchEvent := EventType × Item

def WatchEvent.change : WatchEvent → Feed.Change String
  | (.deleted, item) => .del item.key
  | (.added, item) | (.modified, item) => .put item.key

theorem WatchEvent.change_key (e : WatchEvent) : e.change.key = e.2.key := by
  obtain ⟨ev, item⟩ := e
  cases ev <;> rfl

theorem WatchEvent.change_update {ev : EventType} (h : ev ≠ .deleted) (item : Item) :
    WatchEvent.change (ev, item) = .put item.key := by
  cases ev with
  | added => rfl
  | modified => rfl
  | deleted => exact absurd rfl h

/-- The key of a resource and its version. -/
def Item.revision (item : Item) : String × String := (item.key, item.resourceVersion)

section Event

variable {env : Env} {ctx : Ctx} {kind : Kind} {ns : String} {ignoreAlreadyProcessed : Bool}
  {item : Item} {w : World}

/-- An update that is not skipped, or is on record for an entry, makes an entry. -/
theorem Upserted.hasEntry {out : Bool × World}
    (h : Upserted env ctx kind ignoreAlreadyProcessed item w out) (hns : InScope ns item.ns)
    (hseen : Maps.Seen kind item w.maps → HasEntry kind ns w.maps item.key) :
    {k | HasEntry kind ns out.2.maps k} = insert item.key {k | HasEntry kind ns w.maps k} := by
  obtain ⟨-, hs, -, rfl⟩ | ⟨-, -, rfl⟩ := h
  · have hmem : item.key ∈ {k | HasEntry kind ns w.maps k} := hseen hs
    exact (Set.insert_eq_of_mem hmem).symm
  · ext k
    simp only [Set.mem_ofPred_eq, Set.mem_insert_iff, HasEntry, Call.run_eq, Maps.enter_object]
    by_cases hk : k = item.key
    · subst hk
      refine iff_of_true ⟨.fromItem item, if_pos rfl, hns⟩ (.inl rfl)
    · have hne : ((kind, item.key) : MapKey) ≠ (kind, k) := fun e => hk (Prod.mk.inj e).2.symm
      rw [if_neg
        (show ¬((upsertOf ctx kind item).kind, (upsertOf ctx kind item).item.key) = (kind, k)
        from hne), Maps.record_object, or_iff_right hk]

/-- A `DELETED` event takes the entry of its resource. -/
theorem applyEvent_delete_hasEntry :
    {k | HasEntry kind ns
      (applyEvent env ctx kind ignoreAlreadyProcessed .deleted item w).2.maps k} =
      {k | HasEntry kind ns w.maps k} \ {item.key} := by
  obtain ⟨s, -, heq⟩ := applyEvent_delete env ctx kind item w ignoreAlreadyProcessed
  ext k
  simp only [Set.mem_ofPred_eq, Set.mem_sdiff, Set.mem_singleton_iff, HasEntry, heq,
    processResource_maps, Maps.enter_object, Maps.forget_object]
  by_cases hk : k = item.key
  · subst hk
    simp
  · have hne : ((kind, item.key) : MapKey) ≠ (kind, k) := fun e => hk (Prod.mk.inj e).2.symm
    simp [hne, hk]

/-- **One event** changes the entries as it says. -/
theorem handleEvent_hasEntry (requestUrl : Option String) {e : WatchEvent}
    (hns : e.1 ≠ .deleted → InScope ns e.2.ns)
    (hseen : e.1 ≠ .deleted → Maps.Seen kind e.2 w.maps → HasEntry kind ns w.maps e.2.key) :
    {k | HasEntry kind ns
        (handleEvent env ctx kind requestUrl ignoreAlreadyProcessed e.1 e.2 w).2.maps k} =
      e.change.apply {k | HasEntry kind ns w.maps k} := by
  obtain ⟨ev, item⟩ := e
  have hmaps : (handleEvent env ctx kind requestUrl ignoreAlreadyProcessed ev item w).2.maps =
      (applyEvent env ctx kind ignoreAlreadyProcessed ev item w).2.maps := rfl
  by_cases hev : ev = .deleted
  · subst hev
    exact applyEvent_delete_hasEntry
  · rw [hmaps, WatchEvent.change_update hev]
    exact (applyEvent_upserted env ctx kind ignoreAlreadyProcessed hev item w).hasEntry (hns hev)
      (hseen hev)

theorem Upserted.version_cases {out : Bool × World} {k : MapKey} {rv : String}
    (h : Upserted env ctx kind ignoreAlreadyProcessed item w out)
    (hrv : out.2.maps.version[k]? = some rv) :
    w.maps.version[k]? = some rv ∨ (kind, item.key) = k ∧ item.resourceVersion = rv := by
  by_cases hk : (kind, item.key) = k
  · subst hk
    obtain ⟨-, -, -, rfl⟩ | ⟨-, -, rfl⟩ := h
    · exact .inl hrv
    · rw [Call.run_version] at hrv
      cases ignoreAlreadyProcessed with
      | false => exact .inl hrv
      | true =>
        have hinsert := HashMap.getElem?_insert w.maps.version (kind, item.key) item.resourceVersion
          (kind, item.key)
        rw [if_pos rfl] at hinsert
        exact .inr ⟨rfl, Option.some.inj (hinsert.symm.trans hrv)⟩
  · rw [h.version_other hk] at hrv
    exact .inl hrv

/-- What is on record after an event was so before, or is what it delivered. -/
theorem handleEvent_version (requestUrl : Option String) {e : WatchEvent} {k : MapKey} {rv : String}
    (hrv : (handleEvent env ctx kind requestUrl ignoreAlreadyProcessed e.1 e.2
      w).2.maps.version[k]? =
      some rv) :
    w.maps.version[k]? = some rv ∨
      e.1 ≠ .deleted ∧ (kind, e.2.key) = k ∧ e.2.resourceVersion = rv := by
  obtain ⟨ev, item⟩ := e
  have hrv' :
      (applyEvent env ctx kind ignoreAlreadyProcessed ev item w).2.maps.version[k]? = some rv :=
    hrv
  by_cases hev : ev = .deleted
  · subst hev
    obtain ⟨s, -, heq⟩ := applyEvent_delete env ctx kind item w ignoreAlreadyProcessed
    rw [heq, processResource_maps, Maps.enter_version] at hrv'
    dsimp only [Maps.forget] at hrv'
    split at hrv'
    · have herase := HashMap.getElem?_erase w.maps.version (kind, item.key) k
      split at herase
      · cases herase.symm.trans hrv'
      · exact .inl (herase.symm.trans hrv')
    · exact .inl hrv'
  · exact ((applyEvent_upserted env ctx kind ignoreAlreadyProcessed hev item w).version_cases
      hrv').imp_right fun h => ⟨hev, h⟩

end Event

/-! ## The initial list pass -/

/-- There is nothing in the maps of any resource the watcher covers. -/
def Maps.Blank (kind : Kind) (ns : String) (m : Maps) : Prop :=
  ∀ item : Item, InScope ns item.ns → m.object[((kind, item.key) : MapKey)]? = none ∧
    m.version[((kind, item.key) : MapKey)]? = none

section Initial

variable {env : Env} {ctx : Ctx} {kind : Kind} {ns : String} {ignoreAlreadyProcessed : Bool}
  {items : List Item} {w₀ w : World} {calls : List Call}

/-- After calls about different resources the entry of each is what its call left. -/
theorem Reaches.object_of_mem (h : Reaches env ctx w₀ calls w) (hn : (calls.map Call.key).Nodup)
    {c : Call} (hc : c ∈ calls) :
    w.maps.object[c.key]? = if c.isRemoved then none else some (.fromItem c.item) := by
  induction h with
  | start => cases hc
  | @call calls w c' _ _ ih =>
    rw [List.map_cons, List.nodup_cons] at hn
    rw [Call.run_eq, Maps.enter_object]
    rcases List.mem_cons.1 hc with rfl | hc
    · exact if_pos rfl
    · have hne : ((c'.kind, c'.item.key) : MapKey) ≠ c.key := fun e =>
        hn.1 (List.mem_map.2 ⟨c, hc, e.symm⟩)
      rw [if_neg hne]
      exact ih hn.2 hc
  | idle _ hidle ih =>
    rw [hidle.object]
    exact ih hn hc

theorem listItems_version_cases {k : MapKey} {rv : String}
    (hrv : (listItems env ctx kind ignoreAlreadyProcessed items w).2.maps.version[k]? = some rv) :
    w.maps.version[k]? = some rv ∨
      ∃ item ∈ items, (kind, item.key) = k ∧ item.resourceVersion = rv := by
  induction items generalizing w with
  | nil => exact .inl hrv
  | cons item items ih =>
    rw [listItems_cons] at hrv
    obtain h | ⟨i, hi, h⟩ := ih hrv
    · exact ((listItem_upserted env ctx kind ignoreAlreadyProcessed item
        w).version_cases h).imp_right
        fun h => ⟨item, List.mem_cons_self, h⟩
    · exact .inr ⟨i, List.mem_cons_of_mem item hi, h⟩

/-- On blank maps a list pass makes an entry for each of its items. -/
theorem applyListing_hasEntry (hblank : w.maps.Blank kind ns) (hwf : w.maps.WF)
    (hn : (items.map Item.key).Nodup) (hscope : ∀ item ∈ items, InScope ns item.ns) :
    HasEntry kind ns (applyListing env ctx kind ns ignoreAlreadyProcessed items w).2.maps =
      (· ∈ items.map Item.key) := by
  obtain ⟨calls, hreach, hcalls⟩ := applyListing_calls env ctx kind ns ignoreAlreadyProcessed hwf hn
  funext key
  refine propext ⟨fun ⟨cached, hc, hns⟩ => ?_, fun hkey => ?_⟩
  · by_contra hnot
    -- a key that is not listed has no call, so its entry would have been there before
    have hother : ∀ c ∈ calls, c.key ≠ (kind, key) := by
      intro c hcall hk
      obtain ⟨stale, hs, hstale, rfl⟩ | ⟨item, hitem, rfl⟩ := hcalls.cases c hcall
      · have hin : InScope ns stale.toRemovalItem.ns := by
          unfold isStale at hstale
          simp only [Bool.and_eq_true, Bool.or_eq_true, beq_iff_eq] at hstale
          exact hstale.1.2
        cases (hblank _ hin).1.symm.trans hs
      · exact hnot ((Prod.mk.inj hk).2 ▸ List.mem_map_of_mem ((due_sublist ..).mem hitem))
    rw [(hreach.maps_other hother).1] at hc
    obtain ⟨item, rfl, heq⟩ := hwf.exists_item hc
    cases (hblank item (heq ▸ hns)).1.symm.trans hc
  · obtain ⟨item, hi, rfl⟩ := List.mem_map.1 hkey
    have hdue : ¬(ignoreAlreadyProcessed = true ∧ Maps.Seen kind item w.maps) := fun hs => by
      cases (hblank item (hscope item hi)).2.symm.trans hs.2
    exact ⟨_, hreach.object_of_mem hcalls.nodup (hcalls.due item (mem_due hn hi hdue)),
      hscope item hi⟩

end Initial

/-! ## The watcher and the cluster -/

/-- A watcher in watch mode, the resources that match, and what is on its way to it. The sets and
the last two lists are for stating what a run may do and what holds of it. -/
structure Watch where
  cluster : List Item
  /-- The events to come, while connected. -/
  link : Option (List WatchEvent)
  world : World
  /-- The resources that had an entry but did not match when the connection was opened, as far as
  they have not changed since. -/
  orphans : Set String
  /-- The resources whose `DELETED` event was not sent or was lost. -/
  missed : Set String
  /-- What ever matched. -/
  born : List (String × String)
  /-- What was ever delivered. -/
  delivered : List (String × String)

/-- A change of the resources that match. No version of a resource comes twice. -/
inductive ClusterChange (ns : String) (born : List (String × String)) (cluster : List Item) :
    WatchEvent → List Item → Prop
  | create {item : Item} : InScope ns item.ns → item.key ∉ cluster.map Item.key →
    item.revision ∉ born → ClusterChange ns born cluster (.added, item) (item :: cluster)
  | update {item : Item} : InScope ns item.ns → item.key ∈ cluster.map Item.key →
    item.revision ∉ born → ClusterChange ns born cluster (.modified, item)
      (cluster.map fun i => if i.key = item.key then item else i)
  | delete {item : Item} : item.key ∈ cluster.map Item.key →
    ClusterChange ns born cluster (.deleted, item) (cluster.filter fun i => i.key ≠ item.key)

/-- The resources whose deletion is among the events. -/
def deletions (events : List WatchEvent) : Set String :=
  {k | Feed.Change.del k ∈ events.map WatchEvent.change}

section Runs

variable (env : Env) (ctx : Ctx) (kind : Kind) (ns : String) (requestUrl : Option String)
  (ignoreAlreadyProcessed : Bool)

/-- The cluster changes, a connection is opened, delivers or ends, or another task runs. -/
inductive WatchStep : Watch → Watch → Prop
  | live {st : Watch} {events : List WatchEvent} {e : WatchEvent} {cluster : List Item} :
    st.link = some events → ClusterChange ns st.born st.cluster e cluster →
    WatchStep st { st with
      cluster := cluster, link := some (events ++ [e]), orphans := st.orphans \ {e.2.key},
      born := e.2.revision :: st.born }
  | gap {st : Watch} {e : WatchEvent} {cluster : List Item} :
    st.link = none → ClusterChange ns st.born st.cluster e cluster →
    WatchStep st { st with
      cluster := cluster, missed := st.missed ∪ deletions [e], born := e.2.revision :: st.born }
  | connect {st : Watch} {burst : List Item} : st.link = none → burst.Perm st.cluster →
    WatchStep st { st with
      link := some (burst.map fun item => (.added, item)),
      orphans := {k | HasEntry kind ns st.world.maps k} \ {k | k ∈ st.cluster.map Item.key} }
  | deliver {st : Watch} {e : WatchEvent} {events : List WatchEvent} :
      st.link = some (e :: events) →
    (handleEvent env ctx kind requestUrl ignoreAlreadyProcessed e.1 e.2 st.world).1 = .ok () →
    WatchStep st { st with
      link := some events,
      world := (handleEvent env ctx kind requestUrl ignoreAlreadyProcessed e.1 e.2 st.world).2,
      delivered := if e.1 = .deleted then st.delivered else e.2.revision :: st.delivered }
  | fail {st : Watch} {e : WatchEvent} {events : List WatchEvent} {err : WErr} :
    st.link = some (e :: events) →
    (handleEvent env ctx kind requestUrl ignoreAlreadyProcessed e.1 e.2 st.world).1 = .error err →
    WatchStep st { st with
      link := none, missed := st.missed ∪ deletions events,
      world := (handleEvent env ctx kind requestUrl ignoreAlreadyProcessed e.1 e.2 st.world).2,
      delivered := if e.1 = .deleted then st.delivered else e.2.revision :: st.delivered }
  | drop {st : Watch} {events : List WatchEvent} : st.link = some events →
    WatchStep st { st with link := none, missed := st.missed ∪ deletions events }
  | other {st : Watch} {w : World} : w.maps.Reachable → AgreeIn kind ns st.world.maps w.maps →
    WatchStep st { st with world := w }

/-- What the initial list pass and then watching lead to. -/
inductive Watched : Watch → Prop
  | start {w : World} {initUrl : Option String} {replies : ListReplies kind} {items : List Item} :
    w.maps.Reachable → w.maps.Blank kind ns →
    (startPass env ctx kind ns replies w).1 = some (.ok items) → (items.map Item.key).Nodup →
    (∀ item ∈ items, InScope ns item.ns) →
    (listResources env ctx kind ns initUrl true replies w).1 = some (.ok ()) →
    Watched ⟨items, none, (listResources env ctx kind ns initUrl true replies w).2, ∅, ∅,
      items.map Item.revision, items.map Item.revision⟩
  | step {st st' : Watch} : Watched st →
    WatchStep env ctx kind ns requestUrl ignoreAlreadyProcessed st st' → Watched st'

end Runs

/-! ## The invariant -/

/-- The items of updates among the events. -/
def puts (events : List WatchEvent) : List Item :=
  events.filterMap fun e => if e.1 = .deleted then none else some e.2

/-- Past a `DELETED` event there is no version of its resource that was delivered before it. -/
def Ordered (cluster : List Item) : List (String × String) → List WatchEvent → Prop
  | _, [] => True
  | seen, e :: events =>
    if e.1 = .deleted then
      (∀ i ∈ puts events ++ cluster, i.key = e.2.key → i.revision ∉ seen) ∧
        Ordered cluster seen events
    else Ordered cluster (e.2.revision :: seen) events

section Order

variable {cluster cluster' : List Item} {seen : List (String × String)} {e : WatchEvent}
  {events : List WatchEvent}

theorem puts_deleted (h : e.1 = .deleted) (events : List WatchEvent) :
    puts (e :: events) = puts events := by
  simp [puts, h]

theorem puts_update (h : e.1 ≠ .deleted) (events : List WatchEvent) :
    puts (e :: events) = e.2 :: puts events := by
  simp [puts, h]

theorem puts_append (es es' : List WatchEvent) : puts (es ++ es') = puts es ++ puts es' :=
  List.filterMap_append

theorem puts_added (items : List Item) :
    puts (items.map fun item => ((.added, item) : WatchEvent)) = items := by
  simp [puts, List.filterMap_map]

theorem ordered_added (items : List Item) :
    Ordered cluster seen (items.map fun item => (.added, item)) := by
  induction items generalizing seen with
  | nil => trivial
  | cons item items ih =>
    rw [List.map_cons, Ordered, if_neg (by simp)]
    exact ih

/-- A change of the cluster joins the events. -/
theorem Ordered.snoc (h : Ordered cluster seen events)
    (hnew : ∀ i ∈ puts [e] ++ cluster', i ∈ cluster ∨
      i.revision ∉ seen ∧ i.revision ∉ (puts events).map Item.revision)
    (hgone : e.1 = .deleted → ∀ i ∈ cluster', i.key ≠ e.2.key) :
    Ordered cluster' seen (events ++ [e]) := by
  induction events generalizing seen with
  | nil =>
    rw [List.nil_append, Ordered]
    split
    · next hdel => exact ⟨fun i hi hk => absurd hk (hgone hdel i hi), trivial⟩
    · trivial
  | cons d events ih =>
    rw [Ordered] at h
    rw [List.cons_append, Ordered]
    split at h
    · next hdel =>
      rw [if_pos hdel]
      rw [puts_deleted hdel] at hnew
      refine ⟨fun i hi hk => ?_, ih h.2 hnew⟩
      rw [puts_append, List.append_assoc, List.mem_append] at hi
      obtain hi | hi := hi
      · exact h.1 i (List.mem_append_left _ hi) hk
      · obtain hold | ⟨hseen, -⟩ := hnew i hi
        · exact h.1 i (List.mem_append_right _ hold) hk
        · exact hseen
    · next hup =>
      rw [if_neg hup]
      refine ih h fun i hi => (hnew i hi).imp_right fun ⟨hseen, hputs⟩ => ?_
      rw [puts_update hup, List.map_cons, List.mem_cons, not_or] at hputs
      refine ⟨fun hmem => ?_, hputs.2⟩
      rcases List.mem_cons.1 hmem with hmem | hmem
      · exact hputs.1 hmem
      · exact hseen hmem

end Order

/-- The resources that are on their way or match. -/
def Watch.coming (st : Watch) : List Item := puts (st.link.getD []) ++ st.cluster

/-- A watcher as a replica that is fed. -/
def Watch.feed (kind : Kind) (ns : String) (st : Watch) : Feed.State String where
  source := {k | k ∈ st.cluster.map Item.key}
  replica := {k | HasEntry kind ns st.world.maps k}
  link := st.link.map (List.map WatchEvent.change)
  orphans := st.orphans
  missed := st.missed

/-- A run is a run of a fed replica. A version on record was delivered; what was delivered of a
resource without an entry does not come again, so no update of it is skipped. -/
structure Watch.Sound (kind : Kind) (ns : String) (st : Watch) : Prop where
  fed : (st.feed kind ns).Reachable
  maps : st.world.maps.Reachable
  scope : ∀ i ∈ st.coming, InScope ns i.ns
  recorded : ∀ item : Item, InScope ns item.ns → Maps.Seen kind item st.world.maps →
    item.revision ∈ st.delivered
  fresh : ∀ i ∈ st.coming, ¬HasEntry kind ns st.world.maps i.key → i.revision ∉ st.delivered
  ordered : Ordered st.cluster st.delivered (st.link.getD [])
  born : ∀ r ∈ st.delivered, r ∈ st.born
  known : ∀ i ∈ st.coming, i.revision ∈ st.born

section Sound

variable {env : Env} {ctx : Ctx} {kind : Kind} {ns : String} {requestUrl : Option String}
  {ignoreAlreadyProcessed : Bool} {st : Watch} {e : WatchEvent} {events : List WatchEvent}
  {born : List (String × String)} {cluster cluster' : List Item}

/-- A change of the cluster is that of its keys. -/
theorem ClusterChange.keys (h : ClusterChange ns born cluster e cluster') :
    {k | k ∈ cluster'.map Item.key} = e.change.apply {k | k ∈ cluster.map Item.key} := by
  cases h with
  | create hns hkey hborn =>
    ext k
    exact List.mem_cons
  | @update item hns hkey hborn =>
    have hsame : (cluster.map fun i => if i.key = item.key then item else i).map Item.key =
        cluster.map Item.key := by
      rw [List.map_map]
      refine List.map_congr_left fun i _ => ?_
      rw [Function.comp_apply]
      split
      · next h => exact h.symm
      · rfl
    rw [hsame]
    exact (Set.insert_eq_of_mem (show item.key ∈ {k | k ∈ cluster.map Item.key} from hkey)).symm
  | @delete item hkey =>
    ext k
    simp only [WatchEvent.change, Feed.Change.apply, Set.mem_ofPred_eq, Set.mem_sdiff,
      Set.mem_singleton_iff, List.mem_map, List.mem_filter, decide_eq_true_eq]
    constructor
    · rintro ⟨i, ⟨hi, hne⟩, rfl⟩
      exact ⟨⟨i, hi, rfl⟩, hne⟩
    · rintro ⟨⟨i, hi, rfl⟩, hne⟩
      exact ⟨i, ⟨hi, hne⟩, rfl⟩

/-- What the change brings was there or has a version that never was. -/
theorem ClusterChange.cases (h : ClusterChange ns born cluster e cluster') :
    (∀ i ∈ puts [e] ++ cluster', i ∈ cluster ∨ i = e.2 ∧ InScope ns i.ns ∧ i.revision ∉ born) ∧
      (e.1 = .deleted → ∀ i ∈ cluster', i.key ≠ e.2.key) := by
  cases h with
  | @create item hns hkey hborn =>
    refine ⟨fun i hi => ?_, nofun⟩
    rcases List.mem_cons.1 hi with rfl | hi
    · exact .inr ⟨rfl, hns, hborn⟩
    · rcases List.mem_cons.1 hi with rfl | hi
      · exact .inr ⟨rfl, hns, hborn⟩
      · exact .inl hi
  | @update item hns hkey hborn =>
    refine ⟨fun i hi => ?_, nofun⟩
    rcases List.mem_cons.1 hi with rfl | hi
    · exact .inr ⟨rfl, hns, hborn⟩
    · obtain ⟨j, hj, rfl⟩ := List.mem_map.1 hi
      split
      · exact .inr ⟨rfl, hns, hborn⟩
      · exact .inl hj
  | @delete item hkey =>
    refine ⟨fun i hi => .inl (List.mem_filter.1 hi).1, fun _ i hi => ?_⟩
    exact of_decide_eq_true (List.mem_filter.1 hi).2

/-- The cluster changes, and the change may join the events. -/
theorem Watch.Sound.change (hs : st.Sound kind ns)
    (h : ClusterChange ns st.born st.cluster e cluster)
    {st' : Watch} (hworld : st'.world = st.world) (hborn : st'.born = e.2.revision :: st.born)
    (hdelivered : st'.delivered = st.delivered)
    (hcoming : ∀ i ∈ st'.coming, i ∈ puts (st.link.getD []) ∨ i ∈ puts [e] ++ cluster)
    (hfeed : (st'.feed kind ns).Reachable)
    (hordered : Ordered st'.cluster st.delivered (st'.link.getD [])) : st'.Sound kind ns := by
  have hcases : ∀ i ∈ st'.coming,
      i ∈ st.coming ∨ i = e.2 ∧ InScope ns i.ns ∧ i.revision ∉ st.born := by
    intro i hi
    obtain hi | hi := hcoming i hi
    · exact .inl (List.mem_append_left _ hi)
    · exact (h.cases.1 i hi).imp_left fun hi => List.mem_append_right _ hi
  refine ⟨hfeed, hworld ▸ hs.maps, fun i hi => ?_, ?_, fun i hi hentry => ?_, ?_, ?_,
    fun i hi => ?_⟩
  · obtain hi | ⟨-, hns, -⟩ := hcases i hi
    · exact hs.scope i hi
    · exact hns
  · rw [hworld, hdelivered]
    exact hs.recorded
  · rw [hworld] at hentry
    rw [hdelivered]
    obtain hi | ⟨-, -, hnew⟩ := hcases i hi
    · exact hs.fresh i hi hentry
    · exact fun hd => hnew (hs.born _ hd)
  · rw [hdelivered]
    exact hordered
  · rw [hdelivered, hborn]
    exact fun r hr => List.mem_cons_of_mem _ (hs.born r hr)
  · rw [hborn]
    obtain hi | ⟨rfl, -, -⟩ := hcases i hi
    · exact List.mem_cons_of_mem _ (hs.known i hi)
    · exact List.mem_cons_self

/-- Fewer resources come. -/
theorem Watch.Sound.less (hs : st.Sound kind ns) {st' : Watch} (hworld : st'.world = st.world)
    (hborn : st'.born = st.born) (hdelivered : st'.delivered = st.delivered)
    (hcoming : ∀ i ∈ st'.coming, i ∈ st.coming) (hfeed : (st'.feed kind ns).Reachable)
    (hordered : Ordered st'.cluster st.delivered (st'.link.getD [])) : st'.Sound kind ns where
  fed := hfeed
  maps := hworld ▸ hs.maps
  scope i hi := hs.scope i (hcoming i hi)
  recorded := by rw [hworld, hdelivered]; exact hs.recorded
  fresh i hi hentry := by
    rw [hworld] at hentry
    rw [hdelivered]
    exact hs.fresh i (hcoming i hi) hentry
  ordered := hdelivered ▸ hordered
  born := by rw [hdelivered, hborn]; exact hs.born
  known i hi := hborn ▸ hs.known i (hcoming i hi)

/-- The watcher after its next event. -/
def Watch.handled (env : Env) (ctx : Ctx) (kind : Kind) (requestUrl : Option String)
    (ignoreAlreadyProcessed : Bool) (st : Watch) (e : WatchEvent)
    (events : List WatchEvent) : Watch :=
  { st with
    link := some events,
    world := (handleEvent env ctx kind requestUrl ignoreAlreadyProcessed e.1 e.2 st.world).2,
    delivered := if e.1 = .deleted then st.delivered else e.2.revision :: st.delivered }

/-- **An event** keeps the invariant: no update of a resource without an entry is skipped. -/
theorem Watch.Sound.deliver (hs : st.Sound kind ns) (hlink : st.link = some (e :: events)) :
    (st.handled env ctx kind requestUrl ignoreAlreadyProcessed e events).Sound kind ns := by
  have hcoming : st.coming = puts (e :: events) ++ st.cluster := by rw [coming, hlink]; rfl
  have hordered := hs.ordered
  rw [hlink, Option.getD_some, Ordered] at hordered
  have hmem : ∀ i ∈ puts events ++ st.cluster, i ∈ st.coming := fun i hi => by
    rw [hcoming, puts, List.filterMap_cons]
    split
    · exact hi
    · exact List.mem_cons_of_mem _ hi
  have hhead : e.1 ≠ .deleted → e.2 ∈ st.coming := fun hup => by
    rw [hcoming, puts_update hup]
    exact List.mem_cons_self
  have hentries : {k | HasEntry kind ns (st.handled env ctx kind requestUrl ignoreAlreadyProcessed
      e events).world.maps k} = e.change.apply {k | HasEntry kind ns st.world.maps k} := by
    refine handleEvent_hasEntry requestUrl (fun hup => hs.scope _ (hhead hup)) fun hup hseen => ?_
    by_contra hnone
    exact hs.fresh _ (hhead hup) hnone (hs.recorded _ (hs.scope _ (hhead hup)) hseen)
  have hentry : ∀ k, HasEntry kind ns (st.handled env ctx kind requestUrl ignoreAlreadyProcessed
      e events).world.maps k ↔ k ∈ e.change.apply {k | HasEntry kind ns st.world.maps k} := fun k =>
    Set.ext_iff.1 hentries k
  have hmaps : World.KeepsReachable st.world
      (handleEvent env ctx kind requestUrl ignoreAlreadyProcessed e.1 e.2 st.world).2 :=
    (World.reachable_frame env ctx kind).applyEvent _ e.1 e.2 st.world
  refine ⟨?_, hmaps hs.maps, fun i hi => hs.scope i (hmem i hi), fun item hns hseen => ?_,
    fun i hi hnone => ?_, ?_, ?_, fun i hi => hs.known i (hmem i hi)⟩
  · have hlink' : (st.feed kind ns).link = some (e.change :: events.map WatchEvent.change) := by
      rw [Watch.feed, hlink]
      rfl
    have hstep := Feed.Step.deliver hlink'
    refine hs.fed.step ?_
    unfold Watch.feed at hstep ⊢
    rw [hentries]
    exact hstep
  · have hrecorded := hs.recorded item hns
    obtain hold | ⟨hup, hkey, hrv⟩ := handleEvent_version requestUrl hseen
    · unfold handled
      dsimp only
      split
      · exact hrecorded hold
      · exact List.mem_cons_of_mem _ (hrecorded hold)
    · have hrevision : item.revision = e.2.revision :=
        Prod.ext (Prod.mk.inj hkey).2.symm hrv.symm
      unfold handled
      dsimp only
      rw [if_neg hup, hrevision]
      exact List.mem_cons_self
  · rw [hentry] at hnone
    have hi' : i ∈ puts events ++ st.cluster := hi
    obtain ⟨ev, item⟩ := e
    by_cases hdel : ev = .deleted
    · subst hdel
      rw [if_pos rfl] at hordered
      by_cases hkey : i.key = item.key
      · exact hordered.1 i hi' hkey
      · exact hs.fresh i (hmem i hi') fun hentry => hnone ⟨hentry, hkey⟩
    · rw [WatchEvent.change_update hdel] at hnone
      have hne : i.key ≠ item.key := fun h => hnone (.inl h)
      unfold handled
      dsimp only
      rw [if_neg hdel, List.mem_cons, not_or]
      refine ⟨fun h => hne (congrArg Prod.fst h), hs.fresh i (hmem i hi') fun h => hnone (.inr h)⟩
  · unfold handled
    dsimp only
    split at hordered
    · next hdel =>
      rw [if_pos hdel]
      exact hordered.2
    · next hup =>
      rw [if_neg hup]
      exact hordered
  · unfold handled
    dsimp only
    split
    · exact hs.born
    · next hup =>
      intro r hr
      rcases List.mem_cons.1 hr with rfl | hr
      · exact hs.known _ (hhead hup)
      · exact hs.born r hr

/-- The connection ends, and what was on its way is lost. -/
theorem Watch.Sound.drop (hs : st.Sound kind ns) (hlink : st.link = some events) :
    Sound kind ns { st with link := none, missed := st.missed ∪ deletions events } := by
  have hlink' : (st.feed kind ns).link = some (events.map WatchEvent.change) := by
    rw [Watch.feed, hlink]
    rfl
  exact hs.less rfl rfl rfl (fun i hi => List.mem_append_right _ hi) (hs.fed.step (.drop hlink'))
    trivial

/-- **One step** keeps the invariant. -/
theorem Watch.Sound.step (hs : st.Sound kind ns) {st' : Watch}
    (h : WatchStep env ctx kind ns requestUrl ignoreAlreadyProcessed st st') :
    st'.Sound kind ns := by
  cases h with
  | @live events e cluster hlink hchange =>
    have hlink' : (st.feed kind ns).link = some (events.map WatchEvent.change) := by
      rw [Watch.feed, hlink]
      rfl
    have hordered := hs.ordered
    rw [hlink, Option.getD_some] at hordered
    refine hs.change hchange rfl rfl rfl (fun i hi => ?_) ?_ ?_
    · have hi' : i ∈ puts (events ++ [e]) ++ cluster := hi
      rw [puts_append, List.append_assoc, List.mem_append] at hi'
      rwa [hlink]
    · have hstep := Feed.Step.live e.change hlink'
      rw [WatchEvent.change_key] at hstep
      refine hs.fed.step ?_
      unfold Watch.feed at hstep ⊢
      dsimp only at hstep ⊢
      rw [hchange.keys, Option.map_some, List.map_append]
      exact hstep
    · refine hordered.snoc (fun i hi => ?_) hchange.cases.2
      refine (hchange.cases.1 i hi).imp_right fun ⟨_, _, hnew⟩ =>
        ⟨fun hd => hnew (hs.born _ hd), ?_⟩
      intro hmem
      obtain ⟨j, hj, heq⟩ := List.mem_map.1 hmem
      exact hnew (heq ▸ hs.known j (List.mem_append_left _ (by rwa [hlink])))
  | @gap e cluster hlink hchange =>
    have hlink' : (st.feed kind ns).link = none := by
      rw [Watch.feed, hlink]
      rfl
    refine hs.change hchange rfl rfl rfl (fun i hi => ?_) ?_ ?_
    · have hi' : i ∈ puts (st.link.getD []) ++ cluster := hi
      rw [List.mem_append] at hi'
      exact hi'.imp_right fun h => List.mem_append_right _ h
    · have hstep := Feed.Step.gap e.change hlink'
      refine hs.fed.step ?_
      have hdeletions : deletions [e] = {k | e.change = .del k} := by
        ext k
        simp [deletions, eq_comm]
      unfold Watch.feed at hstep ⊢
      dsimp only at hstep ⊢
      rw [hchange.keys, hdeletions]
      exact hstep
    · rw [hlink]
      trivial
  | @connect burst hlink hperm =>
    have hlink' : (st.feed kind ns).link = none := by
      rw [Watch.feed, hlink]
      rfl
    refine hs.less rfl rfl rfl (fun i hi => ?_) (hs.fed.step ?_) (ordered_added burst)
    · have hi' : i ∈ puts (burst.map fun item => ((.added, item) : WatchEvent)) ++ st.cluster := hi
      rw [puts_added, List.mem_append, hperm.mem_iff, or_self] at hi'
      exact List.mem_append_right _ hi'
    · refine Feed.Step.connect hlink' fun c => ?_
      simp only [List.map_map, List.mem_map, Function.comp_apply, hperm.mem_iff, Watch.feed,
        Set.mem_ofPred_eq]
      constructor
      · rintro ⟨i, hi, rfl⟩
        exact ⟨i.key, ⟨i, hi, rfl⟩, rfl⟩
      · rintro ⟨_, ⟨i, hi, rfl⟩, rfl⟩
        exact ⟨i, hi, rfl⟩
  | deliver hlink _ => exact hs.deliver hlink
  | fail hlink _ => exact (hs.deliver hlink).drop rfl
  | drop hlink => exact hs.drop hlink
  | @other w hreach hagree =>
    have hentry := hagree.hasEntry_eq hs.maps.wf hreach.wf
    refine ⟨?_, hreach, hs.scope, fun item hns hseen => ?_, fun i hi hnone => ?_,
      hs.ordered, hs.born,
      hs.known⟩
    · have hsame : Watch.feed kind ns { st with world := w } = st.feed kind ns := by
        unfold Watch.feed
        dsimp only
        rw [hentry]
      exact hsame ▸ hs.fed
    · exact hs.recorded item hns ((hagree item hns).2.symm.trans hseen)
    · exact hs.fresh i hi fun h => hnone ((congrFun hentry i.key).symm ▸ h)

/-- **Every run** keeps the invariant. -/
theorem Watched.sound (h : Watched env ctx kind ns requestUrl ignoreAlreadyProcessed st) :
    st.Sound kind ns := by
  induction h with
  | @start w initUrl replies items hreach hblank hitems hn hscope hok =>
    have hblank' : (passStart env ctx kind ns replies w).maps.Blank kind ns := hblank
    have hreach' : (passStart env ctx kind ns replies w).maps.Reachable := hreach
    have hentry : HasEntry kind ns (applyListing env ctx kind ns true items
        (passStart env ctx kind ns replies w)).2.maps = (· ∈ items.map Item.key) :=
      applyListing_hasEntry hblank' hreach'.wf hn hscope
    rw [listResources_eq _ _ _ _ _ _ _ _ hitems]
    refine ⟨?_, ?_, hscope, fun item hns hseen => ?_, fun i hi hnone => ?_, trivial, fun r hr => hr,
      fun i hi => List.mem_map_of_mem hi⟩
    · have hfeed : Feed.State.Reachable (K := String)
          ⟨{k | k ∈ items.map Item.key}, {k | k ∈ items.map Item.key}, none, ∅, ∅⟩ := .start _
      unfold Watch.feed
      dsimp only
      rw [hentry]
      exact hfeed
    · exact (World.reachable_frame env ctx kind).applyListing ns true items _ hreach'
    · have hversion : (applyListing env ctx kind ns true items
          (passStart env ctx kind ns replies w)).2.maps.version[((kind, item.key) : MapKey)]? =
            some item.resourceVersion := hseen
      rw [applyListing_version] at hversion
      obtain hold | ⟨i, hi, hkey, hrv⟩ := listItems_version_cases hversion
      · cases (hblank' item hns).2.symm.trans hold
      · exact List.mem_map.2 ⟨i, hi, Prod.ext (Prod.mk.inj hkey).2 hrv⟩
    · have hi' : i ∈ items := hi
      exact absurd ((congrFun hentry i.key).symm ▸ List.mem_map_of_mem hi') hnone
  | step _ hstep ih => exact ih.step hstep

/-- **When a connection has delivered everything** the entries are those of the resources that
match, and of the orphans: resources that did not match any more when the connection was opened, and
whose `DELETED` event was not sent or was lost. -/
theorem watch_follows_cluster (h : Watched env ctx kind ns requestUrl ignoreAlreadyProcessed st)
    (hlink : st.link = some []) :
    (∀ key, HasEntry kind ns st.world.maps key ↔ key ∈ st.cluster.map Item.key ∨ key ∈ st.orphans) ∧
      ∀ key ∈ st.orphans, key ∈ st.missed ∧ key ∉ st.cluster.map Item.key := by
  have hlink' : (st.feed kind ns).link = some [] := by
    rw [Watch.feed, hlink]
    rfl
  obtain ⟨hentries, hmissed, hdisj⟩ := h.sound.fed.caught_up hlink'
  exact ⟨fun key => Set.ext_iff.1 hentries key,
    fun key hkey => ⟨hmissed hkey, Set.disjoint_left.1 hdisj hkey⟩⟩

end Sound

/-! ## A run with a gap -/

theorem Maps.empty_blank (kind : Kind) (ns : String) : Maps.empty.Blank kind ns := fun _ _ =>
  ⟨Std.ExtTreeMap.getElem?_empty, Std.ExtTreeMap.getElem?_empty⟩

/-- The watcher after the ConfigMap `a` was listed. -/
def sampleListed : Watch :=
  ⟨[sampleItem "ns" "a" "1" [("k", "v")]], none,
    (listResources sampleEnv sampleCtx .configMap "ns" none true
      (sampleReplies [sampleConfigMap "ns" "a" "1" [("k", "v")]]) sampleWorld).2,
    ∅, ∅, [sampleItem "ns" "a" "1" [("k", "v")]].map Item.revision,
    [sampleItem "ns" "a" "1" [("k", "v")]].map Item.revision⟩

theorem sampleListed_watched :
    Watched sampleEnv sampleCtx .configMap "ns" none false sampleListed := by
  have hitems : (startPass sampleEnv sampleCtx .configMap "ns"
      (sampleReplies [sampleConfigMap "ns" "a" "1" [("k", "v")]]) sampleWorld).1 =
        some (.ok [sampleItem "ns" "a" "1" [("k", "v")]]) := rfl
  have hpass : (listResources sampleEnv sampleCtx .configMap "ns" none true
      (sampleReplies [sampleConfigMap "ns" "a" "1" [("k", "v")]]) sampleWorld).1 =
        some (.ok ()) := by
    decide +kernel
  have hscope : ∀ item ∈ [sampleItem "ns" "a" "1" [("k", "v")]], InScope "ns" item.ns := by
    intro item hi
    obtain rfl := List.mem_singleton.1 hi
    exact .inr rfl
  exact .start .empty (Maps.empty_blank .configMap "ns") hitems
    (List.nodup_singleton _) hscope hpass

/-- The world after the first connection has delivered `a`, and then its deletion. -/
def sampleFollowed : World :=
  let added := handleEvent sampleEnv sampleCtx .configMap none false .added
    (sampleItem "ns" "a" "1" [("k", "v")]) sampleListed.world
  (handleEvent sampleEnv sampleCtx .configMap none false .deleted
    (sampleItem "ns" "a" "2" [("k", "v")]) added.2).2

theorem watch_follows_cluster_sample : ¬HasEntry .configMap "ns" sampleFollowed.maps "nsa" := by
  have hconnect := sampleListed_watched.step (.connect rfl (.refl _))
  have hadded := hconnect.step (.deliver rfl (by decide +kernel))
  have hkey : (sampleItem "ns" "a" "2" [("k", "v")]).key ∈
      [sampleItem "ns" "a" "1" [("k", "v")]].map Item.key := by
    decide
  have hdelete := hadded.step (.live rfl (.delete hkey))
  have hdeleted := hdelete.step (.deliver rfl (by decide +kernel))
  have hentries := (watch_follows_cluster hdeleted rfl).1 "nsa"
  intro hentry
  obtain hmem | horphan := hentries.1 hentry
  · revert hmem
    decide
  · exact horphan.2 rfl

/-- When a connection has delivered everything, the entries are those of the resources that
match. -/
def EntriesMatch (env : Env) (ctx : Ctx) (kind : Kind) (ns : String) : Prop :=
  ∀ requestUrl ignoreAlreadyProcessed st,
    Watched env ctx kind ns requestUrl ignoreAlreadyProcessed st → st.link = some [] →
      ∀ key, HasEntry kind ns st.world.maps key ↔ key ∈ st.cluster.map Item.key

/-- `a` is deleted before the first connection is opened, which has nothing to deliver. Its entry
and its file stay. -/
theorem stale_survives_reconnect : ¬EntriesMatch sampleEnv sampleCtx .configMap "ns" ∧
    sampleListed.world.sys.tree.fileAt ["k", "data"] = some "v".toUTF8 := by
  refine ⟨fun h => ?_, by decide +kernel⟩
  have hkey : (sampleItem "ns" "a" "2" [("k", "v")]).key ∈
      [sampleItem "ns" "a" "1" [("k", "v")]].map Item.key := by
    decide
  have hdelete := sampleListed_watched.step (.gap rfl (.delete hkey))
  have hconnect := hdelete.step (.connect rfl (List.Perm.nil))
  have hentry : HasEntry .configMap "ns" sampleListed.world.maps "nsa" :=
    ⟨.fromItem (sampleItem "ns" "a" "1" [("k", "v")]), rfl, .inr rfl⟩
  have hmem := (h none false _ hconnect rfl "nsa").1 hentry
  revert hmem
  decide

end Sidecar
