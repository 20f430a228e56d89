import Sidecar.Polling
import Sidecar.Deliveries

/-!
# What is remembered of removed resources

Between steps the maps should know nothing but tracked resources. An update keeps it so; a removal
takes the entry out of `object` and leaves the one in `dest`, and a list pass also the one in
`version`. So the maps are bookkept in every state of a run exactly if no step of the run removes a
tracked resource (`bookkeeping_kept`).
-/

namespace Sidecar

open Posix StateM

/-! ## Maps -/

/-- What is on record in `dest` or `version` is tracked. -/
def Maps.Bookkept (m : Maps) : Prop :=
  ∀ k : MapKey, m.object[k]? = none → m.dest[k]? = none ∧ m.version[k]? = none

/-- The entries of a key are the same. -/
structure Maps.SameEntries (k : MapKey) (m m' : Maps) : Prop where
  object : m'.object[k]? = m.object[k]?
  dest : m'.dest[k]? = m.dest[k]?
  version : m'.version[k]? = m.version[k]?

theorem Maps.SameEntries.refl (k : MapKey) (m : Maps) : m.SameEntries k m := ⟨rfl, rfl, rfl⟩

theorem Maps.SameEntries.trans {k : MapKey} {m m' m'' : Maps} (h : m.SameEntries k m')
    (h' : m'.SameEntries k m'') : m.SameEntries k m'' :=
  ⟨h'.object.trans h.object, h'.dest.trans h.dest, h'.version.trans h.version⟩

section Maps

variable {m : Maps} {kind : Kind} {item : Item} {k : MapKey}

/-- An update leaves the other keys alone. -/
theorem Maps.sameEntries_update (hk : ((kind, item.key) : MapKey) ≠ k) (dest : Option String)
    (ignoreAlreadyProcessed : Bool) :
    m.SameEntries k ((m.record kind item ignoreAlreadyProcessed).enter kind item dest false).2 := by
  constructor
  · rw [enter_object, if_neg hk, record_object]
  · rw [enter_dest, if_neg fun h => hk h.2, record_dest]
  · rw [enter_version]
    unfold record
    split
    · exact (HashMap.getElem?_insert ..).trans (if_neg hk)
    · rfl

theorem Maps.Bookkept.update (h : m.Bookkept) (kind : Kind) (item : Item) (dest : Option String)
    (ignoreAlreadyProcessed : Bool) :
    ((m.record kind item ignoreAlreadyProcessed).enter kind item dest false).2.Bookkept := by
  intro k hnone
  by_cases hk : ((kind, item.key) : MapKey) = k
  · rw [enter_object, if_pos hk] at hnone
    cases hnone
  · have hsame := sameEntries_update (m := m) hk dest ignoreAlreadyProcessed
    rw [hsame.object] at hnone
    rw [hsame.dest, hsame.version]
    exact h k hnone

/-- A removal keeps the books if there was nothing to remove, and else its folder stays on
record. -/
theorem Maps.Bookkept.delete_iff (h : m.Bookkept) (hwf : m.WF) (kind : Kind) (item : Item)
    (dest : Option String) (ignoreAlreadyProcessed : Bool) :
    ((m.forget kind item ignoreAlreadyProcessed).enter kind item dest true).2.Bookkept ↔
      m.object[((kind, item.key) : MapKey)]? = none := by
  have hdest :
      ∀ k : MapKey,
      ((m.forget kind item ignoreAlreadyProcessed).enter kind item dest true).2.dest[k]? =
        m.dest[k]? := by
    intro k
    rw [enter_dest, if_neg (by simp), forget_dest]
  have hversion : ∀ k : MapKey, m.version[k]? = none →
      ((m.forget kind item ignoreAlreadyProcessed).enter kind item dest true).2.version[k]? =
      none := by
    intro k hk
    rw [enter_version]
    unfold forget
    split
    · refine (HashMap.getElem?_erase ..).trans ?_
      split
      · rfl
      · exact hk
    · exact hk
  constructor
  · intro hbooks
    by_contra htracked
    have hgone := hbooks (kind, item.key) (by rw [enter_object, if_pos rfl, if_pos rfl])
    rw [hdest] at hgone
    exact hwf.dest _ htracked hgone.1
  · intro hnone k hk
    have hbefore : m.object[k]? = none := by
      rw [enter_object, forget_object] at hk
      split at hk
      · next hkey => rwa [← hkey]
      · exact hk
    rw [hdest]
    exact ⟨(h k hbefore).1, hversion k (h k hbefore).2⟩

end Maps

/-! ## One delivery -/

/-- The delivery removes a tracked resource: by its `DELETED` event, or from a listing without
it. -/
def Delivery.Drops : Delivery → Maps → Prop
  | .listing kind ns items, m => ∃ (k : MapKey) (c : CachedItem), m.object[k]? = some c ∧
      isStale kind ns (items.map Item.key) k c = true
  | .event kind ev item, m => ev = .deleted ∧ m.object[((kind, item.key) : MapKey)]? ≠ none

section Step

variable {env : Env} {ctx : Ctx} {kind : Kind} {ignoreAlreadyProcessed : Bool} {w : World}

theorem Upserted.maps {item : Item} {out : Bool × World}
    (h : Upserted env ctx kind ignoreAlreadyProcessed item w out) : out.2.maps = w.maps ∨
      out.2.maps = ((w.maps.record kind item ignoreAlreadyProcessed).enter kind item
        (some (destinationFolder ctx item)) false).2 := by
  obtain ⟨-, -, -, rfl⟩ | ⟨-, -, rfl⟩ := h
  · exact .inl rfl
  · rw [Call.run_eq]
    exact .inr rfl

/-- Listed resources are updated, the others left alone. -/
theorem listItems_bookkept (items : List Item) (hbooks : w.maps.Bookkept) (hwf : w.maps.WF) :
    let m := (listItems env ctx kind ignoreAlreadyProcessed items w).2.maps
    m.Bookkept ∧ m.WF ∧ ∀ k : MapKey, (∀ item ∈ items, ((kind, item.key) : MapKey) ≠ k) →
      w.maps.SameEntries k m := by
  induction items generalizing w with
  | nil => exact ⟨hbooks, hwf, fun k _ => .refl k _⟩
  | cons item items ih =>
    rw [listItems_cons]
    have hfirst := (listItem_upserted env ctx kind ignoreAlreadyProcessed item w).maps
    generalize listItem env ctx kind ignoreAlreadyProcessed item w = out at hfirst ⊢
    obtain ⟨changed, w'⟩ := out
    have hstep : w'.maps.Bookkept ∧ w'.maps.WF ∧ ∀ k : MapKey, ((kind, item.key) : MapKey) ≠ k →
        w.maps.SameEntries k w'.maps := by
      rcases hfirst with hmaps | hmaps
      · rw [hmaps]
        exact ⟨hbooks, hwf, fun k _ => .refl k _⟩
      · rw [hmaps]
        refine ⟨hbooks.update kind item _ _, ?_, fun k hk => Maps.sameEntries_update hk ..⟩
        exact (hwf.congr (Maps.record_object ..) (Maps.record_dest ..)).enter ..
    obtain ⟨hb, hw, hsame⟩ := hstep
    obtain ⟨hb', hw', hsame'⟩ := ih hb hw
    exact ⟨hb', hw', fun k hk => (hsame k (hk item List.mem_cons_self)).trans
      (hsame' k fun i hi => hk i (List.mem_cons_of_mem item hi))⟩

theorem applyListing_bookkept_iff (ns : String) (items : List Item) (hbooks : w.maps.Bookkept)
    (hwf : w.maps.WF) :
    (applyListing env ctx kind ns ignoreAlreadyProcessed items w).2.maps.Bookkept ↔
      ¬(Delivery.listing kind ns items).Drops w.maps := by
  obtain ⟨hlbooks, hlwf, hsame⟩ := @listItems_bookkept env ctx kind ignoreAlreadyProcessed w
    items hbooks hwf
  rw [applyListing_eq]
  dsimp only
  generalize (listItems env ctx kind ignoreAlreadyProcessed items w).2 =
    listed at hlbooks hlwf hsame ⊢
  have hmaps := (staleItems_silent env kind ns (items.map Item.key) listed).2
  have hkeys := staleItems_keys env kind ns (items.map Item.key) hlwf
  -- what is stale is not listed, so it was tracked before
  have hentry : ∀ (k : MapKey) (c : CachedItem), isStale kind ns (items.map Item.key) k c = true →
      listed.maps.object[k]? = w.maps.object[k]? := by
    intro k c hstale
    refine (hsame k fun item hi he => ?_).object
    have hmem : k.2 ∈ items.map Item.key := by
      rw [← he]
      exact List.mem_map_of_mem hi
    simp [isStale, hmem] at hstale
  constructor
  · rintro hafter ⟨k, c, hc, hstale⟩
    have hcl : listed.maps.object[k]? = some c := (hentry k c hstale).trans hc
    have hk : k ∈ staleKeys env kind ns (items.map Item.key) listed :=
      (mem_staleKeys env kind).2 ⟨c, hcl, hstale⟩
    have hgone := hafter k (by rw [removeStale_object, hkeys, if_pos hk])
    rw [removeStale_dest, hmaps] at hgone
    exact hlwf.dest k (by simp [hcl]) hgone.1
  · intro hdrops
    have hnone : (staleItems env kind ns (items.map Item.key) listed).1 = [] := by
      refine List.eq_nil_iff_forall_not_mem.2 fun i hi => hdrops ?_
      obtain ⟨k, c, hc, -, hstale, -⟩ := exists_of_mem_staleItems hi
      exact ⟨k, c, (hentry k c hstale).symm.trans hc, hstale⟩
    rw [hnone]
    intro k hk
    have hlisted := hlbooks k
    rw [← hmaps] at hlisted
    exact hlisted hk

theorem applyEvent_bookkept_iff (ev : EventType) (item : Item) (hbooks : w.maps.Bookkept)
    (hwf : w.maps.WF) :
    (applyEvent env ctx kind ignoreAlreadyProcessed ev item w).2.maps.Bookkept ↔
      ¬(Delivery.event kind ev item).Drops w.maps := by
  by_cases hev : ev = .deleted
  · subst hev
    obtain ⟨s, -, heq⟩ := applyEvent_delete env ctx kind item w ignoreAlreadyProcessed
    rw [heq, processResource_maps, hbooks.delete_iff hwf]
    simp [Delivery.Drops]
  · have hdrops : ¬(Delivery.event kind ev item).Drops w.maps := fun h => hev h.1
    refine iff_of_true ?_ hdrops
    rcases (applyEvent_upserted env ctx kind ignoreAlreadyProcessed hev item
      w).maps with hmaps | hmaps
    · rw [hmaps]
      exact hbooks
    · rw [hmaps]
      exact hbooks.update kind item _ _

/-- **One delivery** keeps the books unless it removes a tracked resource. -/
theorem Takes.bookkept_iff {w' : World} {d : Delivery} {f : Bool}
    (h : Takes env ctx ignoreAlreadyProcessed w d f w') (hbooks : w.maps.Bookkept)
    (hwf : w.maps.WF) :
    w'.maps.Bookkept ↔ ¬d.Drops w.maps := by
  obtain ⟨u, hu, -, hend⟩ := h.cases
  rw [hend.maps, ← hu.maps]
  rw [← hu.maps] at hbooks hwf
  cases d with
  | listing kind ns items => exact applyListing_bookkept_iff ns items hbooks hwf
  | event kind ev item => exact applyEvent_bookkept_iff ev item hbooks hwf

theorem Takes.wf {w' : World} {d : Delivery} {f : Bool}
    (h : Takes env ctx ignoreAlreadyProcessed w d f w') (hr : w.maps.Reachable) :
    w'.maps.Reachable := by
  obtain ⟨u, hu, -, hend⟩ := h.cases
  rw [hend.maps]
  rw [← hu.maps] at hr
  cases d with
  | listing kind ns items => exact (World.reachable_frame env ctx kind).applyListing ns _ items u hr
  | event kind ev item => exact (World.reachable_frame env ctx kind).applyEvent _ ev item u hr

end Step

/-! ## Runs -/

/-- A run from a state, with each delivery and the state it came in, latest first. -/
inductive Trail (env : Env) (ctx : Ctx) (ignoreAlreadyProcessed : Bool) (w₀ : World) :
    List (World × Delivery) → World → Prop
  | start : Trail env ctx ignoreAlreadyProcessed w₀ [] w₀
  | take {steps : List (World × Delivery)} {w w' : World} {d : Delivery} {f : Bool} :
    Trail env ctx ignoreAlreadyProcessed w₀ steps w →
    Takes env ctx ignoreAlreadyProcessed w d f w' →
      Trail env ctx ignoreAlreadyProcessed w₀ ((w, d) :: steps) w'
  | hush {steps : List (World × Delivery)} {w w' : World} :
    Trail env ctx ignoreAlreadyProcessed w₀ steps w → Hush w w' →
      Trail env ctx ignoreAlreadyProcessed w₀ steps w'

theorem Maps.bookkept_empty : Maps.empty.Bookkept := fun k _ => by simp [Maps.empty]

/-- **The maps keep to tracked resources** in every state of a run exactly if no step of it removes
one. -/
theorem bookkeeping_kept {env : Env} {ctx : Ctx} {ignoreAlreadyProcessed : Bool} {w₀ w : World}
    {steps : List (World × Delivery)} (h : Trail env ctx ignoreAlreadyProcessed w₀ steps w)
    (hmaps : w₀.maps = .empty) :
    ((∀ step ∈ steps, step.1.maps.Bookkept) ∧ w.maps.Bookkept) ↔
      ∀ step ∈ steps, ¬step.2.Drops step.1.maps := by
  suffices hrun : w.maps.Reachable ∧ (((∀ step ∈ steps, step.1.maps.Bookkept) ∧ w.maps.Bookkept) ↔
      ∀ step ∈ steps, ¬step.2.Drops step.1.maps) from hrun.2
  induction h with
  | start =>
    rw [hmaps]
    exact ⟨.empty, by simp [Maps.bookkept_empty]⟩
  | @take steps w w' d f _ hstep ih =>
    obtain ⟨hr, ih⟩ := ih
    refine ⟨hstep.wf hr, ?_⟩
    rw [List.forall_mem_cons, List.forall_mem_cons]
    constructor
    · rintro ⟨⟨hbooks, hbefore⟩, hafter⟩
      exact ⟨(hstep.bookkept_iff hbooks hr.wf).1 hafter, ih.1 ⟨hbefore, hbooks⟩⟩
    · rintro ⟨hkeeps, hsteps⟩
      obtain ⟨hbefore, hbooks⟩ := ih.2 hsteps
      exact ⟨⟨hbooks, hbefore⟩, (hstep.bookkept_iff hbooks hr.wf).2 hkeeps⟩
  | hush _ hh ih =>
    rw [hh.maps]
    exact ih

/-- A world that took an event about a ConfigMap, without what was processed before. -/
def sampleTaken (ev : EventType) (item : Item) (w : World) : World :=
  (handleEvent sampleEnv sampleCtx .configMap none true ev item w).2

theorem sampleTaken_takes (ev : EventType) (item : Item) (w : World) :
    ∃ f, Takes sampleEnv sampleCtx true w (.event .configMap ev item) f
      (sampleTaken ev item w) := ⟨_, .event⟩

/-- A ConfigMap is added and, a version later, deleted. -/
def sampleKnown : World := sampleTaken .added (sampleItem "ns" "a" "1" [("k", "v")]) sampleWorld

def sampleGone : World := sampleTaken .deleted (sampleItem "ns" "a" "2" [("k", "v")]) sampleKnown

theorem sampleKnown_trail : Trail sampleEnv sampleCtx true sampleWorld
    [(sampleWorld, .event .configMap .added (sampleItem "ns" "a" "1" [("k", "v")]))]
      sampleKnown := by
  obtain ⟨f, hadded⟩ := sampleTaken_takes .added (sampleItem "ns" "a" "1" [("k", "v")]) sampleWorld
  exact .take .start hadded

theorem bookkeeping_kept_sample : sampleKnown.maps.Bookkept := by
  refine ((bookkeeping_kept sampleKnown_trail rfl).2 fun step hstep => ?_).2
  obtain rfl := List.mem_singleton.1 hstep
  rintro ⟨hev, -⟩
  cases hev

/-- Its folder and the version that was processed stay on record. -/
theorem bookkeeping_lingers :
    Trail sampleEnv sampleCtx true sampleWorld
        [(sampleKnown, .event .configMap .deleted (sampleItem "ns" "a" "2" [("k", "v")])),
          (sampleWorld, .event .configMap .added (sampleItem "ns" "a" "1" [("k", "v")]))]
            sampleGone ∧
      sampleGone.maps.object[((.configMap, "nsa") : MapKey)]? = none ∧
      sampleGone.maps.dest[((.configMap, "nsa") : MapKey)]? = some "/data" ∧
      sampleGone.maps.version[((.configMap, "nsa") : MapKey)]? = some "1" ∧
      ¬sampleGone.maps.Bookkept := by
  have hobject : sampleGone.maps.object[((.configMap, "nsa") : MapKey)]? = none :=
    Option.isNone_iff_eq_none.1 (by decide +kernel)
  have hdest : sampleGone.maps.dest[((.configMap, "nsa") : MapKey)]? = some "/data" := by
    decide +kernel
  have hversion : sampleGone.maps.version[((.configMap, "nsa") : MapKey)]? = some "1" := by
    decide +kernel
  obtain ⟨f, hdeleted⟩ :=
    sampleTaken_takes .deleted (sampleItem "ns" "a" "2" [("k", "v")]) sampleKnown
  refine ⟨.take sampleKnown_trail hdeleted, hobject, hdest, hversion, fun h => ?_⟩
  have hnone := (h _ hobject).1
  rw [hdest] at hnone
  cases hnone

end Sidecar
