import Sidecar.Sections
import Sidecar.Deliveries

/-!
# Watchers as tasks

List passes and events as a task runs them beside others: each critical section of the maps, each
fetch, each file operation and each run over the tracked resources is a section of its own. By
themselves they are what `resources.rs` does (`Delivery.sections_run`).
-/

namespace Sidecar

open Posix StateM Interleave

variable (env : Env) (ctx : Ctx) (kind : Kind) (ignoreAlreadyProcessed : Bool)

/-- What follows a version check. -/
def workSections (skipped working : String) (item : Item) (isRemoved skip : Bool) :
    Prog World Bool :=
  if skip then do
    Prog.atom (liftSys (log .debug skipped))
    pure false
  else do
    Prog.atom (liftSys (log .debug working))
    let dest ← Prog.atom (liftSys (getDestinationFolder item ctx))
    processSections env ctx kind item (some dest) isRemoved

def listItemSections (item : Item) : Prog World Bool := do
  let skip ← (if ignoreAlreadyProcessed then Prog.atom (withMaps fun m => m.listSeen kind item)
    else pure false)
  workSections env ctx kind s!"Ignoring {kind.asStr} {item.ns}/{item.name}"
    s!"Working on {kind.asStr}: {item.ns}/{item.name}" item false skip

def eventSections (ev : EventType) (item : Item) : Prog World Bool := do
  let skip ← (if ignoreAlreadyProcessed then Prog.atom (withMaps fun m => m.watchSeen kind ev item)
    else pure false)
  workSections env ctx kind s!"Ignoring {ev.asStr} {kind.asStr} {item.ns}/{item.name}"
    s!"Working on {ev.asStr} {kind.asStr} {item.ns}/{item.name}" item (ev == .deleted) skip

def listItemsSections : List Item → Prog World Bool
  | [] => pure false
  | item :: items => do
    let changed ← listItemSections env ctx kind ignoreAlreadyProcessed item
    let rest ← listItemsSections items
    pure (changed || rest)

def removeStaleSections : List Item → Prog World Bool
  | [] => pure false
  | item :: items => do
    Prog.atom (liftSys (log .debug s!"Removing {kind.asStr}: {item.ns}/{item.name}"))
    let changed ← processSections env ctx kind item none true
    let rest ← removeStaleSections items
    pure (changed || rest)

def listingSections (ns : String) (items : List Item) : Prog World Bool := do
  let changed ← listItemsSections env ctx kind ignoreAlreadyProcessed items
  let stale ← Prog.atom (staleItems env kind ns (items.map Item.key))
  let removed ← removeStaleSections env ctx kind stale
  pure (changed || removed)

/-- The part of a delivery that touches files and maps. -/
def Delivery.sections : Delivery → Prog World Bool
  | .listing kind ns items => listingSections env ctx kind ignoreAlreadyProcessed ns items
  | .event kind ev item => eventSections env ctx kind ignoreAlreadyProcessed ev item

/-- A watcher is given one delivery after the other, and notifies after each; its answers are the
`files_changed` values. -/
def taskSections (requestUrl : Option String) : List Delivery → Prog World (List Bool)
  | [] => pure []
  | d :: ds => do
    let changed ← d.sections env ctx ignoreAlreadyProcessed
    let _ ← Prog.atom (liftSys (notify env ctx requestUrl changed))
    let rest ← taskSections requestUrl ds
    pure (changed :: rest)

/-! ## By itself -/

section Run

variable {env ctx kind ignoreAlreadyProcessed}

theorem listItemSections_run (item : Item) :
    (listItemSections env ctx kind ignoreAlreadyProcessed item).run =
      listItem env ctx kind ignoreAlreadyProcessed item := by
  unfold listItemSections workSections listItem
  rw [Prog.run_bind, Prog.run_ite, Prog.run_atom, Prog.run_pure]
  refine congrArg _ (funext fun skip => ?_)
  rw [Prog.run_ite]
  simp only [Prog.run_bind, Prog.run_atom, Prog.run_pure, processSections_run]

theorem eventSections_run (ev : EventType) (item : Item) :
    (eventSections env ctx kind ignoreAlreadyProcessed ev item).run =
      applyEvent env ctx kind ignoreAlreadyProcessed ev item := by
  unfold eventSections workSections applyEvent
  rw [Prog.run_bind, Prog.run_ite, Prog.run_atom, Prog.run_pure]
  refine congrArg _ (funext fun skip => ?_)
  rw [Prog.run_ite]
  simp only [Prog.run_bind, Prog.run_atom, Prog.run_pure, processSections_run]

theorem listItemsSections_run (items : List Item) :
    (listItemsSections env ctx kind ignoreAlreadyProcessed items).run =
      listItems env ctx kind ignoreAlreadyProcessed items := by
  induction items with
  | nil => rfl
  | cons item items ih =>
    unfold listItemsSections listItems
    simp only [Prog.run_bind, Prog.run_pure, listItemSections_run, ih]

theorem removeStaleSections_run (items : List Item) :
    (removeStaleSections env ctx kind items).run = removeStale env ctx kind items := by
  induction items with
  | nil => rfl
  | cons item items ih =>
    unfold removeStaleSections removeStale
    simp only [Prog.run_bind, Prog.run_atom, Prog.run_pure, processSections_run, ih]

theorem listingSections_run (ns : String) (items : List Item) :
    (listingSections env ctx kind ignoreAlreadyProcessed ns items).run =
      applyListing env ctx kind ns ignoreAlreadyProcessed items := by
  unfold listingSections applyListing
  simp only [Prog.run_bind, Prog.run_atom, Prog.run_pure, listItemsSections_run,
    removeStaleSections_run]

/-- **By itself** a task does what the delivery does. -/
theorem Delivery.sections_run (d : Delivery) :
    (d.sections env ctx ignoreAlreadyProcessed).run = d.apply env ctx ignoreAlreadyProcessed := by
  cases d with
  | listing kind ns items => exact listingSections_run ns items
  | event kind ev item => exact eventSections_run ev item

end Run

end Sidecar
