import Sidecar.Passes
import Sidecar.Reading

/-!
# Deliveries

What a watcher is given: a whole listing, or one event. Reading a listing comes before its items are
processed and notifying after; neither changes files or maps (`Takes.cases`).
-/

namespace Sidecar

open Posix StateM

inductive Delivery
  | listing (kind : Kind) (ns : String) (items : List Item)
  | event (kind : Kind) (ev : EventType) (item : Item)

/-- One list pass or one event: what was delivered and the `files_changed` it came to. -/
inductive Takes (env : Env) (ctx : Ctx) (ignoreAlreadyProcessed : Bool) (w : World) :
    Delivery → Bool → World → Prop
  | listing {kind : Kind} {ns : String} {items : List Item} {requestUrl : Option String}
    {replies : ListReplies kind} : (startPass env ctx kind ns replies w).1 = some (.ok items) →
      Takes env ctx ignoreAlreadyProcessed w (.listing kind ns items)
        (applyListing env ctx kind ns ignoreAlreadyProcessed items
          (passStart env ctx kind ns replies w)).1
        (listResources env ctx kind ns requestUrl ignoreAlreadyProcessed replies w).2
  | event {kind : Kind} {ev : EventType} {item : Item} {requestUrl : Option String} :
      Takes env ctx ignoreAlreadyProcessed w (.event kind ev item)
        (applyEvent env ctx kind ignoreAlreadyProcessed ev item w).1
        (handleEvent env ctx kind requestUrl ignoreAlreadyProcessed ev item w).2

/-- Neither files nor maps change. -/
structure Hush (w w' : World) : Prop where
  sys : Silent w.sys w'.sys
  maps : w'.maps = w.maps

theorem Hush.idle {w w' : World} (h : Hush w w') : Idle w w' :=
  ⟨h.sys, by rw [h.maps], by rw [h.maps]⟩

/-- The part of a delivery that touches files and maps. -/
def Delivery.apply (env : Env) (ctx : Ctx) (ignoreAlreadyProcessed : Bool) :
    Delivery → StateM World Bool
  | .listing kind ns items => applyListing env ctx kind ns ignoreAlreadyProcessed items
  | .event kind ev item => applyEvent env ctx kind ignoreAlreadyProcessed ev item

theorem Delivery.apply_le (env : Env) (ctx : Ctx) (ignoreAlreadyProcessed : Bool) (d : Delivery) :
    Moves World.Le (d.apply env ctx ignoreAlreadyProcessed) := by
  cases d with
  | listing kind ns items => exact applyListing_le env ctx kind ns _ items
  | event kind ev item => exact applyEvent_le env ctx kind _ ev item

/-- Reading the listing comes before, notifying after. -/
theorem Takes.cases {env : Env} {ctx : Ctx} {ignoreAlreadyProcessed : Bool} {w w' : World}
    {d : Delivery} {f : Bool} (h : Takes env ctx ignoreAlreadyProcessed w d f w') :
    ∃ u, Hush w u ∧ (d.apply env ctx ignoreAlreadyProcessed u).1 = f ∧
      Hush (d.apply env ctx ignoreAlreadyProcessed u).2 w' := by
  cases h with
  | @listing kind ns items requestUrl replies hitems =>
    refine ⟨passStart env ctx kind ns replies w,
      ⟨(startPass_calm env ctx kind ns replies w).silent, rfl⟩, rfl, ?_⟩
    rw [listResources_eq _ _ _ _ _ _ _ _ hitems]
    exact ⟨notify_silent env ctx requestUrl _ _, rfl⟩
  | @event kind ev item requestUrl =>
    exact ⟨w, ⟨Silent.preorder.refl _, rfl⟩, rfl, notify_silent env ctx requestUrl _ _, rfl⟩

theorem Takes.traceLe {env : Env} {ctx : Ctx} {ignoreAlreadyProcessed : Bool} {w w' : World}
    {d : Delivery} {f : Bool} (h : Takes env ctx ignoreAlreadyProcessed w d f w') :
    TraceLe w.sys w'.sys := by
  obtain ⟨u, hu, -, hend⟩ := h.cases
  exact hu.sys.trace.trans ((d.apply_le env ctx ignoreAlreadyProcessed u).trans hend.sys.trace)

/-! ## Sequences of deliveries -/

namespace Delivery

def kind : Delivery → Kind
  | listing kind .. => kind
  | event kind .. => kind

def items : Delivery → List Item
  | listing _ _ items => items
  | event _ _ item => [item]

/-- A watcher of the namespace was given this, and nothing of another namespace. -/
def From (ns : String) : Delivery → Prop
  | listing _ ns' items => ns' = ns ∧ ∀ item ∈ items, item.ns = ns
  | event _ _ item => item.ns = ns

end Delivery

/-- Deliveries to the watchers of the process, latest first, and the world they lead to. -/
inductive Delivered (env : Env) (ctx : Ctx) (ignoreAlreadyProcessed : Bool) (w₀ : World) :
    List Delivery → World → Prop
  | start : Delivered env ctx ignoreAlreadyProcessed w₀ [] w₀
  | take {ds : List Delivery} {w w' : World} {d : Delivery} {f : Bool} :
    Delivered env ctx ignoreAlreadyProcessed w₀ ds w →
      Takes env ctx ignoreAlreadyProcessed w d f w' →
      Delivered env ctx ignoreAlreadyProcessed w₀ (d :: ds) w'
  | hush {ds : List Delivery} {w w' : World} : Delivered env ctx ignoreAlreadyProcessed w₀ ds w →
    Hush w w' → Delivered env ctx ignoreAlreadyProcessed w₀ ds w'

end Sidecar
