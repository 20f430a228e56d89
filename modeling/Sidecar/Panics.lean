import Sidecar.Rounds

/-!
# Panics

With `panic = "abort"` a panic of any task is the end of the process: `Duration::from_secs_f64`
panics on `REQ_TIMEOUT` and on the pauses between retries when they are no durations. Where that
happens in a section, `World.panic?` is the world it leaves. A pass that is made up to a panic
(`passSections` under `runUntil`) is `list_resources` when there is none (`pass_run`).
-/

namespace Sidecar

open StateM Interleave

def Event.isAbort : Event → Bool
  | .abort => true
  | _ => false

/-- How often the process panicked. -/
def Sys.aborts (s : Sys) : Nat := s.count Event.isAbort

/-- The events up to the first panic. -/
def throughAbort : List Event → List Event
  | [] => []
  | e :: es => if e.isAbort then [e] else e :: throughAbort es

theorem throughAbort_prefix (es : List Event) : throughAbort es <+: es := by
  induction es with
  | nil => exact List.prefix_rfl
  | cons e es ih =>
    unfold throughAbort
    split
    · exact ⟨es, rfl⟩
    · exact List.prefix_cons_inj e |>.2 ih

theorem throughAbort_last {es : List Event} (h : es.any Event.isAbort = true) :
    (throughAbort es).getLast? = some .abort := by
  induction es with
  | nil => cases h
  | cons e es ih =>
    unfold throughAbort
    split
    · next he =>
      cases e <;> cases he
      rfl
    · next he =>
      have hrest : es.any Event.isAbort = true := by simpa [he] using h
      rw [List.getLast?_cons, ih hrest]
      rfl

/-- The world at the first panic of a section that goes from `w` to `w'`. What panics is a request
or the pause before one, and no section does anything after it but to add to the trace: `w'` has the
files, the maps and the health record of the moment. -/
def World.panic? (w w' : World) : Option World :=
  let new := w'.sys.trace.drop w.sys.trace.length
  if new.any Event.isAbort then
    some { w' with sys := { w'.sys with trace := w.sys.trace ++ throughAbort new } }
  else none

section Panic

variable {w w' v : World}

/-- What a panic leaves of a section. -/
structure World.Broken (w w' v : World) : Prop where
  maps : v.maps = w'.maps
  tree : v.sys.tree = w'.sys.tree
  last : v.sys.trace.getLast? = some .abort
  trace : TraceLe w.sys w'.sys → TraceLe w.sys v.sys ∧ TraceLe v.sys w'.sys

theorem World.broken_of_panic (h : w.panic? w' = some v) : World.Broken w w' v := by
  unfold World.panic? at h
  dsimp only at h
  split at h
  · next habort =>
    cases h
    refine ⟨rfl, rfl, ?_, fun hle => ⟨List.prefix_append .., ?_⟩⟩
    · dsimp only
      rw [List.getLast?_append, throughAbort_last habort]
      rfl
    · obtain ⟨new, hnew⟩ := hle
      unfold TraceLe
      dsimp only
      rw [← hnew, List.drop_left, List.prefix_append_right_inj]
      exact throughAbort_prefix new
  · cases h

/-- A section without a panic. -/
theorem World.aborts_of_calm (hle : TraceLe w.sys w'.sys) (h : w.panic? w' = none) :
    w'.sys.aborts = w.sys.aborts := by
  obtain ⟨new, hnew⟩ := hle
  unfold World.panic? at h
  dsimp only at h
  rw [← hnew, List.drop_left] at h
  split at h
  · cases h
  · next hcalm =>
    unfold Sys.aborts Sys.count
    rw [← hnew, List.countP_append, Nat.add_eq_left, List.countP_eq_zero]
    simpa using hcalm

end Panic

/-! ## Passes -/

section Pass

variable (env : Env) (ctx : Ctx) (kind : Kind) (ns : String) (requestUrl : Option String)
  (ignoreAlreadyProcessed : Bool)

theorem TraceLe.frame : Sys.Frame env TraceLe where
  preorder := TraceLe.preorder
  event _ := fun _ => List.prefix_append ..
  call _ _ _ := by
    unfold TraceLe syscall
    dsimp only
    split <;> exact List.prefix_append ..
  send _ _ := List.prefix_append ..
  scan _ := List.prefix_rfl

theorem passSections_le (replies : ListReplies kind) :
    Along (OnSys TraceLe) (fun _ => True)
      (passSections env ctx kind ns requestUrl ignoreAlreadyProcessed replies) := by
  refine .seq (.atom (fun w => ?_) fun _ => trivial) fun read => ?_
  · exact (startPass_calm env ctx kind ns replies w).silent.trace
  · split
    · trivial
    · trivial
    · refine .seq ((TraceLe.frame env).listingSections ns _) fun changed => .seq ?_ fun _ => trivial
      exact .atom (fun w => (notify_silent env ctx requestUrl changed w.sys).trace) fun _ => trivial

/-- A pass that does not panic is `list_resources`. -/
theorem pass_run {replies : ListReplies kind} {w : World} {out : Option (Except WErr Unit)}
    (h : ((passSections env ctx kind ns requestUrl ignoreAlreadyProcessed replies).runUntil
      World.panic? w).1 = some out) :
    let done := listResources env ctx kind ns requestUrl ignoreAlreadyProcessed replies w
    (passSections env ctx kind ns requestUrl ignoreAlreadyProcessed replies).runUntil
        World.panic? w = (some done.1, done.2) ∧ done.2.sys.aborts = w.sys.aborts := by
  have hcalm := Along.runUntil_some (S := fun w w' : World => w'.sys.aborts = w.sys.aborts)
    ⟨fun _ => rfl, fun h h' => h'.trans h⟩ (fun _ _ hle hgoes => World.aborts_of_calm hle hgoes)
    (passSections_le env ctx kind ns requestUrl ignoreAlreadyProcessed replies) h
  rw [passSections_run] at hcalm
  refine ⟨?_, hcalm⟩
  rw [Prog.runUntil_some h, passSections_run]

end Pass

end Sidecar
