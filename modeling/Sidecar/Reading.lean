import Sidecar.Steps

/-!
# Reading a listing

The reading half of a list pass asks the API server and does nothing else: it moves along `Calm`,
which only adds requests, log lines and sleeps to the trace. `listResources_eq_finish` splits a pass
there.
-/

namespace Sidecar

open Posix StateM

/-! ## Calm programs -/

/-- A script that is spawned, or a request outside the Kubernetes API. -/
def Event.isCall : Event → Bool
  | .attempt _ => true
  | .spawn .. => true
  | _ => false

def Event.isApiList : Event → Bool
  | .apiList .. => true
  | _ => false

def Event.isApiGet : Event → Bool
  | .apiGet .. => true
  | _ => false

/-- Nothing but the trace changes, and nothing is called or written. -/
def Calm (s s' : Sys) : Prop :=
  ∃ new, s' = { s with trace := s.trace ++ new } ∧
    ∀ e ∈ new, e.isCall = false ∧ e.produced? = none

theorem Calm.preorder : Preorder Calm where
  refl s := ⟨[], by simp, by simp⟩
  trans := by
    rintro s _ _ ⟨new, rfl, hnew⟩ ⟨new', rfl, hnew'⟩
    refine ⟨new ++ new', by simp, fun e he => ?_⟩
    rcases List.mem_append.1 he with he | he
    · exact hnew e he
    · exact hnew' e he

theorem Calm.silent {s s' : Sys} (h : Calm s s') : Silent s s' := by
  obtain ⟨new, rfl, hnew⟩ := h
  refine ⟨List.prefix_append .., rfl, ?_⟩
  have hnone : new.filterMap Event.produced? = [] :=
    List.filterMap_eq_nil_iff.2 fun e he => (hnew e he).2
  simp [Sys.produced, hnone]

/-- Who was called so far. -/
def Sys.calls (s : Sys) : List Event := s.trace.filter Event.isCall

/-- Nobody was called. -/
theorem Calm.calls {s s' : Sys} (h : Calm s s') : s'.calls = s.calls := by
  obtain ⟨new, rfl, hnew⟩ := h
  have hnone : new.filter Event.isCall = [] :=
    List.filter_eq_nil_iff.2 fun e he => by simp [(hnew e he).1]
  unfold Sys.calls
  rw [List.filter_append, hnone, List.append_nil]

theorem emit_calm {e : Event} (hcall : e.isCall = false) (hproduced : e.produced? = none) :
    Moves Calm (emit e) := fun _ =>
  ⟨[e], rfl, fun e' he' => by
    rw [List.mem_singleton.1 he']
    exact ⟨hcall, hproduced⟩⟩

theorem log_calm (level : Level) (msg : String) : Moves Calm (log level msg) := emit_calm rfl rfl

theorem sleepFor_calm (secs : F64) : Moves Calm (sleepFor secs) := by
  unfold sleepFor
  split <;> exact emit_calm rfl rfl

/-! ## The requests of a listing -/

section Requests

variable {R : Sys → Sys → Prop} (hp : Preorder R)
  (hsleep : ∀ secs, Moves R (sleepFor secs)) (env : Env) (kind : Kind) (ns : String)
include hp hsleep

theorem withTransportRetry_moves {α : Type} {request : M Unit} (hrequest : Moves R request)
    (replies : Replies α) (attempt : Nat) :
    Moves R (withTransportRetry env request replies attempt) := by
  induction replies generalizing attempt with
  | nil => exact Moves.bind hp hrequest fun _ => Moves.pure hp _
  | cons reply rest ih =>
    cases reply with
    | ok v => exact Moves.bind hp hrequest fun _ => Moves.pure hp _
    | error e =>
      refine Moves.bind hp hrequest fun _ => Moves.ite ?_ (Moves.pure hp _)
      exact Moves.bind hp (Moves.ite (hsleep _) (Moves.pure hp _)) fun _ => ih _

/-- Reads by name move along what their requests and pauses move along. -/
theorem readAll_moves {names : List String}
    (hget : ∀ name ∈ names, Moves R (emit (.apiGet kind ns name)))
    (replies : Replies (Option kind.Object)) : Moves R (readAll env kind ns names replies) := by
  induction names generalizing replies with
  | nil => exact Moves.pure hp _
  | cons rn names ih =>
    have hread : Moves R (readNamed env kind ns rn replies) := by
      refine Moves.bind hp (withTransportRetry_moves hp hsleep env (hget rn List.mem_cons_self)
        replies 0) fun out => ?_
      split <;> exact Moves.pure hp _
    refine Moves.bind hp hread fun out => ?_
    split
    · exact Moves.pure hp _
    · exact Moves.pure hp _
    · refine Moves.bind hp (ih (fun name hname => hget name (List.mem_cons_of_mem rn hname)) _)
        fun rest => ?_
      split <;> exact Moves.pure hp _

/-- So does the page loop. -/
theorem listAll_moves {sel : String}
    (hlist : ∀ limit cont, Moves R (emit (.apiList kind ns sel limit cont))) (fuel : Nat)
    (cont : Option String) (replies : Replies (Page kind)) :
    Moves R (listAll env kind ns sel fuel cont replies) := by
  have hpage : ∀ limit cont replies, Moves R (listPage env kind ns sel limit cont replies) := by
    intro limit cont replies
    refine Moves.bind hp
      (withTransportRetry_moves hp hsleep env (hlist limit cont) replies 0) fun out => ?_
    split <;> exact Moves.pure hp _
  induction fuel generalizing cont replies with
  | zero => exact Moves.pure hp _
  | succ fuel ih =>
    refine Moves.bind hp (hpage 5 cont replies) fun out => ?_
    split
    · exact Moves.pure hp _
    · exact Moves.pure hp _
    · split
      · refine Moves.bind hp (ih _ _) fun rest => ?_
        split <;> exact Moves.pure hp _
      · exact Moves.pure hp _

end Requests

theorem withTransportRetry_calm {α : Type} (env : Env) {request : M Unit}
    (hrequest : Moves Calm request) (replies : Replies α) (attempt : Nat) :
    Moves Calm (withTransportRetry env request replies attempt) :=
  withTransportRetry_moves Calm.preorder sleepFor_calm env hrequest replies attempt

theorem readAll_calm (env : Env) (kind : Kind) (ns : String) (names : List String)
    (replies : Replies (Option kind.Object)) : Moves Calm (readAll env kind ns names replies) :=
  readAll_moves Calm.preorder sleepFor_calm env kind ns (fun _ _ => emit_calm rfl rfl) replies

theorem listAll_calm (env : Env) (kind : Kind) (ns sel : String) (fuel : Nat)
    (cont : Option String) (replies : Replies (Page kind)) :
    Moves Calm (listAll env kind ns sel fuel cont replies) :=
  listAll_moves Calm.preorder sleepFor_calm env kind ns (fun _ _ => emit_calm rfl rfl)
    fuel cont replies

/-- Reading a listing is calm. -/
theorem readListing_calm (env : Env) (ctx : Ctx) (kind : Kind) (ns : String)
    (replies : ListReplies kind) : Moves Calm (readListing env ctx kind ns replies) :=
  Moves.ite (readAll_calm _ _ _ _ _) (listAll_calm _ _ _ _ _ _ _)

/-! ## A pass -/

section Pass

variable (env : Env) (ctx : Ctx) (kind : Kind) (ns : String) (requestUrl : Option String)
  (ignoreAlreadyProcessed : Bool) (replies : ListReplies kind) (w : World)

/-- A list pass up to the point where the listing has been read (or has failed). -/
def startPass : Option (Except WErr (List Item)) × Sys :=
  let argsRepr := if ns ≠ "ALL" then s!"\x7b'namespace': '{ns}'\x7d" else "\x7b\x7d"
  readListing env ctx kind ns replies
    (log .info s!"Performing list-based sync on {kind.asStr} resources: {argsRepr}" w.sys).2

theorem startPass_calm : Calm w.sys (startPass env ctx kind ns replies w).2 :=
  Calm.preorder.trans (log_calm _ _ w.sys) (readListing_calm env ctx kind ns replies _)

/-- The maps and files a pass applies its listing to. -/
def passStart : World := ⟨(startPass env ctx kind ns replies w).2, w.maps⟩

/-- What a pass does with what it has read. -/
def finishPass : Option (Except WErr (List Item)) → StateM World (Option (Except WErr Unit))
  | none => pure none
  | some (.error e) => pure (some (.error e))
  | some (.ok items) => do
    let result ← syncListing env ctx kind ns requestUrl ignoreAlreadyProcessed items
    pure (some result)

theorem listResources_eq_finish :
    listResources env ctx kind ns requestUrl ignoreAlreadyProcessed replies w =
      finishPass env ctx kind ns requestUrl ignoreAlreadyProcessed
        (startPass env ctx kind ns replies w).1 (passStart env ctx kind ns replies w) := rfl

/-- A pass that has read its listing applies it and notifies. -/
theorem listResources_eq {items : List Item}
    (h : (startPass env ctx kind ns replies w).1 = some (.ok items)) :
    listResources env ctx kind ns requestUrl ignoreAlreadyProcessed replies w =
      (let applied := applyListing env ctx kind ns ignoreAlreadyProcessed items
        (passStart env ctx kind ns replies w)
      let notified := notify env ctx requestUrl applied.1 applied.2.sys
      (some notified.1, ⟨notified.2, applied.2.maps⟩)) := by
  rw [listResources_eq_finish, h]
  rfl

end Pass

end Sidecar
