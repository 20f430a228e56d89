import Sidecar.Contact
import Sidecar.Tasks

/-!
# Rounds of a watcher as sections

`watch_task` as a task runs it beside others: a round is a list pass or a connection, section by
section, and what follows its result. By itself a round is `watchRound` (`roundSections_run`).
Whatever its sections are run between, they leave the health record to the marks of a watch event,
and only an API error 500 among the server's answers ends the task (`roundSections_marks`).
-/

namespace Sidecar

open Posix StateM Interleave

/-! ## The sections -/

section Sections

variable (env : Env) (ctx : Ctx) (kind : Kind) (ns : String) (requestUrl : Option String)
  (ignoreAlreadyProcessed : Bool)

/-- Reading a listing, as one section: it touches neither files nor maps. -/
def readSection (replies : ListReplies kind) :
    StateM World (Option (Except WErr (List Item))) := fun w =>
  ((startPass env ctx kind ns replies w).1, passStart env ctx kind ns replies w)

def passSections (replies : ListReplies kind) : Prog World (Option (Except WErr Unit)) := do
  match ← Prog.atom (readSection env ctx kind ns replies) with
  | none => pure none
  | some (.error e) => pure (some (.error e))
  | some (.ok items) =>
    let changed ← listingSections env ctx kind ignoreAlreadyProcessed ns items
    let result ← Prog.atom (liftSys (notify env ctx requestUrl changed))
    pure (some result)

/-- The health bookkeeping of an event. -/
def markEvent (firstEvent : Bool) : StateM World Unit := do
  (if firstEvent then liftSys markReady else pure ())
  liftSys updateK8sContact

def watchEventsSections (firstEvent : Bool) : WatchStream kind → Prog World (Except WErr Unit)
  | [] => pure (.ok ())
  | .error e :: _ => pure (.error (.kube e))
  | .ok (ev, object) :: events => do
    Prog.atom (markEvent firstEvent)
    let changed ← eventSections env ctx kind ignoreAlreadyProcessed ev (Item.fromObject kind object)
    match ← Prog.atom (liftSys (notify env ctx requestUrl changed)) with
    | .error e => pure (.error e)
    | .ok () => watchEventsSections false events

/-- Opening a connection. -/
def connectSection : StateM World Unit := do
  let nsRepr := if ns ≠ "ALL" then s!", 'namespace': '{ns}'" else ""
  liftSys (log .debug
    s!"Performing watch-based sync on {kind.asStr} resources: \x7b'label_selector': '{ctx.selector}', 'timeout_seconds': {ctx.watchServerTimeout}, '_request_timeout': {ctx.watchClientTimeout}{nsRepr}\x7d")
  liftSys (emit (.apiWatch kind ns ctx.selector ctx.watchServerTimeout.toUInt32))

def connectionSections (stream : Except KubeError (WatchStream kind)) :
    Prog World (Except WErr Unit) := do
  Prog.atom (connectSection ctx kind ns)
  match stream with
  | .error e => pure (.error (.kube e))
  | .ok events => watchEventsSections env ctx kind requestUrl ignoreAlreadyProcessed true events

/-- What the task does with a round's result; `false` ends it. -/
def endRound : Option (Except WErr Unit) → StateM World (Option Bool)
  | none => pure none
  | some (.ok ()) => pure (some true)
  | some (.error (.kube (.api code reason))) =>
    if code = 500 then do
      liftSys (log .error s!"ApiException when calling kubernetes: ({code}) Reason: {reason}")
      pure (some false)
    else do
      liftSys (log .error s!"ApiException when calling kubernetes: ({code}) Reason: {reason}\n")
      liftSys (emit (.sleep env.errorThrottleSleep.toNat))
      pure (some true)
  | some (.error (.kube (.other msg))) => do
    liftSys (log .error s!"ProtocolError when calling kubernetes: {msg}\n")
    liftSys (emit (.sleep env.errorThrottleSleep.toNat))
    pure (some true)
  | some (.error (.other msg)) => do
    liftSys (log .error s!"Received unknown exception: {msg}\n")
    liftSys (emit (.sleep env.errorThrottleSleep.toNat))
    pure (some true)

/-- A poll sleeps when its pass was successful. -/
def pollSections (replies : ListReplies kind) : Prog World (Option (Except WErr Unit)) := do
  match ← passSections env ctx kind ns requestUrl ignoreAlreadyProcessed replies with
  | some (.ok ()) =>
    Prog.atom (liftSys (emit (.sleep env.sleepTime.toNat)))
    pure (some (.ok ()))
  | other => pure other

def roundSections (input : RoundInput kind) : Prog World (Option Bool) := do
  let result ← (if sleepMode ctx ns then
      pollSections env ctx kind ns requestUrl ignoreAlreadyProcessed input.replies
    else do
      let result ← connectionSections env ctx kind ns requestUrl ignoreAlreadyProcessed input.stream
      pure (some result))
  Prog.atom (endRound env result)

end Sections

/-! ## By itself -/

section Run

variable {env : Env} {ctx : Ctx} {kind : Kind} {ns : String} {requestUrl : Option String}
  {ignoreAlreadyProcessed : Bool}

theorem passSections_run (replies : ListReplies kind) :
    (passSections env ctx kind ns requestUrl ignoreAlreadyProcessed replies).run =
      listResources env ctx kind ns requestUrl ignoreAlreadyProcessed replies := by
  funext w
  unfold passSections
  rw [listResources_eq_finish, Prog.run_bind, bind_apply, Prog.run_atom]
  unfold readSection
  dsimp only
  generalize (startPass env ctx kind ns replies w).1 = read
  match read with
  | none => rfl
  | some (.error e) => rfl
  | some (.ok items) =>
    simp only [Prog.run_bind, Prog.run_atom, Prog.run_pure, listingSections_run]
    rfl

theorem watchEventsSections_run (firstEvent : Bool) (events : WatchStream kind) :
    (watchEventsSections env ctx kind requestUrl ignoreAlreadyProcessed firstEvent events).run =
      watchEvents env ctx kind requestUrl ignoreAlreadyProcessed firstEvent events := by
  induction events generalizing firstEvent with
  | nil => rfl
  | cons e events ih =>
    cases e with
    | error e => rfl
    | ok ev =>
      funext w
      unfold watchEventsSections watchEvents handleEvent
      simp only [Prog.run_bind, Prog.run_atom, bind_apply, eventSections_run, markEvent]
      generalize liftSys (notify env ctx requestUrl _) _ = out
      obtain ⟨result, w'⟩ := out
      cases result with
      | error e => rfl
      | ok u => exact congrFun (ih false) w'

theorem connectionSections_run (stream : Except KubeError (WatchStream kind)) :
    (connectionSections env ctx kind ns requestUrl ignoreAlreadyProcessed stream).run =
      watchResourceIterator env ctx kind ns requestUrl ignoreAlreadyProcessed stream := by
  funext w
  unfold connectionSections watchResourceIterator
  cases stream with
  | error e => rfl
  | ok events =>
    simp only [Prog.run_bind, Prog.run_atom, bind_apply, watchEventsSections_run, connectSection]

/-- **By itself** a round is what `watch_task` does. -/
theorem roundSections_run (input : RoundInput kind) :
    (roundSections env ctx kind ns requestUrl ignoreAlreadyProcessed input).run =
      watchRound env ctx kind ns requestUrl ignoreAlreadyProcessed input := by
  funext w
  unfold roundSections watchRound
  cases hmode : sleepMode ctx ns with
  | true =>
    simp only [if_true, pollSections, Prog.run_bind, bind_apply, passSections_run, Prog.run_atom]
    generalize listResources env ctx kind ns requestUrl ignoreAlreadyProcessed input.replies w = out
    obtain ⟨result, w'⟩ := out
    rcases result with _ | (((_ | _) | _) | _) <;> rfl
  | false =>
    simp only [Bool.false_eq_true, if_false, Prog.run_bind, bind_apply, Prog.run_pure,
      connectionSections_run,
      Prog.run_atom, pure_apply]
    generalize watchResourceIterator env ctx kind ns requestUrl ignoreAlreadyProcessed
      input.stream w = out
    obtain ⟨result, w'⟩ := out
    rcases result with ((_ | _) | _) | _ <;> rfl

end Run

/-! ## Frames of the sections -/

/-- On the whole state, where only the process state matters. -/
def OnSys (R : Sys → Sys → Prop) (w w' : World) : Prop := R w.sys w'.sys

section Frames

variable {env : Env} {ctx : Ctx} {kind : Kind} {ignoreAlreadyProcessed : Bool}
  {R : Sys → Sys → Prop}

theorem Sys.Frame.finish (h : Sys.Frame env R) (j : Job)
    (fetched : Except String (String × ByteArray)) :
    Moves R (j.finish env ctx kind fetched) := by
  have hp := h.preorder
  refine .bind hp ?_ fun result => ?_
  · split
    · refine .ite (.bind hp (h.removeFile _ _) fun _ => .pure hp _) ?_
      exact .bind hp (h.event rfl) fun _ => .bind hp (h.writeDataToFile _ _ _ _) fun _ => .pure hp _
    · exact .pure hp _
  · split
    · exact .pure hp _
    · exact .bind hp (h.log _ _) fun _ => .pure hp _

theorem Sys.Frame.lift {α : Type} {x : M α} (hx : Moves R x) :
    Along (OnSys R) (fun _ => True) (Prog.atom (liftSys x)) :=
  .atom (fun w => hx w.sys) fun _ => trivial

theorem Sys.Frame.maps (h : Sys.Frame env R) {α : Type} (f : Maps → α × Maps) :
    Along (OnSys R) (fun _ => True) (Prog.atom (withMaps f)) :=
  .atom (fun w => h.preorder.refl w.sys) fun _ => trivial

theorem Sys.Frame.actionSections (h : Sys.Frame env R) (as : List Action) :
    Along (OnSys R) (fun _ => True) (actionSections env ctx kind as) := by
  induction as with
  | nil => trivial
  | cons a as ih =>
    refine .seq ?_ fun _ => .seq ih fun _ => trivial
    cases a with
    | log level msg =>
      exact .atom (fun w => h.action ctx kind (.log level msg) w.sys) fun _ => trivial
    | file j =>
      exact .seq (Sys.Frame.lift (h.requests.getFileDataAndName ctx _ _)) fun fetched =>
        Sys.Frame.lift (h.finish j fetched)

theorem Sys.Frame.workSections (h : Sys.Frame env R) (skipped working : String) (item : Item)
    (isRemoved skip : Bool) :
    Along (OnSys R) (fun _ => True)
      (workSections env ctx kind skipped working item isRemoved skip) := by
  refine .ite (fun _ => ?_) fun _ => ?_
  · exact .seq (Sys.Frame.lift (h.log _ _)) fun _ => trivial
  · refine .seq (Sys.Frame.lift (h.log _ _)) fun _ => .seq (Sys.Frame.lift ?_) fun _ => ?_
    · unfold getDestinationFolder
      split
      · exact .bind h.preorder (h.log _ _) fun _ => .pure h.preorder _
      · exact .pure h.preorder _
    · exact .seq (h.maps _) fun _ => h.actionSections _

theorem Sys.Frame.seen (h : Sys.Frame env R) (f : Maps → Bool × Maps) :
    Along (OnSys R) (fun _ => True)
      (if ignoreAlreadyProcessed then Prog.atom (withMaps f) else pure false : Prog World Bool) :=
  .ite (fun _ => h.maps f) fun _ => trivial

theorem Sys.Frame.eventSections (h : Sys.Frame env R) (ev : EventType) (item : Item) :
    Along (OnSys R) (fun _ => True) (eventSections env ctx kind ignoreAlreadyProcessed ev item) :=
  .seq (h.seen _) fun _ => h.workSections ..

theorem Sys.Frame.listItemsSections (h : Sys.Frame env R) (items : List Item) :
    Along (OnSys R) (fun _ => True)
      (listItemsSections env ctx kind ignoreAlreadyProcessed items) := by
  induction items with
  | nil => trivial
  | cons item items ih =>
    exact .seq (.seq (h.seen _) fun _ => h.workSections ..) fun _ => .seq ih fun _ => trivial

theorem Sys.Frame.removeStaleSections (h : Sys.Frame env R) (items : List Item) :
    Along (OnSys R) (fun _ => True) (removeStaleSections env ctx kind items) := by
  induction items with
  | nil => trivial
  | cons item items ih =>
    refine .seq (Sys.Frame.lift (h.log _ _)) fun _ => .seq ?_ fun _ => .seq ih fun _ => trivial
    exact .seq (h.maps _) fun _ => h.actionSections _

theorem Sys.Frame.listingSections (h : Sys.Frame env R) (ns : String) (items : List Item) :
    Along (OnSys R) (fun _ => True)
      (listingSections env ctx kind ignoreAlreadyProcessed ns items) :=
  .seq (h.listItemsSections items) fun _ =>
    .seq (.atom (fun w => h.scan w.sys) fun _ => trivial) fun _ =>
      .seq (h.removeStaleSections _) fun _ => trivial

end Frames

/-! ## Where an error comes from -/

section Errors

variable {env : Env} {kind : Kind} {P : KubeError → Prop}

/-- The errors among the replies are of a kind. -/
def Replies.Errors {α : Type} (P : KubeError → Prop) (replies : Replies α) : Prop :=
  ∀ e, .error e ∈ replies → P e

/-- Retrying gives up with an error of a reply. -/
theorem withTransportRetry_errors {α : Type} {request : M Unit} {replies rest : Replies α}
    {attempt : Nat} {s : Sys} {out : Except KubeError α} (hP : replies.Errors P)
    (h : (withTransportRetry env request replies attempt s).1 = some (out, rest)) :
    rest.Errors P ∧ ∀ e, out = .error e → P e := by
  induction replies generalizing attempt s with
  | nil => cases h
  | cons reply replies ih =>
    have hrest : Replies.Errors P replies := fun e he => hP e (List.mem_cons_of_mem _ he)
    cases reply with
    | ok v =>
      cases h
      exact ⟨hrest, fun e he => by cases he⟩
    | error e =>
      unfold withTransportRetry at h
      rw [bind_apply, StateM.ite_apply] at h
      split at h
      · exact ih hrest h
      · cases h
        refine ⟨hrest, fun e' he => ?_⟩
        cases he
        exact hP e List.mem_cons_self

/-- Reads by name fail with an error of a reply. -/
theorem readAll_errors {ns : String} {names : List String}
    {replies : Replies (Option kind.Object)} {s : Sys} {e : WErr} (hP : replies.Errors P)
    (h : (readAll env kind ns names replies s).1 = some (.error e)) :
    ∃ k, e = .kube k ∧ P k := by
  induction names generalizing replies s with
  | nil => cases h
  | cons rn names ih =>
    unfold readAll readNamed at h
    simp only [bind_apply] at h
    generalize hout : withTransportRetry env (emit (.apiGet kind ns rn)) replies 0 s = out at h
    obtain ⟨answer, s'⟩ := out
    rcases answer with _ | ⟨k | got, rest⟩
    · cases h
    · obtain ⟨-, hk⟩ := withTransportRetry_errors hP (congrArg Prod.fst hout)
      cases h
      exact ⟨k, rfl, hk k rfl⟩
    · obtain ⟨hrest, -⟩ := withTransportRetry_errors hP (congrArg Prod.fst hout)
      simp only [pure_apply, bind_apply] at h
      generalize hread : readAll env kind ns names rest s' = read at h
      obtain ⟨result, s''⟩ := read
      rcases result with _ | (e' | items)
      · cases h
      · cases h
        exact ih hrest (congrArg Prod.fst hread)
      · cases h

/-- So does the page loop. -/
theorem listAll_errors {ns sel : String} {fuel : Nat} {cont : Option String}
    {replies : Replies (Page kind)} {s : Sys} {e : WErr} (hP : replies.Errors P)
    (h : (listAll env kind ns sel fuel cont replies s).1 = some (.error e)) :
    ∃ k, e = .kube k ∧ P k := by
  induction fuel generalizing cont replies s with
  | zero => cases h
  | succ fuel ih =>
    unfold listAll listPage at h
    simp only [bind_apply] at h
    generalize hout :
      withTransportRetry env (emit (.apiList kind ns sel 5 cont)) replies 0 s = out at h
    obtain ⟨answer, s'⟩ := out
    rcases answer with _ | ⟨k | ⟨objects, next⟩, rest⟩
    · cases h
    · obtain ⟨-, hk⟩ := withTransportRetry_errors hP (congrArg Prod.fst hout)
      cases h
      exact ⟨k, rfl, hk k rfl⟩
    · obtain ⟨hrest, -⟩ := withTransportRetry_errors hP (congrArg Prod.fst hout)
      simp only [pure_apply] at h
      generalize next.filter (· ≠ "") = next at h
      cases next with
      | none => cases h
      | some c =>
        simp only [bind_apply] at h
        generalize hread : listAll env kind ns sel fuel (some c) rest s' = read at h
        obtain ⟨result, s''⟩ := read
        rcases result with _ | (e' | items)
        · cases h
        · cases h
          exact ih hrest (congrArg Prod.fst hread)
        · cases h

theorem readListing_errors {ctx : Ctx} {ns : String} {replies : ListReplies kind}
    {s : Sys} {e : WErr} (hpages : replies.pages.Errors P) (hreads : replies.reads.Errors P)
    (h : (readListing env ctx kind ns replies s).1 = some (.error e)) : ∃ k, e = .kube k ∧ P k := by
  unfold readListing at h
  split at h
  · exact readAll_errors hreads h
  · exact listAll_errors hpages h

end Errors

/-- The errors a server may answer with in a round. -/
inductive RoundInput.Faults {kind : Kind} (input : RoundInput kind) (e : KubeError) : Prop
  | page : .error e ∈ input.replies.pages → Faults input e
  | read : .error e ∈ input.replies.reads → Faults input e
  | refused : input.stream = .error e → Faults input e
  | broken {events : WatchStream kind} : input.stream = .ok events → .error e ∈ events →
      Faults input e

/-! ## The health record -/

/-- What a round may do to the health record: mark readiness and the contact. -/
structure Marks (w w' : World) : Prop where
  watchers : w'.sys.health.watchers = w.sys.health.watchers
  ready : w.sys.health.ready = true → w'.sys.health.ready = true
  clock : w'.sys.clock = w.sys.clock
  contact : w'.sys.health.lastContactMs = w.sys.health.lastContactMs ∨
    w'.sys.health.lastContactMs = w.sys.clock

namespace Marks

theorem of_same {w w' : World} (h : SameHealth w.sys w'.sys) : Marks w w' where
  watchers := by rw [h.health]
  ready hr := by rw [h.health]; exact hr
  clock := h.clock
  contact := .inl (by rw [h.health])

theorem preorder : Preorder Marks where
  refl _ := of_same (SameHealth.preorder.refl _)
  trans h h' := {
    watchers := h'.watchers.trans h.watchers
    ready := h'.ready ∘ h.ready
    clock := h'.clock.trans h.clock
    contact := by
      obtain h'' | h'' := h'.contact
      · rw [h'']
        exact h.contact
      · exact .inr (h''.trans h.clock) }

theorem event (firstEvent : Bool) : Moves Marks (markEvent firstEvent) := by
  intro w
  cases firstEvent with
  | true => exact ⟨rfl, fun _ => rfl, rfl, .inr rfl⟩
  | false => exact ⟨rfl, id, rfl, .inr rfl⟩

end Marks

/-! ## Rounds -/

section Rounds

variable (env : Env) (ctx : Ctx) {kind : Kind} (requestUrl : Option String)
  (ignoreAlreadyProcessed : Bool)

/-- A script that cannot be spawned is no error of the API. -/
theorem notify_error {changed : Bool} {s : Sys} {e : WErr}
    (h : (notify env ctx requestUrl changed s).1 = .error e) : ∃ msg, e = .other msg := by
  cases changed with
  | false => cases h
  | true =>
    unfold notify at h
    rw [if_pos rfl, bind_apply] at h
    cases hscript : ctx.script with
    | none =>
      rw [hscript] at h
      cases requestUrl <;> cases h
    | some script =>
      rw [hscript] at h
      dsimp only at h
      generalize execute env script s = ran at h
      obtain ⟨result, s'⟩ := ran
      cases result with
      | error msg =>
        cases h
        exact ⟨msg, rfl⟩
      | ok u => cases requestUrl <;> cases h

theorem notify_marks (changed : Bool) :
    Along Marks (fun out => ∀ k, out ≠ .error (.kube k))
      (Prog.atom (liftSys (notify env ctx requestUrl changed))) := by
  refine .atom (fun w => .of_same (notify_sameHealth env ctx requestUrl changed w.sys))
    fun w k hk => ?_
  obtain ⟨msg, hmsg⟩ := notify_error env ctx requestUrl hk
  cases hmsg

variable {P : KubeError → Prop}

/-- The error a list pass ends with, if it is one of the API, is one of its replies. -/
theorem passSections_marks {ns : String} {replies : ListReplies kind}
    (hpages : replies.pages.Errors P) (hreads : replies.reads.Errors P) :
    Along Marks (fun out => ∀ k, out = some (.error (.kube k)) → P k)
      (passSections env ctx kind ns requestUrl ignoreAlreadyProcessed replies) := by
  refine .bind (Q := fun read => ∀ k, read = some (.error (.kube k)) → P k) (.atom ?_ ?_)
    fun read hread => ?_
  · exact fun w => .of_same (startPass_calm env ctx kind ns replies w).sameHealth
  · intro w k hk
    obtain ⟨k', he, hk'⟩ := readListing_errors hpages hreads hk
    cases he
    exact hk'
  · split
    · exact fun k hk => by cases hk
    · next e =>
      intro k hk
      cases hk
      exact hread k rfl
    · refine .seq (((SameHealth.frame env).listingSections ns _).mono (fun _ _ h => .of_same h)
        fun _ h => h) fun changed => ?_
      refine .bind (notify_marks env ctx requestUrl changed) fun result hresult k hk => ?_
      cases hk
      exact absurd rfl (hresult k)

/-- So is the error a connection ends with. -/
theorem watchEventsSections_marks (firstEvent : Bool) {events : WatchStream kind}
    (hevents : ∀ k, .error k ∈ events → P k) :
    Along Marks (fun out => ∀ k, out = .error (.kube k) → P k)
      (watchEventsSections env ctx kind requestUrl ignoreAlreadyProcessed firstEvent events) := by
  induction events generalizing firstEvent with
  | nil => exact fun k hk => by cases hk
  | cons e events ih =>
    cases e with
    | error e =>
      intro k hk
      cases hk
      exact hevents e List.mem_cons_self
    | ok ev =>
      refine .seq (.atom (Marks.event firstEvent) fun _ => trivial) fun _ => ?_
      refine .seq (((SameHealth.frame env).eventSections _ _).mono (fun _ _ h => .of_same h)
        fun _ h => h) fun changed => ?_
      refine .bind (notify_marks env ctx requestUrl changed) fun result hresult => ?_
      split
      · next e =>
        intro k hk
        cases hk
        exact absurd rfl (hresult k)
      · exact ih false fun k hk => hevents k (List.mem_cons_of_mem _ hk)

/-- Only an API error 500 ends the task. -/
theorem endRound_marks (result : Option (Except WErr Unit)) :
    Along Marks (fun out => out = some false →
      ∃ reason, result = some (.error (.kube (.api 500 reason))))
        (Prog.atom (endRound env result)) := by
  have hp := Marks.preorder
  have hemit : ∀ e, Moves Marks (liftSys (emit e)) := fun e w => .of_same ⟨rfl, rfl⟩
  have hthrottled : ∀ msg secs, Along Marks
      (fun out => out = some false → ∃ reason, result = some (.error (.kube (.api 500 reason))))
      (Prog.atom (do
        liftSys (log .error msg)
        liftSys (emit (.sleep secs))
        pure (some true) : StateM World (Option Bool))) := by
    intro msg secs
    refine .atom (.bind hp (hemit _) fun _ => .bind hp (hemit _) fun _ => .pure hp _) fun w h => ?_
    cases h
  rcases result with _ | (((⟨code, reason⟩ | msg) | msg) | _)
  · exact .atom (.pure hp _) fun w h => by cases h
  · by_cases h500 : code = 500
    · subst h500
      exact .atom (.bind hp (hemit _) fun _ => .pure hp _) fun w _ => ⟨reason, rfl⟩
    · have hend : endRound env (some (.error (.kube (.api code reason)))) = (do
          liftSys (log .error s!"ApiException when calling kubernetes: ({code}) Reason: {reason}\n")
          liftSys (emit (.sleep env.errorThrottleSleep.toNat))
          pure (some true)) := if_neg h500
      rw [hend]
      exact hthrottled _ _
  · exact hthrottled _ _
  · exact hthrottled _ _
  · exact .atom (.pure hp _) fun w h => by cases h

/-- **Of a round**, section by section: the health record is marked and otherwise left alone, and
when the task ends then the server answered with an API error 500. -/
theorem roundSections_marks (ns : String) (input : RoundInput kind) :
    Along Marks (fun out => out = some false → ∃ reason, input.Faults (.api 500 reason))
      (roundSections env ctx kind ns requestUrl ignoreAlreadyProcessed input) := by
  refine .bind (Q := fun result => ∀ k, result = some (.error (.kube k)) → input.Faults k) ?_
    fun result hresult => ?_
  · refine .ite (fun _ => ?_) fun _ => ?_
    · refine .bind (passSections_marks env ctx requestUrl ignoreAlreadyProcessed (P := input.Faults)
        (fun _ h => .page h) fun _ h => .read h) fun out hout => ?_
      split
      · refine .seq (.atom (fun w => .of_same ⟨rfl, rfl⟩) fun _ => trivial) fun _ k hk => ?_
        cases hk
      · exact hout
    · refine .bind (Q := fun out => ∀ k, out = .error (.kube k) → input.Faults k) ?_
        fun out hout k hk => ?_
      · refine .seq (.atom (fun w => .of_same ⟨rfl, rfl⟩) fun _ => trivial) fun _ => ?_
        split
        · next e he =>
          intro k hk
          cases hk
          exact .refused he
        · next events he =>
          exact watchEventsSections_marks env ctx requestUrl ignoreAlreadyProcessed true
            fun k hk => .broken he hk
      · exact hout k (Option.some.inj hk)
  · refine (endRound_marks env result).mono (fun _ _ h => h) fun out hout hfalse => ?_
    obtain ⟨reason, hreason⟩ := hout hfalse
    exact ⟨reason, hresult _ hreason⟩

end Rounds

end Sidecar
