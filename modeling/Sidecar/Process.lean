import Sidecar.Lib.Machine
import Sidecar.Main
import Sidecar.Panics

/-!
# The process

`run` in `main.rs` as a machine: the initial passes one after the other, then the watcher tasks,
section by section in any order, the monitor loop, SIGTERM and time passing. While the initial sync
runs there is no task beside it but the health server, so a pass is one step. A panic in a pass or
in a section aborts the process at once.
-/

namespace Sidecar

open StateM Interleave

/-- `werr_to_string`. -/
def werrToString : WErr → String
  | .kube (.api code reason) => s!"({code}) Reason: {reason}"
  | .kube (.other msg) => msg
  | .other msg => msg

/-! ## State -/

inductive TaskState : Type 1
  /-- Between two rounds. -/
  | idle
  | busy (todo : Prog World (Option Bool))
  /-- For an answer that does not come. -/
  | waiting
  | ended

/-- A watcher task and what it is doing. -/
structure Watcher : Type 1 where
  kind : Kind
  ns : String
  state : TaskState

/-- `handle.is_finished()`. -/
def Watcher.ended (t : Watcher) : Bool :=
  match t.state with
  | .ended => true
  | _ => false

inductive Phase : Type 1
  /-- These initial passes are still to be made. -/
  | syncing (settings : Settings) (left : List (Kind × String))
  /-- The monitor loop sleeps until `nextTick`. -/
  | watching (settings : Settings) (watchers : List Watcher) (nextTick : Nat)
  | exited (code : Nat)
  /-- After a panic, by SIGABRT. -/
  | aborted

/-- How a process ends. -/
inductive Exit
  | code (n : Nat)
  | abort
  deriving DecidableEq

structure Process : Type 1 where
  world : World
  phase : Phase

namespace Process

/-- How the process has ended, if it has. -/
def exit (p : Process) : Option Exit :=
  match p.phase with
  | .exited code => some (.code code)
  | .aborted => some .abort
  | _ => none

/-- What `/healthz` answers, while there is someone to answer. -/
def healthz (p : Process) : Option (Nat × String × String) :=
  match p.exit with
  | some _ => none
  | none => some (statusBody p.world.sys)

/-! ## Steps -/

inductive Label
  | wait (ms : Nat)
  | pass (replies : (kind : Kind) → ListReplies kind)
  /-- The initial sync is complete. -/
  | serve
  | round (i : Nat) (input : (kind : Kind) → RoundInput kind)
  | section (i : Nat)
  | monitor
  | sigterm

/-- The lines before the initial sync. -/
def startSync (settings : Settings) : M Unit :=
  if settings.listOnly then pure ()
  else do
    log .info "Performing initial list-based sync before starting watch."
    (if settings.requestSkipInit
      then log .info "Skipping initial request to external endpoint." else pure ())

theorem startSync_moves {R : Sys → Sys → Prop} (hp : StateM.Preorder R)
    (hlog : ∀ level msg, Moves R (log level msg))
    (settings : Settings) : Moves R (startSync settings) :=
  .ite (.pure hp _) (.bind hp (hlog _ _) fun _ => .ite (hlog _ _) (.pure hp _))

/-- Look for tasks that have ended. -/
def reportDied : List Watcher → M Bool
  | [] => pure false
  | t :: ts => do
    (if t.ended then log .error s!"Process for {t.ns}/{t.kind.asStr} died" else pure ())
    let died ← reportDied ts
    pure (t.ended || died)

/-- The body of the monitor loop: whether the process exits. -/
def look (watchers : List Watcher) : M Bool := do
  updateK8sContact
  let died ← reportDied watchers
  (if died then log .critical "At least one process died. Stopping and exiting" else pure ())
  pure died

/-- The tasks as they are spawned. -/
def spawnWatchers (settings : Settings) : List Watcher :=
  settings.watched.map fun target => ⟨target.1, target.2, .idle⟩

/-- From the initial sync to the first sleep of the monitor loop. -/
def startWatching (settings : Settings) : M Unit := do
  markReady
  log .info "Initial sync complete, sidecar is ready."
  registerWatchers ((spawnWatchers settings).map fun _ => true)
  let _ ← look (spawnWatchers settings)

/-- `alive.store(false)`. -/
def lowerFlag (i : Nat) : M Unit := modify fun s =>
  { s with health := { s.health with watchers := s.health.watchers.set i false } }

variable (env : Env)

/-- The next section of the task of watcher `i`. -/
def section? (w : World) (t : Watcher) (i : Nat) : Option (World × Watcher) :=
  match t.state with
  | .busy (.step x next) => some ((x w).2, { t with state := .busy (next (x w).1) })
  | .busy (.done none) => some (w, { t with state := .waiting })
  | .busy (.done (some true)) => some (w, { t with state := .idle })
  | .busy (.done (some false)) => some ((liftSys (lowerFlag i) w).2, { t with state := .ended })
  | _ => none

/-- The next round of the task. -/
def round? (settings : Settings) (t : Watcher) (input : (kind : Kind) → RoundInput kind) :
    Option Watcher :=
  match t.state with
  | .idle => some { t with
      state := .busy (roundSections env settings.ctx t.kind t.ns settings.requestUrl
        settings.ignoreAlreadyProcessed (input t.kind)) }
  | _ => none

/-- What follows a section that comes to `w'`. -/
def goOn (w w' : World) (phase : Phase) : Process :=
  match w.panic? w' with
  | some v => ⟨v, .aborted⟩
  | none => ⟨w', phase⟩

/-- The next initial pass; an error ends the process, and so does a panic. -/
def pass? (w : World) (settings : Settings) (replies : (kind : Kind) → ListReplies kind) :
    List (Kind × String) → Option Process
  | [] => none
  | (kind, ns) :: left =>
    let pass := passSections env settings.ctx kind ns settings.initRequestUrl settings.initIgnore
      (replies kind)
    let out := pass.runUntil World.panic? w
    match out.1 with
    | none => some ⟨out.2, .aborted⟩
    | some none => none
    | some (some (.ok ())) => some ⟨out.2, .syncing settings left⟩
    | some (some (.error e)) => some ⟨(liftSys (log .error (werrToString e)) out.2).2, .exited 1⟩

def step? (p : Process) (l : Label) : Option Process :=
  match p.phase, l with
  | .exited _, _ => none
  | .aborted, _ => none
  | _, .wait ms =>
    some { p with world :=
      { p.world with sys := { p.world.sys with clock := p.world.sys.clock + ms } } }
  | _, .sigterm => some ⟨(liftSys (log .info "Subprocess exiting gracefully") p.world).2, .exited 0⟩
  | .syncing settings left, .pass replies => pass? env p.world settings replies left
  | .syncing settings [], .serve =>
    if settings.listOnly then some ⟨(liftSys markReady p.world).2, .exited 0⟩
    else some ⟨(liftSys (startWatching settings) p.world).2,
      .watching settings (spawnWatchers settings) (p.world.sys.clock + 5000)⟩
  | .watching settings watchers nextTick, .round i input =>
    (watchers[i]?.bind fun t => round? env settings t input).map fun t =>
      ⟨p.world, .watching settings (watchers.set i t) nextTick⟩
  | .watching settings watchers nextTick, .section i =>
    (watchers[i]?.bind fun t => section? p.world t i).map fun out =>
      goOn p.world out.1 (.watching settings (watchers.set i out.2) nextTick)
  | .watching settings watchers nextTick, .monitor =>
    if nextTick ≤ p.world.sys.clock then
      let out := liftSys (look watchers) p.world
      some ⟨out.2, if out.1 then .exited 1
        else .watching settings watchers (p.world.sys.clock + 5000)⟩
    else none
  | _, _ => none

def machine : Machine Process Label := ⟨fun p l q => step? env p l = some q⟩

/-- `run` up to its first pass. -/
def boot (start : Start) (w : World) : Process :=
  let out := liftSys (readSettings start) w
  match out.1 with
  | .error code => ⟨out.2, .exited code⟩
  | .ok settings => ⟨(liftSys (startSync settings) out.2).2, .syncing settings settings.watched⟩

/-- A pass that was made to its end, with what it came to. -/
def Made (settings : Settings) (kind : Kind) (ns : String) (replies : ListReplies kind) (w : World)
    (result : Except WErr Unit) (w' : World) : Prop :=
  listResources env settings.ctx kind ns settings.initRequestUrl settings.initIgnore replies w =
    (some result, w') ∧ w'.sys.aborts = w.sys.aborts

/-- What one step does, by the phase it is made in. -/
inductive Steps (p : Process) : Label → Process → Prop
  | wait {ms : Nat} : p.exit = none → Steps p (.wait ms)
      { p with world :=
        { p.world with sys := { p.world.sys with clock := p.world.sys.clock + ms } } }
  | sigterm : p.exit = none →
      Steps p .sigterm ⟨(liftSys (log .info "Subprocess exiting gracefully") p.world).2, .exited 0⟩
  | passed {settings : Settings} {kind : Kind} {ns : String} {left : List (Kind × String)}
    {replies : (kind : Kind) → ListReplies kind} {w : World} :
      p.phase = .syncing settings ((kind, ns) :: left) →
      Made env settings kind ns (replies kind) p.world (.ok ()) w →
      Steps p (.pass replies) ⟨w, .syncing settings left⟩
  | failed {settings : Settings} {kind : Kind} {ns : String} {left : List (Kind × String)}
    {replies : (kind : Kind) → ListReplies kind} {e : WErr} {w : World} :
      p.phase = .syncing settings ((kind, ns) :: left) →
      Made env settings kind ns (replies kind) p.world (.error e) w →
      Steps p (.pass replies) ⟨(liftSys (log .error (werrToString e)) w).2, .exited 1⟩
  | abortedPass {settings : Settings} {kind : Kind} {ns : String} {left : List (Kind × String)}
    {replies : (kind : Kind) → ListReplies kind} {w : World} :
      p.phase = .syncing settings ((kind, ns) :: left) →
      (passSections env settings.ctx kind ns settings.initRequestUrl settings.initIgnore
        (replies kind)).runUntil World.panic? p.world = (none, w) →
      Steps p (.pass replies) ⟨w, .aborted⟩
  | listed {settings : Settings} : p.phase = .syncing settings [] → settings.listOnly = true →
      Steps p .serve ⟨(liftSys markReady p.world).2, .exited 0⟩
  | serve {settings : Settings} : p.phase = .syncing settings [] → settings.listOnly = false →
      Steps p .serve ⟨(liftSys (startWatching settings) p.world).2,
        .watching settings (spawnWatchers settings) (p.world.sys.clock + 5000)⟩
  | round {settings : Settings} {watchers : List Watcher} {nextTick i : Nat} {t : Watcher}
    {input : (kind : Kind) → RoundInput kind} : p.phase = .watching settings watchers nextTick →
      watchers[i]? = some t → t.state = .idle →
      Steps p (.round i input) ⟨p.world, .watching settings (watchers.set i { t with
        state := .busy (roundSections env settings.ctx t.kind t.ns settings.requestUrl
          settings.ignoreAlreadyProcessed (input t.kind)) }) nextTick⟩
  | section {settings : Settings} {watchers : List Watcher} {nextTick i : Nat}
      {t u : Watcher} {w : World} : p.phase = .watching settings watchers nextTick →
      watchers[i]? = some t → section? p.world t i = some (w, u) → p.world.panic? w = none →
      Steps p (.section i) ⟨w, .watching settings (watchers.set i u) nextTick⟩
  | abortedSection {settings : Settings} {watchers : List Watcher} {nextTick i : Nat}
      {t u : Watcher} {w v : World} : p.phase = .watching settings watchers nextTick →
      watchers[i]? = some t → section? p.world t i = some (w, u) → p.world.panic? w = some v →
      Steps p (.section i) ⟨v, .aborted⟩
  | monitor {settings : Settings} {watchers : List Watcher} {nextTick : Nat} :
      p.phase = .watching settings watchers nextTick → nextTick ≤ p.world.sys.clock →
      Steps p .monitor ⟨(liftSys (look watchers) p.world).2,
        if (liftSys (look watchers) p.world).1 then .exited 1
        else .watching settings watchers (p.world.sys.clock + 5000)⟩

theorem pass_cases {p q : Process} {settings : Settings} {left : List (Kind × String)}
    {replies : (kind : Kind) → ListReplies kind} (hphase : p.phase = .syncing settings left)
    (h : pass? env p.world settings replies left = some q) : Steps env p (.pass replies) q := by
  cases left with
  | nil => cases h
  | cons target left =>
    unfold pass? at h
    dsimp only at h
    split at h
    · next habort =>
      cases h
      exact .abortedPass hphase (Prod.ext habort rfl)
    · cases h
    · next hout =>
      cases h
      obtain ⟨hrun, hcalm⟩ := pass_run env _ _ _ _ _ hout
      rw [hrun] at hout ⊢
      exact .passed hphase ⟨Prod.ext (Option.some.inj hout) rfl, hcalm⟩
    · next e hout =>
      cases h
      obtain ⟨hrun, hcalm⟩ := pass_run env _ _ _ _ _ hout
      rw [hrun] at hout ⊢
      exact .failed hphase ⟨Prod.ext (Option.some.inj hout) rfl, hcalm⟩

theorem exit_none {p : Process} (hcode : ∀ code, p.phase ≠ .exited code)
    (habort : p.phase ≠ .aborted) :
    p.exit = none := by
  unfold exit
  split
  · next code hphase => exact absurd hphase (hcode code)
  · next hphase => exact absurd hphase habort
  · rfl

theorem step_cases {p q : Process} {l : Label} (h : step? env p l = some q) : Steps env p l q := by
  unfold step? at h
  split at h
  · cases h
  · cases h
  · next hcode habort =>
    cases h
    exact .wait (exit_none hcode habort)
  · next hcode habort =>
    cases h
    exact .sigterm (exit_none hcode habort)
  · next hphase => exact pass_cases env hphase h
  · next settings hphase =>
    split at h
    · next hlist =>
      cases h
      exact .listed hphase hlist
    · next hlist =>
      cases h
      exact .serve hphase (by simpa using hlist)
  · next settings watchers nextTick i input hphase =>
    obtain ⟨u, hu, rfl⟩ := Option.map_eq_some_iff.1 h
    obtain ⟨t, ht, hround⟩ := Option.bind_eq_some_iff.1 hu
    unfold round? at hround
    split at hround
    · next hidle =>
      cases hround
      exact .round hphase ht hidle
    · cases hround
  · next settings watchers nextTick i hphase =>
    obtain ⟨⟨w', u⟩, hu, rfl⟩ := Option.map_eq_some_iff.1 h
    obtain ⟨t, ht, hsection⟩ := Option.bind_eq_some_iff.1 hu
    unfold goOn
    split
    · next hpanic => exact .abortedSection hphase ht hsection hpanic
    · next hcalm => exact .section hphase ht hsection hcalm
  · next settings watchers nextTick hphase =>
    split at h
    · next htick =>
      cases h
      exact .monitor hphase htick
    · cases h
  · cases h

/-! ## On the small environment -/

def sampleVars : List (String × String) :=
  [("LABEL", "sync"), ("FOLDER", "/data"), ("NAMESPACE", "ns")]

def sampleStart : Start where
  args := []
  env name := sampleVars.lookup name
  loggerInit := .ok ()
  healthListener := .ok ()
  initClient := .ok ()
  serverVersion := .ok ("1", "30", "v1.30.0")
  saNamespace := .ok "ns"
  fromJson := some
  toJson := id

/-- The listing of an initial pass, and of no use for Secrets. -/
def samplePass (cms : List ConfigMap) : Label := .pass fun
  | .configMap => sampleReplies cms
  | .secret => ⟨[], []⟩

/-- A round of a watcher whose connection is refused. -/
def sampleRefused (code : Nat) : Label :=
  .round 0 fun _ => ⟨⟨[], []⟩, .error (.api code "away")⟩

/-- A life of the process, its steps latest first. -/
def sampleLife : List Label → Process
  | [] => boot sampleStart sampleWorld
  | l :: ls => (step? sampleEnv (sampleLife ls) l).getD (sampleLife ls)

theorem sampleLife_step (l : Label) (ls : List Label)
    (h : (step? sampleEnv (sampleLife ls) l).isSome = true) :
    step? sampleEnv (sampleLife ls) l = some (sampleLife (l :: ls)) := by
  obtain ⟨q, hq⟩ := Option.isSome_iff_exists.1 h
  rw [sampleLife, hq]
  rfl

/-- Every step can be made. -/
def sampleLives : List Label → Bool
  | [] => true
  | l :: ls => (step? sampleEnv (sampleLife ls) l).isSome && sampleLives ls

theorem sampleLife_run (ls : List Label) (h : sampleLives ls = true) :
    Machine.Run (machine sampleEnv) (boot sampleStart sampleWorld) ls (sampleLife ls) := by
  induction ls with
  | nil => exact .start
  | cons l ls ih =>
    obtain ⟨hstep, hrest⟩ := Bool.and_eq_true_iff.1 h
    exact (ih hrest).step (sampleLife_step _ _ hstep)

end Process

end Sidecar
