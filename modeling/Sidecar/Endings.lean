import Sidecar.Lifecycle

/-!
# How the process ends

The initial sync makes one list pass for each kind and namespace, in order, and an error ends the
process. A process that is ready has made them all (`ready_after_sync`), and whatever ends it is one
of six things (`exit_code`): in particular, once it serves, no error but an API error 500 answered
to a watcher does, short of a panic.
-/

namespace Sidecar

open StateM Interleave

/-- Time passes. -/
def World.later (w : World) (ms : Nat) : World :=
  { w with sys := { w.sys with clock := w.sys.clock + ms } }

/-- The initial passes for these kinds and namespaces, each of them successful and without a panic;
time may pass between them. -/
inductive InitialSync (env : Env) (settings : Settings) (w₀ : World) :
    List (Kind × String) → World → Prop
  | start : InitialSync env settings w₀ [] w₀
  | wait {done : List (Kind × String)} {w : World} (ms : Nat) : InitialSync env settings w₀ done w →
      InitialSync env settings w₀ done (w.later ms)
  | pass {done : List (Kind × String)} {w : World} {kind : Kind} {ns : String}
      {replies : ListReplies kind} :
      InitialSync env settings w₀ done w →
      (listResources env settings.ctx kind ns settings.initRequestUrl settings.initIgnore
        replies w).1 =
        some (.ok ()) →
      (listResources env settings.ctx kind ns settings.initRequestUrl settings.initIgnore replies
        w).2.sys.aborts =
        w.sys.aborts →
      InitialSync env settings w₀ (done ++ [(kind, ns)])
        (listResources env settings.ctx kind ns settings.initRequestUrl
          settings.initIgnore replies w).2

namespace Process

/-- A pass or a section, as opposed to time, signals and the monitor loop. -/
def Label.Works : Label → Prop
  | .pass _ => True
  | .section _ => True
  | _ => False

/-- What a process that was started in `w` and left the world `w'` may have ended with. -/
inductive Ending (env : Env) (start : Start) (w : World) (ls : List Label)
    (w' : World) : Exit → Prop
  /-- The settings could not be read. -/
  | unread {code : Nat} : (readSettings start w.sys).1 = .error code →
    Ending env start w ls w' (.code code)
  /-- An initial pass failed; those before it were made. -/
  | failed {settings : Settings} {done left : List (Kind × String)} {kind : Kind} {ns : String}
    {replies : ListReplies kind} {u : World} {e : WErr} :
    (readSettings start w.sys).1 = .ok settings →
      settings.watched = done ++ (kind, ns) :: left →
      InitialSync env settings (boot start w).world done u →
      (listResources env settings.ctx kind ns settings.initRequestUrl settings.initIgnore
        replies u).1 =
        some (.error e) → Ending env start w ls w' (.code 1)
  /-- `METHOD=LIST`, and all passes were made. -/
  | listed {settings : Settings} {u : World} : (readSettings start w.sys).1 = .ok settings →
      settings.listOnly = true → InitialSync env settings (boot start w).world settings.watched u →
      Ending env start w ls w' (.code 0)
  /-- A watcher was answered with an API error 500. -/
  | struck {l : Label} : l ∈ ls → l.Struck → Ending env start w ls w' (.code 1)
  | terminated : .sigterm ∈ ls → Ending env start w ls w' (.code 0)
  /-- An initial pass or a watcher's section panicked: that is the last it did. -/
  | panicked {l : Label} {rest : List Label} : ls = l :: rest → l.Works →
      w'.sys.trace.getLast? = some .abort → Ending env start w ls w' .abort

/-- What the process has behind it in each phase. -/
def Behind (env : Env) (start : Start) (w : World) (ls : List Label) (p : Process) : Prop :=
  match p.phase with
  | .syncing settings left => (readSettings start w.sys).1 = .ok settings ∧
      ∃ done, settings.watched = done ++ left ∧
      InitialSync env settings (boot start w).world done p.world
  | .watching settings _ _ => (readSettings start w.sys).1 = .ok settings ∧
      settings.listOnly = false ∧
      ∃ ls₁ ls₂ q, ls = ls₂ ++ ls₁ ∧ Machine.Run (machine env) (boot start w) ls₁ q ∧
        q.phase = .syncing settings [] ∧
        InitialSync env settings (boot start w).world settings.watched q.world ∧
        Machine.Run (machine env) q ls₂ p
  | .exited code => Ending env start w ls p.world (.code code)
  | .aborted => Ending env start w ls p.world .abort

section Behind

variable {env : Env} {start : Start} {w : World} {ls : List Label} {p q : Process} {l : Label}

theorem boot_behind : Behind env start w [] (boot start w) := by
  unfold Behind
  split
  · next settings left hphase =>
    unfold boot at hphase
    dsimp only at hphase
    split at hphase
    · cases hphase
    · next settings' hread =>
      cases hphase
      exact ⟨hread, [], rfl, .start⟩
  · next hphase =>
    unfold boot at hphase
    dsimp only at hphase
    split at hphase <;> cases hphase
  · next code hphase =>
    unfold boot at hphase
    dsimp only at hphase
    split at hphase
    · next hread =>
      cases hphase
      exact .unread hread
    · cases hphase
  · next hphase =>
    unfold boot at hphase
    dsimp only at hphase
    split at hphase <;> cases hphase

theorem Behind.syncing (h : Behind env start w ls p) {settings : Settings}
    {left : List (Kind × String)}
    (hphase : p.phase = .syncing settings left) : (readSettings start w.sys).1 = .ok settings ∧
      ∃ done, settings.watched = done ++ left ∧
      InitialSync env settings (boot start w).world done p.world := by
  unfold Behind at h
  rw [hphase] at h
  exact h

theorem Behind.watching (h : Behind env start w ls p) {settings : Settings}
    {watchers : List Watcher}
    {nextTick : Nat} (hphase : p.phase = .watching settings watchers nextTick) :
    (readSettings start w.sys).1 = .ok settings ∧ settings.listOnly = false ∧
      ∃ ls₁ ls₂ q, ls = ls₂ ++ ls₁ ∧ Machine.Run (machine env) (boot start w) ls₁ q ∧
        q.phase = .syncing settings [] ∧
        InitialSync env settings (boot start w).world settings.watched q.world ∧
        Machine.Run (machine env) q ls₂ p := by
  unfold Behind at h
  rw [hphase] at h
  exact h

/-- A step among the watchers. -/
theorem Behind.watched (h : Behind env start w ls p) (hstep : step? env p l = some q)
    {settings : Settings} {watchers watchers' : List Watcher} {nextTick nextTick' : Nat}
    (hphase : p.phase = .watching settings watchers nextTick)
    (hphase' : q.phase = .watching settings watchers' nextTick') :
    Behind env start w (l :: ls) q := by
  obtain ⟨hread, hlist, ls₁, ls₂, q₀, rfl, hbefore, hq₀, hsync, hafter⟩ := h.watching hphase
  unfold Behind
  rw [hphase']
  exact ⟨hread, hlist, ls₁, l :: ls₂, q₀, rfl, hbefore, hq₀, hsync, hafter.step hstep⟩

theorem Behind.step (hrun : Machine.Run (machine env) (boot start w) ls p) (hw : Cold w)
    (h : Behind env start w ls p) (hstep : step? env p l = some q) :
    Behind env start w (l :: ls) q := by
  have hs := step_cases env hstep
  cases hs with
  | @wait ms hrunning =>
    have hsame : ∀ phase, p.phase = phase →
        Behind env start w (.wait ms :: ls) ⟨p.world.later ms, p.phase⟩ := by
      intro phase hphase
      cases phase with
      | exited code =>
        unfold exit at hrunning
        rw [hphase] at hrunning
        cases hrunning
      | aborted =>
        unfold exit at hrunning
        rw [hphase] at hrunning
        cases hrunning
      | syncing settings left =>
        obtain ⟨hread, done, hwatched, hsync⟩ := h.syncing hphase
        unfold Behind
        rw [show Process.phase ⟨p.world.later ms, p.phase⟩ = _ from hphase]
        exact ⟨hread, done, hwatched, hsync.wait ms⟩
      | watching settings watchers nextTick => exact h.watched hstep hphase hphase
    exact hsame _ rfl
  | sigterm => exact Ending.terminated List.mem_cons_self
  | @passed settings kind ns left replies w' hphase hmade =>
    obtain ⟨hread, done, hwatched, hsync⟩ := h.syncing hphase
    obtain ⟨hlist, hcalm⟩ := hmade
    have hsync' := hsync.pass (congrArg Prod.fst hlist) (by rw [hlist]; exact hcalm)
    rw [hlist] at hsync'
    exact ⟨hread, _, by rw [hwatched, List.append_assoc, List.singleton_append], hsync'⟩
  | failed hphase hmade =>
    obtain ⟨hread, done, hwatched, hsync⟩ := h.syncing hphase
    exact Ending.failed hread hwatched hsync (congrArg Prod.fst hmade.1)
  | abortedPass hphase habort =>
    obtain ⟨v, u, hpanic⟩ := Prog.runUntil_none (congrArg Prod.fst habort)
    rw [habort] at hpanic
    exact Ending.panicked rfl trivial (World.broken_of_panic hpanic).last
  | listed hphase hlist =>
    obtain ⟨hread, done, hwatched, hsync⟩ := h.syncing hphase
    rw [List.append_nil] at hwatched
    exact Ending.listed hread hlist (hwatched ▸ hsync)
  | @serve settings hphase hlist =>
    obtain ⟨hread, done, hwatched, hsync⟩ := h.syncing hphase
    rw [List.append_nil] at hwatched
    exact ⟨hread, hlist, ls, [.serve], p, rfl, hrun, hphase, hwatched ▸ hsync,
      Machine.Run.step .start hstep⟩
  | round hphase => exact h.watched hstep hphase rfl
  | «section» hphase => exact h.watched hstep hphase rfl
  | abortedSection hphase ht hsection hpanic =>
    exact Ending.panicked rfl trivial (World.broken_of_panic hpanic).last
  | @monitor settings watchers nextTick hphase htick =>
    by_cases hdied : (liftSys (look watchers) p.world).1 = true
    · -- a watcher that ended was answered with a 500
      have hany : watchers.any Watcher.ended = true :=
        (look_died watchers p.world.sys).symm.trans hdied
      obtain ⟨t, ht, hended⟩ := List.any_eq_true.1 hany
      obtain ⟨l, hl, hstruck⟩ := ((run_sound hw hrun).serves hphase).ended t ht hended
      unfold Behind
      rw [show _ = Phase.exited 1 from if_pos hdied]
      exact .struck (List.mem_cons_of_mem _ hl) hstruck
    · exact h.watched hstep hphase (if_neg hdied)

theorem run_behind (hw : Cold w) (hrun : Machine.Run (machine env) (boot start w) ls p) :
    Behind env start w ls p := by
  induction hrun with
  | start => exact boot_behind
  | step hrest hlast ih => exact ih.step hrest hw hlast

end Behind

/-! ## Readiness -/

/-- **Ready means synced.** Before `/healthz` answers `OK` for the first time, the process has gone
through a state in which the initial pass of every kind and namespace has been made, in order and
each with success. -/
theorem ready_after_sync {env : Env} {start : Start} {w : World} (hw : Cold w)
    {ls : List Label} {p : Process} (hrun : Machine.Run (machine env) (boot start w) ls p)
    (hok : p.healthz.map Prod.fst = some 200) :
    ∃ settings ls₁ ls₂ q, (readSettings start w.sys).1 = .ok settings ∧ ls = ls₂ ++ ls₁ ∧
      Machine.Run (machine env) (boot start w) ls₁ q ∧ Machine.Run (machine env) q ls₂ p ∧
      q.healthz.map Prod.fst = some 503 ∧
      InitialSync env settings (boot start w).world settings.watched q.world := by
  obtain ⟨settings, watchers, nextTick, hphase, -⟩ := (run_sound hw hrun).serving hok
  obtain ⟨hread, -, ls₁, ls₂, q, hls, hbefore, hq, hsync, hafter⟩ :=
    (run_behind hw hrun).watching hphase
  refine ⟨settings, ls₁, ls₂, q, hread, hls, hbefore, hafter, ?_, hsync⟩
  have hready := ((run_sound hw hbefore).syncing hq).1
  rw [healthz_running (exit_syncing hq)]
  simp [statusBody, hready]

theorem ready_after_sync_sample : ∃ settings w, (readSettings sampleStart sampleWorld.sys).1 =
    .ok settings ∧
    InitialSync sampleEnv settings (boot sampleStart sampleWorld).world settings.watched w := by
  have hrun := sampleLife_run [.serve, samplePass []] (by decide +kernel)
  obtain ⟨settings, -, -, q, hread, -, -, -, -, hsync⟩ :=
    ready_after_sync sample_cold hrun (by decide +kernel)
  exact ⟨settings, q.world, hread, hsync⟩

/-! ## Exit codes -/

/-- **Why the process ended**, for every way it can and every run. -/
theorem exit_code {env : Env} {start : Start} {w : World} (hw : Cold w)
    {ls : List Label} {p : Process}
    (hrun : Machine.Run (machine env) (boot start w) ls p) {exit : Exit}
    (hended : p.exit = some exit) :
    Ending env start w ls p.world exit := by
  have h := run_behind hw hrun
  unfold Process.exit at hended
  unfold Behind at h
  split at hended
  · next hphase =>
    cases hended
    rwa [hphase] at h
  · next hphase =>
    cases hended
    rwa [hphase] at h
  · cases hended

/-- `REQ_TIMEOUT=-1` -/
def sampleNoTimeout : Env :=
  { sampleEnv with httpCfg := { sampleEnv.httpCfg with timeout := .fin (-1) } }

/-- A pass that has to fetch the value of a key. -/
def sampleFetch : Label :=
  samplePass [sampleConfigMap "ns" "a" "1" [("k", "v"), ("u.url", "http://x")]]

def sampleAborted : Process :=
  (step? sampleNoTimeout (boot sampleStart sampleWorld) sampleFetch).getD
    (boot sampleStart sampleWorld)

/-- A watcher is struck; a request has no timeout. -/
theorem exit_code_sample :
    Ending sampleEnv sampleStart sampleWorld (.monitor :: .wait 5000 :: sampleStruck)
        (sampleLife (.monitor :: .wait 5000 :: sampleStruck)).world (.code 1) ∧
      Ending sampleNoTimeout sampleStart sampleWorld [sampleFetch] sampleAborted.world .abort := by
  have hrun := sampleLife_run (.monitor :: .wait 5000 :: sampleStruck) (by decide +kernel)
  have hstep : step? sampleNoTimeout (boot sampleStart sampleWorld) sampleFetch =
      some sampleAborted := by
    have hsome :
        (step? sampleNoTimeout (boot sampleStart sampleWorld) sampleFetch).isSome = true := by
      decide +kernel
    obtain ⟨q, hq⟩ := Option.isSome_iff_exists.1 hsome
    unfold sampleAborted
    rw [hq]
    rfl
  exact ⟨exit_code sample_cold hrun (by decide +kernel),
    exit_code sample_cold (Machine.Run.step .start hstep) (by decide +kernel)⟩

end Process

end Sidecar
