import Sidecar.Process

/-!
# The life of the process

What `/healthz` answers goes with what the process is doing, in every order its tasks are run in: it
is `OK` only while every watcher of a complete initial sync runs (`Sound.serving`), and it is `OK`
then as long as the monitor loop is not a minute late (`Sound.healthz_ok`). The process refines a
fail-stop supervisor whose workers are the watchers (`machine_refines`).
-/

namespace Sidecar

open StateM Interleave

namespace Process

/-! ## The invariant -/

/-- The server answered a watcher with an API error 500. -/
def Label.Struck : Label → Prop
  | .round _ input => ∃ kind reason, (input kind).Faults (.api 500 reason)
  | _ => False

/-- The health record while the watchers run; where one has ended, and where one will, there is
`Q`. -/
structure Serves (Q : Prop) (watchers : List Watcher) (nextTick : Nat) (w : World) : Prop where
  ready : w.sys.health.ready = true
  flags : w.sys.health.watchers = watchers.map fun t => !t.ended
  tasks : ∀ t ∈ watchers, ∀ todo, t.state = .busy todo →
    Along Marks (fun out => out = some false → Q) todo
  ended : ∀ t ∈ watchers, t.ended = true → Q
  contact : w.sys.health.lastContactMs ≤ w.sys.clock
  tick : nextTick ≤ w.sys.health.lastContactMs + 5000

/-- The health record goes with the phase. -/
def Sound (Q : Prop) (p : Process) : Prop :=
  match p.phase with
  | .syncing _ _ => p.world.sys.health.ready = false ∧ p.world.sys.health.watchers = []
  | .watching _ watchers nextTick => Serves Q watchers nextTick p.world
  | .exited _ => True
  | .aborted => True

theorem Sound.serves {Q : Prop} {p : Process} (h : Sound Q p) {settings : Settings}
    {watchers : List Watcher}
    {nextTick : Nat} (hp : p.phase = .watching settings watchers nextTick) :
    Serves Q watchers nextTick p.world := by
  unfold Sound at h
  rw [hp] at h
  exact h

theorem Sound.syncing {Q : Prop} {p : Process} (h : Sound Q p) {settings : Settings}
    {left : List (Kind × String)} (hp : p.phase = .syncing settings left) :
    p.world.sys.health.ready = false ∧ p.world.sys.health.watchers = [] := by
  unfold Sound at h
  rw [hp] at h
  exact h

/-- A list looks the same after an element is replaced by one that looks the same. -/
theorem map_set_same {α β : Type*} {f : α → β} {l : List α} {i : Nat} {a b : α}
    (ha : l[i]? = some a) (h : f b = f a) : (l.set i b).map f = l.map f := by
  obtain ⟨hi, rfl⟩ := List.getElem?_eq_some_iff.1 ha
  rw [List.map_set, h, ← List.getElem_map f (h := by simpa using hi), List.set_getElem_self]

section Serves

variable {Q : Prop} {watchers : List Watcher} {nextTick : Nat} {w : World}

/-- A section of a task marks the health record at most. -/
theorem Serves.marks (h : Serves Q watchers nextTick w) {w' : World} (hm : Marks w w') :
    Serves Q watchers nextTick w' where
  ready := hm.ready h.ready
  flags := hm.watchers.trans h.flags
  tasks := h.tasks
  ended := h.ended
  contact := by
    rw [hm.clock]
    obtain hc | hc := hm.contact
    · rw [hc]
      exact h.contact
    · exact hc.le
  tick := by
    have hcontact := h.contact
    have htick := h.tick
    obtain hc | hc := hm.contact <;> omega

/-- A watcher that is not at its end is replaced by one that is not. -/
theorem Serves.set (h : Serves Q watchers nextTick w) {i : Nat} {t u : Watcher}
    (ht : watchers[i]? = some t) (hte : t.ended = false) (hue : u.ended = false)
    (hu : ∀ todo, u.state = .busy todo → Along Marks (fun out => out = some false → Q) todo) :
    Serves Q (watchers.set i u) nextTick w where
  ready := h.ready
  flags := by
    rw [h.flags, map_set_same ht (by rw [hte, hue])]
  tasks t' ht' todo hbusy := by
    rcases List.mem_or_eq_of_mem_set ht' with hmem | rfl
    · exact h.tasks t' hmem todo hbusy
    · exact hu todo hbusy
  ended t' ht' he := by
    rcases List.mem_or_eq_of_mem_set ht' with hmem | rfl
    · exact h.ended t' hmem he
    · rw [hue] at he
      cases he
  contact := h.contact
  tick := h.tick

/-- A watcher ends, and its flag is lowered. -/
theorem Serves.finish (h : Serves Q watchers nextTick w) (i : Nat) (t : Watcher) (hQ : Q) :
    Serves Q (watchers.set i { t with state := .ended }) nextTick (liftSys (lowerFlag i) w).2 where
  ready := h.ready
  flags := by
    rw [List.map_set]
    exact congrArg (fun flags => flags.set i false) h.flags
  tasks t' ht' todo hbusy := by
    rcases List.mem_or_eq_of_mem_set ht' with hmem | rfl
    · exact h.tasks t' hmem todo hbusy
    · cases hbusy
  ended _ _ _ := hQ
  contact := h.contact
  tick := h.tick

/-- One section of a task. -/
theorem Serves.section (h : Serves Q watchers nextTick w) {i : Nat} {t u : Watcher} {w' : World}
    (ht : watchers[i]? = some t) (hs : section? w t i = some (w', u)) :
    Serves Q (watchers.set i u) nextTick w' := by
  have hmem : t ∈ watchers := List.mem_of_getElem? ht
  unfold section? at hs
  split at hs
  · next x next hbusy =>
    cases hs
    have hended : t.ended = false := by rw [Watcher.ended, hbusy]
    obtain ⟨hmarks, hnext⟩ := h.tasks t hmem _ hbusy w
    refine (h.marks hmarks).set ht hended rfl fun todo htodo => ?_
    cases htodo
    exact hnext
  · next hbusy =>
    cases hs
    exact h.set ht (by rw [Watcher.ended, hbusy]) rfl fun todo htodo => by cases htodo
  · next hbusy =>
    cases hs
    exact h.set ht (by rw [Watcher.ended, hbusy]) rfl fun todo htodo => by cases htodo
  · next hbusy =>
    cases hs
    exact h.finish i t (h.tasks t hmem _ hbusy rfl)
  · cases hs

end Serves

/-! ## Steps keep it -/

theorem reportDied_died (watchers : List Watcher) (s : Sys) :
    (reportDied watchers s).1 = watchers.any Watcher.ended := by
  induction watchers generalizing s with
  | nil => rfl
  | cons t ts ih =>
    unfold reportDied
    rw [bind_apply, bind_apply, pure_apply, ih]
    rfl

theorem reportDied_same (watchers : List Watcher) : Moves SameHealth (reportDied watchers) := by
  have hp := SameHealth.preorder
  induction watchers with
  | nil => exact .pure hp _
  | cons t ts ih =>
    exact .bind hp (.ite (fun _ => ⟨rfl, rfl⟩) (.pure hp _)) fun _ =>
      .bind hp ih fun _ => .pure hp _

theorem look_died (watchers : List Watcher) (s : Sys) :
    (look watchers s).1 = watchers.any Watcher.ended :=
  reportDied_died watchers _

/-- A look at the watchers notes the contact. -/
theorem look_health (watchers : List Watcher) (s : Sys) :
    (look watchers s).2.health = { s.health with lastContactMs := s.clock } ∧
      (look watchers s).2.clock = s.clock := by
  have hp := SameHealth.preorder
  have hrest : SameHealth (updateK8sContact s).2 (look watchers s).2 := by
    refine Moves.bind hp (reportDied_same watchers)
      (fun died => .bind hp (.ite ?_ (.pure hp _)) fun _ => .pure hp _) _
    exact fun _ => ⟨rfl, rfl⟩
  exact ⟨hrest.health, hrest.clock⟩

theorem startWatching_serves (Q : Prop) (settings : Settings) (w : World) :
    Serves Q (spawnWatchers settings) (w.sys.clock + 5000)
      (liftSys (startWatching settings) w).2 := by
  obtain ⟨hhealth, hclock⟩ := look_health (spawnWatchers settings)
    (registerWatchers ((spawnWatchers settings).map fun _ => true)
      (log .info "Initial sync complete, sidecar is ready." (markReady w.sys).2).2).2
  have hidle : ∀ t ∈ spawnWatchers settings, t.state = .idle := by
    intro t ht
    obtain ⟨target, -, rfl⟩ := List.mem_map.1 ht
    rfl
  exact {
    ready := congrArg Health.ready hhealth
    flags := by
      refine (congrArg Health.watchers hhealth).trans (List.map_congr_left fun t ht => ?_)
      rw [Watcher.ended, hidle t ht]
      rfl
    tasks := fun t ht todo hbusy => by
      rw [hidle t ht] at hbusy
      cases hbusy
    ended := fun t ht he => by
      rw [Watcher.ended, hidle t ht] at he
      cases he
    contact := (congrArg Health.lastContactMs hhealth).trans_le hclock.ge
    tick := Nat.add_le_add_right (congrArg Health.lastContactMs hhealth).ge 5000 }

variable {env : Env}

/-- **A step keeps the health record in step with the phase.** -/
theorem Sound.step {Q : Prop} {p q : Process} {l : Label} (h : Sound Q p) (hs : Steps env p l q)
    (hl : l.Struck → Q) : Sound Q q := by
  cases hs with
  | @wait ms hrunning =>
    unfold Sound at h ⊢
    cases hphase : p.phase with
    | exited code => trivial
    | aborted => trivial
    | syncing settings left =>
      rw [hphase] at h
      exact h
    | watching settings watchers nextTick =>
      rw [hphase] at h
      exact { h with contact := Nat.le_add_right_of_le h.contact }
  | sigterm => trivial
  | @passed settings kind ns left replies w hphase hmade =>
    obtain ⟨hready, hflags⟩ := h.syncing hphase
    have hsame :=
      listResources_sameHealth env settings.ctx kind settings.initRequestUrl settings.initIgnore ns
        (replies kind) p.world
    rw [hmade.1] at hsame
    exact ⟨(congrArg Health.ready hsame.health).trans hready,
      (congrArg Health.watchers hsame.health).trans hflags⟩
  | failed => trivial
  | abortedPass => trivial
  | listed => trivial
  | serve => exact startWatching_serves Q _ p.world
  | @round settings watchers nextTick i t input hphase ht hidle =>
    refine (h.serves hphase).set ht (by rw [Watcher.ended, hidle]) rfl fun todo htodo => ?_
    cases htodo
    refine Along.mono (fun _ _ hm => hm) (fun out hout => ?_) (roundSections_marks env settings.ctx
      settings.requestUrl settings.ignoreAlreadyProcessed t.ns (input t.kind))
    refine fun hfalse => hl ?_
    obtain ⟨reason, hreason⟩ := hout hfalse
    exact ⟨t.kind, reason, hreason⟩
  | «section» hphase ht hsection => exact (h.serves hphase).section ht hsection
  | abortedSection => trivial
  | @monitor settings watchers nextTick hphase htick =>
    obtain ⟨hhealth, hclock⟩ := look_health watchers p.world.sys
    have hserves := h.serves hphase
    unfold Sound
    split
    · next h' => split at h' <;> cases h'
    · next h' =>
      split at h'
      · cases h'
      · cases h'
        exact {
          ready := (congrArg Health.ready hhealth).trans hserves.ready
          flags := (congrArg Health.watchers hhealth).trans hserves.flags
          tasks := hserves.tasks
          ended := hserves.ended
          contact := (congrArg Health.lastContactMs hhealth).trans_le hclock.ge
          tick := Nat.add_le_add_right (congrArg Health.lastContactMs hhealth).ge 5000 }
    · trivial
    · trivial

/-! ## The start -/

/-- A process that has just been started. -/
structure Cold (w : World) : Prop where
  ready : w.sys.health.ready = false
  watchers : w.sys.health.watchers = []
  maps : w.maps = .empty

/-- Readiness and flags stay; the contact may be noted. -/
structure SameFlags (s s' : Sys) : Prop where
  ready : s'.health.ready = s.health.ready
  watchers : s'.health.watchers = s.health.watchers

theorem SameFlags.preorder : StateM.Preorder SameFlags where
  refl _ := ⟨rfl, rfl⟩
  trans h h' := ⟨h'.ready.trans h.ready, h'.watchers.trans h.watchers⟩

theorem readSettings_sameFlags (start : Start) : Moves SameFlags (readSettings start) :=
  readSettings_moves SameFlags.preorder (fun _ _ _ => ⟨rfl, rfl⟩) (fun _ => ⟨rfl, rfl⟩) start

theorem startSync_sameFlags (settings : Settings) : Moves SameFlags (startSync settings) :=
  startSync_moves SameFlags.preorder (fun _ _ _ => ⟨rfl, rfl⟩) settings

theorem boot_sound {start : Start} {w : World} (hw : Cold w) (Q : Prop) :
    Sound Q (boot start w) := by
  have hsame := readSettings_sameFlags start w.sys
  unfold boot
  dsimp only
  split
  · trivial
  · next settings _ =>
    have hsync := SameFlags.preorder.trans hsame (startSync_sameFlags settings _)
    exact ⟨hsync.ready.trans hw.ready, hsync.watchers.trans hw.watchers⟩

/-- In every run from the start. -/
theorem run_sound {start : Start} {w : World} (hw : Cold w) {ls : List Label} {p : Process}
    (h : Machine.Run (machine env) (boot start w) ls p) : Sound (∃ l ∈ ls, l.Struck) p := by
  have hmono : ∀ {Q Q' : Prop} {p : Process}, (Q → Q') → Sound Q p → Sound Q' p := by
    intro Q Q' p hQ hs
    unfold Sound at hs ⊢
    split
    · next hphase =>
      rw [hphase] at hs
      exact hs
    · next hphase =>
      rw [hphase] at hs
      exact { hs with
        tasks := fun t ht todo hbusy => by
          refine Along.mono (fun _ _ h => h) (fun out hout => ?_) (hs.tasks t ht todo hbusy)
          exact fun hfalse => hQ (hout hfalse)
        ended := fun t ht he => hQ (hs.ended t ht he) }
    · trivial
    · trivial
  induction h with
  | start => exact boot_sound hw _
  | @step ls p q l _ hlast ih =>
    refine (hmono ?_ ih).step (step_cases env hlast) fun hl => ⟨l, List.mem_cons_self, hl⟩
    rintro ⟨l', hl', hstruck⟩
    exact ⟨l', List.mem_cons_of_mem l hl', hstruck⟩

/-! ## The endpoint -/

/-- The initial sync is complete, and every watcher runs. -/
def Serving (p : Process) : Prop :=
  ∃ settings watchers nextTick, p.phase = .watching settings watchers nextTick ∧ ∀ t ∈ watchers,
    t.ended = false

theorem exit_syncing {p : Process} {settings : Settings} {left : List (Kind × String)}
    (h : p.phase = .syncing settings left) : p.exit = none := by
  unfold exit
  rw [h]

theorem exit_watching {p : Process} {settings : Settings} {watchers : List Watcher} {nextTick : Nat}
    (h : p.phase = .watching settings watchers nextTick) : p.exit = none := by
  unfold exit
  rw [h]

/-- A process that has not ended answers. -/
theorem healthz_running {p : Process} (h : p.exit = none) :
    p.healthz = some (statusBody p.world.sys) := by
  unfold healthz
  rw [h]

theorem healthz_ended {p : Process} (h : p.exit ≠ none) : p.healthz = none := by
  obtain ⟨e, he⟩ := Option.ne_none_iff_exists'.1 h
  unfold healthz
  rw [he]

theorem statusBody_codes (s : Sys) : (statusBody s).1 = 200 ∨ (statusBody s).1 = 503 := by
  unfold statusBody
  split
  · exact .inr rfl
  · split
    · exact .inr rfl
    · split
      · exact .inr rfl
      · exact .inl rfl

/-- A lowered flag is reported. -/
theorem statusBody_of_dead {s : Sys} (h : s.health.watchers.any (!·) = true) :
    (statusBody s).1 = 503 := by
  have hne : s.health.watchers.isEmpty = false := by
    cases hw : s.health.watchers with
    | nil =>
      rw [hw] at h
      cases h
    | cons _ _ => rfl
  unfold statusBody
  rw [hne, h]
  split
  · rfl
  · split <;> rfl

/-- `OK` is only answered while every watcher runs. -/
theorem Sound.serving {Q : Prop} {p : Process} (h : Sound Q p)
    (hok : p.healthz.map Prod.fst = some 200) :
    p.Serving := by
  cases hexit : p.exit with
  | some e =>
    rw [healthz_ended (by simp [hexit])] at hok
    cases hok
  | none =>
    rw [healthz_running hexit] at hok
    cases hphase : p.phase with
    | exited code =>
      unfold exit at hexit
      rw [hphase] at hexit
      cases hexit
    | aborted =>
      unfold exit at hexit
      rw [hphase] at hexit
      cases hexit
    | syncing settings left =>
      have hready := (h.syncing hphase).1
      simp [statusBody, hready] at hok
    | watching settings watchers nextTick =>
      have hserves := h.serves hphase
      refine ⟨settings, watchers, nextTick, hphase, fun t ht => ?_⟩
      by_contra hended
      -- a lowered flag is seen
      have hflag : p.world.sys.health.watchers.any (!·) = true := by
        rw [hserves.flags, List.any_map]
        exact List.any_eq_true.2 ⟨t, ht, by simpa using hended⟩
      have hdead := statusBody_of_dead hflag
      simp [hdead] at hok

/-- How late the monitor loop may look: the contact is noted every 5 seconds, and taken as lost
after 60. -/
def latenessMs : Nat := 55000

/-- Unless the monitor loop is too late, `OK` is answered while every watcher runs. -/
theorem Sound.healthz_ok {Q : Prop} {p : Process} (h : Sound Q p) {settings : Settings}
    {watchers : List Watcher}
    {nextTick : Nat} (hphase : p.phase = .watching settings watchers nextTick)
    (htime : p.world.sys.clock ≤ nextTick + latenessMs) (halive : ∀ t ∈ watchers, t.ended = false) :
    p.healthz.map Prod.fst = some 200 := by
  have hserves := h.serves hphase
  have htick := hserves.tick
  have hfresh : p.world.sys.clock - p.world.sys.health.lastContactMs ≤ 60000 := by
    unfold latenessMs at htime
    omega
  have hflags : p.world.sys.health.watchers.any (!·) = false := by
    rw [hserves.flags, List.any_map, List.any_eq_false]
    intro t ht
    simp [halive t ht]
  rw [healthz_running (exit_watching hphase)]
  exact congrArg some (statusBody_of_live hserves.ready hfresh hflags)

/-! ## On time -/

/-- Time passes until the monitor loop wakes up, and at most `latenessMs` longer before it looks. -/
def Prompt (p : Process) : Label → Prop
  | .wait ms => ∀ settings watchers nextTick, p.phase = .watching settings watchers nextTick →
      p.world.sys.clock + ms ≤ nextTick + latenessMs
  | _ => True

/-- The process with a monitor loop that is never later than that. -/
def promptMachine (env : Env) : Machine Process Label :=
  ⟨fun p l q => step? env p l = some q ∧ Prompt p l⟩

def OnTime (p : Process) : Prop :=
  ∀ settings watchers nextTick, p.phase = .watching settings watchers nextTick →
    p.world.sys.clock ≤ nextTick + latenessMs

theorem section?_clock {Q : Prop} {watchers : List Watcher} {nextTick : Nat} {w w' : World}
    (h : Serves Q watchers nextTick w) {i : Nat} {t u : Watcher} (ht : watchers[i]? = some t)
    (hs : section? w t i = some (w', u)) : w'.sys.clock = w.sys.clock := by
  unfold section? at hs
  split at hs
  · next x next hbusy =>
    cases hs
    exact (h.tasks t (List.mem_of_getElem? ht) _ hbusy w).1.clock
  · cases hs
    rfl
  · cases hs
    rfl
  · cases hs
    rfl
  · cases hs

theorem OnTime.step {Q : Prop} {p q : Process} {l : Label} (h : OnTime p) (hsound : Sound Q p)
    (hs : Steps env p l q) (hl : Prompt p l) : OnTime q := by
  -- the loop has just gone to sleep
  have hasleep : ∀ {clock clock' : Nat}, clock' = clock →
      clock' ≤ clock + 5000 + latenessMs := by omega
  intro settings watchers nextTick hq
  cases hs with
  | wait => exact hl _ _ _ hq
  | sigterm => cases hq
  | passed => cases hq
  | failed => cases hq
  | abortedPass => cases hq
  | listed => cases hq
  | serve =>
    cases hq
    exact hasleep (look_health _ _).2
  | round hphase =>
    cases hq
    exact h _ _ _ hphase
  | «section» hphase ht hsection =>
    cases hq
    exact (section?_clock (hsound.serves hphase) ht hsection).trans_le (h _ _ _ hphase)
  | abortedSection => cases hq
  | @monitor settings' watchers' nextTick' hphase htick =>
    dsimp only at hq
    split at hq
    · cases hq
    · cases hq
      exact hasleep (look_health _ _).2

/-- **`/healthz` tells whether the process does its work**: with a monitor loop that is never later
than `latenessMs` it answers `OK` in exactly the states in which the initial sync is complete and
every watcher runs, and 503 in the others, until the process has ended and nothing answers. -/
theorem healthz_ok_iff {start : Start} {w : World} (hw : Cold w) {ls : List Label} {p : Process}
    (hrun : Machine.Run (promptMachine env) (boot start w) ls p) :
    (p.healthz.map Prod.fst = some 200 ↔ p.Serving) ∧
      (p.exit = none → ¬p.Serving → p.healthz.map Prod.fst = some 503) ∧
      (p.exit ≠ none → p.healthz = none) := by
  have hinv : Sound True p ∧ OnTime p := by
    refine hrun.invariant (I := fun p => Sound True p ∧ OnTime p) (C := fun _ => True) ?_
      ⟨boot_sound hw _, ?_⟩
      fun _ _ => trivial
    · rintro p l q ⟨hsound, htime⟩ - ⟨hstep, hprompt⟩
      have hs := step_cases env hstep
      exact ⟨hsound.step hs fun _ => trivial, htime.step hsound hs hprompt⟩
    · intro settings watchers nextTick hphase
      unfold boot at hphase
      dsimp only at hphase
      split at hphase <;> cases hphase
  have hok : p.healthz.map Prod.fst = some 200 ↔ p.Serving := by
    constructor
    · exact hinv.1.serving
    · rintro ⟨settings, watchers, nextTick, hphase, halive⟩
      exact hinv.1.healthz_ok hphase (hinv.2 _ _ _ hphase) halive
  refine ⟨hok, fun hrunning hnot => ?_, healthz_ended⟩
  rw [healthz_running hrunning] at hok ⊢
  refine congrArg some ((statusBody_codes p.world.sys).resolve_left fun hcode => ?_)
  exact hnot (hok.1 (congrArg some hcode))

theorem sample_cold : Cold sampleWorld := ⟨rfl, rfl, rfl⟩

def sampleServed : List Label := [.serve, samplePass [sampleConfigMap "ns" "a" "1" [("k", "v")]]]

/-- The monitor loop is half a minute late. -/
def sampleLate : Process := sampleLife (.wait 35000 :: sampleServed)

theorem healthz_ok_iff_sample : sampleLate.healthz.map Prod.fst = some 200 ↔
    sampleLate.Serving := by
  have hpass := sampleLife_step (samplePass [sampleConfigMap "ns" "a" "1" [("k", "v")]]) []
    (by decide +kernel)
  have hserve := sampleLife_step .serve [samplePass [sampleConfigMap "ns" "a" "1" [("k", "v")]]]
    (by decide +kernel)
  have hwait := sampleLife_step (.wait 35000) sampleServed (by decide +kernel)
  have hrun : Machine.Run (promptMachine sampleEnv) (boot sampleStart sampleWorld)
      (.wait 35000 :: sampleServed) sampleLate := by
    refine .step (.step (.step .start ⟨hpass, trivial⟩) ⟨hserve, trivial⟩) ⟨hwait, ?_⟩
    have hlate : (match (sampleLife sampleServed).phase with
      | .watching _ _ nextTick =>
        decide ((sampleLife sampleServed).world.sys.clock + 35000 ≤ nextTick + latenessMs)
      | _ => true) = true := by decide +kernel
    intro settings watchers nextTick hphase
    have hphase' : (sampleLife sampleServed).phase = .watching settings watchers nextTick := hphase
    rw [hphase'] at hlate
    exact of_decide_eq_true hlate
  exact (healthz_ok_iff sample_cold hrun).1

/-! ## A fail-stop supervisor -/

/-- The watchers that have ended. -/
def failed (watchers : List Watcher) : Finset ℕ :=
  (Finset.range watchers.length).filter fun i => (watchers[i]?.map Watcher.ended) = some true

theorem mem_failed {watchers : List Watcher} {i : Nat} :
    i ∈ failed watchers ↔ watchers[i]?.map Watcher.ended = some true := by
  unfold failed
  rw [Finset.mem_filter, Finset.mem_range, and_iff_right_of_imp]
  intro h
  obtain ⟨t, ht, -⟩ := Option.map_eq_some_iff.1 h
  exact (List.getElem?_eq_some_iff.1 ht).1

theorem failed_nonempty {watchers : List Watcher} :
    (failed watchers).Nonempty ↔ watchers.any Watcher.ended = true := by
  constructor
  · rintro ⟨i, hi⟩
    obtain ⟨t, ht, hended⟩ := Option.map_eq_some_iff.1 (mem_failed.1 hi)
    exact List.any_eq_true.2 ⟨t, List.mem_of_getElem? ht, hended⟩
  · intro h
    obtain ⟨t, ht, hended⟩ := List.any_eq_true.1 h
    obtain ⟨i, hi⟩ := List.mem_iff_getElem?.1 ht
    exact ⟨i, mem_failed.2 (by rw [hi, Option.map_some, hended])⟩

theorem failed_set_same {watchers : List Watcher} {i : Nat} {t u : Watcher}
    (ht : watchers[i]? = some t)
    (h : u.ended = t.ended) : failed (watchers.set i u) = failed watchers := by
  have hmap := map_set_same (f := Watcher.ended) ht h
  ext j
  rw [mem_failed, mem_failed, ← List.getElem?_map, hmap, List.getElem?_map]

theorem failed_set_ended {watchers : List Watcher} {i : Nat} {t u : Watcher}
    (ht : watchers[i]? = some t)
    (hu : u.ended = true) : failed (watchers.set i u) = insert i (failed watchers) := by
  ext j
  rw [Finset.mem_insert, mem_failed, mem_failed]
  by_cases hij : i = j
  · subst hij
    have hi := (List.getElem?_eq_some_iff.1 ht).1
    simp [List.getElem?_set_self hi, hu]
  · rw [List.getElem?_set_ne hij]
    simp [Ne.symm hij]

/-- A section ends its watcher or leaves it as it is. -/
theorem section?_ended {w w' : World} {t u : Watcher} {i : Nat}
    (h : section? w t i = some (w', u)) : u.ended = t.ended ∨ u.ended = true := by
  unfold section? at h
  split at h
  · next hbusy =>
    cases h
    exact .inl (by rw [Watcher.ended, Watcher.ended, hbusy])
  · next hbusy =>
    cases h
    exact .inl (by rw [Watcher.ended, Watcher.ended, hbusy])
  · next hbusy =>
    cases h
    exact .inl (by rw [Watcher.ended, Watcher.ended, hbusy])
  · cases h
    exact .inr rfl
  · cases h

/-- The process as a supervisor of its watchers. -/
def abs (p : Process) : Supervisor.State ℕ :=
  match p.phase with
  | .syncing _ _ => .starting
  | .watching _ watchers _ => .serving (failed watchers)
  | .exited code => .exited code
  | .aborted => .crashed

theorem abs_spawned (settings : Settings) : failed (spawnWatchers settings) = ∅ := by
  by_contra hne
  have hany := failed_nonempty.1 (Finset.nonempty_iff_ne_empty.2 hne)
  obtain ⟨t, ht, hended⟩ := List.any_eq_true.1 hany
  obtain ⟨target, -, rfl⟩ := List.mem_map.1 ht
  cases hended

theorem not_ended {p : Process} (h : p.exit = none) : ¬p.abs.Ended := by
  unfold exit at h
  unfold abs
  split at h
  · cases h
  · cases h
  · next hcode habort =>
    split
    · exact id
    · exact id
    · next code hphase => exact absurd hphase (hcode code)
    · next hphase => exact absurd hphase habort

/-- **The process is a fail-stop supervisor of its watchers.** -/
theorem machine_refines (env : Env) :
    Machine.Refines (machine env) (Supervisor.machine ℕ) abs (Sound True) where
  keeps hsound hstep := hsound.step (step_cases env hstep) fun _ => trivial
  step := by
    intro p l q hsound hstep
    have hs := step_cases env hstep
    cases hs with
    | wait => exact .inl rfl
    | sigterm hrunning => exact .inr ⟨.terminate, .terminate (not_ended hrunning)⟩
    | passed hphase =>
      refine .inl ?_
      unfold abs
      rw [hphase]
    | failed hphase =>
      refine .inr ⟨.giveUp 1, ?_⟩
      unfold abs
      rw [hphase]
      exact .giveUp 1
    | abortedPass hphase => exact .inr ⟨.crash, .crash (not_ended (exit_syncing hphase))⟩
    | listed hphase =>
      refine .inr ⟨.giveUp 0, ?_⟩
      unfold abs
      rw [hphase]
      exact .giveUp 0
    | serve hphase =>
      refine .inr ⟨.serve, ?_⟩
      unfold abs
      rw [hphase]
      dsimp only
      rw [abs_spawned]
      exact .serve
    | round hphase ht hidle =>
      refine .inl ?_
      unfold abs
      rw [hphase]
      exact congrArg Supervisor.State.serving
        (failed_set_same ht (by rw [Watcher.ended, Watcher.ended, hidle]))
    | «section» hphase ht hsection =>
      unfold abs
      rw [hphase]
      dsimp only
      rcases section?_ended hsection with hsame | hended
      · rw [failed_set_same ht hsame]
        exact .inl rfl
      · rw [failed_set_ended ht hended]
        exact .inr ⟨_, .fail _ _⟩
    | abortedSection hphase => exact .inr ⟨.crash, .crash (not_ended (exit_watching hphase))⟩
    | @monitor settings watchers nextTick hphase htick =>
      unfold abs
      rw [hphase]
      dsimp only
      by_cases hdied : (liftSys (look watchers) p.world).1 = true
      · rw [if_pos hdied]
        have hany : watchers.any Watcher.ended = true :=
          (look_died watchers p.world.sys).symm.trans hdied
        exact .inr ⟨.look, .look (failed_nonempty.2 hany)⟩
      · rw [if_neg hdied]
        exact .inl rfl

/-- The process and its supervisor end alike. -/
theorem exit_abs (p : Process) :
    (∀ code, p.exit = some (.code code) ↔ p.abs = .exited code) ∧
      (p.exit = some .abort ↔ p.abs = .crashed) := by
  unfold exit abs
  cases p.phase with
  | syncing settings left => exact ⟨fun _ => by simp, by simp⟩
  | watching settings watchers nextTick => exact ⟨fun _ => by simp, by simp⟩
  | exited code => exact ⟨fun _ => by simp, by simp⟩
  | aborted => exact ⟨fun _ => by simp, by simp⟩

theorem Sound.healthy {Q : Prop} {p : Process} (h : Sound Q p)
    (hok : p.healthz.map Prod.fst = some 200) :
    p.abs.Healthy := by
  obtain ⟨settings, watchers, nextTick, hphase, halive⟩ := h.serving hok
  unfold abs
  rw [hphase]
  by_contra hne
  obtain ⟨t, ht, hended⟩ :=
    List.any_eq_true.1 (failed_nonempty.1 (Finset.nonempty_iff_ne_empty.2 hne))
  rw [halive t ht] at hended
  cases hended

/-- **From outside the process is its supervisor**: a run of the process is a run of the supervisor,
which exits with the same code, crashes when the process aborts, and is healthy whenever the
endpoint answers `OK`. -/
theorem supervised {start : Start} {w : World} (hw : Cold w) {ls : List Label} {p : Process}
    (hrun : Machine.Run (machine env) (boot start w) ls p) :
    (∃ ks, Machine.Run (Supervisor.machine ℕ) (boot start w).abs ks p.abs) ∧
      (p.healthz.map Prod.fst = some 200 → p.abs.Healthy) ∧
      (∀ code, p.exit = some (.code code) ↔ p.abs = .exited code) ∧
      (p.exit = some .abort ↔ p.abs = .crashed) := by
  obtain ⟨hp, habs⟩ := (machine_refines env).run hrun (boot_sound hw True)
  exact ⟨habs, hp.healthy, exit_abs p⟩

theorem supervised_sample : ∃ ks, Machine.Run (Supervisor.machine ℕ)
    (boot sampleStart sampleWorld).abs ks
    (sampleLife sampleServed).abs :=
  (supervised sample_cold (sampleLife_run sampleServed (by decide +kernel))).1

section Dead

variable {p q : Process} {ls : List Label} {settings : Settings} {watchers : List Watcher}
  {nextTick : Nat} (hp : Sound True p) (hphase : p.phase = .watching settings watchers nextTick)
  (hdead : ∃ t ∈ watchers, t.ended = true) (hlater : Machine.Run (machine env) p ls q)
include hp hphase hdead hlater

theorem dead_lost : (failed watchers).Nonempty ∧ q.abs.Lost (failed watchers) ∧
    ¬q.abs.Healthy ∧ Sound True q := by
  obtain ⟨hq, ks, habs⟩ := (machine_refines env).run hlater hp
  have hne : (failed watchers).Nonempty := by
    obtain ⟨t, ht, hended⟩ := hdead
    exact failed_nonempty.2 (List.any_eq_true.2 ⟨t, ht, hended⟩)
  have hlost : p.abs.Lost (failed watchers) := by
    unfold abs
    rw [hphase]
    exact Finset.Subset.refl _
  exact ⟨hne, Supervisor.lost_of_run habs hlost, Supervisor.not_healthy hne habs hlost, hq⟩

/-- The next look at the watchers is the end. -/
theorem dead_look {q' : Process} (hstep : step? env q .monitor = some q') :
    q'.phase = .exited 1 := by
  obtain ⟨hne, hlost, -, -⟩ := dead_lost hp hphase hdead hlater
  have hs := step_cases env hstep
  cases hs with
  | @monitor settings' watchers' nextTick' hphase' htick =>
    unfold abs at hlost
    rw [hphase'] at hlost
    have hany : watchers'.any Watcher.ended = true := failed_nonempty.1 (hne.mono hlost)
    exact if_pos ((look_died _ _).trans hany)

end Dead

/-- **A dead watcher takes the process down.** From a state in which a watcher has ended the
endpoint never answers `OK` again. Until the process has exited the monitor loop has not ticked, and
the tick is its end, with code 1. -/
theorem dead_watcher_stops {start : Start} {w : World} (hw : Cold w) {ls ls' : List Label}
    {p q : Process} (hrun : Machine.Run (machine env) (boot start w) ls p) {settings : Settings}
    {watchers : List Watcher}
    {nextTick : Nat} (hphase : p.phase = .watching settings watchers nextTick)
    (hdead : ∃ t ∈ watchers, t.ended = true) (hlater : Machine.Run (machine env) p ls' q) :
    q.healthz.map Prod.fst ≠ some 200 ∧
      ((∃ code, q.phase = .exited code) ∨
        .monitor ∉ ls' ∧ ∀ q', step? env q .monitor = some q' → q'.phase = .exited 1) := by
  obtain ⟨hp, -⟩ := (machine_refines env).run hrun (boot_sound hw True)
  obtain ⟨-, -, hunhealthy, hq⟩ := dead_lost hp hphase hdead hlater
  refine ⟨fun hok => hunhealthy (hq.healthy hok), ?_⟩
  by_cases hexited : ∃ code, q.phase = .exited code
  · exact .inl hexited
  refine .inr ⟨fun hlooked => ?_, fun q' => dead_look hp hphase hdead hlater⟩
  clear hunhealthy hq hrun
  induction hlater with
  | start => cases hlooked
  | @step ls q q' l hrest hlast ih =>
    rcases List.mem_cons.1 hlooked with rfl | hbefore
    · exact hexited ⟨1, dead_look hp hphase hdead hrest hlast⟩
    · refine ih (fun hstuck => ?_) hbefore
      obtain ⟨code, hcode⟩ := hstuck
      have hlast' : step? env q l = some q' := hlast
      unfold step? at hlast'
      rw [hcode] at hlast'
      cases hlast'

/-- The watcher's connection is refused with an API error 500. -/
def sampleStruck : List Label :=
  [.section 0, .section 0, .section 0, sampleRefused 500, .serve, samplePass []]

theorem dead_watcher_stops_sample : (sampleLife sampleStruck).healthz.map Prod.fst ≠ some 200 := by
  have hrun := sampleLife_run sampleStruck (by decide +kernel)
  have hdead : (match (sampleLife sampleStruck).phase with
    | .watching _ watchers _ => watchers.any Watcher.ended
    | _ => false) = true := by decide +kernel
  split at hdead
  · next hphase =>
    exact (dead_watcher_stops sample_cold hrun hphase (List.any_eq_true.1 hdead) .start).1
  · cases hdead

end Process

end Sidecar
