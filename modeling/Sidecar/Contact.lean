import Sidecar.Frames
import Sidecar.Reading

/-!
# Lost contact

The process after its initial sync, as far as the health endpoint can see it: the ticks of the
monitor loop, the rounds of the watchers and time passing, in any order. A watch event notes the
contact; a list pass does not; and the monitor loop notes it on every tick, whether or not the API
has answered. So the endpoint reports a lost contact as long as the monitor ticks only in the moment
of an answer (`contact_loss_reported`), and no tick after that is harmless (`late_tick_hides_loss`).
-/

namespace Sidecar

open Posix StateM

/-! ## Programs that leave the health record alone -/

structure SameHealth (s s' : Sys) : Prop where
  health : s'.health = s.health
  clock : s'.clock = s.clock

theorem SameHealth.preorder : Preorder SameHealth where
  refl _ := ⟨rfl, rfl⟩
  trans h h' := ⟨h'.health.trans h.health, h'.clock.trans h.clock⟩

theorem SameHealth.frame (env : Env) : Sys.Frame env SameHealth where
  preorder := SameHealth.preorder
  event _ _ := ⟨rfl, rfl⟩
  call _ _ _ := ⟨rfl, rfl⟩
  send _ _ := ⟨rfl, rfl⟩
  scan _ := ⟨rfl, rfl⟩

theorem Calm.sameHealth {s s' : Sys} (h : Calm s s') : SameHealth s s' := by
  obtain ⟨new, rfl, -⟩ := h
  exact ⟨rfl, rfl⟩

section Programs

variable (env : Env) (ctx : Ctx) (kind : Kind) (requestUrl : Option String)
  (ignoreAlreadyProcessed : Bool)

theorem execute_sameHealth (script : String) : Moves SameHealth (execute env script) := by
  have hp := SameHealth.preorder
  have hlog := (SameHealth.frame env).log
  refine .bind hp (hlog _ _) fun _ => .bind hp (fun s => hp.refl s) fun _ =>
    .bind hp (fun _ => ⟨rfl, rfl⟩) fun result => ?_
  split
  · exact .pure hp _
  · refine .bind hp (.ite ?_ (hlog _ _)) fun _ => .pure hp _
    exact .bind hp (hlog _ _) fun _ => .bind hp (hlog _ _) fun _ => hlog _ _

theorem notify_sameHealth (changed : Bool) :
    Moves SameHealth (notify env ctx requestUrl changed) := by
  have hp := SameHealth.preorder
  unfold notify
  refine .ite (.bind hp ?_ fun ran => ?_) (.pure hp _)
  · split
    · exact execute_sameHealth env _
    · exact .pure hp _
  · split
    · exact .pure hp _
    · split
      · exact .bind hp ((SameHealth.frame env).requests.request _ _ _ _) fun _ => .pure hp _
      · exact .pure hp _

/-- Events and list passes leave the health record alone. -/
theorem handleEvent_sameHealth (ev : EventType) (item : Item) (w : World) :
    SameHealth w.sys
      (handleEvent env ctx kind requestUrl ignoreAlreadyProcessed ev item w).2.sys :=
  SameHealth.preorder.trans (((SameHealth.frame env).world ctx kind).applyEvent _ ev item w)
    (notify_sameHealth env ctx requestUrl _ _)

theorem listResources_sameHealth (ns : String) (replies : ListReplies kind) (w : World) :
    SameHealth w.sys
      (listResources env ctx kind ns requestUrl ignoreAlreadyProcessed replies w).2.sys := by
  have hp := SameHealth.preorder
  have hstart := (startPass_calm env ctx kind ns replies w).sameHealth
  rw [listResources_eq_finish]
  refine hp.trans hstart ?_
  generalize (startPass env ctx kind ns replies w).1 = read
  match read with
  | none => exact hp.refl _
  | some (.error e) => exact hp.refl _
  | some (.ok items) =>
    have happlied := ((SameHealth.frame env).world ctx kind).applyListing ns ignoreAlreadyProcessed
      items (passStart env ctx kind ns replies w)
    exact hp.trans happlied (notify_sameHealth env ctx requestUrl _ _)

theorem reconnect_sameHealth {ns : String} (hmode : sleepMode ctx ns = false)
    (replies : ListReplies kind) (e : KubeError) (w : World) :
    SameHealth w.sys (watchRound env ctx kind ns requestUrl ignoreAlreadyProcessed
      ⟨replies, .error e⟩ w).2.sys := by
  unfold watchRound watchResourceIterator
  simp only [hmode, Bool.false_eq_true, if_false, bind_apply]
  cases e with
  | api code reason =>
    by_cases h500 : code = 500
    · simp only [pure_apply, h500, if_true]
      exact ⟨rfl, rfl⟩
    · simp only [pure_apply, h500, if_false]
      exact ⟨rfl, rfl⟩
  | other msg => exact ⟨rfl, rfl⟩

end Programs

/-! ## The running process -/

/-- The process after the initial sync. -/
structure Running where
  world : World
  /-- When the API last answered with a page, a named object or an event; in milliseconds since the
  start, like the clock. -/
  lastResponse : Nat
  /-- When the monitor loop wakes up. -/
  nextTick : Nat

namespace Running

def clock (r : Running) : Nat := r.world.sys.clock

def health (r : Running) : Health := r.world.sys.health

/-- No watcher task has ended. -/
def Alive (r : Running) : Prop := r.health.watchers.all id = true

instance (r : Running) : Decidable r.Alive := inferInstanceAs (Decidable (_ = _))

/-- The state with something changed in its world. -/
def step (r : Running) (x : World → World) : Running := { r with world := x r.world }

end Running

/-- Among the replies that a pass has used up (one for each request) is a page or a named object. -/
def ListReplies.answered {kind : Kind} (replies : ListReplies kind) (before after : Sys) : Bool :=
  (replies.pages.take (after.count Event.isApiList - before.count Event.isApiList)).any
    Except.isOk ||
    (replies.reads.take (after.count Event.isApiGet - before.count Event.isApiGet)).any Except.isOk

/-- What can happen next. -/
inductive Move
  | wait (ms : Nat)
  /-- A tick of the monitor loop, which then sleeps for 5 seconds. -/
  | monitor
  | event (kind : Kind) (requestUrl : Option String) (ignoreAlreadyProcessed firstEvent : Bool)
    (ev : EventType) (object : kind.Object)
  | listPass (kind : Kind) (ns : String) (requestUrl : Option String)
      (ignoreAlreadyProcessed : Bool)
    (replies : ListReplies kind)
  /-- A round of a watcher whose connection fails, up to its throttle sleep. -/
  | reconnect (kind : Kind) (ns : String) (requestUrl : Option String)
      (ignoreAlreadyProcessed : Bool)
    (replies : ListReplies kind) (e : KubeError)
  /-- A watcher task ends. -/
  | died (watcher : Nat)

namespace Move

variable (env : Env) (ctx : Ctx)

/-- The monitor loop exits when a watcher has ended. -/
def Enabled : Move → Running → Prop
  | monitor, r => r.nextTick ≤ r.clock ∧ r.Alive
  | reconnect _ ns .., _ => sleepMode ctx ns = false
  | _, _ => True

def run : Move → Running → Running
  | wait ms, r => r.step fun w => { w with sys := { w.sys with clock := w.sys.clock + ms } }
  | monitor, r =>
    { r.step fun w => (liftSys updateK8sContact w).2 with nextTick := r.clock + 5000 }
  | event kind requestUrl ignoreAlreadyProcessed firstEvent ev object, r =>
    { r.step fun w => (watchEvents env ctx kind requestUrl ignoreAlreadyProcessed firstEvent
        [.ok (ev, object)] w).2 with lastResponse := r.clock }
  | listPass kind ns requestUrl ignoreAlreadyProcessed replies, r =>
    let w := (listResources env ctx kind ns requestUrl ignoreAlreadyProcessed replies r.world).2
    { r with
      world := w
      lastResponse := if replies.answered r.world.sys w.sys then r.clock else r.lastResponse }
  | reconnect kind ns requestUrl ignoreAlreadyProcessed replies e, r =>
    r.step fun w => (watchRound env ctx kind ns requestUrl ignoreAlreadyProcessed
      ⟨replies, .error e⟩ w).2
  | died watcher, r => r.step fun w => { w with sys := { w.sys with
      health := { w.sys.health with watchers := w.sys.health.watchers.set watcher false } } }

end Move

/-- The runs in which every move is made under `C`. -/
inductive Runs (env : Env) (ctx : Ctx) (C : Move → Running → Prop) (r₀ : Running) : Running → Prop
  | start : Runs env ctx C r₀ r₀
  | move {r : Running} (m : Move) : Runs env ctx C r₀ r → m.Enabled ctx r → C m r →
    Runs env ctx C r₀ (m.run env ctx r)

/-- More than 60 seconds after the last answer a ready process reports that it is not live. -/
def Running.ReportsLoss (r : Running) : Prop :=
  r.health.ready = true → 60000 < r.clock - r.lastResponse → (statusBody r.world.sys).1 = 503

/-! ## Runs that report -/

/-- A tick of the monitor loop comes in the moment of the last answer. -/
def Timely (m : Move) (r : Running) : Prop := m = .monitor → r.clock ≤ r.lastResponse

/-- No contact has been noted that the API has not answered. -/
structure Running.Honest (r : Running) : Prop where
  contact : r.health.lastContactMs ≤ r.lastResponse
  past : r.lastResponse ≤ r.clock

/-- A contact noted late counts as one. -/
theorem statusBody_of_late {s : Sys} (h : 60000 < s.clock - s.health.lastContactMs) :
    (statusBody s).1 = 503 := by
  have hlate : s.clock - s.health.lastContactMs > k8sContactThresholdSeconds * 1000 := h
  unfold statusBody
  rw [if_pos hlate]
  split <;> rfl

theorem statusBody_of_live {s : Sys} (hready : s.health.ready = true)
    (hfresh : s.clock - s.health.lastContactMs ≤ 60000)
    (halive : s.health.watchers.any (!·) = false) : (statusBody s).1 = 200 := by
  have hcontact : ¬s.clock - s.health.lastContactMs > k8sContactThresholdSeconds * 1000 :=
    Nat.not_lt.2 hfresh
  unfold statusBody
  rw [if_neg (by simp [hready]), if_neg hcontact, if_neg (by simp [halive])]

theorem Running.Honest.reportsLoss {r : Running} (h : r.Honest) : r.ReportsLoss := by
  intro _ hlong
  apply statusBody_of_late
  have hcontact := h.contact
  have hlong' : 60000 < r.world.sys.clock - r.lastResponse := hlong
  have hcontact' : r.world.sys.health.lastContactMs ≤ r.lastResponse := hcontact
  omega

theorem Running.Honest.of_sameHealth {r r' : Running} (h : r.Honest)
    (hs : SameHealth r.world.sys r'.world.sys) (hle : r.lastResponse ≤ r'.lastResponse)
    (hpast : r'.lastResponse ≤ r.clock) : r'.Honest := by
  have hhealth : r'.health = r.health := hs.health
  have hclock : r'.clock = r.clock := hs.clock
  have hcontact := h.contact
  constructor
  · rw [hhealth]
    omega
  · omega

section Runs

variable {env : Env} {ctx : Ctx} {r r₀ : Running}

/-- The world in which an event is handled: the contact is noted. -/
def noted (firstEvent : Bool) (w : World) : World :=
  (liftSys updateK8sContact
    ((if firstEvent then liftSys markReady else pure () : StateM World Unit) w).2).2

theorem watchEvents_one (kind : Kind) (requestUrl : Option String)
    (ignoreAlreadyProcessed firstEvent : Bool) (ev : EventType) (object : kind.Object) (w : World) :
    (watchEvents env ctx kind requestUrl ignoreAlreadyProcessed firstEvent [.ok (ev, object)] w).2 =
      (handleEvent env ctx kind requestUrl ignoreAlreadyProcessed ev (Item.fromObject kind object)
        (noted firstEvent w)).2 := by
  unfold watchEvents
  simp only [bind_apply]
  rw [← noted]
  cases (handleEvent env ctx kind requestUrl ignoreAlreadyProcessed ev (Item.fromObject kind object)
    (noted firstEvent w)).1 <;> rfl

theorem watchEvents_health (kind : Kind) (requestUrl : Option String)
    (ignoreAlreadyProcessed firstEvent : Bool) (ev : EventType) (object : kind.Object) (w : World) :
    let out := (watchEvents env ctx kind requestUrl ignoreAlreadyProcessed firstEvent
      [.ok (ev, object)] w).2
    out.sys.health.lastContactMs = w.sys.clock ∧ out.sys.clock = w.sys.clock := by
  have hnoted : (noted firstEvent w).sys.health.lastContactMs = w.sys.clock ∧
      (noted firstEvent w).sys.clock = w.sys.clock := by
    cases firstEvent <;> exact ⟨rfl, rfl⟩
  have hsame := handleEvent_sameHealth env ctx kind requestUrl ignoreAlreadyProcessed ev
    (Item.fromObject kind object) (noted firstEvent w)
  rw [watchEvents_one]
  exact ⟨(congrArg Health.lastContactMs hsame.health).trans hnoted.1, hsame.clock.trans hnoted.2⟩

/-- A timely move notes no contact that the API has not answered. -/
theorem Running.Honest.move (h : r.Honest) {m : Move} (hm : m.Enabled ctx r) (ht : Timely m r) :
    (m.run env ctx r).Honest := by
  cases m with
  | wait ms => exact ⟨h.contact, Nat.le_add_right_of_le h.past⟩
  | monitor => exact ⟨ht rfl, h.past⟩
  | event kind requestUrl ignoreAlreadyProcessed firstEvent ev object =>
    obtain ⟨hcontact, hclock⟩ := @watchEvents_health env ctx kind requestUrl
      ignoreAlreadyProcessed firstEvent ev object r.world
    exact ⟨hcontact.le, hclock.ge⟩
  | listPass kind ns requestUrl ignoreAlreadyProcessed replies =>
    have hsame := listResources_sameHealth env ctx kind requestUrl ignoreAlreadyProcessed ns replies
      r.world
    refine h.of_sameHealth hsame ?_ ?_
    · unfold Move.run
      dsimp only
      split
      · exact h.past
      · exact Nat.le_refl _
    · unfold Move.run
      dsimp only
      split
      · exact Nat.le_refl _
      · exact h.past
  | reconnect kind ns requestUrl ignoreAlreadyProcessed replies e =>
    exact h.of_sameHealth (reconnect_sameHealth env ctx kind requestUrl ignoreAlreadyProcessed hm
      replies e r.world) (Nat.le_refl _) h.past
  | died watcher => exact ⟨h.contact, h.past⟩

theorem Runs.honest (hrun : Runs env ctx Timely r₀ r) (h₀ : r₀.Honest) : r.Honest := by
  induction hrun with
  | start => exact h₀
  | move m _ henabled htimely ih => exact ih.move henabled htimely

/-- **Lost contact is reported** in every state of a run whose monitor ticks are timely. -/
theorem contact_loss_reported (hrun : Runs env ctx Timely r₀ r) (h₀ : r₀.Honest) : r.ReportsLoss :=
  (hrun.honest h₀).reportsLoss

/-- Within 60 seconds of a monitor tick the endpoint answers `OK`. -/
theorem statusBody_after_tick (hm : Move.monitor.Enabled ctx r) (hready : r.health.ready = true)
    {ms : Nat} (hms : ms ≤ 60000) :
    (statusBody ((Move.wait ms).run env ctx (Move.monitor.run env ctx r)).world.sys).1 = 200 := by
  have halive : r.world.sys.health.watchers.any (!·) = false := by
    have hall : r.world.sys.health.watchers.all id = true := hm.2
    simpa [List.any_eq_false] using hall
  have hfresh : r.world.sys.clock + ms - r.world.sys.clock ≤ 60000 := by omega
  exact statusBody_of_live hready hfresh halive

/-- A tick after the last answer is enough: 60 seconds later the endpoint still answers `OK`. -/
theorem late_tick_hides_loss (hm : Move.monitor.Enabled ctx r) (hready : r.health.ready = true)
    (hlate : r.lastResponse < r.clock) :
    ¬((Move.wait 60000).run env ctx (Move.monitor.run env ctx r)).ReportsLoss := by
  intro hreports
  have hclock : ∀ ms, ((Move.wait ms).run env ctx (Move.monitor.run env ctx r)).clock -
      ((Move.wait ms).run env ctx (Move.monitor.run env ctx r)).lastResponse =
        r.clock + ms - r.lastResponse := fun _ => rfl
  have hlong := hclock 60000
  have hstatus := hreports hready (by omega)
  rw [statusBody_after_tick hm hready (Nat.le_refl _)] at hstatus
  cases hstatus

end Runs

/-! ## On the small environment -/

/-- Ready, with one watcher, in the moment of the first monitor tick. -/
def sampleRunning : Running :=
  ⟨⟨{ sampleWorld.sys with health := ⟨true, 0, [true]⟩ }, .empty⟩, 0, 0⟩

/-- An event comes after one second, and then nothing. -/
def sampleSilence : Running :=
  [.monitor, .wait 1000, .event .configMap none false true .added
    (sampleConfigMap "ns" "a" "1" [("k", "v")]),
    .wait 60001].foldl (fun r m => Move.run sampleEnv sampleCtx m r) sampleRunning

theorem contact_loss_reported_sample : (statusBody sampleSilence.world.sys).1 = 503 := by
  have hrun : Runs sampleEnv sampleCtx Timely sampleRunning sampleSilence := by
    refine .move (.wait 60001) (.move (.event ..) (.move (.wait 1000) (.move .monitor .start ?_ ?_)
      trivial ?_) trivial ?_) trivial ?_
    · exact ⟨Nat.le_refl _, rfl⟩
    · exact fun _ => Nat.le_refl _
    · intro h
      cases h
    · intro h
      cases h
    · intro h
      cases h
  have hready : sampleSilence.health.ready = true := by decide +kernel
  have hlong : 60000 < sampleSilence.clock - sampleSilence.lastResponse := by decide +kernel
  exact contact_loss_reported hrun ⟨Nat.le_refl _, Nat.le_refl _⟩ hready hlong

/-- The monitor ticks every 5 seconds, and the API is away. -/
def sampleTicks : Nat → Running
  | 0 => sampleRunning
  | n + 1 => Move.monitor.run sampleEnv sampleCtx
      ((Move.wait 5000).run sampleEnv sampleCtx (sampleTicks n))

theorem sampleTicks_runs (n : Nat) :
    Runs sampleEnv sampleCtx (fun _ _ => True) sampleRunning (sampleTicks n) ∧
      (sampleTicks n).nextTick ≤ (sampleTicks n).clock + 5000 ∧ (sampleTicks n).Alive := by
  induction n with
  | zero => exact ⟨.start, Nat.zero_le _, rfl⟩
  | succ n ih =>
    obtain ⟨hrun, htick, halive⟩ := ih
    exact ⟨.move .monitor (.move (.wait 5000) hrun trivial trivial) ⟨htick, halive⟩ trivial,
      Nat.le_refl _, halive⟩

/-- Lost contact goes unreported: 65 seconds without an answer, and `/healthz` says `OK`. -/
theorem contact_loss_hidden :
    ¬∀ r, Runs sampleEnv sampleCtx (fun _ _ => True) sampleRunning r → r.ReportsLoss := by
  intro h
  have hstatus := h _ (sampleTicks_runs 13).1 (by decide +kernel) (by decide +kernel)
  revert hstatus
  decide +kernel

end Sidecar
