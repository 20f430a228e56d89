import Sidecar.Frames
import Sidecar.Redeliveries

/-!
# Announcing changes

`SCRIPT` is spawned by the list passes and events that report a change of files, once each, and
`REQ_URL` is called when the spawn worked; delivered again a pass or event whose files are in place
reports none (`changes_announced_once`). Processing itself spawns nothing (`Spawnless`). So a change
whose spawn failed stays unannounced: the pass or event ends with the error, and delivered again it
changes nothing (`announcement_lost`).
-/

namespace Sidecar

open Posix StateM

/-! ## Programs that spawn nothing -/

/-- The spawns so far, and whether they worked. -/
def Sys.spawns (s : Sys) : List Bool := s.trace.filterMap Event.spawned?

def Spawnless (s s' : Sys) : Prop := s'.spawns = s.spawns

theorem Spawnless.preorder : Preorder Spawnless := ⟨fun _ => rfl, fun h h' => h'.trans h⟩

theorem Calm.spawnless {s s' : Sys} (h : Calm s s') : Spawnless s s' := by
  obtain ⟨new, rfl, hnew⟩ := h
  have hnone : new.filterMap Event.spawned? = [] := List.filterMap_eq_nil_iff.2 fun e he => by
    cases e <;> first | rfl | cases (hnew _ he).1
  unfold Spawnless Sys.spawns
  rw [List.filterMap_append, hnone, List.append_nil]

theorem emit_spawnless {e : Event} (h : e.spawned? = none) : Moves Spawnless (emit e) := fun s => by
  simp [Spawnless, emit_apply, Sys.spawns, h]

theorem log_spawnless (level : Level) (msg : String) : Moves Spawnless (log level msg) :=
  emit_spawnless rfl

theorem Spawnless.frame (env : Env) : Sys.Frame env Spawnless where
  preorder := Spawnless.preorder
  event he := emit_spawnless he
  call call faulty s := by
    unfold Spawnless Sys.spawns syscall
    dsimp only
    rw [List.filterMap_append]
    split <;> simp [Event.spawned?]
  send req s := by simp [Spawnless, sendOnce, Sys.spawns, Event.spawned?]
  scan s := rfl

/-- Processing a delivery spawns nothing. -/
theorem Delivery.apply_spawnless (env : Env) (ctx : Ctx) (ignoreAlreadyProcessed : Bool)
    (d : Delivery)
    (w : World) : Spawnless w.sys (d.apply env ctx ignoreAlreadyProcessed w).2.sys := by
  cases d with
  | listing kind ns items => exact ((Spawnless.frame env).world ctx kind).applyListing ns _ items w
  | event kind ev item => exact ((Spawnless.frame env).world ctx kind).applyEvent _ ev item w

/-! ## Notifications -/

section Notify

variable (env : Env) (script : String) (s : Sys)

theorem logOutput_spawnless (argvRepr : String) (output : Output) :
    Moves Spawnless (logOutput argvRepr output) := by
  have hp := Spawnless.preorder
  exact .ite (.bind hp (log_spawnless _ _) fun _ => .bind hp (log_spawnless _ _) fun _ =>
    log_spawnless _ _)
      (log_spawnless _ _)

/-- `execute` spawns the script once; a spawn that fails is the last it does. -/
theorem execute_spawns :
    (execute env script s).2.spawns = s.spawns ++ [(execute env script s).1.isOk] ∧
      ∀ e, (execute env script s).1 = .error e →
        (execute env script s).2.trace.getLast? = some (.spawn script false) := by
  unfold execute
  simp only [bind_apply]
  have hlog : Spawnless s (isExecutable env script
      (log .info s!"Executing script from {script}" s).2).2 := log_spawnless _ _ s
  generalize (isExecutable env script (log .info s!"Executing script from {script}" s).2) =
    executable
    at hlog ⊢
  obtain ⟨executable, t⟩ := executable
  dsimp only at hlog ⊢
  generalize (if executable = true then [script] else ["sh", script]) = argv
  have hspawn : (spawnChild env script argv t).2.trace =
      t.trace ++ [.spawn script (spawnChild env script argv t).1.isOk] := rfl
  generalize spawnChild env script argv t = spawned at hspawn ⊢
  obtain ⟨result, u⟩ := spawned
  have hu : u.spawns = s.spawns ++ [result.isOk] := by
    rw [← hlog]
    unfold Sys.spawns
    rw [hspawn, List.filterMap_append]
    rfl
  cases result with
  | error e =>
    refine ⟨hu, fun _ _ => ?_⟩
    have htrace : u.trace = t.trace ++ [.spawn script false] := hspawn
    change u.trace.getLast? = _
    rw [htrace, List.getLast?_concat]
  | ok output =>
    refine ⟨?_, fun _ h => by cases h⟩
    exact (logOutput_spawnless _ output u).trans hu

/-- Notifying with `SCRIPT` and `REQ_URL` both configured. -/
theorem notify_eq {ctx : Ctx} (hscript : ctx.script = some script) (url : String) (changed : Bool) :
    notify env ctx (some url) changed s =
      if changed then
        match (execute env script s).1 with
        | .error e => (.error (.other e), (execute env script s).2)
        | .ok () => (.ok (), (request env (some url) ctx.reqMethod ctx.enable5xx ctx.reqPayload
            (execute env script s).2).2)
      else (.ok (), s) := by
  unfold notify
  cases changed with
  | false => rfl
  | true =>
    simp only [if_true, hscript, bind_apply]
    cases (execute env script s).1 <;> rfl

end Notify

/-! ## Runs -/

section Runs

variable {env : Env} {ctx : Ctx} {url script : String} {ignoreAlreadyProcessed : Bool}
  {w₀ w w' : World}

/-- One list pass or event of a watcher with a `REQ_URL`: its `files_changed`, and its result. -/
inductive Delivers (env : Env) (ctx : Ctx) (url : String)
    (ignoreAlreadyProcessed : Bool) (w : World) :
    Delivery → Bool → Except WErr Unit → World → Prop
  | listing {kind : Kind} {ns : String} {items : List Item} {replies : ListReplies kind}
    {r : Except WErr Unit} : (startPass env ctx kind ns replies w).1 = some (.ok items) →
      (listResources env ctx kind ns (some url) ignoreAlreadyProcessed replies w).1 = some r →
      Delivers env ctx url ignoreAlreadyProcessed w (.listing kind ns items)
        (applyListing env ctx kind ns ignoreAlreadyProcessed items
          (passStart env ctx kind ns replies w)).1 r
        (listResources env ctx kind ns (some url) ignoreAlreadyProcessed replies w).2
  | event {kind : Kind} {ev : EventType} {item : Item} :
      Delivers env ctx url ignoreAlreadyProcessed w (.event kind ev item)
        (applyEvent env ctx kind ignoreAlreadyProcessed ev item w).1
        (handleEvent env ctx kind (some url) ignoreAlreadyProcessed ev item w).1
        (handleEvent env ctx kind (some url) ignoreAlreadyProcessed ev item w).2

theorem Delivers.takes {d : Delivery} {f : Bool} {r : Except WErr Unit}
    (h : Delivers env ctx url ignoreAlreadyProcessed w d f r w') :
    Takes env ctx ignoreAlreadyProcessed w d f w' := by
  cases h with
  | listing hitems hr => exact .listing hitems
  | event => exact .event

/-- The notification comes last. -/
theorem Delivers.notify {d : Delivery} {f : Bool} {r : Except WErr Unit}
    (h : Delivers env ctx url ignoreAlreadyProcessed w d f r w') :
    ∃ u, Hush w u ∧ Spawnless w.sys (d.apply env ctx ignoreAlreadyProcessed u).2.sys ∧
      notify env ctx (some url) f (d.apply env ctx ignoreAlreadyProcessed u).2.sys =
        (r, w'.sys) := by
  cases h with
  | @listing kind ns items replies r hitems hr =>
    have hstart := startPass_calm env ctx kind ns replies w
    have happlied :=
      Delivery.apply_spawnless env ctx ignoreAlreadyProcessed (.listing kind ns items)
        (passStart env ctx kind ns replies w)
    rw [listResources_eq _ _ _ _ _ _ _ _ hitems] at hr ⊢
    exact ⟨passStart env ctx kind ns replies w, ⟨hstart.silent, rfl⟩,
      Spawnless.preorder.trans hstart.spawnless happlied, Prod.ext (Option.some.inj hr) rfl⟩
  | @event kind ev item =>
    exact ⟨w, ⟨Silent.preorder.refl _, rfl⟩,
      Delivery.apply_spawnless env ctx ignoreAlreadyProcessed (.event kind ev item) w, rfl⟩

/-- What a pass or event came to. -/
structure Announcement where
  changed : Bool
  result : Except WErr Unit

/-- The passes and events of a watcher, in order, with anything in between that spawns nothing. -/
inductive Announced (env : Env) (ctx : Ctx) (url : String) (ignoreAlreadyProcessed : Bool)
    (w₀ : World) :
    List Announcement → World → Prop
  | start : Announced env ctx url ignoreAlreadyProcessed w₀ [] w₀
  | deliver {as : List Announcement} {w w' : World} {d : Delivery} {f : Bool}
      {r : Except WErr Unit} :
    Announced env ctx url ignoreAlreadyProcessed w₀ as w →
      Delivers env ctx url ignoreAlreadyProcessed w d f r w' →
      Announced env ctx url ignoreAlreadyProcessed w₀ (as ++ [⟨f, r⟩]) w'
  | idle {as : List Announcement} {w w' : World} :
    Announced env ctx url ignoreAlreadyProcessed w₀ as w → Spawnless w.sys w'.sys →
      Announced env ctx url ignoreAlreadyProcessed w₀ as w'

variable (hscript : ctx.script = some script)
include hscript

/-- The step lemma: a change is announced by the pass or event that reported it. -/
theorem Delivers.announces {d : Delivery} {f : Bool} {r : Except WErr Unit}
    (h : Delivers env ctx url ignoreAlreadyProcessed w d f r w') :
    (f = false → r = .ok () ∧ w'.sys.spawns = w.sys.spawns ∧
      ∃ u, Hush w u ∧ w'.sys = (d.apply env ctx ignoreAlreadyProcessed u).2.sys) ∧
    (f = true → r = .ok () → ∃ t, t.spawns = w.sys.spawns ++ [true] ∧
      w'.sys = (request env (some url) ctx.reqMethod ctx.enable5xx ctx.reqPayload t).2) ∧
    (f = true → ∀ e, r = .error e → w'.sys.spawns = w.sys.spawns ++ [false] ∧
      w'.sys.trace.getLast? = some (.spawn script false)) := by
  obtain ⟨u, hu, hs, hnotify⟩ := h.notify
  generalize hsys : (d.apply env ctx ignoreAlreadyProcessed u).2.sys = s at hs hnotify
  obtain ⟨hspawns, hlast⟩ := execute_spawns env script s
  rw [hs] at hspawns
  rw [notify_eq env script s hscript] at hnotify
  cases f with
  | false =>
    obtain ⟨rfl, rfl⟩ := Prod.mk.inj hnotify
    exact ⟨fun _ => ⟨rfl, hs, u, hu, hsys.symm⟩, by simp, by simp⟩
  | true =>
    refine ⟨by simp, ?_⟩
    rw [if_pos rfl] at hnotify
    cases hran : (execute env script s).1 with
    | error e =>
      rw [hran] at hnotify hspawns
      obtain ⟨rfl, hw'⟩ := Prod.mk.inj hnotify
      exact ⟨by simp, fun _ _ _ => hw' ▸ ⟨hspawns, hlast e hran⟩⟩
    | ok u =>
      rw [hran] at hnotify hspawns
      obtain ⟨rfl, hw'⟩ := Prod.mk.inj hnotify
      exact ⟨fun _ _ => ⟨_, hspawns, hw'.symm⟩, by simp⟩

/-- A pass or event that reports a change adds one spawn. -/
theorem Delivers.spawns {d : Delivery} {f : Bool} {r : Except WErr Unit}
    (h : Delivers env ctx url ignoreAlreadyProcessed w d f r w') :
    w'.sys.spawns = w.sys.spawns ++ if f then [r.isOk] else [] := by
  obtain ⟨hunchanged, hok, herror⟩ := h.announces hscript
  cases f with
  | false => rw [(hunchanged rfl).2.1]; simp
  | true =>
    cases r with
    | error e => exact (herror rfl e rfl).1
    | ok u =>
      obtain ⟨t, ht, hw'⟩ := hok rfl rfl
      rw [hw', (Spawnless.frame env).requests.request _ _ _ _ t, ht]
      rfl

/-- **A change is announced by the pass or event that reported it, or not at all.** The spawns of a
run are one for each pass or event whose `files_changed` is true, in their order, and those worked
that returned no error. After a spawn that worked `REQ_URL` is called; one that failed is the last
the pass or event does; and one that reports no change does nothing after its processing. Delivered
again to the maps it left, with its files in place, a pass or event reports no change. -/
theorem changes_announced_once {as : List Announcement}
    (hrun : Announced env ctx url ignoreAlreadyProcessed w₀ as w) :
    w.sys.spawns = w₀.sys.spawns ++ (as.filter Announcement.changed).map (·.result.isOk) ∧
    (∀ d f r w', Delivers env ctx url ignoreAlreadyProcessed w d f r w' →
      (f = false → r = .ok () ∧ w'.sys.spawns = w.sys.spawns ∧
        ∃ u, Hush w u ∧ w'.sys = (d.apply env ctx ignoreAlreadyProcessed u).2.sys) ∧
      (f = true → r = .ok () → ∃ t, t.spawns = w.sys.spawns ++ [true] ∧
        w'.sys = (request env (some url) ctx.reqMethod ctx.enable5xx ctx.reqPayload t).2) ∧
      (f = true → ∀ e, r = .error e → w'.sys.spawns = w.sys.spawns ++ [false] ∧
        w'.sys.trace.getLast? = some (.spawn script false))) ∧
    ∀ body d f r w' u f' r' u', w.maps.Reachable → (d.items.map Item.key).Nodup →
      Delivers env ctx url ignoreAlreadyProcessed w d f r w' → u.maps = w'.maps →
      Fetches env ctx body → d.InPlace env ctx body u →
      Delivers env ctx url ignoreAlreadyProcessed u d f' r' u' →
      u'.sys.ioErrors = u.sys.ioErrors →
        f' = false ∧ r' = .ok () ∧ u'.sys.spawns = u.sys.spawns := by
  refine ⟨?_, fun d f r w' hstep => hstep.announces hscript, ?_⟩
  · induction hrun with
    | start => simp
    | @deliver as w w' d f r _ h ih =>
      rw [h.spawns hscript, ih, List.filter_append, List.map_append, List.append_assoc]
      cases f <;> rfl
    | idle _ hspawnless ih => exact hspawnless.trans ih
  · intro body d f r w' u f' r' u' hw hn hfirst hmaps hbody hplace hsecond hio
    have hquiet : f' = false :=
      hfirst.takes.quiet_again hn hw hmaps hsecond.takes hbody hplace hio
    obtain ⟨hok, hspawns, -⟩ := (hsecond.announces hscript).1 hquiet
    exact ⟨hquiet, hok, hspawns⟩

end Runs

/-- The first spawn fails, later ones work. -/
def sampleFlaky : Env :=
  { sampleEnv with
    spawn := fun n _ => if n = 0 then .error "fork" else .ok ⟨true, some 0, .empty, .empty⟩ }

def sampleScript : Ctx := { sampleCtx with script := some "/reload" }

/-- ConfigMaps are added, each to be announced. -/
def sampleAnnounced (items : List Item) : World :=
  items.foldl (fun w item =>
    (handleEvent sampleFlaky sampleScript .configMap (some "http://hook") false .added item w).2)
      sampleWorld

theorem sampleAnnounced_reachable (items : List Item) : (sampleAnnounced items).maps.Reachable := by
  unfold sampleAnnounced
  suffices h : ∀ w : World, w.maps.Reachable → (items.foldl (fun w item =>
      (handleEvent sampleFlaky sampleScript .configMap (some "http://hook") false .added item w).2)
        w).maps.Reachable from h _ .empty
  induction items with
  | nil => exact fun w hw => hw
  | cons item items ih =>
    exact fun w hw => ih _ ((World.reachable_frame sampleFlaky sampleScript .configMap).applyEvent
      false .added item w hw)

/-- Two ConfigMaps are added, and the second is delivered once more. -/
theorem changes_announced_once_sample :
    let a := sampleItem "ns" "a" "1" [("k", "v")]
    let b := sampleItem "ns" "b" "1" [("j", "v")]
    (sampleAnnounced [a, b]).sys.spawns = [false, true] ∧
      (sampleAnnounced [a, b, b]).sys.spawns = (sampleAnnounced [a, b]).sys.spawns := by
  intro a b
  have hscript : sampleScript.script = some "/reload" := rfl
  have hdelivers : ∀ items item, Delivers sampleFlaky sampleScript "http://hook" false
      (sampleAnnounced items) (.event .configMap .added item)
      (applyEvent sampleFlaky sampleScript .configMap false .added item (sampleAnnounced items)).1
      (handleEvent sampleFlaky sampleScript .configMap (some "http://hook") false .added item
        (sampleAnnounced items)).1
      (sampleAnnounced (items ++ [item])) := by
    intro items item
    unfold sampleAnnounced
    rw [List.foldl_append]
    exact .event
  have hone : Announced sampleFlaky sampleScript "http://hook" false sampleWorld _
      (sampleAnnounced [a]) := .deliver .start (hdelivers [] a)
  refine ⟨(changes_announced_once hscript (.deliver hone (hdelivers [a] b))).1.trans
    (by decide +kernel), ?_⟩
  have hplace : (Delivery.event .configMap .added b).InPlace sampleFlaky sampleScript
      (fun _ => "body".toUTF8) (sampleAnnounced [a, b]) := by
    intro j hj data hdata
    obtain rfl := List.mem_singleton.1 hj
    have hkey : keyBytes (fun _ => "body".toUTF8) "j" (.text "v") = some "v".toUTF8 := by
      decide +kernel
    obtain rfl := Option.some.inj (hkey.symm.trans hdata)
    decide +kernel
  exact ((changes_announced_once hscript hone).2.2 _ (.event .configMap .added b) _ _ _ _ _ _
    (sampleAnnounced [a, b, b]) (sampleAnnounced_reachable [a]) (List.nodup_singleton _)
    (hdelivers [a] b) rfl sampleEnv_fetches hplace (hdelivers [a, b] b) (by decide +kernel)).2.2

/-- The spawn fails for a ConfigMap that was added. Delivered again it changes nothing, so nobody is
ever told. -/
theorem announcement_lost :
    let item := sampleItem "ns" "a" "1" [("k", "v")]
    let deliver :=
      handleEvent sampleFlaky sampleScript .configMap (some "http://hook") false .added item
    let first := deliver sampleWorld
    let second := deliver first.2
    sampleWorld.sys.tree.fileAt ["k", "data"] = none ∧
      first.2.sys.tree.fileAt ["k", "data"] = some "v".toUTF8 ∧
      first.2.sys.calls = [.spawn "/reload" false] ∧ second.1.isOk = true ∧
      second.2.sys.spawnTick = 1 ∧ second.2.sys.calls = [.spawn "/reload" false] := by
  refine ⟨?_, ?_, ?_, ?_, ?_, ?_⟩ <;> decide +kernel

end Sidecar
