import Sidecar.Lib.Interleave
import Sidecar.Slots
import Sidecar.Registry

/-!
# Atomic sections

`process_resource` as a task runs it beside others: the critical section of the maps, then for each
data key the fetch of its bytes, which a `*.url` key awaits, and the write or removal of its file.
By itself this is `process_resource` (`processSections_run`).
-/

namespace Sidecar

open Posix StateM Interleave

/-! ## The sections -/

section Sections

variable (env : Env) (ctx : Ctx) (kind : Kind)

/-- What `update_file` does once the bytes are there. -/
def Job.finish (j : Job) (fetched : Except String (String × ByteArray)) : M Bool := do
  let result ← (match fetched with
    | .ok out => putFile env ctx j.dataKey j.folder j.item kind j.contentType j.remove out.1 out.2
    | .error e => pure (.error e))
  match result with
  | .ok changed => pure changed
  | .error _ =>
    log .error (updateErrorMsg j.dataKey j.folder)
    pure false

def Job.sections (j : Job) : Prog World Bool := do
  let fetched ← Prog.atom (liftSys (getFileDataAndName env ctx j.dataKey j.content))
  Prog.atom (liftSys (j.finish env ctx kind fetched))

def Action.sections : Action → Prog World Bool
  | .log level msg => Prog.atom (liftSys (Action.run env ctx kind (.log level msg)))
  | .file j => j.sections env ctx kind

def actionSections : List Action → Prog World Bool
  | [] => pure false
  | a :: as => do
    let changed ← a.sections env ctx kind
    let rest ← actionSections as
    pure (changed || rest)

def processSections (item : Item) (destFolder : Option String) (isRemoved : Bool) :
    Prog World Bool := do
  let old ← Prog.atom (withMaps fun m => m.enter kind item destFolder isRemoved)
  let dest := if isRemoved then old.dest else destFolder.getD ""
  actionSections env ctx kind (plan kind item old dest isRemoved)

variable {env ctx kind}

theorem Job.run_finish (j : Job) (s : Sys) : j.run env ctx kind s =
    j.finish env ctx kind (getFileDataAndName env ctx j.dataKey j.content s).1
      (getFileDataAndName env ctx j.dataKey j.content s).2 := by
  unfold Job.run updateFile Job.finish StateM.andThen
  simp only [bind_apply]
  cases (getFileDataAndName env ctx j.dataKey j.content s).1 <;> rfl

theorem Job.sections_run (j : Job) :
    (j.sections env ctx kind).run = liftSys (j.run env ctx kind) := by
  funext w
  unfold Job.sections
  rw [Prog.run_bind, Prog.run_atom, bind_apply, Prog.run_atom]
  unfold liftSys
  rw [Job.run_finish]

theorem Action.sections_run (a : Action) :
    (a.sections env ctx kind).run = liftSys (a.run env ctx kind) := by
  cases a with
  | log level msg => exact Prog.run_atom _
  | file j => exact j.sections_run

theorem actionSections_run (as : List Action) :
    (actionSections env ctx kind as).run = liftSys (runActions env ctx kind as) := by
  induction as with
  | nil => rfl
  | cons a as ih =>
    funext w
    unfold actionSections
    rw [Prog.run_bind, bind_apply, Prog.run_bind, bind_apply, ih, a.sections_run]
    rfl

/-- By itself a task runs `process_resource`. -/
theorem processSections_run (item : Item) (destFolder : Option String) (isRemoved : Bool) :
    (processSections env ctx kind item destFolder isRemoved).run =
      processResource env ctx kind item destFolder isRemoved := by
  funext w
  unfold processSections processResource
  rw [Prog.run_bind, bind_apply, Prog.run_atom, bind_apply, actionSections_run,
    syncItem_eq_runActions]

end Sections

/-! ## What a section does -/

section Finish

variable {env : Env} {ctx : Ctx} {kind : Kind} {j : Job}

/-- What the fetch of a data key answered at some point. -/
def Fetched (env : Env) (ctx : Ctx) (j : Job)
    (fetched : Except String (String × ByteArray)) : Prop :=
  ∃ s, (getFileDataAndName env ctx j.dataKey j.content s).1 = fetched

theorem Fetched.cases {fetched : Except String (String × ByteArray)}
    (h : Fetched env ctx j fetched) :
    (∃ e, fetched = .error e) ∨
      ∃ data, fetched = .ok (dataFileName j.dataKey, data) ∧
      Computes env ctx j.dataKey j.content data := by
  obtain ⟨s, hs⟩ := h
  cases fetched with
  | error e => exact .inl ⟨e, rfl⟩
  | ok out =>
    obtain ⟨name, data⟩ := out
    obtain rfl : name = dataFileName j.dataKey := getFileDataAndName_name hs
    exact .inr ⟨data, rfl, s, hs⟩

theorem Job.finish_error (e : String) (s : Sys) :
    j.finish env ctx kind (.error e) s =
      (false, (log .error (updateErrorMsg j.dataKey j.folder) s).2) := rfl

theorem Job.finish_ok (data : ByteArray) (s : Sys) :
    j.finish env ctx kind (.ok (dataFileName j.dataKey, data)) s =
      match (j.put env ctx kind data s).1 with
      | .ok changed => (changed, (j.put env ctx kind data s).2)
      | .error _ =>
        (false, (log .error (updateErrorMsg j.dataKey j.folder)
          (j.put env ctx kind data s).2).2) := by
  unfold Job.finish Job.put
  rw [bind_apply]
  cases (putFile env ctx j.dataKey j.folder j.item kind j.contentType j.remove
    (dataFileName j.dataKey) data
    s).1 <;> rfl

/-- What follows the fetch moves along what log lines and the file operation move along. -/
theorem Job.finish_moves {R : Sys → Sys → Prop} (hp : Preorder R)
    (hsilent : ∀ s s', Silent s s' → R s s') (hput : ∀ data, Moves R (j.put env ctx kind data))
    {fetched : Except String (String × ByteArray)}
    (h : Fetched env ctx j fetched) : Moves R (j.finish env ctx kind fetched) := by
  intro s
  obtain ⟨e, rfl⟩ | ⟨data, rfl, -⟩ := h.cases
  · exact hsilent _ _ (log_silent _ _ s)
  · rw [Job.finish_ok]
    split
    · exact hput data s
    · exact hp.trans (hput data s) (hsilent _ _ (log_silent _ _ _))

/-- Whatever was fetched, only the job's own file is touched. -/
theorem Job.finish_touches {fetched : Except String (String × ByteArray)}
    (h : Fetched env ctx j fetched) :
    Moves (Touches (· = j.place env ctx kind)) (j.finish env ctx kind fetched) :=
  Job.finish_moves (Touches.preorder _) (fun _ _ hs => hs.touches _) (j.put_touches env ctx kind) h

/-- Without a failure the job makes its assignment. -/
theorem Job.finish_done {fetched : Except String (String × ByteArray)}
    (h : Fetched env ctx j fetched) {s : Sys}
    (hw : j.remove = true → s.tree.fileAt (j.place env ctx kind) ≠ none →
      j.Reachable env ctx kind s.tree)
    (hfail : (j.finish env ctx kind fetched s).2.failures = s.failures) :
    ∃ data, Computes env ctx j.dataKey j.content data ∧
      j.Done env ctx kind data s (j.finish env ctx kind fetched s) := by
  have hio := ioErrors_of_failures (Job.finish_touches h s).trace hfail
  obtain ⟨e, rfl⟩ | ⟨data, rfl, hdata⟩ := h.cases
  · rw [Job.finish_error, failures_updateError] at hfail
    omega
  · refine ⟨data, hdata, ?_⟩
    rw [Job.finish_ok] at hfail hio ⊢
    have hput := (j.put_touches env ctx kind data s).trace
    split at hfail
    · next changed hok =>
      rw [hok] at hio
      obtain ⟨hres, hfiles, hproduced, hwalk⟩ := Job.put_ok env ctx kind j hw hio
      rw [hok] at hres
      obtain hres | hres := hres
      · exact ⟨Except.ok.inj hres, hfiles, hproduced, hwalk⟩
      · cases hres
    · rw [failures_updateError] at hfail
      have hle := count_mono hput Event.isFailure
      unfold Sys.failures at hfail
      omega

end Finish

/-! ## Invariants of the sections -/

section Invariants

variable {env : Env} {ctx : Ctx} {kind : Kind} (I φ : World → Prop)

/-- Log lines and fetches are not noticed. -/
def Unnoticed : Prop :=
  ∀ w s, Silent w.sys s → I w → I ⟨s, w.maps⟩ ∧ (φ w → φ ⟨s, w.maps⟩)

/-- A job keeps the invariant, and `φ` with it. -/
def Job.Keeps (env : Env) (ctx : Ctx) (kind : Kind) (j : Job) : Prop :=
  ∀ fetched, Fetched env ctx j fetched → ∀ w, I w →
    I ⟨(j.finish env ctx kind fetched w.sys).2, w.maps⟩ ∧
      (φ w → φ ⟨(j.finish env ctx kind fetched w.sys).2, w.maps⟩)

/-- A job makes `φ` true. -/
def Job.Establishes (env : Env) (ctx : Ctx) (kind : Kind) (j : Job) : Prop :=
  ∀ fetched, Fetched env ctx j fetched → ∀ w, I w →
    I ⟨(j.finish env ctx kind fetched w.sys).2, w.maps⟩ ∧
    φ ⟨(j.finish env ctx kind fetched w.sys).2, w.maps⟩

variable {I φ}

theorem Job.sections_keeps (hu : Unnoticed I φ) {j : Job} (hj : j.Keeps I φ env ctx kind) :
    Interleave.Keeps I φ (j.sections env ctx kind) := by
  intro w hw
  obtain ⟨hi, hφ⟩ := hu w _ (getFileDataAndName_silent env ctx j.dataKey j.content w.sys) hw
  refine ⟨hi, hφ, fun w' hw' => ?_⟩
  obtain ⟨hi', hφ'⟩ := hj _ ⟨w.sys, rfl⟩ w' hw'
  exact ⟨hi', hφ', trivial⟩

theorem Job.sections_establishes (hu : Unnoticed I φ) {j : Job}
    (hj : j.Establishes I φ env ctx kind) :
    Interleave.Establishes I φ (j.sections env ctx kind) := by
  intro w hw
  refine ⟨(hu w _ (getFileDataAndName_silent env ctx j.dataKey j.content w.sys) hw).1,
    .inl fun w' hw' => ?_⟩
  obtain ⟨hi, hφ⟩ := hj _ ⟨w.sys, rfl⟩ w' hw'
  exact ⟨hi, .inr ⟨hφ, trivial⟩⟩

theorem actionSections_keeps (hu : Unnoticed I φ) {as : List Action}
    (hjobs : ∀ j ∈ jobs as, j.Keeps I φ env ctx kind) :
    Interleave.Keeps I φ (actionSections env ctx kind as) := by
  induction as with
  | nil => trivial
  | cons a as ih =>
    refine Interleave.Keeps.bind ?_ fun _ => Interleave.Keeps.bind (ih fun j hj => ?_)
      fun _ => trivial
    · cases a with
      | log level msg =>
        intro w hw
        obtain ⟨hi, hφ⟩ := hu w _ (log_silent level msg w.sys) hw
        exact ⟨hi, hφ, trivial⟩
      | file j => exact Job.sections_keeps hu (hjobs j List.mem_cons_self)
    · obtain ⟨b, hb, hbj⟩ := List.mem_filterMap.1 hj
      exact hjobs j (List.mem_filterMap.2 ⟨b, List.mem_cons_of_mem a hb, hbj⟩)

/-- What one of the jobs makes true stays so if the jobs of the other slots keep it. -/
theorem actionSections_establishes (hu : Unnoticed I φ) {as : List Action} {j : Job}
    (hj : j ∈ jobs as)
    (hset : j.Establishes I φ env ctx kind) (hslots : ((jobs as).map (Job.slot kind)).Nodup)
    (hkeeps : ∀ x ∈ jobs as, x.Keeps I (fun _ => True) env ctx kind)
    (hothers : ∀ x ∈ jobs as, x.slot kind ≠ j.slot kind → x.Keeps I φ env ctx kind) :
    Interleave.Establishes I φ (actionSections env ctx kind as) := by
  have hu' : Unnoticed I fun _ => True := fun w s hs hw => ⟨(hu w s hs hw).1, fun _ => trivial⟩
  induction as with
  | nil => cases hj
  | cons a as ih =>
    cases a with
    | log level msg =>
      refine Interleave.Establishes.after (fun w hw => ?_) fun _ =>
        Interleave.Establishes.bind (ih hj hslots hkeeps hothers) fun _ => trivial
      exact ⟨(hu w _ (log_silent level msg w.sys) hw).1, fun _ => trivial, trivial⟩
    | file x =>
      have hjobs : jobs (.file x :: as) = x :: jobs as := rfl
      rw [hjobs] at hj hslots hkeeps hothers
      rw [List.map_cons, List.nodup_cons] at hslots
      have hne : ∀ y ∈ jobs as, y.slot kind ≠ x.slot kind := fun y hy e =>
        hslots.1 (e ▸ List.mem_map_of_mem hy)
      rcases List.mem_cons.1 hj with rfl | hj
      · refine Interleave.Establishes.bind (Job.sections_establishes hu hset) fun _ =>
          Interleave.Keeps.bind (actionSections_keeps hu fun y hy => ?_) fun _ => trivial
        exact hothers y (List.mem_cons_of_mem j hy) (hne y hy)
      · refine Interleave.Establishes.after
          (Job.sections_keeps hu' (hkeeps x List.mem_cons_self)) fun _ =>
          Interleave.Establishes.bind
            (ih hj hslots.2 (fun y hy => hkeeps y (List.mem_cons_of_mem x hy))
            fun y hy => hothers y (List.mem_cons_of_mem x hy)) fun _ => trivial

end Invariants

end Sidecar
