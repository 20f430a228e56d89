import Sidecar.FileSpecs

/-!
# The plan of one resource

Which files `process_resource` writes and removes is decided by the item, the old item and the two
folders alone, before the first of them is touched. `plan` is that list of actions, and
`syncItem_eq_runActions` says that the code runs it. What follows about a resource is read off its
plan: which paths it touches (`runActions_touches`) and, when nothing fails, which assignments to
the file store it makes (`runActions_ok`).
-/

namespace Sidecar

open Posix StateM

/-! ## Actions -/

/-- One call of `update_file`. -/
structure Job where
  dataKey : String
  content : Content
  folder : String
  item : Item
  contentType : String
  remove : Bool

def Job.run (env : Env) (ctx : Ctx) (kind : Kind) (j : Job) : M Bool :=
  updateFile env ctx j.dataKey j.content j.folder j.item kind j.contentType j.remove

inductive Action
  | log (level : Level) (msg : String)
  | file (job : Job)

def Action.run (env : Env) (ctx : Ctx) (kind : Kind) : Action → M Bool
  | .log level msg => do
    Sidecar.log level msg
    pure false
  | .file job => job.run env ctx kind

def Action.job? : Action → Option Job
  | .log .. => none
  | .file job => some job

def jobs (as : List Action) : List Job := as.filterMap Action.job?

/-- Run the actions in order; the result tells whether any changed a file. -/
def runActions (env : Env) (ctx : Ctx) (kind : Kind) : List Action → M Bool
  | [] => pure false
  | a :: as => do
    let changed ← a.run env ctx kind
    let rest ← runActions env ctx kind as
    pure (changed || rest)

theorem runActions_cons (env : Env) (ctx : Ctx) (kind : Kind) (a : Action) (as : List Action)
    (s : Sys) :
    runActions env ctx kind (a :: as) s =
      ((a.run env ctx kind s).1 || (runActions env ctx kind as (a.run env ctx kind s).2).1,
        (runActions env ctx kind as (a.run env ctx kind s).2).2) := rfl

theorem runActions_append (env : Env) (ctx : Ctx) (kind : Kind) (as bs : List Action) (s : Sys) :
    runActions env ctx kind (as ++ bs) s =
      ((runActions env ctx kind as s).1 ||
          (runActions env ctx kind bs (runActions env ctx kind as s).2).1,
        (runActions env ctx kind bs (runActions env ctx kind as s).2).2) := by
  induction as generalizing s with
  | nil => rfl
  | cons a as ih => simp only [List.cons_append, runActions_cons, ih, Bool.or_assoc]

/-! ## The plan -/

/-- The calls `iterate_data` makes. -/
def entryActions (destFolder : String) (item : Item) (contentType : String) (remove : Bool)
    (entries : List (String × Content)) : List Action :=
  entries.map fun e => .file ⟨e.1, e.2, destFolder, item, contentType, remove⟩

def applyPlan {V : Type} (item : Item) (dest : String) (isRemoved : Bool)
    (entries : BTreeMap V → List (String × Content)) (contentType : String) (found : Option String)
    (new : Option (BTreeMap V)) : List Action :=
  match new with
  | some fields =>
    found.toList.map (Action.log .debug) ++
      entryActions dest item contentType isRemoved (entries fields)
  | none => []

def dropPlan {V : Type} (old : Old) (dest : String) (isRemoved : Bool)
    (entries : BTreeMap V → List (String × Content)) (contentType : String)
    (new oldField : Option (BTreeMap V)) : List Action :=
  match oldField with
  | some oldFields =>
    if isRemoved then []
    else
      entryActions old.dest old.item contentType true
        (entries (if old.dest = dest then minusCommon oldFields new else oldFields))
  | none => []

def fieldPlan {V : Type} (item : Item) (old : Old) (dest : String) (isRemoved : Bool)
    (entries : BTreeMap V → List (String × Content)) (contentType : String) (found : Option String)
    (new oldField : Option (BTreeMap V)) : List Action :=
  applyPlan item dest isRemoved entries contentType found new ++
    dropPlan old dest isRemoved entries contentType new oldField

def plan (kind : Kind) (item : Item) (old : Old) (dest : String) (isRemoved : Bool) : List Action :=
  match kind with
  | .configMap =>
    (if item.text.isNone && item.binary.isNone then
      [.log .warning s!"No data/binaryData field in {kind.asStr}"] else []) ++
    fieldPlan item old dest isRemoved textEntries contentTypeText
      (some s!"Found 'data' on {kind.asStr}") item.text old.item.text ++
    fieldPlan item old dest isRemoved binEntries contentTypeBase64Binary
      (some s!"Found 'binary_data' on {kind.asStr}") item.binary old.item.binary
  | .secret =>
    (if item.binary.isNone then [.log .warning s!"No data field in {kind.asStr}"] else []) ++
    fieldPlan item old dest isRemoved binEntries contentTypeBase64Binary none
      item.binary old.item.binary

theorem iterateData_eq (env : Env) (ctx : Ctx) (destFolder : String) (item : Item) (kind : Kind)
    (contentType : String) (remove : Bool) (entries : List (String × Content)) :
    iterateData env ctx destFolder item kind contentType remove entries =
      runActions env ctx kind (entryActions destFolder item contentType remove entries) := by
  induction entries with
  | nil => rfl
  | cons e entries ih =>
    obtain ⟨key, content⟩ := e
    simp only [iterateData, ih]
    rfl

theorem applyField_eq {V : Type} (env : Env) (ctx : Ctx) (kind : Kind) (item : Item)
    (dest : String) (isRemoved : Bool) (entries : BTreeMap V → List (String × Content))
    (contentType : String) (found : Option String) (new : Option (BTreeMap V)) :
    applyField env ctx kind item dest isRemoved entries contentType found new =
      runActions env ctx kind
        (applyPlan item dest isRemoved entries contentType found new) := by
  unfold applyField applyPlan
  cases new with
  | none => rfl
  | some fields =>
    simp only [iterateData_eq]
    cases found <;> rfl

theorem dropLeftovers_eq {V : Type} (env : Env) (ctx : Ctx) (kind : Kind) (old : Old)
    (dest : String) (isRemoved : Bool) (entries : BTreeMap V → List (String × Content))
    (contentType : String) (new oldField : Option (BTreeMap V)) :
    dropLeftovers env ctx kind old dest isRemoved entries contentType new oldField =
      runActions env ctx kind
        (dropPlan old dest isRemoved entries contentType new oldField) := by
  unfold dropLeftovers dropPlan
  cases oldField with
  | none => rfl
  | some oldFields =>
    cases isRemoved with
    | true => rfl
    | false => simp only [iterateData_eq, Bool.false_eq_true, if_false]

theorem syncField_eq {V : Type} (env : Env) (ctx : Ctx) (kind : Kind) (item : Item) (old : Old)
    (dest : String) (isRemoved : Bool) (entries : BTreeMap V → List (String × Content))
    (contentType : String) (found : Option String) (new oldField : Option (BTreeMap V)) :
    syncField env ctx kind item old dest isRemoved entries contentType found new oldField =
      runActions env ctx kind
        (fieldPlan item old dest isRemoved entries contentType found new oldField) := by
  funext s
  unfold syncField fieldPlan
  rw [runActions_append, applyField_eq, dropLeftovers_eq]
  rfl

/-- `process_resource` runs its plan. -/
theorem syncItem_eq_runActions (env : Env) (ctx : Ctx) (kind : Kind) (item : Item) (old : Old)
    (dest : String) (isRemoved : Bool) :
    syncItem env ctx kind item old dest isRemoved =
      runActions env ctx kind (plan kind item old dest isRemoved) := by
  funext s
  cases kind with
  | configMap =>
    unfold syncItem plan
    simp only [syncField_eq, bind_apply, pure_apply]
    rw [List.append_assoc, runActions_append, runActions_append]
    split <;> rfl
  | secret =>
    unfold syncItem plan
    simp only [syncField_eq, bind_apply]
    rw [runActions_append]
    split <;> rfl

/-! ## One job -/

def isUrlKey (dataKey : String) : Bool := (Text.stripSuffix dataKey ".url").isSome

/-- The file name of a data key, before `UNIQUE_FILENAMES`. -/
def dataFileName (dataKey : String) : String := (Text.stripSuffix dataKey ".url").getD dataKey

/-- The body behind a URL is the same whenever it is fetched. -/
def Fetches (env : Env) (ctx : Ctx) (body : String → ByteArray) : Prop :=
  ∀ url s, bodyIfOk (request env (some url) (some "GET") ctx.enable5xx none s).1 = body url

/-- The bytes of a data key, given the body of every URL; `none` when the URL is no text. -/
def keyBytes (body : String → ByteArray) (dataKey : String) (content : Content) :
    Option ByteArray :=
  if isUrlKey dataKey then content.url?.map body else some content.bytes

namespace Job

variable (env : Env) (ctx : Ctx) (kind : Kind) (j : Job)

def filename : String :=
  if ctx.uniqueFilenames then
    uniqueFilename (dataFileName j.dataKey) j.item.ns kind.asStr j.item.name
  else dataFileName j.dataKey

def place : Path := env.place j.folder (j.filename ctx kind)

def id : DataId := ⟨kind, j.item.ns, j.item.name, j.contentType, j.dataKey⟩

/-- The assignment to the file store a job asks for when its key has these bytes. -/
def assign (data : ByteArray) : Store.Assign Path ByteArray :=
  ⟨j.place env ctx kind, if j.remove then none else some data⟩

/-- The job's file can be walked to. -/
def Reachable (t : FileTree) : Prop := Walkable env j.folder (j.filename ctx kind) t

end Job

/-- `update_file` can compute these bytes for a data key with this content. -/
def Computes (env : Env) (ctx : Ctx) (dataKey : String) (content : Content) (data : ByteArray) :
    Prop :=
  ∃ s, (getFileDataAndName env ctx dataKey content s).1 = .ok (dataFileName dataKey, data)

theorem getFileDataAndName_of_plain {dataKey : String} (hkey : isUrlKey dataKey = false)
    (env : Env) (ctx : Ctx) (content : Content) (s : Sys) :
    (getFileDataAndName env ctx dataKey content s) =
      (.ok (dataFileName dataKey, content.bytes), s) := by
  unfold isUrlKey at hkey
  unfold getFileDataAndName dataFileName
  cases hs : Text.stripSuffix dataKey ".url" with
  | none => rfl
  | some stripped =>
    rw [hs] at hkey
    cases hkey

theorem getFileDataAndName_of_url {dataKey : String} (hkey : isUrlKey dataKey = true)
    (env : Env) (ctx : Ctx) (content : Content) (s : Sys) :
    (getFileDataAndName env ctx dataKey content s).1 =
      match content.url? with
      | none => .error "invalid utf-8 sequence"
      | some url => .ok (dataFileName dataKey,
          bodyIfOk (request env (some url) (some "GET") ctx.enable5xx none s).1) := by
  unfold isUrlKey at hkey
  unfold getFileDataAndName dataFileName
  cases hs : Text.stripSuffix dataKey ".url" with
  | none =>
    rw [hs] at hkey
    cases hkey
  | some stripped => cases content.url? <;> rfl

/-- The name half of the result. -/
theorem getFileDataAndName_name {env : Env} {ctx : Ctx} {dataKey : String} {content : Content}
    {s : Sys} {out : String × ByteArray}
    (h : (getFileDataAndName env ctx dataKey content s).1 = .ok out) :
    out.1 = dataFileName dataKey := by
  cases hkey : isUrlKey dataKey with
  | false =>
    rw [getFileDataAndName_of_plain hkey] at h
    cases h
    rfl
  | true =>
    rw [getFileDataAndName_of_url hkey] at h
    split at h
    · cases h
    · cases h
      rfl

/-- The bytes of a data key whose value is no URL are the value. -/
theorem Computes.of_plain {env : Env} {ctx : Ctx} {dataKey : String} {content : Content}
    {data : ByteArray} (h : Computes env ctx dataKey content data)
    (hkey : isUrlKey dataKey = false) : data = content.bytes := by
  obtain ⟨s, h⟩ := h
  rw [getFileDataAndName_of_plain hkey] at h
  cases h
  rfl

/-- The bytes of a `*.url` key are the body of a request for the URL in its value. -/
theorem Computes.of_url {env : Env} {ctx : Ctx} {dataKey : String} {content : Content}
    {data : ByteArray} (h : Computes env ctx dataKey content data)
    (hkey : isUrlKey dataKey = true) : ∃ url s, content.url? = some url ∧
      data = bodyIfOk (request env (some url) (some "GET") ctx.enable5xx none s).1 := by
  obtain ⟨s, h⟩ := h
  rw [getFileDataAndName_of_url hkey] at h
  split at h
  · cases h
  · next url hurl =>
    cases h
    exact ⟨url, s, hurl, rfl⟩

/-- When bodies only depend on their URL, so do the bytes of a data key. -/
theorem getFileDataAndName_eq {env : Env} {ctx : Ctx} {body : String → ByteArray}
    (hbody : Fetches env ctx body) (dataKey : String) (content : Content) (s : Sys) :
    (getFileDataAndName env ctx dataKey content s).1 =
      match keyBytes body dataKey content with
      | some data => .ok (dataFileName dataKey, data)
      | none => .error "invalid utf-8 sequence" := by
  unfold keyBytes
  cases hkey : isUrlKey dataKey with
  | false => rw [getFileDataAndName_of_plain hkey]; rfl
  | true =>
    rw [getFileDataAndName_of_url hkey]
    cases content.url? with
    | none => rfl
    | some url =>
      dsimp only
      rw [hbody url s]
      rfl

theorem Computes.eq {env : Env} {ctx : Ctx} {body : String → ByteArray}
    (hbody : Fetches env ctx body) {dataKey : String} {content : Content} {data : ByteArray}
    (h : Computes env ctx dataKey content data) : keyBytes body dataKey content = some data := by
  obtain ⟨s, h⟩ := h
  rw [getFileDataAndName_eq hbody] at h
  split at h
  · cases h
    assumption
  · cases h

/-! ### What a job does -/

section JobRun

variable (env : Env) (ctx : Ctx) (kind : Kind) (j : Job)

/-- Write or remove the file of a job. -/
def Job.put (data : ByteArray) : M (Except String Bool) :=
  putFile env ctx j.dataKey j.folder j.item kind j.contentType j.remove
    (dataFileName j.dataKey) data

/-- A job computes its bytes, puts the file and reports. -/
theorem Job.run_eq (s : Sys) :
    (j.run env ctx kind) s =
      (let out := andThen (getFileDataAndName env ctx j.dataKey j.content)
        (fun out => j.put env ctx kind out.2) s
      match out.1 with
      | .ok changed => (changed, out.2)
      | .error _ => (false, (log .error (updateErrorMsg j.dataKey j.folder) out.2).2)) := by
  have hand : andThen (getFileDataAndName env ctx j.dataKey j.content) (fun out =>
      putFile env ctx j.dataKey j.folder j.item kind j.contentType j.remove out.1 out.2) s =
      andThen (getFileDataAndName env ctx j.dataKey j.content)
        (fun out => j.put env ctx kind out.2) s := by
    cases hout : (getFileDataAndName env ctx j.dataKey j.content s).1 with
    | error e => rw [andThen_error hout, andThen_error hout]
    | ok out =>
      rw [andThen_ok hout, andThen_ok hout, getFileDataAndName_name hout]
      rfl
  unfold Job.run updateFile
  rw [bind_apply, hand]
  generalize andThen (getFileDataAndName env ctx j.dataKey j.content) _ s = out
  obtain ⟨result, t⟩ := out
  cases result <;> rfl

theorem Job.put_touches (data : ByteArray) :
    Moves (Touches (· = j.place env ctx kind)) (j.put env ctx kind data) := by
  have hp := Touches.preorder (· = j.place env ctx kind)
  have hemit : ∀ e : Event, Moves (Touches (· = j.place env ctx kind)) (emit e) := fun e s =>
    ⟨List.prefix_append .., fun _ _ => rfl, .refl _⟩
  exact Moves.ite
    (Moves.bind hp ((removeFile_within env j.folder (j.filename ctx kind)).mono
      fun _ _ h => h.toTouches) fun _ => Moves.pure hp _)
    (Moves.bind hp (hemit _) fun _ => Moves.bind hp
      ((writeDataToFile_within env j.folder (j.filename ctx kind) data j.contentType).mono
        fun _ _ h => h.toTouches) fun _ => Moves.pure hp _)

/-- A job moves along whatever its one write or removal moves along. -/
theorem Job.run_moves {R : Sys → Sys → Prop} (hp : Preorder R)
    (hcalm : ∀ s s', Silent s s' → R s s')
    (hput : ∀ data, Moves R (j.put env ctx kind data)) : Moves R (j.run env ctx kind) := by
  intro s
  have hbody := Moves.andThen hp ((getFileDataAndName_silent env ctx j.dataKey j.content).mono
    hcalm) (fun out => hput out.2) s
  rw [Job.run_eq]
  dsimp only
  split
  · exact hbody
  · exact hp.trans hbody (hcalm _ _ (log_silent _ _ _))

/-- A job touches no file but its own. -/
theorem Job.run_touches :
    Moves (Touches (· = j.place env ctx kind)) (j.run env ctx kind) :=
  Job.run_moves env ctx kind j (Touches.preorder _) (fun _ _ h => h.touches _)
    (j.put_touches env ctx kind)

/-- The job made its assignment with these bytes. -/
structure Job.Done (data : ByteArray) (s : Sys) (out : Bool × Sys) : Prop where
  result : out.1 = (Store.step env.sha256 s.tree.fileAt (j.assign env ctx kind data)).1
  files : out.2.tree.fileAt = (Store.step env.sha256 s.tree.fileAt (j.assign env ctx kind data)).2
  produced : out.2.produced = s.produced ++ if j.remove then [] else [(j.id kind, data)]
  walk : j.remove = false → j.Reachable env ctx kind out.2.tree

/-- What a job can come to when no file-system call fails. -/
inductive Job.Outcome (s : Sys) (out : Bool × Sys) : Prop
  | done (data : ByteArray)
    (hdata : (getFileDataAndName env ctx j.dataKey j.content s).1 =
      .ok (dataFileName j.dataKey, data))
    (h : j.Done env ctx kind data s out)
  /-- The file was written, but `DEFAULT_FILE_MODE` is no mode. -/
  | badMode (data : ByteArray)
    (hdata : (getFileDataAndName env ctx j.dataKey j.content s).1 =
      .ok (dataFileName j.dataKey, data))
    (hfiles : out.2.tree.fileAt =
      (Store.step env.sha256 s.tree.fileAt (j.assign env ctx kind data)).2)
    (hresult : out.1 = false) (hfail : s.failures < out.2.failures)
  /-- The value of a `*.url` key is no text. -/
  | undecodable (e : String)
    (hdata : (getFileDataAndName env ctx j.dataKey j.content s).1 = .error e)
    (htree : out.2.tree = s.tree) (hresult : out.1 = false) (hfail : s.failures < out.2.failures)

theorem failures_updateError (dataKey destFolder : String) (s : Sys) :
    (log .error (updateErrorMsg dataKey destFolder) s).2.failures = s.failures + 1 := by
  unfold Sys.failures Sys.count
  have hf : Event.isFailure (.log .error (updateErrorMsg dataKey destFolder)) = true := by
    simp [Event.isFailure, isUpdateError_msg]
  simp [log, emit_apply, List.countP_append, hf]

theorem Job.put_of_remove (hr : j.remove = true) (data : ByteArray) (s : Sys) :
    j.put env ctx kind data s =
      (.ok (removeFile env j.folder (j.filename ctx kind) s).1,
        (removeFile env j.folder (j.filename ctx kind) s).2) := by
  unfold Job.put putFile
  rw [if_pos hr]
  rfl

/-- The state in which the bytes are handed to `write_data_to_file`. -/
def Job.handed (data : ByteArray) (s : Sys) : Sys :=
  (emit (.produced kind j.item.ns j.item.name j.contentType j.dataKey data) s).2

theorem Job.put_of_write (hr : j.remove = false) (data : ByteArray) (s : Sys) :
    j.put env ctx kind data s =
      (let out := writeDataToFile env j.folder (j.filename ctx kind) data j.contentType
        (j.handed kind data s)
      (out.1.mapError fun _ => "", out.2)) := by
  unfold Job.put putFile
  rw [if_neg (by simp [hr])]
  rfl

/-- What putting the file of a job comes to when no file-system call fails. -/
theorem Job.put_ok {data : ByteArray} {s : Sys}
    (hw : j.remove = true → s.tree.fileAt (j.place env ctx kind) ≠ none →
      j.Reachable env ctx kind s.tree)
    (h : (j.put env ctx kind data s).2.ioErrors = s.ioErrors) :
    ((j.put env ctx kind data s).1 =
        .ok (Store.step env.sha256 s.tree.fileAt (j.assign env ctx kind data)).1 ∨
      (j.put env ctx kind data s).1 = .error "") ∧
    (j.put env ctx kind data s).2.tree.fileAt =
      (Store.step env.sha256 s.tree.fileAt (j.assign env ctx kind data)).2 ∧
    (j.put env ctx kind data s).2.produced =
      s.produced ++ (if j.remove then [] else [(j.id kind, data)]) ∧
    (j.remove = false → j.Reachable env ctx kind (j.put env ctx kind data s).2.tree) := by
  unfold Job.assign
  cases hr : j.remove with
  | true =>
    rw [Job.put_of_remove env ctx kind j hr] at h ⊢
    obtain ⟨hresult, hfiles⟩ := removeFile_ok (hw hr) h
    have hproduced := (removeFile_within env j.folder (j.filename ctx kind) s).produced
    exact ⟨.inl (congrArg Except.ok hresult), hfiles, by simpa using hproduced, by simp⟩
  | false =>
    rw [Job.put_of_write env ctx kind j hr] at h ⊢
    have hemit : (j.handed kind data s).produced = s.produced ++ [(j.id kind, data)] := by
      simp [Job.handed, emit_apply, Sys.produced, Event.produced?, Job.id]
    have hle : TraceLe s (j.handed kind data s) := List.prefix_append ..
    have hwithin := writeDataToFile_within env j.folder (j.filename ctx kind) data j.contentType
      (j.handed kind data s)
    obtain ⟨hfiles, hresult, hwalk⟩ := writeDataToFile_ok (count_squeeze hle hwithin.trace h).2
    refine ⟨?_, hfiles, hwithin.produced.trans hemit, fun _ => hwalk⟩
    obtain hok | herr := hresult
    · exact .inl (by dsimp only; rw [hok]; rfl)
    · exact .inr (by dsimp only; rw [herr]; rfl)

/-- A job without a failing file-system call. -/
theorem Job.run_io {s : Sys} (hw : j.remove = true → s.tree.fileAt (j.place env ctx kind) ≠ none →
      j.Reachable env ctx kind s.tree)
    (h : (j.run env ctx kind s).2.ioErrors = s.ioErrors) :
    j.Outcome env ctx kind s (j.run env ctx kind s) := by
  have hput : ∀ data, Moves TraceLe (j.put env ctx kind data) := fun data =>
    (j.put_touches env ctx kind data).mono fun _ _ ht => ht.trace
  have hget := getFileDataAndName_silent env ctx j.dataKey j.content s
  rw [Job.run_eq] at h ⊢
  cases hout : (getFileDataAndName env ctx j.dataKey j.content s).1 with
  | error e =>
    rw [andThen_error hout]
    refine .undecodable e hout hget.tree rfl ?_
    dsimp only
    rw [failures_updateError]
    exact Nat.lt_succ_of_le (count_mono hget.trace _)
  | ok out =>
    obtain ⟨name, data⟩ := out
    obtain rfl : name = dataFileName j.dataKey := getFileDataAndName_name hout
    rw [andThen_ok hout] at h ⊢
    dsimp only at h ⊢
    generalize (getFileDataAndName env ctx j.dataKey j.content s).2 = t at *
    have hlog : ∀ u : Sys, TraceLe u (log .error (updateErrorMsg j.dataKey j.folder) u).2 :=
      fun u => ((log_silent _ _) u).trace
    have hio : (j.put env ctx kind data t).2.ioErrors = t.ioErrors := by
      refine (count_squeeze hget.trace (hput data t) ?_).2
      refine (count_squeeze (hget.trace.trans (hput data t)) ?_ h).1
      split
      · exact List.prefix_rfl
      · exact hlog _
    obtain ⟨hres, hfiles, hproduced, hwalk⟩ :=
      Job.put_ok env ctx kind j (by rwa [hget.tree]) hio
    rw [hget.tree] at hres hfiles
    rw [hget.produced] at hproduced
    obtain hok | herr := hres
    · rw [hok]
      exact .done data hout ⟨rfl, hfiles, hproduced, hwalk⟩
    · rw [herr]
      refine .badMode data hout hfiles rfl ?_
      rw [failures_updateError]
      exact Nat.lt_succ_of_le (count_mono (hget.trace.trans (hput data t)) _)

/-- A job without any failure. -/
theorem Job.run_ok {s : Sys}
    (hw : j.remove = true → s.tree.fileAt (j.place env ctx kind) ≠ none →
      j.Reachable env ctx kind s.tree)
    (h : (j.run env ctx kind s).2.failures = s.failures) :
    ∃ data, Computes env ctx j.dataKey j.content data ∧
    j.Done env ctx kind data s (j.run env ctx kind s) := by
  have hio := ioErrors_of_failures (j.run_touches env ctx kind s).trace h
  obtain ⟨data, hdata, hdone⟩ | ⟨_, _, _, _, hfail⟩ | ⟨_, _, _, _, hfail⟩ :=
    Job.run_io env ctx kind j hw hio
  · exact ⟨data, ⟨s, hdata⟩, hdone⟩
  · exact absurd h hfail.ne'
  · exact absurd h hfail.ne'

end JobRun

/-! ## A list of actions -/

section Actions

variable (env : Env) (ctx : Ctx) (kind : Kind)

/-- Actions move along whatever their jobs move along. -/
theorem runActions_moves {R : Sys → Sys → Prop} (hp : Preorder R)
    (hcalm : ∀ s s', Silent s s' → R s s') {as : List Action}
    (hjobs : ∀ j ∈ jobs as, Moves R (j.run env ctx kind)) :
    Moves R (runActions env ctx kind as) := by
  induction as with
  | nil => exact Moves.pure hp _
  | cons a as ih =>
    refine Moves.bind hp ?_ fun _ => Moves.bind hp (ih ?_) fun _ => Moves.pure hp _
    · cases a with
      | log level msg =>
        exact Moves.bind hp ((log_silent level msg).mono hcalm) fun _ => Moves.pure hp _
      | file j => exact hjobs j List.mem_cons_self
    · intro j hj
      obtain ⟨b, hb, hbj⟩ := List.mem_filterMap.1 hj
      exact hjobs j (List.mem_filterMap.2 ⟨b, List.mem_cons_of_mem a hb, hbj⟩)

theorem Action.run_touches (a : Action) :
    Moves (Touches fun p => ∃ j ∈ a.job?, j.place env ctx kind = p) (a.run env ctx kind) := by
  cases a with
  | log level msg =>
    exact Moves.bind (Touches.preorder _)
      ((log_silent level msg).mono fun _ _ h => (h.within _).toTouches) fun _ =>
      Moves.pure (Touches.preorder _) _
  | file j =>
    exact (j.run_touches env ctx kind).mono fun _ _ h =>
      h.mono fun p hp => ⟨j, rfl, hp.symm⟩

/-- Actions touch no files but those of their jobs. -/
theorem runActions_touches (as : List Action) :
    Moves (Touches fun p => ∃ j ∈ jobs as, j.place env ctx kind = p)
      (runActions env ctx kind as) := by
  refine runActions_moves env ctx kind (Touches.preorder _) (fun _ _ h => h.touches _)
    fun j hj => (j.run_touches env ctx kind).mono fun _ _ h => h.mono ?_
  rintro p rfl
  exact ⟨j, hj, rfl⟩

/-- The rule for runs that add no event `p` counts: the first job adds none, and the others run
after it and touch their own files only. -/
theorem runActions_clean {p : Event → Bool} {P : List Job → Sys → Bool × Sys → Prop}
    (done : ∀ s, P [] s (false, s)) (log : ∀ js s t out, Silent s t → P js t out → P js s out)
    (file : ∀ j js s out, (j.run env ctx kind s).2.count p = s.count p →
      Touches (fun q => ∃ x ∈ js, x.place env ctx kind = q) (j.run env ctx kind s).2 out.2 →
      P js (j.run env ctx kind s).2 out → P (j :: js) s ((j.run env ctx kind s).1 || out.1, out.2))
    {as : List Action} {s : Sys} (h : (runActions env ctx kind as s).2.count p = s.count p) :
    P (jobs as) s (runActions env ctx kind as s) := by
  induction as generalizing s with
  | nil => exact done s
  | cons a as ih =>
    rw [runActions_cons] at h ⊢
    have htouch := runActions_touches env ctx kind as (a.run env ctx kind s).2
    obtain ⟨hfirst, hrest⟩ := count_squeeze (a.run_touches env ctx kind s).trace htouch.trace h
    cases a with
    | log level msg => exact log _ s _ _ (log_silent level msg s) (ih hrest)
    | file j => exact file j _ s _ hfirst htouch (ih hrest)

/-- The bytes that jobs hand to writes. -/
def written (kind : Kind) (done : List (Job × ByteArray)) : List (DataId × ByteArray) :=
  done.filterMap fun d => if d.1.remove then none else some (d.1.id kind, d.2)

/-- The jobs made their assignments, one after the other, with the bytes `done` pairs them with. -/
structure Performed (js : List Job) (done : List (Job × ByteArray)) (s : Sys) (out : Bool × Sys) :
    Prop where
  jobs : done.map Prod.fst = js
  computes : ∀ d ∈ done, Computes env ctx d.1.dataKey d.1.content d.2
  result : out.1 = (Store.run env.sha256 s.tree.fileAt
    (done.map fun d => d.1.assign env ctx kind d.2)).1
  files : out.2.tree.fileAt = (Store.run env.sha256 s.tree.fileAt
    (done.map fun d => d.1.assign env ctx kind d.2)).2
  produced : out.2.produced = s.produced ++ written kind done
  walk : ∀ j ∈ js, j.remove = false → j.Reachable env ctx kind out.2.tree

variable {env ctx kind}

theorem Performed.silent {js : List Job} {done : List (Job × ByteArray)} {s t : Sys}
    {out : Bool × Sys} (hst : Silent s t) (h : Performed env ctx kind js done t out) :
    Performed env ctx kind js done s out where
  jobs := h.jobs
  computes := h.computes
  result := hst.tree ▸ h.result
  files := hst.tree ▸ h.files
  produced := hst.produced ▸ h.produced
  walk := h.walk

theorem Performed.cons {j : Job} {js : List Job} {data : ByteArray}
    {done : List (Job × ByteArray)} {s : Sys} {first out : Bool × Sys}
    (hdata : Computes env ctx j.dataKey j.content data) (hfirst : j.Done env ctx kind data s first)
    (hdirs : FileTree.DirsLe first.2.tree out.2.tree)
    (h : Performed env ctx kind js done first.2 out) :
    Performed env ctx kind (j :: js) ((j, data) :: done) s (first.1 || out.1, out.2) where
  jobs := by rw [List.map_cons, h.jobs]
  computes := by
    intro d hd
    rcases List.mem_cons.1 hd with rfl | hd
    · exact hdata
    · exact h.computes d hd
  result := by
    rw [List.map_cons, Store.run_cons, ← hfirst.files, ← hfirst.result, ← h.result]
  files := by
    rw [List.map_cons, Store.run_cons, ← hfirst.files]
    exact h.files
  produced := by
    dsimp only
    rw [h.produced, hfirst.produced, List.append_assoc]
    unfold written
    rw [List.filterMap_cons]
    cases j.remove <;> rfl
  walk := by
    intro j' hj' hr
    rcases List.mem_cons.1 hj' with rfl | hj'
    · exact (hfirst.walk hr).mono hdirs
    · exact h.walk j' hj' hr

/-- **Actions without a failure** are assignments to the file store, when the jobs have distinct
places and the files to be removed can be walked to. -/
theorem runActions_ok {as : List Action} {s : Sys}
    (hn : ((jobs as).map (Job.place env ctx kind)).Nodup)
    (hw : ∀ j ∈ jobs as, j.remove = true → s.tree.fileAt (j.place env ctx kind) ≠ none →
      j.Reachable env ctx kind s.tree)
    (h : (runActions env ctx kind as s).2.failures = s.failures) :
    ∃ done, Performed env ctx kind (jobs as) done s (runActions env ctx kind as s) := by
  refine runActions_clean env ctx kind (P :=
    fun js s out => (js.map (Job.place env ctx kind)).Nodup →
    (∀ j ∈ js, j.remove = true → s.tree.fileAt (j.place env ctx kind) ≠ none →
      j.Reachable env ctx kind s.tree) → ∃ done, Performed env ctx kind js done s out)
        ?_ ?_ ?_ h hn hw
  · intro s _ _
    exact ⟨[], rfl, by simp, rfl, rfl, by simp [written], by simp⟩
  · intro js s t out hsilent ih hn hw
    obtain ⟨done, hd⟩ := ih hn (by rwa [hsilent.tree])
    exact ⟨done, hd.silent hsilent⟩
  · intro j js s out hfirst htouch ih hn hw
    rw [List.map_cons, List.nodup_cons] at hn
    obtain ⟨data, hdata, hdone⟩ := j.run_ok env ctx kind (hw j List.mem_cons_self) hfirst
    have hj := j.run_touches env ctx kind s
    obtain ⟨done, hd⟩ := ih hn.2 fun j' hj' hr hf => by
      have hne : j'.place env ctx kind ≠ j.place env ctx kind := fun e =>
        hn.1 (e ▸ List.mem_map_of_mem hj')
      have hsame := hj.files _ hne
      exact (hw j' (List.mem_cons_of_mem j hj') hr (hsame ▸ hf)).mono hj.dirs
    exact ⟨(j, data) :: done, .cons hdata hdone htouch.dirs hd⟩

end Actions

end Sidecar
