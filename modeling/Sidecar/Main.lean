import Sidecar.Resources

/-!
# Start-up settings

`main.rs` up to the initial sync: the command line, the environment variables and what depends on
them. What `run` reads from outside is `Start`; loading the cluster's configuration and the YAML of
`LOG_CONFIG` are other packages' work, of which only the outcome is here.
-/

namespace Sidecar

/-! ## Command line -/

structure Flags where
  usernameFile : Option String
  passwordFile : Option String
  deriving DecidableEq

/-- A flag and its inline value, cut at the first `=`. -/
def splitFlag (arg : String) : String × Option String :=
  match Text.splitOnce arg '=' with
  | some (flag, value) => (flag, some value)
  | none => (arg, none)

/-- The setting a flag makes; `none` for an unrecognized flag. -/
def Flags.set (flags : Flags) (flag : String) (value : Option String) : Option Flags :=
  if flag = "--req-username-file" then some { flags with usernameFile := value }
  else if flag = "--req-password-file" then some { flags with passwordFile := value }
  else none

/-- The two supported flags; a flag without an inline value takes the next argument, if there is
one. The error is the flag that is not recognized. -/
def parseFlags (flags : Flags) : List String → Except String Flags
  | [] => .ok flags
  | arg :: args =>
    match (splitFlag arg).2 with
    | some value =>
      match flags.set (splitFlag arg).1 (some value) with
      | some flags => parseFlags flags args
      | none => .error (splitFlag arg).1
    | none =>
      match args with
      | [] =>
        match flags.set (splitFlag arg).1 none with
        | some flags => .ok flags
        | none => .error (splitFlag arg).1
      | value :: args =>
        match flags.set (splitFlag arg).1 (some value) with
        | some flags => parseFlags flags args
        | none => .error (splitFlag arg).1

/-! ## Environment variables -/

/-- What `run` reads from outside. -/
structure Start where
  /-- The arguments after the program's name. -/
  args : List String
  env : String → Option String
  /-- The exit code with which `logger::init` gives up. -/
  loggerInit : Except Nat Unit
  /-- `bind_listener`: an error text, if it fails. -/
  healthListener : Except String Unit
  initClient : Except String Unit
  /-- `server_version`: the major, the minor and the git version. -/
  serverVersion : Except Unit (String × String × String)
  /-- The ServiceAccount's namespace file. -/
  saNamespace : Except String String
  /-- The text of a JSON document, read and printed again; `none` if it is not one. -/
  fromJson : String → Option String
  /-- A string as a JSON document. -/
  toJson : String → String

/-- No other character than these four letters has one of them as its lower case. -/
def isTrue (v : String) : Bool := v.toLower == "true"

def Start.envIsTrue (start : Start) (name : String) : Bool := (start.env name).any isTrue

/-- The digits of a decimal number. -/
def decimal (digits : List Char) : Nat := digits.foldl (fun n c => n * 10 + (c.toNat - '0'.toNat)) 0

/-- `str::parse::<u64>`. -/
def parseU64 (s : String) : Option UInt64 :=
  let digits := match s.toList with
    | '+' :: rest => rest
    | cs => cs
  if digits ≠ [] ∧ digits.all Char.isDigit ∧ decimal digits < 2 ^ 64
    then some (UInt64.ofNat (decimal digits))
  else none

/-! ## The version gate -/

/-- The digits of a version field. -/
def versionDigits (field : String) : String := String.ofList (field.toList.filter Char.isDigit)

/-- Whether a server of this version is 1.19 or later. -/
def versionGate (major minor : String) : Bool :=
  let vMajor := versionDigits major
  let vMinor := versionDigits minor
  let maj := (parseU64 vMajor).getD 0
  let min := (parseU64 vMinor).getD 0
  vMajor ≠ "" && vMinor ≠ "" && (maj > 1 || (maj == 1 && min ≥ 19))

/-- `IGNORE_ALREADY_PROCESSED`, where the server is recent enough. -/
def readIgnoreAlreadyProcessed (start : Start) : M Bool := do
  let ignoreAlreadyProcessed ← (if start.envIsTrue "IGNORE_ALREADY_PROCESSED" then
      match start.serverVersion with
      | .ok (major, minor, gitVersion) =>
        if versionGate major minor then do
          log .info "Ignore already processed resource version will be enabled."
          pure true
        else do
          log .info
            s!"Can't enable 'ignore already processed resource version', kubernetes api version ({gitVersion}) is lower than v1.19 or unrecognized format."
          pure false
      | .error () => do
        log .error "Exception when calling VersionApi"
        pure false
    else pure false)
  (if ignoreAlreadyProcessed then pure ()
    else log .debug "Ignore already processed resource version will not be enabled.")
  pure ignoreAlreadyProcessed

/-! ## Settings -/

/-- What `run` knows when it begins to sync. -/
structure Settings where
  flags : Flags
  ctx : Ctx
  kinds : List Kind
  namespaces : List String
  requestUrl : Option String
  requestSkipInit : Bool
  ignoreAlreadyProcessed : Bool

namespace Settings

/-- A list pass, and later a watcher, for each kind and namespace. -/
def watched (settings : Settings) : List (Kind × String) :=
  settings.kinds.flatMap fun kind => settings.namespaces.map fun ns => (kind, ns)

/-- Sync once and return. -/
def listOnly (settings : Settings) : Bool := settings.ctx.mode == some "LIST"

/-- The URL notified by the initial passes. -/
def initRequestUrl (settings : Settings) : Option String :=
  if settings.listOnly then settings.requestUrl
  else if settings.requestSkipInit then none
  else settings.requestUrl

/-- Whether the initial passes consult the versions on record. -/
def initIgnore (settings : Settings) : Bool :=
  if settings.listOnly then settings.ignoreAlreadyProcessed else true

end Settings

/-- `RESOURCE`. -/
def selectKinds (resource : String) : List Kind × String :=
  if resource = "both" then ([.secret, .configMap], "('secret', 'configmap')")
  else ([if resource = "secret" then .secret else .configMap], s!"('{resource}',)")

/-- `REQ_PAYLOAD`. -/
def readPayload (start : Start) : M (Option String) :=
  match (start.env "REQ_PAYLOAD").filter (· ≠ "") with
  | none => pure none
  | some p =>
    match start.fromJson p with
    | some text => pure (some text)
    | none => do
      log .warning "Payload will be posted as quoted json"
      pure (some (start.toJson p))

def readFolderAnnotation (start : Start) : M String :=
  match start.env "FOLDER_ANNOTATION" with
  | some v => pure v
  | none => do
    log .info "No folder annotation was provided, defaulting to k8s-sidecar-target-directory"
    pure "k8s-sidecar-target-directory"

/-- `start_health_server`: a server that cannot listen is an error line and no more. -/
def startHealthServer (start : Start) : M Unit := do
  updateK8sContact
  match start.healthListener with
  | .ok () => pure ()
  | .error e => log .error s!"Failed to start health server: {e}"

/-- `run` from the client on, with what was read before. -/
def connect (start : Start) (flags : Flags) (label folderAnnotation targetFolder : String)
    (kinds : List Kind) (reqPayload : Option String) : M (Except Nat Settings) :=
  match start.initClient with
  | .error e => do
    log .error e
    pure (.error 1)
  | .ok () => do
    let uniqueFilenames := start.envIsTrue "UNIQUE_FILENAMES"
    log .info (if uniqueFilenames then "Unique filenames will be enforced."
      else "Unique filenames will not be enforced.")
    let enable5xx := start.envIsTrue "ENABLE_5XX"
    log .info (if enable5xx then "5xx response content will be enabled."
      else "5xx response content will not be enabled.")
    let ignoreAlreadyProcessed ← readIgnoreAlreadyProcessed start
    -- read also when `NAMESPACE` is set
    match start.saNamespace with
    | .error e =>
      log .error
        s!"FileNotFoundError: {e}: '/var/run/secrets/kubernetes.io/serviceaccount/namespace'"
      pure (.error 1)
    | .ok saNamespace =>
      pure (.ok {
        flags
        ctx := {
          label
          labelValue := (start.env "LABEL_VALUE").filter (· ≠ "")
          targetFolder
          folderAnnotation
          reqMethod := start.env "REQ_METHOD"
          reqPayload
          script := start.env "SCRIPT"
          uniqueFilenames
          enable5xx
          resourceName := (start.env "RESOURCE_NAME").getD ""
          mode := start.env "METHOD"
          watchServerTimeout := ((start.env "WATCH_SERVER_TIMEOUT").bind parseU64).getD 60
          watchClientTimeout := ((start.env "WATCH_CLIENT_TIMEOUT").bind parseU64).getD 66 }
        kinds
        namespaces := Text.split ((start.env "NAMESPACE").getD saNamespace) ','
        requestUrl := start.env "REQ_URL"
        requestSkipInit := isTrue ((start.env "REQ_SKIP_INIT").getD "false")
        ignoreAlreadyProcessed })

/-- `run` up to the initial sync; the error is the exit code. -/
def readSettings (start : Start) : M (Except Nat Settings) :=
  match parseFlags ⟨none, none⟩ start.args, start.loggerInit with
  | .error _, _ => pure (.error 2)
  | .ok _, .error code => pure (.error code)
  | .ok flags, .ok () => do
    log .info "Starting collector"
    startHealthServer start
    let folderAnnotation ← readFolderAnnotation start
    match start.env "LABEL" with
    | none =>
      log .critical "Should have added LABEL as environment variable! Exit"
      pure (.error 0)
    | some label =>
      (match (start.env "LABEL_VALUE").filter (· ≠ "") with
      | some v => log .debug s!"Filter labels with value: {v}"
      | none => pure ())
      match start.env "FOLDER" with
      | none =>
        log .critical "Should have added FOLDER as environment variable! Exit"
        pure (.error 0)
      | some targetFolder =>
        let (kinds, resourcesRepr) := selectKinds ((start.env "RESOURCE").getD "configmap")
        log .debug s!"Selected resource type: {resourcesRepr}"
        let resourceName := (start.env "RESOURCE_NAME").getD ""
        log .debug s!"Selected resource name: {resourceName}"
        let reqPayload ← readPayload start
        connect start flags label folderAnnotation targetFolder kinds reqPayload

/-! ## What start-up does -/

section Moves

open StateM

variable {R : Sys → Sys → Prop} (hp : Preorder R) (hlog : ∀ level msg, Moves R (log level msg))
include hp hlog

theorem readIgnoreAlreadyProcessed_moves (start : Start) :
    Moves R (readIgnoreAlreadyProcessed start) := by
  refine .bind hp (.ite ?_ (.pure hp _)) fun _ => .bind hp (.ite (.pure hp _) (hlog _ _))
    fun _ => .pure hp _
  split
  · exact .ite (.bind hp (hlog _ _) fun _ => .pure hp _) (.bind hp (hlog _ _) fun _ => .pure hp _)
  · exact .bind hp (hlog _ _) fun _ => .pure hp _

theorem connect_moves (start : Start) (flags : Flags) (label folderAnnotation targetFolder : String)
    (kinds : List Kind) (reqPayload : Option String) :
    Moves R (connect start flags label folderAnnotation targetFolder kinds reqPayload) := by
  unfold connect
  split
  · exact .bind hp (hlog _ _) fun _ => .pure hp _
  · refine .bind hp (hlog _ _) fun _ => .bind hp (hlog _ _) fun _ =>
      .bind hp (readIgnoreAlreadyProcessed_moves hp hlog start) fun _ => ?_
    split
    · exact .bind hp (hlog _ _) fun _ => .pure hp _
    · exact .pure hp _

theorem readFolderAnnotation_moves (start : Start) : Moves R <| readFolderAnnotation start := by
  unfold readFolderAnnotation
  split
  · exact .pure hp _
  · exact .bind hp (hlog _ _) fun _ => .pure hp _

theorem readPayload_moves (start : Start) : Moves R (readPayload start) := by
  unfold readPayload
  split
  · exact .pure hp _
  · split
    · exact .pure hp _
    · exact .bind hp (hlog _ _) fun _ => .pure hp _

/-- Reading the settings moves along what log lines and the first note of a contact move along. -/
theorem readSettings_moves (hcontact : Moves R updateK8sContact) (start : Start) :
    Moves R (readSettings start) := by
  have hserver : Moves R (startHealthServer start) := by
    refine .bind hp hcontact fun _ => ?_
    split
    · exact .pure hp _
    · exact hlog _ _
  unfold readSettings
  split
  · exact .pure hp _
  · exact .pure hp _
  · refine .bind hp (hlog _ _) fun _ => .bind hp hserver fun _ =>
      .bind hp (readFolderAnnotation_moves hp hlog start) fun folderAnnotation => ?_
    split
    · exact .bind hp (hlog _ _) fun _ => .pure hp _
    · refine .bind hp ?_ fun _ => ?_
      · split
        · exact hlog _ _
        · exact .pure hp _
      · split
        · exact .bind hp (hlog _ _) fun _ => .pure hp _
        · exact .bind hp (hlog _ _) fun _ => .bind hp (hlog _ _) fun _ =>
            .bind hp (readPayload_moves hp hlog start) fun _ =>
              connect_moves hp hlog start _ _ _ _ _ _

end Moves

end Sidecar
