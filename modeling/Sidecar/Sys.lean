import Sidecar.Lib.FileTree
import Sidecar.Lib.F64
import Sidecar.Lib.StateM
import Sidecar.Item

/-!
# The process and its environment

`Sys` is what the program can change outside its own maps: the file tree, the health record and
the trace of what it did. `Env` is what it cannot: the outcome of every system call, network
attempt and spawn (indexed by how many came before, so an environment may answer the same question
differently each time), and the process-wide settings. Programs are state transformers over `Sys`
that read `Env`.
-/

namespace Sidecar

open Posix

/-! ## State -/

inductive Level
  | debug
  | info
  | warning
  | error
  | critical
  deriving DecidableEq

/-- A request handed to the HTTP client. -/
structure HttpRequest where
  url : String
  isGet : Bool
  payload : Option String
  deriving DecidableEq

/-- A file-system call on a path. -/
inductive FsCall
  | stat (path : String)
  | createDirAll (path : String)
  | read (path : String)
  | write (path : String)
  | chmod (path : String)
  | unlink (path : String)
  deriving DecidableEq

/-- What the program did, in order. -/
inductive Event
  | log (level : Level) (msg : String)
  /-- A file-system call failed, for a reason in the tree or outside it. -/
  | ioError (call : FsCall) (kind : ErrorKind) (outside : Bool)
  /-- The bytes computed for a data key and handed to `write_data_to_file`. -/
  | produced (kind : Kind) (ns name contentType dataKey : String) (data : ByteArray)
  /-- One attempt to send a request. -/
  | attempt (req : HttpRequest)
  /-- One list or read request to the API server. -/
  | apiList (kind : Kind) (ns selector : String) (limit : UInt32) (cont : Option String)
  | apiGet (kind : Kind) (ns name : String)
  | apiWatch (kind : Kind) (ns selector : String) (timeoutSecs : UInt32)
  | sleep (secs : ℚ)
  /-- `SCRIPT` was spawned; `ok` tells whether the spawn succeeded. -/
  | spawn (script : String) (ok : Bool)
  /-- A panic, which aborts the process. -/
  | abort
  deriving DecidableEq

structure Health where
  ready : Bool
  /-- Milliseconds since the start at the last Kubernetes contact. -/
  lastContactMs : Nat
  /-- The `alive` flags of the registered watchers. -/
  watchers : List Bool

structure Sys where
  tree : FileTree
  health : Health
  /-- Milliseconds since the start. -/
  clock : Nat
  ioTick : Nat
  netTick : Nat
  spawnTick : Nat
  scanTick : Nat
  trace : List Event

/-! ## Environment -/

/-- What a child process that could be spawned returned. -/
structure Output where
  success : Bool
  code : Option Int
  stdout : ByteArray
  stderr : ByteArray

/-- Settings `http::init` reads once at startup (and `with_transport_retry` per call). -/
structure HttpCfg where
  retryTotal : UInt32
  backoffFactor : F64
  timeout : F64

/-- The order in which a hash map is iterated the `n`-th time: some permutation of its keys. -/
structure HashOrder where
  order : Nat → List MapKey → List MapKey
  perm : ∀ n l, (order n l).Perm l

structure Env where
  proc : Proc
  /-- The outcome of the `n`-th file-system call, when it is not the tree's own. -/
  fault : Nat → Option Fault
  /-- `DEFAULT_FILE_MODE`. -/
  defaultFileMode : Option String
  sha256 : ByteArray → ByteArray
  httpCfg : HttpCfg
  /-- `reqwest::Client::build`: an error text, if it fails. -/
  clientError : Option String
  /-- The outcome of the `n`-th network attempt: a transport error or a status and a body. -/
  net : Nat → HttpRequest → Except String (UInt16 × ByteArray)
  canonicalReason : UInt16 → Option String
  utf8Lossy : ByteArray → String
  /-- The outcome of the `n`-th spawn. -/
  spawn : Nat → List String → Except String Output
  hashOrder : HashOrder
  /-- `ERROR_THROTTLE_SLEEP` and `SLEEP_TIME`, in seconds. -/
  errorThrottleSleep : UInt64
  sleepTime : UInt64

/-- Programs over the process state. -/
abbrev M := StateM Sys

/-! ## Effects -/

def emit (e : Event) : M Unit := fun s => ((), { s with trace := s.trace ++ [e] })

def log (level : Level) (msg : String) : M Unit := emit (.log level msg)

/-- A file-system call: its outcome is the tree's, unless the environment has a fault for it. A
failure goes into the trace. -/
def syscall {α : Type} (env : Env) (what : FsCall)
    (call : FileTree → Except ErrorKind α × FileTree)
    (faulty : Fault → FileTree → FileTree) : M (Except ErrorKind α) := fun s =>
  let out : Except ErrorKind α × FileTree := match env.fault s.ioTick with
    | some f => (.error f.kind, faulty f s.tree)
    | none => call s.tree
  let failure := match out.1 with
    | .ok _ => []
    | .error e => [.ioError what e (env.fault s.ioTick).isSome]
  (out.1, { s with tree := out.2, ioTick := s.ioTick + 1, trace := s.trace ++ failure })

/-- `stat`; `Path::exists` and `Path::is_file` take a failing one for an absent file. -/
def sysStat (env : Env) (path : String) : M (Option Node) := do
  let out ← syscall env (.stat path) (fun t => (.ok (t.stat env.proc path), t)) (fun _ t => t)
  pure (out.toOption.join)

def pathExists (env : Env) (path : String) : M Bool := do
  let node ← sysStat env path
  pure node.isSome

def isFile (env : Env) (path : String) : M Bool := do
  let node ← sysStat env path
  pure (match node with | some (.file ..) => true | _ => false)

def createDirAll (env : Env) (path : String) : M (Except ErrorKind Unit) :=
  syscall env (.createDirAll path) (fun t => t.createDirAll env.proc path)
    (fun f t => t.createDirAllFault env.proc path f)

def readFile (env : Env) (path : String) : M (Except ErrorKind ByteArray) :=
  syscall env (.read path) (fun t => (t.readFile env.proc path, t)) (fun _ t => t)

def writeFile (env : Env) (path : String) (data : ByteArray) : M (Except ErrorKind Unit) :=
  syscall env (.write path) (fun t => t.writeFile env.proc path data)
    (fun f t => t.writeFault env.proc path data f)

def setPermissions (env : Env) (path : String) (mode : UInt32) : M (Except ErrorKind Unit) :=
  syscall env (.chmod path) (fun t => t.setPermissions env.proc path mode) (fun _ t => t)

def unlinkFile (env : Env) (path : String) : M (Except ErrorKind Unit) :=
  syscall env (.unlink path) (fun t => t.removeFile env.proc path) (fun _ t => t)

/-- `Duration::from_secs_f64` and a sleep of that length; a value that is no duration panics. -/
def sleepFor (secs : F64) : M Unit :=
  match secs.toDuration with
  | some d => emit (.sleep d)
  | none => emit .abort

end Sidecar
