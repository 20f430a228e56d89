import Sidecar.Sys

/-!
# SCRIPT execution

`script.rs`: run the script directly when it is executable, else through `sh`. Only a failed spawn
is an error; a script that exits with a failure is logged.
-/

namespace Sidecar

open Posix

/-- One byte of Python's bytes repr. -/
def reprByte (b : UInt8) : String :=
  if b = 0x5c then "\\\\"
  else if b = 0x27 then "\\'"
  else if b = 0x0a then "\\n"
  else if b = 0x0d then "\\r"
  else if b = 0x09 then "\\t"
  else if 0x20 ≤ b ∧ b ≤ 0x7e then String.singleton (Char.ofNat b.toNat)
  else "\\x" ++ String.ofList [Nat.digitChar (b.toNat / 16), Nat.digitChar (b.toNat % 16)]

def bytesRepr (data : ByteArray) : String :=
  "b'" ++ String.join (data.data.toList.map reprByte) ++ "'"

/-- Whether the script file has an execute bit; directories have. -/
def isExecutable (env : Env) (path : String) : M Bool := fun s =>
  (match s.tree.stat env.proc path with
  | some (.file _ mode) => mode &&& 0o111 != 0
  | some .dir => true
  | none => false, s)

/-- Spawn a child process. -/
def spawnChild (env : Env) (scriptPath : String) (argv : List String) : M (Except String Output) :=
  fun s =>
    let result := env.spawn s.spawnTick argv
    (result, { s with
      spawnTick := s.spawnTick + 1, trace := s.trace ++ [.spawn scriptPath result.isOk] })

/-- The lines logged about a child that ran. -/
def logOutput (argvRepr : String) (output : Output) : M Unit :=
  if output.success then do
    log .debug s!"Script stdout: {bytesRepr output.stdout}"
    log .debug s!"Script stderr: {bytesRepr output.stderr}"
    log .debug "Script exit code: 0"
  else
    let code := (output.code.map toString).getD "-1"
    log .error
      s!"Script failed with error: Command '{argvRepr}' returned non-zero exit status {code}."

def execute (env : Env) (scriptPath : String) : M (Except String Unit) := do
  log .info s!"Executing script from {scriptPath}"
  let executable ← isExecutable env scriptPath
  let argv := if executable then [scriptPath] else ["sh", scriptPath]
  let argvRepr := if executable then s!"['{scriptPath}']" else s!"['sh', '{scriptPath}']"
  match ← spawnChild env scriptPath argv with
  | .error e => pure (.error s!"{e}: '{scriptPath}'")
  | .ok output =>
    logOutput argvRepr output
    pure (.ok ())

end Sidecar
