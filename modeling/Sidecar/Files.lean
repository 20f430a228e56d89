import Sidecar.Sys

/-!
# Writing and removing files

`files.rs`: a write is suppressed when the file already has the same SHA-256 digest, errors are
returned to the caller, and `DEFAULT_FILE_MODE` is applied after the write.
-/

namespace Sidecar

open Posix

/-- `CONTENT_TYPE_TEXT` and `CONTENT_TYPE_BASE64_BINARY` as they are logged. -/
def contentTypeText : String := "ascii"

def contentTypeBase64Binary : String := "binary"

/-- The octal digits of a number that must fit in 32 bits. -/
def octalDigits (acc : Nat) : List Char → Option UInt32
  | [] => some (UInt32.ofNat acc)
  | c :: cs =>
    if '0' ≤ c ∧ c ≤ '7' then
      let acc' := acc * 8 + (c.toNat - '0'.toNat)
      if acc' < 2 ^ 32 then octalDigits acc' cs else none
    else none

/-- `u32::from_str_radix(s, 8)`: digits with an optional leading plus sign. -/
def u32FromOctal (s : String) : Option UInt32 :=
  match s.toList with
  | [] => none
  | ['+'] => none
  | '+' :: cs => octalDigits 0 cs
  | cs => octalDigits 0 cs

/-- The folder is there, or could be created. -/
def ensureFolder (env : Env) (folder : String) : M (Except ErrorKind Unit) := do
  if ← pathExists env folder then pure (.ok ()) else createDirAll env folder

/-- The bytes of the target, if it exists. -/
def readCurrent (env : Env) (absolutePath : String) : M (Except ErrorKind (Option ByteArray)) := do
  if ← pathExists env absolutePath then
    let current ← readFile env absolutePath
    pure (current.map some)
  else pure (.ok none)

/-- Apply `DEFAULT_FILE_MODE`; text that is no octal number is an error. -/
def applyFileMode (env : Env) (absolutePath : String) : M (Except ErrorKind Unit) :=
  match env.defaultFileMode with
  | none => pure (.ok ())
  | some modeStr =>
    if modeStr = "" then pure (.ok ())
    else
      match u32FromOctal modeStr with
      | none => pure (.error .invalidData)
      | some mode => setPermissions env absolutePath mode

/-- Write the bytes and give the file its mode. -/
def writeOut (env : Env) (absolutePath : String) (data : ByteArray) : M (Except ErrorKind Bool) :=
  StateM.andThen (writeFile env absolutePath data) fun _ =>
    StateM.andThen (applyFileMode env absolutePath) fun _ => pure (.ok true)

/-- Write the bytes unless the target has them already. -/
def overwrite (env : Env) (absolutePath filename : String) (data : ByteArray) (dataType : String)
    (current : Option ByteArray) : M (Except ErrorKind Bool) := do
  if current.map env.sha256 = some (env.sha256 data) then
    log .debug s!"Contents of {filename} haven't changed. Not overwriting existing file"
    pure (.ok false)
  else
    log .info s!"Writing {absolutePath} ({dataType})"
    writeOut env absolutePath data

/-- What `write_data_to_file` does once the folder is there. -/
def rewrite (env : Env) (absolutePath filename : String) (data : ByteArray) (dataType : String) :
    M (Except ErrorKind Bool) :=
  StateM.andThen (readCurrent env absolutePath) (overwrite env absolutePath filename data dataType)

/-- `Ok(true)` if the file was (re)written. A folder that may not be created skips the file. -/
def writeDataToFile (env : Env) (folder filename : String) (data : ByteArray) (dataType : String) :
    M (Except ErrorKind Bool) := do
  match ← ensureFolder env folder with
  | .ok () => rewrite env (join folder filename) filename data dataType
  | .error e =>
    if e = .permissionDenied then
      log .error s!"Error: insufficient privileges to create {folder}. Skipping {filename}."
      pure (.ok false)
    else if e = .alreadyExists then rewrite env (join folder filename) filename data dataType
    else pure (.error e)

def removeFile (env : Env) (folder filename : String) : M Bool := do
  let completeFile := join folder filename
  if ← isFile env completeFile then
    log .info s!"Removing {completeFile}"
    pure (← unlinkFile env completeFile).isOk
  else
    log .error s!"Unable to remove {completeFile}, file not found"
    pure false

def uniqueFilename (filename ns resource resourceName : String) : String :=
  s!"namespace_{ns}.{resource}_{resourceName}.{filename}"

end Sidecar
