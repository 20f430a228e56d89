import Sidecar.Lib.Text
import Sidecar.Files
import Sidecar.Script
import Sidecar.Health
import Sidecar.Kubeapi

/-!
# The sync state machine

`resources.rs`: the shared maps, the processing of one resource, the list pass with its stale
cleanup, and the watch loop.
-/

namespace Sidecar

open Posix

structure Ctx where
  label : String
  labelValue : Option String
  targetFolder : String
  folderAnnotation : String
  reqMethod : Option String
  /-- The text of the JSON payload. -/
  reqPayload : Option String
  script : Option String
  uniqueFilenames : Bool
  enable5xx : Bool
  resourceName : String
  mode : Option String
  watchServerTimeout : UInt64
  watchClientTimeout : UInt64

def Ctx.selector (ctx : Ctx) : String :=
  match ctx.labelValue with
  | some v => s!"{ctx.label}={v}"
  | none => ctx.label

inductive WErr
  | kube (e : KubeError)
  | other (msg : String)
  deriving DecidableEq

/-! ## The cache -/

/-- A synced resource reduced to what later removal needs: key names, plus the value only for
`*.url` keys. -/
structure CachedItem where
  ns : String
  name : String
  text : Option (BTreeMap (Option String))
  binary : Option (BTreeMap (Option ByteArray))

def keepUrlValue {V : Type} (key : String) (value : V) : Option V :=
  if Text.endsWith key ".url" then some value else none

namespace CachedItem

def fromItem (item : Item) : CachedItem where
  ns := item.ns
  name := item.name
  text := item.text.map fun m => m.map keepUrlValue
  binary := item.binary.map fun m => m.map keepUrlValue

/-- Rebuild an `Item` for the removal path. Elided values come back empty, `*.url` values
verbatim. -/
def toRemovalItem (c : CachedItem) : Item where
  ns := c.ns
  name := c.name
  resourceVersion := ""
  annotations := ∅
  text := c.text.map fun m => m.map fun _ v => v.getD ""
  binary := c.binary.map fun m => m.map fun _ v => v.getD ByteArray.empty

end CachedItem

/-- Shared across all watcher tasks. -/
structure Maps where
  version : HashMap String
  object : HashMap CachedItem
  dest : HashMap String

def Maps.empty : Maps := ⟨∅, ∅, ∅⟩

structure World where
  sys : Sys
  maps : Maps

/-- A program that leaves the maps alone, on the whole state. -/
def liftSys {α : Type} (x : M α) : StateM World α := fun w =>
  ((x w.sys).1, { w with sys := (x w.sys).2 })

/-- A critical section of the maps' mutex. -/
def withMaps {α : Type} (f : Maps → α × Maps) : StateM World α := fun w =>
  ((f w.maps).1, { w with maps := (f w.maps).2 })

/-! ## One file -/

inductive Content
  | text (s : String)
  | bin (b : ByteArray)

namespace Content

def bytes : Content → ByteArray
  | .text s => s.toUTF8
  | .bin b => b

/-- The URL in the value of a `*.url` key. -/
def url? : Content → Option String
  | .text s => some s
  | .bin b => String.fromUTF8? b

end Content

def getDestinationFolder (item : Item) (ctx : Ctx) : M String := do
  match item.annotations[ctx.folderAnnotation]? with
  | some annotationValue =>
    let dest :=
      if isAbsolute annotationValue then annotationValue
      else if Text.endsWith ctx.targetFolder "/" then ctx.targetFolder ++ annotationValue
      else s!"{ctx.targetFolder}/{annotationValue}"
    log .info
      s!"Found a folder override annotation, placing the {item.name} in: {dest}"
    pure dest
  | none => pure ctx.targetFolder

/-- The file name of a data key and the bytes for it. The fetch of a `*.url` key happens even on
the removal path. -/
def getFileDataAndName (env : Env) (ctx : Ctx) (dataKey : String) (content : Content) :
    M (Except String (String × ByteArray)) :=
  match Text.stripSuffix dataKey ".url" with
  | some stripped =>
    match content.url? with
    | none => pure (.error "invalid utf-8 sequence")
    | some url => do
      let resp ← request env (some url) (some "GET") ctx.enable5xx none
      pure (.ok (stripped, bodyIfOk resp))
  | none => pure (.ok (dataKey, content.bytes))

def updateErrorPrefix : String := "Error when updating from '"

/-- The line logged when `update_file` takes its error branch. -/
def updateErrorMsg (dataKey destFolder : String) : String :=
  updateErrorPrefix ++ (dataKey ++ ("' into '" ++ (destFolder ++ "'")))

/-- Write the data key's bytes to its file, or remove the file. -/
def putFile (env : Env) (ctx : Ctx) (dataKey : String) (destFolder : String) (item : Item)
    (kind : Kind) (contentType : String) (remove : Bool) (filename : String) (data : ByteArray) :
    M (Except String Bool) := do
  let filename :=
    if ctx.uniqueFilenames then uniqueFilename filename item.ns kind.asStr item.name else filename
  if remove then
    let changed ← removeFile env destFolder filename
    pure (.ok changed)
  else
    emit (.produced kind item.ns item.name contentType dataKey data)
    let out ← writeDataToFile env destFolder filename data contentType
    pure (out.mapError fun _ => "")

/-- Whatever goes wrong, the error is logged and counts as no change. -/
def updateFile (env : Env) (ctx : Ctx) (dataKey : String) (content : Content)
    (destFolder : String) (item : Item) (kind : Kind) (contentType : String) (remove : Bool) :
    M Bool := do
  let result ← StateM.andThen (getFileDataAndName env ctx dataKey content) fun out =>
    putFile env ctx dataKey destFolder item kind contentType remove out.1 out.2
  match result with
  | .ok changed => pure changed
  | .error _ =>
    log .error (updateErrorMsg dataKey destFolder)
    pure false

def iterateData (env : Env) (ctx : Ctx) (destFolder : String) (item : Item) (kind : Kind)
    (contentType : String) (remove : Bool) : List (String × Content) → M Bool
  | [] => pure false
  | (key, content) :: data => do
    let changed ← updateFile env ctx key content destFolder item kind contentType remove
    let rest ← iterateData env ctx destFolder item kind contentType remove data
    pure (changed || rest)

/-- The entries of a field in the order of its keys. -/
def mapEntries {V : Type} (wrap : V → Content) (m : BTreeMap V) : List (String × Content) :=
  m.toList.map fun kv => (kv.1, wrap kv.2)

def textEntries : BTreeMap String → List (String × Content) := mapEntries .text

def binEntries : BTreeMap ByteArray → List (String × Content) := mapEntries .bin

/-! ## One resource -/

/-- Keys of `old` minus those also present in `new`. -/
def minusCommon {V W : Type} (old : BTreeMap V) (new : Option (BTreeMap W)) : BTreeMap V :=
  old.filter fun k _ => !(new.any fun n => n.contains k)

/-- What the critical section of `process_resource` reads: the old item and its folder. -/
structure Old where
  item : Item
  dest : String

/-- The critical section of `process_resource`. -/
def Maps.enter (m : Maps) (kind : Kind) (item : Item) (destFolder : Option String)
    (isRemoved : Bool) : Old × Maps :=
  let key : MapKey := (kind, item.key)
  let oldItem := match m.object[key]? with
    | some cached => cached.toRemovalItem
    | none => (CachedItem.fromItem item).toRemovalItem
  let oldDest := (m.dest[key]?.or destFolder).getD ""
  let m' := if isRemoved then { m with object := m.object.erase key }
    else { m with
      object := m.object.insert key (CachedItem.fromItem item)
      dest := m.dest.insert key (destFolder.getD "") }
  (⟨oldItem, oldDest⟩, m')

/-- The entries of one field of the item: written, or removed when the item is. -/
def applyField {V : Type} (env : Env) (ctx : Ctx) (kind : Kind) (item : Item) (dest : String)
    (isRemoved : Bool) (entries : BTreeMap V → List (String × Content)) (contentType : String)
    (found : Option String) (new : Option (BTreeMap V)) : M Bool :=
  match new with
  | some fields => do
    (match found with
    | some msg => log .debug msg
    | none => pure ())
    iterateData env ctx dest item kind contentType isRemoved (entries fields)
  | none => pure false

/-- Remove what only the old item has in one field, or all of it when the folder changed. -/
def dropLeftovers {V : Type} (env : Env) (ctx : Ctx) (kind : Kind) (old : Old) (dest : String)
    (isRemoved : Bool) (entries : BTreeMap V → List (String × Content)) (contentType : String)
    (new oldField : Option (BTreeMap V)) : M Bool :=
  match oldField with
  | some oldFields =>
    if isRemoved then pure false
    else
      iterateData env ctx old.dest old.item kind contentType true
        (entries (if old.dest = dest then minusCommon oldFields new else oldFields))
  | none => pure false

/-- One field of a resource. -/
def syncField {V : Type} (env : Env) (ctx : Ctx) (kind : Kind) (item : Item) (old : Old)
    (dest : String) (isRemoved : Bool) (entries : BTreeMap V → List (String × Content))
    (contentType : String) (found : Option String) (new oldField : Option (BTreeMap V)) :
    M Bool := do
  let written ← applyField env ctx kind item dest isRemoved entries contentType found new
  let dropped ← dropLeftovers env ctx kind old dest isRemoved entries contentType new oldField
  pure (written || dropped)

/-- `process_resource` after its critical section. -/
def syncItem (env : Env) (ctx : Ctx) (kind : Kind) (item : Item) (old : Old) (dest : String)
    (isRemoved : Bool) : M Bool :=
  match kind with
  | .configMap => do
    (if item.text.isNone && item.binary.isNone then
      log .warning s!"No data/binaryData field in {kind.asStr}"
    else pure ())
    let text ← syncField env ctx kind item old dest isRemoved textEntries contentTypeText
      (some s!"Found 'data' on {kind.asStr}") item.text old.item.text
    let binary ← syncField env ctx kind item old dest isRemoved binEntries contentTypeBase64Binary
      (some s!"Found 'binary_data' on {kind.asStr}") item.binary old.item.binary
    pure (text || binary)
  | .secret => do
    (if item.binary.isNone then log .warning s!"No data field in {kind.asStr}" else pure ())
    syncField env ctx kind item old dest isRemoved binEntries contentTypeBase64Binary
      none item.binary old.item.binary

def processResource (env : Env) (ctx : Ctx) (kind : Kind) (item : Item)
    (destFolder : Option String) (isRemoved : Bool) : StateM World Bool := do
  let old ← withMaps fun m => m.enter kind item destFolder isRemoved
  let dest := if isRemoved then old.dest else destFolder.getD ""
  liftSys (syncItem env ctx kind item old dest isRemoved)

/-! ## Notifications -/

/-- The end of a list pass and of an event: run `SCRIPT`, then call `REQ_URL`. A script that cannot
be spawned is an error and there is no request. -/
def notify (env : Env) (ctx : Ctx) (requestUrl : Option String) (filesChanged : Bool) :
    M (Except WErr Unit) := do
  if filesChanged then
    let ran ← (match ctx.script with
      | some s => execute env s
      | none => pure (.ok ()))
    match ran with
    | .error e => pure (.error (.other e))
    | .ok () =>
      match requestUrl with
      | some url => do
        let _ ← request env (some url) ctx.reqMethod ctx.enable5xx ctx.reqPayload
        pure (.ok ())
      | none => pure (.ok ())
  else pure (.ok ())

/-! ## The list pass -/

/-- The `RESOURCE_NAME` entries that apply to a kind and namespace: a 3-part entry checks only the
namespace, a 2-part entry only the resource type. -/
def resourceNames (ctx : Ctx) (kind : Kind) (ns : String) : List String :=
  if ns ≠ "ALL" ∧ ctx.resourceName ≠ "" then
    (ctx.resourceName.toList.splitOn ',').filterMap fun rn =>
      let rev := ((rn.splitOn '/').map String.ofList).reverse
      if rev.length = 3 ∧ rev[2]? ≠ some ns then none
      else if rev.length = 2 ∧ rev[1]? ≠ some kind.asStr then none
      else rev.head?
  else []

/-- The reads by name, in order; a 404 is tolerated. -/
def readAll (env : Env) (kind : Kind) (ns : String) :
    List String → Replies (Option kind.Object) → M (Option (Except WErr (List Item)))
  | [], _ => pure (some (.ok []))
  | rn :: names, replies => do
    match ← readNamed env kind ns rn replies with
    | none => pure none
    | some (.error e, _) => pure (some (.error (.kube e)))
    | some (.ok got, rest) =>
      match ← readAll env kind ns names rest with
      | some (.ok items) => pure (some (.ok (got.toList ++ items)))
      | other => pure other

/-- The page loop. A page uses up a reply, so `fuel` beyond their number is never reached. -/
def listAll (env : Env) (kind : Kind) (ns sel : String) :
    (fuel : Nat) → (cont : Option String) → Replies (Page kind) →
      M (Option (Except WErr (List Item)))
  | 0, _, _ => pure none
  | fuel + 1, cont, replies => do
    match ← listPage env kind ns sel 5 cont replies with
    | none => pure none
    | some (.error e, _) => pure (some (.error (.kube e)))
    | some (.ok (page, next), rest) =>
      match next with
      | some c =>
        match ← listAll env kind ns sel fuel (some c) rest with
        | some (.ok items) => pure (some (.ok (page ++ items)))
        | other => pure other
      | none => pure (some (.ok page))

/-- The server's replies during one list pass. -/
structure ListReplies (kind : Kind) where
  pages : Replies (Page kind)
  reads : Replies (Option kind.Object)

/-- The reading half of `list_resources`. -/
def readListing (env : Env) (ctx : Ctx) (kind : Kind) (ns : String) (replies : ListReplies kind) :
    M (Option (Except WErr (List Item))) :=
  let names := resourceNames ctx kind ns
  if ns ≠ "ALL" ∧ names ≠ [] then readAll env kind ns names replies.reads
  else listAll env kind ns ctx.selector (replies.pages.length + 1) none replies.pages

/-- The version check of a list pass: `true` to skip the item, else its version is recorded. -/
def Maps.listSeen (m : Maps) (kind : Kind) (item : Item) : Bool × Maps :=
  let k : MapKey := (kind, item.key)
  if m.version[k]? = some item.resourceVersion then (true, m)
  else (false, { m with version := m.version.insert k item.resourceVersion })

/-- One listed item. -/
def listItem (env : Env) (ctx : Ctx) (kind : Kind) (ignoreAlreadyProcessed : Bool) (item : Item) :
    StateM World Bool := do
  let skip ← (if ignoreAlreadyProcessed then withMaps fun m => m.listSeen kind item
    else pure false)
  if skip then
    liftSys (log .debug s!"Ignoring {kind.asStr} {item.ns}/{item.name}")
    pure false
  else
    liftSys (log .debug s!"Working on {kind.asStr}: {item.ns}/{item.name}")
    let dest ← liftSys (getDestinationFolder item ctx)
    processResource env ctx kind item (some dest) false

def listItems (env : Env) (ctx : Ctx) (kind : Kind) (ignoreAlreadyProcessed : Bool) :
    List Item → StateM World Bool
  | [] => pure false
  | item :: items => do
    let changed ← listItem env ctx kind ignoreAlreadyProcessed item
    let rest ← listItems env ctx kind ignoreAlreadyProcessed items
    pure (changed || rest)

/-- A tracked resource of the kind and namespace that is not in the listing. -/
def isStale (kind : Kind) (ns : String) (existKeys : List String) (k : MapKey)
    (cached : CachedItem) : Bool :=
  k.1 == kind && (ns == "ALL" || cached.ns == ns) && !existKeys.contains k.2

/-- The stale resources, in the order the hash map is iterated; scoped to the namespace, since the
maps are shared across per-namespace tasks. -/
def staleItems (env : Env) (kind : Kind) (ns : String) (existKeys : List String) :
    StateM World (List Item) := fun w =>
  let keys := env.hashOrder.order w.sys.scanTick w.maps.object.keys
  (keys.filterMap fun k =>
      (w.maps.object[k]?.filter (isStale kind ns existKeys k)).map CachedItem.toRemovalItem,
    { w with sys := { w.sys with scanTick := w.sys.scanTick + 1 } })

/-- The removals of the stale cleanup. -/
def removeStale (env : Env) (ctx : Ctx) (kind : Kind) : List Item → StateM World Bool
  | [] => pure false
  | item :: items => do
    liftSys (log .debug s!"Removing {kind.asStr}: {item.ns}/{item.name}")
    let changed ← processResource env ctx kind item none true
    let rest ← removeStale env ctx kind items
    pure (changed || rest)

/-- The additions and the stale cleanup of a list pass; the result is its `files_changed`. -/
def applyListing (env : Env) (ctx : Ctx) (kind : Kind) (ns : String)
    (ignoreAlreadyProcessed : Bool) (items : List Item) : StateM World Bool := do
  let changed ← listItems env ctx kind ignoreAlreadyProcessed items
  let stale ← staleItems env kind ns (items.map Item.key)
  let removed ← removeStale env ctx kind stale
  pure (changed || removed)

/-- `list_resources` once the listing has been read. -/
def syncListing (env : Env) (ctx : Ctx) (kind : Kind) (ns : String) (requestUrl : Option String)
    (ignoreAlreadyProcessed : Bool) (items : List Item) : StateM World (Except WErr Unit) := do
  let filesChanged ← applyListing env ctx kind ns ignoreAlreadyProcessed items
  liftSys (notify env ctx requestUrl filesChanged)

/-- One full list-based sync pass; `none` while the server has not answered. -/
def listResources (env : Env) (ctx : Ctx) (kind : Kind) (ns : String) (requestUrl : Option String)
    (ignoreAlreadyProcessed : Bool) (replies : ListReplies kind) :
    StateM World (Option (Except WErr Unit)) := do
  let argsRepr := if ns ≠ "ALL" then s!"\x7b'namespace': '{ns}'\x7d" else "\x7b\x7d"
  liftSys (log .info s!"Performing list-based sync on {kind.asStr} resources: {argsRepr}")
  match ← liftSys (readListing env ctx kind ns replies) with
  | none => pure none
  | some (.error e) => pure (some (.error e))
  | some (.ok items) =>
    let result ← syncListing env ctx kind ns requestUrl ignoreAlreadyProcessed items
    pure (some result)

/-! ## The watch loop -/

inductive EventType
  | added
  | modified
  | deleted
  deriving DecidableEq

def EventType.asStr : EventType → String
  | .added => "ADDED"
  | .modified => "MODIFIED"
  | .deleted => "DELETED"

/-- The version check of a watch event: `true` to skip it. -/
def Maps.watchSeen (m : Maps) (kind : Kind) (ev : EventType) (item : Item) : Bool × Maps :=
  let k : MapKey := (kind, item.key)
  if m.version[k]? = some item.resourceVersion then
    match ev with
    | .added | .modified => (true, m)
    | .deleted => (false, { m with version := m.version.erase k })
  else
    match ev with
    | .added | .modified => (false, { m with version := m.version.insert k item.resourceVersion })
    | .deleted => (false, m)

/-- The version check and the processing of one event; the result is its `files_changed`. -/
def applyEvent (env : Env) (ctx : Ctx) (kind : Kind) (ignoreAlreadyProcessed : Bool)
    (ev : EventType) (item : Item) : StateM World Bool := do
  let skip ← (if ignoreAlreadyProcessed then withMaps fun m => m.watchSeen kind ev item
    else pure false)
  if skip then
    liftSys (log .debug s!"Ignoring {ev.asStr} {kind.asStr} {item.ns}/{item.name}")
    pure false
  else
    liftSys (log .debug s!"Working on {ev.asStr} {kind.asStr} {item.ns}/{item.name}")
    let dest ← liftSys (getDestinationFolder item ctx)
    let itemRemoved := ev == .deleted
    processResource env ctx kind item (some dest) itemRemoved

/-- The body of the watch loop for one event, after the health bookkeeping. A skipped event has
changed nothing, so it notifies nobody. -/
def handleEvent (env : Env) (ctx : Ctx) (kind : Kind) (requestUrl : Option String)
    (ignoreAlreadyProcessed : Bool) (ev : EventType) (item : Item) :
    StateM World (Except WErr Unit) := do
  let filesChanged ← applyEvent env ctx kind ignoreAlreadyProcessed ev item
  liftSys (notify env ctx requestUrl filesChanged)

/-- What one watch connection delivers: an event with its object, or an error. -/
abbrev WatchStream (kind : Kind) := List (Except KubeError (EventType × kind.Object))

/-- The events of one connection up to its end or the first error. -/
def watchEvents (env : Env) (ctx : Ctx) (kind : Kind) (requestUrl : Option String)
    (ignoreAlreadyProcessed : Bool) (firstEvent : Bool) :
    WatchStream kind → StateM World (Except WErr Unit)
  | [] => pure (.ok ())
  | .error e :: _ => pure (.error (.kube e))
  | .ok (ev, object) :: events => do
    (if firstEvent then liftSys markReady else pure ())
    liftSys updateK8sContact
    match ← handleEvent env ctx kind requestUrl ignoreAlreadyProcessed ev
      (Item.fromObject kind object) with
    | .error e => pure (.error e)
    | .ok () => watchEvents env ctx kind requestUrl ignoreAlreadyProcessed false events

/-- One watch connection's event loop; the connection itself may fail. -/
def watchResourceIterator (env : Env) (ctx : Ctx) (kind : Kind) (ns : String)
    (requestUrl : Option String) (ignoreAlreadyProcessed : Bool)
    (stream : Except KubeError (WatchStream kind)) : StateM World (Except WErr Unit) := do
  let nsRepr := if ns ≠ "ALL" then s!", 'namespace': '{ns}'" else ""
  liftSys (log .debug
    s!"Performing watch-based sync on {kind.asStr} resources: \x7b'label_selector': '{ctx.selector}', 'timeout_seconds': {ctx.watchServerTimeout}, '_request_timeout': {ctx.watchClientTimeout}{nsRepr}\x7d")
  liftSys (emit (.apiWatch kind ns ctx.selector ctx.watchServerTimeout.toUInt32))
  match stream with
  | .error e => pure (.error (.kube e))
  | .ok events => watchEvents env ctx kind requestUrl ignoreAlreadyProcessed true events

/-! ## The watcher task -/

/-- Polling replaces watching with `METHOD=SLEEP`, and with named resources. -/
def sleepMode (ctx : Ctx) (ns : String) : Bool :=
  ctx.mode == some "SLEEP" || (ns != "ALL" && ctx.resourceName != "")

/-- The server's side of one round of a watcher: a listing or a connection. -/
structure RoundInput (kind : Kind) where
  replies : ListReplies kind
  stream : Except KubeError (WatchStream kind)

/-- One round of `watch_task`: poll or watch, then deal with an error. `false` ends the task (the
`alive` flag goes down), `none` waits for the server. -/
def watchRound (env : Env) (ctx : Ctx) (kind : Kind) (ns : String) (requestUrl : Option String)
    (ignoreAlreadyProcessed : Bool) (input : RoundInput kind) : StateM World (Option Bool) := do
  let result ← (if sleepMode ctx ns then do
      match ← listResources env ctx kind ns requestUrl ignoreAlreadyProcessed input.replies with
      | some (.ok ()) =>
        liftSys (emit (.sleep env.sleepTime.toNat))
        pure (some (.ok ()))
      | other => pure other
    else do
      let result ← watchResourceIterator env ctx kind ns requestUrl ignoreAlreadyProcessed
        input.stream
      pure (some result))
  match result with
  | none => pure none
  | some (.ok ()) => pure (some true)
  | some (.error e) =>
    match e with
    | .kube (.api code reason) =>
      if code = 500 then
        liftSys (log .error
          s!"ApiException when calling kubernetes: ({code}) Reason: {reason}")
        pure (some false)
      else
        liftSys (log .error
          s!"ApiException when calling kubernetes: ({code}) Reason: {reason}\n")
        liftSys (emit (.sleep env.errorThrottleSleep.toNat))
        pure (some true)
    | .kube (.other msg) =>
      liftSys (log .error s!"ProtocolError when calling kubernetes: {msg}\n")
      liftSys (emit (.sleep env.errorThrottleSleep.toNat))
      pure (some true)
    | .other msg =>
      liftSys (log .error s!"Received unknown exception: {msg}\n")
      liftSys (emit (.sleep env.errorThrottleSleep.toNat))
      pure (some true)

end Sidecar
