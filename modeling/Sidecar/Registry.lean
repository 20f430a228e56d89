import Sidecar.Slots

/-!
# The shared maps

The maps change in three critical sections only: the one of `process_resource` and the two version
checks. `Maps.Reachable` is what any interleaving of them can lead to, whatever the tasks of the
process do in between; `Maps.WF` is the invariant that comes out of it.
-/

namespace Sidecar

open Posix StateM

/-! ## Lookups -/

theorem MapKey.cmp_eq_iff (k k' : MapKey) : MapKey.cmp k k' = .eq ↔ k = k' :=
  Std.LawfulEqCmp.compare_eq_iff_eq

namespace HashMap

variable {V : Type} (m : HashMap V)

theorem getElem?_insert (k : MapKey) (v : V) (a : MapKey) :
    (m.insert k v)[a]? = if k = a then some v else m[a]? := by
  rw [Std.ExtTreeMap.getElem?_insert]
  simp only [MapKey.cmp_eq_iff]

theorem getElem?_erase (k a : MapKey) : (m.erase k)[a]? = if k = a then none else m[a]? := by
  rw [Std.ExtTreeMap.getElem?_erase]
  simp only [MapKey.cmp_eq_iff]

end HashMap

/-! ## The critical section of `process_resource` -/

namespace Maps

variable (m : Maps) (kind : Kind) (item : Item) (destFolder : Option String)

/-- What removal would be given for the entry of a key. -/
def oldItem (m : Maps) (kind : Kind) (item : Item) : Item :=
  ((m.object[((kind, item.key) : MapKey)]?).getD (.fromItem item)).toRemovalItem

theorem enter_old (isRemoved : Bool) :
    (m.enter kind item destFolder isRemoved).1 =
      ⟨m.oldItem kind item, (m.dest[((kind, item.key) : MapKey)]?.or destFolder).getD ""⟩ := by
  unfold enter oldItem
  dsimp only
  cases m.object[((kind, item.key) : MapKey)]? <;> rfl

theorem enter_version (isRemoved : Bool) :
    (m.enter kind item destFolder isRemoved).2.version = m.version := by
  unfold enter
  cases isRemoved <;> rfl

theorem enter_object (isRemoved : Bool) (k : MapKey) :
    (m.enter kind item destFolder isRemoved).2.object[k]? =
      if (kind, item.key) = k then (if isRemoved then none else some (.fromItem item))
      else m.object[k]? := by
  unfold enter
  cases isRemoved with
  | true =>
    simp only [if_true]
    exact HashMap.getElem?_erase _ _ _
  | false =>
    simp only [Bool.false_eq_true, if_false]
    exact HashMap.getElem?_insert _ _ _ _

theorem enter_dest (isRemoved : Bool) (k : MapKey) :
    (m.enter kind item destFolder isRemoved).2.dest[k]? =
      if isRemoved = false ∧ (kind, item.key) = k then some (destFolder.getD "")
      else m.dest[k]? := by
  unfold enter
  cases isRemoved with
  | true => simp
  | false =>
    simp only [Bool.false_eq_true, if_false, true_and]
    exact HashMap.getElem?_insert _ _ _ _

end Maps

/-! ## Reachable maps -/

/-- What the critical sections of the tasks can lead to, in any order. -/
inductive Maps.Reachable : Maps → Prop
  | empty : Reachable .empty
  | enter {m : Maps} (kind : Kind) (item : Item) (destFolder : Option String) (isRemoved : Bool) :
    Reachable m → Reachable (m.enter kind item destFolder isRemoved).2
  | listSeen {m : Maps} (kind : Kind) (item : Item) : Reachable m →
      Reachable (m.listSeen kind item).2
  | watchSeen {m : Maps} (kind : Kind) (ev : EventType) (item : Item) :
    Reachable m → Reachable (m.watchSeen kind ev item).2

/-- An entry of `object` is filed under its own key, and its folder is known. -/
structure Maps.WF (m : Maps) : Prop where
  key : ∀ (k : MapKey) (c : CachedItem), m.object[k]? = some c → k.2 = c.ns ++ c.name
  dest : ∀ k : MapKey, m.object[k]? ≠ none → m.dest[k]? ≠ none

namespace Maps

theorem WF.congr {m m' : Maps} (h : m.WF) (ho : m'.object = m.object) (hd : m'.dest = m.dest) :
    m'.WF := ⟨ho ▸ h.key, by rw [ho, hd]; exact h.dest⟩

theorem WF.enter {m : Maps} (h : m.WF) (kind : Kind) (item : Item) (destFolder : Option String)
    (isRemoved : Bool) : (m.enter kind item destFolder isRemoved).2.WF := by
  constructor
  · intro k c hc
    rw [enter_object] at hc
    split at hc
    · next hk =>
      cases isRemoved with
      | true => cases hc
      | false =>
        cases hc
        rw [← hk]
        rfl
    · exact h.key k c hc
  · intro k hk
    rw [enter_object] at hk
    rw [enter_dest]
    split at hk
    · next hkey =>
      cases isRemoved with
      | true => exact absurd rfl hk
      | false => simp [hkey]
    · split
      · simp
      · exact h.dest k hk

theorem listSeen_object (m : Maps) (kind : Kind) (item : Item) :
    (m.listSeen kind item).2.object = m.object := by
  unfold listSeen
  dsimp only
  split <;> rfl

theorem listSeen_dest (m : Maps) (kind : Kind) (item : Item) :
    (m.listSeen kind item).2.dest = m.dest := by
  unfold listSeen
  dsimp only
  split <;> rfl

theorem watchSeen_object (m : Maps) (kind : Kind) (ev : EventType) (item : Item) :
    (m.watchSeen kind ev item).2.object = m.object := by
  unfold watchSeen
  dsimp only
  split <;> cases ev <;> rfl

theorem watchSeen_dest (m : Maps) (kind : Kind) (ev : EventType) (item : Item) :
    (m.watchSeen kind ev item).2.dest = m.dest := by
  unfold watchSeen
  dsimp only
  split <;> cases ev <;> rfl

theorem Reachable.wf {m : Maps} (h : m.Reachable) : m.WF := by
  induction h with
  | empty =>
    exact ⟨fun k c hc => by simp [Maps.empty] at hc, fun k hk => by simp [Maps.empty] at hk⟩
  | enter kind item destFolder isRemoved _ ih => exact ih.enter kind item destFolder isRemoved
  | listSeen kind item _ ih => exact ih.congr (listSeen_object ..) (listSeen_dest ..)
  | watchSeen kind ev item _ ih => exact ih.congr (watchSeen_object ..) (watchSeen_dest ..)

end Maps

/-! ## A small environment

For runs on concrete inputs: a root process in an empty tree, a server that answers every request
with `body`, scripts that can be spawned, and the SHA-256 digests of the few contents used. -/

def sampleDigest (data : ByteArray) : ByteArray :=
  if data = "v".toUTF8 then
    ⟨#[0x4c, 0x94, 0x48, 0x5e, 0x0c, 0x21, 0xae, 0x6c, 0x41, 0xce, 0x1d, 0xfe, 0x7b, 0x6b, 0xfa,
    0xce, 0xea, 0x5a, 0xb6, 0x8e, 0x40, 0xa2, 0x47, 0x6f, 0x50, 0x20, 0x8e, 0x52, 0x6f, 0x50, 0x60,
    0x80]⟩
  else if data = "w".toUTF8 then
    ⟨#[0x50, 0xe7, 0x21, 0xe4, 0x9c, 0x01, 0x3f, 0x00, 0xc6, 0x2c, 0xf5, 0x9f, 0x21, 0x63, 0x54,
    0x2a, 0x9d, 0x8d, 0xf0, 0x24, 0x64, 0xef, 0xeb, 0x61, 0x5d, 0x31, 0x05, 0x1b, 0x0f, 0xdd, 0xc3,
    0x26]⟩
  else if data = "body".toUTF8 then
    ⟨#[0x23, 0x0d, 0x83, 0x58, 0xdc, 0x8e, 0x88, 0x90, 0xb4, 0xc5, 0x8d, 0xee, 0xb6, 0x29, 0x12,
    0xee, 0x2f, 0x20, 0x35, 0x7a, 0xe9, 0x2a, 0x5c, 0xc8, 0x61, 0xb9, 0x8e, 0x68, 0xfe, 0x31, 0xac,
    0xb5]⟩
  else data

def sampleEnv : Env where
  proc := ⟨[], true, 0o022⟩
  fault _ := none
  defaultFileMode := none
  sha256 := sampleDigest
  httpCfg := ⟨5, .fin (11 / 10), .fin 10⟩
  clientError := none
  net _ _ := .ok (200, "body".toUTF8)
  canonicalReason code := if code = 200 then some "OK" else none
  utf8Lossy b := (String.fromUTF8? b).getD ""
  spawn _ _ := .ok ⟨true, some 0, .empty, .empty⟩
  hashOrder := ⟨fun _ l => l, fun _ l => .refl l⟩
  errorThrottleSleep := 5
  sleepTime := 60

def sampleCtx : Ctx where
  label := "sync"
  labelValue := none
  targetFolder := "/data"
  folderAnnotation := "k8s-sidecar-target-directory"
  reqMethod := none
  reqPayload := none
  script := none
  uniqueFilenames := false
  enable5xx := false
  resourceName := ""
  mode := none
  watchServerTimeout := 60
  watchClientTimeout := 66

def sampleWorld : World := ⟨⟨.empty, ⟨false, 0, []⟩, 0, 0, 0, 0, 0, []⟩, .empty⟩

/-- A ConfigMap with text data only. -/
def sampleConfigMap (ns name resourceVersion : String) (data : List (String × String)) :
    ConfigMap where
  metadata := ⟨some ns, some name, some resourceVersion, none⟩
  data := some (.ofList data)
  binaryData := none

def sampleItem (ns name resourceVersion : String) (data : List (String × String)) : Item :=
  .fromCm (sampleConfigMap ns name resourceVersion data)

/-- A listing in one page. -/
def sampleReplies (cms : List ConfigMap) : ListReplies .configMap := ⟨[.ok (cms, none)], []⟩

theorem sampleEnv_fetches : Fetches sampleEnv sampleCtx fun _ => "body".toUTF8 := fun _ _ => rfl

end Sidecar
