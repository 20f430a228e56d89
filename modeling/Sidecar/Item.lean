import Std.Data.ExtTreeMap

/-!
# Resources

The ConfigMaps and Secrets the API returns, and the `Item` the sync logic reduces both to
(`kubeapi.rs`). A `BTreeMap` is an extensional tree map, so iterating one visits its keys in
order.
-/

namespace Sidecar

/-- `BTreeMap<String, V>`. -/
abbrev BTreeMap (V : Type) := Std.ExtTreeMap String V

inductive Kind
  | configMap
  | secret
  deriving DecidableEq

namespace Kind

def asStr : Kind → String
  | .configMap => "configmap"
  | .secret => "secret"

end Kind

/-- The metadata fields that are read. -/
structure ObjectMeta where
  ns : Option String
  name : Option String
  resourceVersion : Option String
  annotations : Option (BTreeMap String)

structure ConfigMap where
  metadata : ObjectMeta
  data : Option (BTreeMap String)
  binaryData : Option (BTreeMap ByteArray)

structure Secret where
  metadata : ObjectMeta
  data : Option (BTreeMap ByteArray)

/-- What the API returns for a kind. -/
abbrev Kind.Object : Kind → Type
  | .configMap => ConfigMap
  | .secret => Secret

/-- A ConfigMap or Secret reduced to what the sync logic needs. -/
structure Item where
  ns : String
  name : String
  resourceVersion : String
  annotations : BTreeMap String
  text : Option (BTreeMap String)
  binary : Option (BTreeMap ByteArray)

namespace Item

/-- Namespace and name, concatenated with no separator. -/
def key (item : Item) : String := item.ns ++ item.name

def fromCm (cm : ConfigMap) : Item where
  ns := cm.metadata.ns.getD ""
  name := cm.metadata.name.getD ""
  resourceVersion := cm.metadata.resourceVersion.getD ""
  annotations := cm.metadata.annotations.getD ∅
  text := cm.data
  binary := cm.binaryData

def fromSecret (sec : Secret) : Item where
  ns := sec.metadata.ns.getD ""
  name := sec.metadata.name.getD ""
  resourceVersion := sec.metadata.resourceVersion.getD ""
  annotations := sec.metadata.annotations.getD ∅
  text := none
  binary := sec.data

def fromObject : (kind : Kind) → kind.Object → Item
  | .configMap => fromCm
  | .secret => fromSecret

end Item

/-! ## Map keys -/

/-- The key of the shared maps: a kind and `Item::key()`. -/
abbrev MapKey := Kind × String

def MapKey.cmp : MapKey → MapKey → Ordering :=
  compareLex (compareOn fun k => k.1.asStr) (compareOn Prod.snd)

instance : Std.TransCmp MapKey.cmp := by
  unfold MapKey.cmp
  infer_instance

theorem Kind.asStr_injective : Function.Injective Kind.asStr := by
  intro k k'
  cases k <;> cases k' <;> decide

instance : Std.LawfulEqCmp MapKey.cmp where
  eq_of_compare := by
    intro a b h
    unfold MapKey.cmp at h
    rw [compareLex_eq_eq] at h
    have h1 := Kind.asStr_injective (Std.LawfulEqOrd.eq_of_compare h.1)
    have h2 := Std.LawfulEqOrd.eq_of_compare h.2
    exact Prod.ext h1 h2

/-- The contents of a `HashMap<(Kind, String), V>`. The order in which the program's hash map
would be iterated is not here: see `Env.hashOrder`. -/
abbrev HashMap (V : Type) := Std.ExtTreeMap MapKey V MapKey.cmp

end Sidecar
