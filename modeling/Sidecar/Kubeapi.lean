import Sidecar.Http

/-!
# Reading from the Kubernetes API

`kubeapi.rs`: pages of a listing, reads by name, and the transport retries around both. What the
server answers to the requests of one call is a list of replies, used up front to back; when it
runs out the call is still waiting (`none`).
-/

namespace Sidecar

inductive KubeError
  | api (code : Nat) (reason : String)
  | other (msg : String)
  deriving DecidableEq

def isTransportError : KubeError → Bool
  | .api .. => false
  | .other _ => true

/-- The replies still to come from the server. -/
abbrev Replies (α : Type) := List (Except KubeError α)

/-- Retry transport-level failures; API errors pass straight through. `request` notes one request
to the server. -/
def withTransportRetry {α : Type} (env : Env) (request : M Unit) :
    Replies α → (attempt : Nat) → M (Option (Except KubeError α × Replies α))
  | [], _ => do
    request
    pure none
  | .ok v :: rest, _ => do
    request
    pure (some (.ok v, rest))
  | .error e :: rest, attempt => do
    request
    if isTransportError e && attempt < env.httpCfg.retryTotal.toNat then
      (if attempt + 1 > 1 then sleepFor (backoffDelay env.httpCfg.backoffFactor (attempt + 1))
        else pure ())
      withTransportRetry env request rest (attempt + 1)
    else pure (some (.error e, rest))

/-- One page of a listing, as the server sends it: objects and a continue token. -/
abbrev Page (kind : Kind) := List kind.Object × Option String

def listPage (env : Env) (kind : Kind) (ns labelSelector : String) (limit : UInt32)
    (cont : Option String) (replies : Replies (Page kind)) :
    M (Option (Except KubeError (List Item × Option String) × Replies (Page kind))) := do
  match ← withTransportRetry env (emit (.apiList kind ns labelSelector limit cont)) replies 0 with
  | none => pure none
  | some (.error e, rest) => pure (some (.error e, rest))
  | some (.ok (objects, next), rest) =>
    let next := next.filter (· ≠ "")
    pure (some (.ok (objects.map (Item.fromObject kind), next), rest))

/-- A single resource by name; `none` inside on 404. -/
def readNamed (env : Env) (kind : Kind) (ns name : String)
    (replies : Replies (Option kind.Object)) :
    M (Option (Except KubeError (Option Item) × Replies (Option kind.Object))) := do
  match ← withTransportRetry env (emit (.apiGet kind ns name)) replies 0 with
  | none => pure none
  | some (.error e, rest) => pure (some (.error e, rest))
  | some (.ok got, rest) => pure (some (.ok (got.map (Item.fromObject kind)), rest))

end Sidecar
