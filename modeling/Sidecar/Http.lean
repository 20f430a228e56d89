import Sidecar.Sys

/-!
# HTTP requests

`http.rs`: requests for `*.url` keys and `REQ_URL` notifications, with retries. The basic-auth
header of a request reaches the server only, so it is made apart from it (`basicAuthHeader`): the
files that are read for it and what is logged then are no events of `request`.
-/

namespace Sidecar

/-- `as i32`. -/
def asI32 (n : Int) : Int := n.bmod (2 ^ 32)

/-- The sleep before attempt `attempt + 1` of either retry loop: `factor * 2^(attempt - 1)` seconds,
at most 120. -/
def backoffDelay (factor : F64) (attempt : Nat) : F64 :=
  (factor.mul (F64.powiTwo (asI32 (asI32 attempt - 1)))).min (.fin 120)

/-- One attempt on the network. -/
def sendOnce (env : Env) (req : HttpRequest) : M (Except String (UInt16 × ByteArray)) := fun s =>
  (env.net s.netTick req, { s with netTick := s.netTick + 1, trace := s.trace ++ [.attempt req] })

/-- The retry loop of `request`: `remaining` attempts are left, `attempt` were made. -/
def requestLoop (env : Env) (enforceStatus : List UInt16) (req : HttpRequest) :
    (remaining attempt : Nat) → (lastErr : Option String) → M (Option (UInt16 × ByteArray))
  | 0, _, lastErr => do
    let lastErr := lastErr.getD ""
    log .error s!"Max retries exceeded for URL {req.url}: {lastErr}"
    log .debug s!"Returning dummy response for URL {req.url}"
    pure none
  | remaining + 1, attempt, _ => do
    (if attempt > 1 then sleepFor (backoffDelay env.httpCfg.backoffFactor attempt) else pure ())
    match ← sendOnce env req with
    | .ok (status, body) =>
      if status ∈ enforceStatus then
        requestLoop env enforceStatus req remaining (attempt + 1)
          (some s!"too many {status} error responses (Caused by ResponseError('too many {status} error responses'))")
      else
        let text := env.utf8Lossy body
        let reason := (env.canonicalReason status).getD ""
        let sent := if req.isGet then "Request" else req.payload.getD "None"
        log .info s!"{sent} sent to {req.url}. Response: {status} {reason} {text}"
        pure (some (status, body))
    | .error e => requestLoop env enforceStatus req remaining (attempt + 1) (some e)

/-- `None` for the no-op cases: no url, an invalid method, exhausted retries. The JSON payload is
its text. -/
def request (env : Env) (url : Option String) (method : Option String) (enable5xx : Bool)
    (payload : Option String) : M (Option (UInt16 × ByteArray)) := do
  let enforceStatus : List UInt16 := if enable5xx then [] else [500, 502, 503, 504]
  match url with
  | none =>
    log .warning "No url provided. Doing nothing."
    pure none
  | some url =>
    let methodUp := method.getD "GET"
    let isGet := method.isNone || method == some "GET"
    let isPost := method == some "POST"
    if !isGet && !isPost then
      log .warning
        s!"Invalid REQ_METHOD: '{methodUp}', please use 'GET' or 'POST'. Doing nothing."
      pure none
    else if env.httpCfg.timeout.toDuration.isNone then
      emit .abort
      pure none
    else
      match env.clientError with
      | some e =>
        log .error s!"Unexpected error during request to {url}: {e}"
        log .debug s!"Returning dummy response for URL {url}"
        pure none
      | none =>
        -- `retry_total + 1` wraps in a release build
        let attempts := env.httpCfg.retryTotal + 1
        requestLoop env enforceStatus ⟨url, isGet, payload⟩ attempts.toNat 0 none

/-- Content only for a status below 400. -/
def bodyIfOk : Option (UInt16 × ByteArray) → ByteArray
  | some (status, body) => if status < 400 then body else ByteArray.empty
  | none => ByteArray.empty

end Sidecar
