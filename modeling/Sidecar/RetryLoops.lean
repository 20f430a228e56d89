import Sidecar.Lib.Retry
import Sidecar.Registry

/-!
# The two retry loops

`request` pauses before an attempt, `with_transport_retry` after a failed one. Both come to the
same steps (`request_steps_eq`, `transport_steps_eq`), with the pauses that `backoffDelay` computes.
These are those of the policy, `min(f * 2^(k-1), 120)` seconds before retry `k` from the second on,
up to retry 1024. From there on the power of two is infinite, and beyond retry `2^31` its exponent
wraps (`retry_loops_follow_policy`). Nothing looks at the settings before they are used, so some
make the process panic or a request give up without an attempt (`retry_settings_work`).
-/

namespace Sidecar

open Posix StateM

/-! ## Steps -/

/-- What a retry loop does, besides log lines. -/
inductive RetryStep
  | attempt
  | sleep (secs : ℚ)
  | abort
  deriving DecidableEq

def Event.retryStep? : Event → Option RetryStep
  | .attempt _ | .apiList .. | .apiGet .. => some .attempt
  | .sleep secs => some (.sleep secs)
  | .abort => some .abort
  | _ => none

def Sys.retrySteps (s : Sys) : List RetryStep := s.trace.filterMap Event.retryStep?

theorem emit_retrySteps (e : Event) (s : Sys) :
    (emit e s).2.retrySteps = s.retrySteps ++ e.retryStep?.toList := by
  unfold Sys.retrySteps
  rw [emit_apply, List.filterMap_append]
  cases h : e.retryStep? <;> simp [h]

theorem log_retrySteps (level : Level) (msg : String) (s : Sys) :
    (log level msg s).2.retrySteps = s.retrySteps := by
  unfold log
  rw [emit_retrySteps]
  exact List.append_nil _

/-- The pause before attempt `k`, counted from 0. -/
def pauseSteps (factor : F64) (k : ℕ) : List RetryStep :=
  if 1 < k then [((backoffDelay factor k).toDuration.map .sleep).getD .abort] else []

theorem pause_retrySteps (factor : F64) (k : ℕ) (s : Sys) :
    let paused := (if k > 1 then sleepFor (backoffDelay factor k) else pure () : M Unit) s
    paused.2.retrySteps = s.retrySteps ++ pauseSteps factor k ∧ paused.2.netTick = s.netTick := by
  unfold pauseSteps
  dsimp only
  split
  · unfold sleepFor
    cases (backoffDelay factor k).toDuration with
    | none => exact ⟨emit_retrySteps .abort s, rfl⟩
    | some d => exact ⟨emit_retrySteps (.sleep d) s, rfl⟩
  · exact ⟨(List.append_nil _).symm, rfl⟩

/-! ## `request` -/

/-- An attempt that is retried: it had no response, or one with an enforced status. -/
def httpFails (enforceStatus : List UInt16) : Except String (UInt16 × ByteArray) → Bool
  | .ok (status, _) => decide (status ∈ enforceStatus)
  | .error _ => true

/-- What a request answers after its last attempt. -/
def httpAnswer (enforceStatus : List UInt16) (out : Except String (UInt16 × ByteArray)) :
    Option (UInt16 × ByteArray) :=
  if httpFails enforceStatus out then none else out.toOption

section Http

variable {env : Env} {enforceStatus : List UInt16} {req : HttpRequest}

theorem requestLoop_exhausted (k : ℕ) (lastErr : Option String) (s : Sys) :
    (requestLoop env enforceStatus req 0 k lastErr s).1 = none ∧
      (requestLoop env enforceStatus req 0 k lastErr s).2.retrySteps = s.retrySteps := by
  unfold requestLoop
  refine ⟨rfl, ?_⟩
  simp only [bind_apply, pure_apply, log_retrySteps]

theorem sendOnce_apply (s : Sys) : sendOnce env req s = (env.net s.netTick req,
    { s with netTick := s.netTick + 1, trace := s.trace ++ [.attempt req] }) := rfl

/-- One attempt, and what the loop does after it. -/
theorem requestLoop_succ (r k : ℕ) (lastErr : Option String) (s : Sys) :
    ∃ (t : Sys) (msg : String), t.netTick = s.netTick + 1 ∧
      t.retrySteps = s.retrySteps ++ (pauseSteps env.httpCfg.backoffFactor k ++ [.attempt]) ∧
      requestLoop env enforceStatus req (r + 1) k lastErr s =
        if httpFails enforceStatus (env.net s.netTick req) then
          requestLoop env enforceStatus req r (k + 1) (some msg) t
        else (httpAnswer enforceStatus (env.net s.netTick req), t) := by
  obtain ⟨hsteps, htick⟩ := pause_retrySteps env.httpCfg.backoffFactor k s
  rw [requestLoop.eq_2, bind_apply]
  generalize (if k > 1 then sleepFor (backoffDelay env.httpCfg.backoffFactor k)
    else pure () : M Unit) s =
    paused at hsteps htick ⊢
  obtain ⟨_, u⟩ := paused
  dsimp only at hsteps htick ⊢
  rw [bind_apply, sendOnce_apply]
  dsimp only
  have hsent : (⟨u.tree, u.health, u.clock, u.ioTick, u.netTick + 1, u.spawnTick, u.scanTick,
      u.trace ++ [.attempt req]⟩ : Sys).retrySteps =
      s.retrySteps ++ (pauseSteps env.httpCfg.backoffFactor k ++ [.attempt]) := by
    unfold Sys.retrySteps at hsteps ⊢
    rw [List.filterMap_append, hsteps, List.append_assoc]
    rfl
  rw [htick] at hsent ⊢
  unfold httpAnswer httpFails
  cases env.net s.netTick req with
  | error e => exact ⟨_, e, rfl, hsent, rfl⟩
  | ok out =>
    obtain ⟨status, body⟩ := out
    dsimp only
    by_cases hs : status ∈ enforceStatus
    · simp only [hs, decide_true, if_true]
      exact ⟨_, _, rfl, hsent, rfl⟩
    · simp only [hs, decide_false, Bool.false_eq_true, if_false, bind_apply]
      refine ⟨_, "", ?_, ?_, rfl⟩
      · rfl
      · rw [log_retrySteps, hsent]

/-- **The steps of `request`'s loop**, with `r` retries left. -/
theorem requestLoop_steps (r k : ℕ) (lastErr : Option String) (s : Sys) {t₀ : ℕ}
    (htick : s.netTick = t₀ + k) :
    let fails := fun i => httpFails enforceStatus (env.net (t₀ + i) req)
    let out := requestLoop env enforceStatus req (r + 1) k lastErr s
    out.2.retrySteps = s.retrySteps ++
        Retry.run (pauseSteps env.httpCfg.backoffFactor) .attempt fails r k ∧
      out.1 = httpAnswer enforceStatus (env.net (t₀ + Retry.lastFrom fails r k) req) := by
  dsimp only
  induction r generalizing k lastErr s with
  | zero =>
    obtain ⟨t, msg, -, hsteps, heq⟩ := @requestLoop_succ env enforceStatus req 0 k lastErr s
    rw [htick] at heq
    rw [heq]
    unfold Retry.run Retry.lastFrom
    obtain ⟨hnone, hquiet⟩ := @requestLoop_exhausted env enforceStatus req (k + 1) (some msg) t
    by_cases hfails : httpFails enforceStatus (env.net (t₀ + k) req) = true
    · rw [if_pos hfails, hnone, hquiet]
      refine ⟨hsteps, ?_⟩
      unfold httpAnswer
      rw [if_pos hfails]
    · rw [if_neg hfails]
      exact ⟨hsteps, rfl⟩
  | succ r ih =>
    obtain ⟨t, msg, ht, hsteps, heq⟩ := @requestLoop_succ env enforceStatus req (r + 1) k lastErr s
    rw [htick] at heq ht
    rw [heq]
    unfold Retry.run Retry.lastFrom
    by_cases hfails : httpFails enforceStatus (env.net (t₀ + k) req) = true
    · obtain ⟨hrest, hanswer⟩ := ih (k + 1) (some msg) t ht
      rw [if_pos hfails, if_pos hfails, if_pos hfails, hrest, hanswer, hsteps]
      simp only [List.append_assoc, List.singleton_append, true_and]
    · rw [if_neg hfails, if_neg hfails, if_neg hfails]
      exact ⟨hsteps, rfl⟩

/-- The statuses that are retried. -/
def enforcedStatus (enable5xx : Bool) : List UInt16 :=
  if enable5xx then [] else [500, 502, 503, 504]

/-- The methods that a request can be made with. -/
def ValidMethod (method : Option String) : Prop :=
  method = none ∨ method = some "GET" ∨ method = some "POST"

def isGetMethod (method : Option String) : Bool := method.isNone || method == some "GET"

/-- The client can be built with the timeout that is set. -/
def Env.Connects (env : Env) : Prop := env.httpCfg.timeout.toDuration ≠ none ∧
    env.clientError = none

section Request

variable (url : String) {method : Option String} (payload : Option String) (enable5xx : Bool)

theorem request_of_connects (hmethod : ValidMethod method) (hc : env.Connects) (s : Sys) :
    request env (some url) method enable5xx payload s =
      requestLoop env (enforcedStatus enable5xx) ⟨url, isGetMethod method, payload⟩
        (env.httpCfg.retryTotal + 1).toNat 0 none s := by
  obtain ⟨htimeout, hclient⟩ := hc
  have hsome : env.httpCfg.timeout.toDuration.isNone = false := by
    cases h : env.httpCfg.timeout.toDuration with
    | none => exact absurd h htimeout
    | some d => rfl
  unfold request
  rcases hmethod with rfl | rfl | rfl
  all_goals
    simp only [hsome, hclient]
    rfl

/-- Without a client there is no attempt. -/
theorem request_of_not_connects (hmethod : ValidMethod method) (hc : ¬env.Connects) (s : Sys) :
    (request env (some url) method enable5xx payload s).1 = none ∧
      (request env (some url) method enable5xx payload s).2.retrySteps =
        s.retrySteps ++ if env.httpCfg.timeout.toDuration = none then [.abort] else [] := by
  have hbad : (!isGetMethod method && !(method == some "POST")) = false := by
    rcases hmethod with rfl | rfl | rfl <;> decide
  unfold isGetMethod at hbad
  unfold request
  dsimp only
  rw [hbad, if_neg Bool.false_ne_true]
  cases htimeout : env.httpCfg.timeout.toDuration with
  | none => exact ⟨rfl, emit_retrySteps .abort s⟩
  | some d =>
    cases hclient : env.clientError with
    | none => exact absurd ⟨by simp [htimeout], hclient⟩ hc
    | some e =>
      simp only [Option.isNone_some, Bool.false_eq_true, if_false, reduceCtorEq,
        bind_apply, pure_apply,
        log_retrySteps, List.append_nil, and_self]

end Request

end Http

/-! ## `with_transport_retry` -/

section Transport

variable (env : Env) {α : Type}

/-- A reply that is retried. -/
def transportFails : Except KubeError α → Bool
  | .ok _ => false
  | .error e => isTransportError e

/-- One request, and what the loop does after its reply. -/
theorem withTransportRetry_cons (call : Event) (hcall : call.retryStep? = some .attempt)
    (reply : Except KubeError α) (rest : Replies α) (k : ℕ) (s : Sys) :
    ∃ t : Sys, t.retrySteps = s.retrySteps ++ [.attempt] ∧
      withTransportRetry env (emit call) (reply :: rest) k s =
        if transportFails reply = true ∧ k < env.httpCfg.retryTotal.toNat then
          withTransportRetry env (emit call) rest (k + 1)
            ((if k + 1 > 1 then sleepFor (backoffDelay env.httpCfg.backoffFactor (k + 1))
              else pure () : M Unit)
              t).2
        else (some (reply, rest), t) := by
  refine ⟨(emit call s).2, ?_, ?_⟩
  · rw [emit_retrySteps, hcall]
    rfl
  · cases reply with
    | ok v => rfl
    | error e =>
      rw [withTransportRetry.eq_3, bind_apply]
      by_cases h : transportFails (.error e : Except KubeError α) = true ∧
        k < env.httpCfg.retryTotal.toNat
      · rw [if_pos h, if_pos (by simpa [transportFails] using h), bind_apply]
      · rw [if_neg h, if_neg (by simpa [transportFails] using h)]
        rfl

/-- **The steps of `with_transport_retry`**, with `r` retries left. -/
theorem withTransportRetry_steps (call : Event) (hcall : call.retryStep? = some .attempt) {r k : ℕ}
    (hr : k + r = env.httpCfg.retryTotal.toNat) (o : ℕ → Except KubeError α) {replies : Replies α}
    (hreplies : ∀ i ≤ r, replies[i]? = some (o (k + i))) (s : Sys) :
    let fails := fun i => transportFails (o i)
    let out := withTransportRetry env (emit call) replies k s
    out.2.retrySteps = s.retrySteps ++
        Retry.runAfter (pauseSteps env.httpCfg.backoffFactor) .attempt fails r k ∧
      out.1.map Prod.fst = some (o (Retry.lastFrom fails r k)) := by
  dsimp only
  induction r generalizing k replies s with
  | zero =>
    obtain ⟨reply, rest, rfl⟩ : ∃ reply rest, replies = reply :: rest := by
      cases replies with
      | nil => exact absurd (hreplies 0 (Nat.le_refl 0)) (by simp)
      | cons reply rest => exact ⟨reply, rest, rfl⟩
    obtain rfl : reply = o k := by simpa using hreplies 0 (Nat.le_refl 0)
    obtain ⟨t, ht, heq⟩ := withTransportRetry_cons env call hcall (o k) rest k s
    rw [heq, if_neg (by omega)]
    exact ⟨ht, rfl⟩
  | succ r ih =>
    obtain ⟨reply, rest, rfl⟩ : ∃ reply rest, replies = reply :: rest := by
      cases replies with
      | nil => exact absurd (hreplies 0 (Nat.zero_le _)) (by simp)
      | cons reply rest => exact ⟨reply, rest, rfl⟩
    obtain rfl : reply = o k := by simpa using hreplies 0 (Nat.zero_le _)
    obtain ⟨t, ht, heq⟩ := withTransportRetry_cons env call hcall (o k) rest k s
    rw [heq]
    unfold Retry.runAfter Retry.lastFrom
    by_cases hfails : transportFails (o k) = true
    · have hlt : k < env.httpCfg.retryTotal.toNat := by omega
      obtain ⟨hpause, -⟩ := pause_retrySteps env.httpCfg.backoffFactor (k + 1) t
      have hrest : ∀ i ≤ r, rest[i]? = some (o (k + 1 + i)) := fun i hi => by
        have hnext := hreplies (i + 1) (by omega)
        rw [List.getElem?_cons_succ] at hnext
        rw [hnext]
        congr 2
        omega
      obtain ⟨hsteps, hanswer⟩ := ih (by omega) hrest ((if k + 1 > 1 then
        sleepFor (backoffDelay env.httpCfg.backoffFactor (k + 1)) else pure () : M Unit) t).2
      rw [if_pos ⟨hfails, hlt⟩, if_pos hfails, if_pos hfails, hsteps, hanswer, hpause, ht]
      refine ⟨?_, rfl⟩
      simp only [List.append_assoc, List.cons_append, List.nil_append]
    · rw [if_neg fun h => hfails h.1, if_neg hfails, if_neg hfails]
      exact ⟨ht, rfl⟩

end Transport

/-! ## The pauses -/

/-- The pause before retry `k` that both loops are after. -/
def policyPause (f : ℚ) (k : ℕ) : List RetryStep :=
  if 2 ≤ k then [.sleep (min (f * 2 ^ (k - 1)) 120)] else []

/-- The exponent as an `i32` is right up to retry `2^31`. -/
theorem asI32_exponent {k : ℕ} (h1 : 1 ≤ k) (h2 : k < 2 ^ 32) :
    asI32 (asI32 k - 1) = if k ≤ 2 ^ 31 then (k : ℤ) - 1 else (k : ℤ) - 1 - 2 ^ 32 := by
  have hwrap : asI32 (asI32 k - 1) = Int.bmod ((k : ℤ) - 1) (2 ^ 32) := by
    unfold asI32
    rw [Int.bmod_sub_bmod]
  rw [hwrap, Int.bmod_def]
  norm_num only
  split <;> split <;> omega

/-- A capped power that is cut short shows. -/
theorem min_mul_zpow_eq_iff {f : ℚ} (hf : 0 ≤ f) {a b : ℤ} (hab : a < b) (cap : ℚ) :
    min (f * 2 ^ a) cap = min (f * 2 ^ b) cap ↔ f = 0 ∨ cap ≤ f * 2 ^ a := by
  have hpow : (2 : ℚ) ^ a < 2 ^ b := zpow_lt_zpow_right₀ (by norm_num) hab
  constructor
  · intro h
    by_contra hnot
    obtain ⟨hne, hlt⟩ := not_or.1 hnot
    have hpos : 0 < f := lt_of_le_of_ne hf (Ne.symm hne)
    have hmul : f * 2 ^ a < f * 2 ^ b := mul_lt_mul_of_pos_left hpow hpos
    rw [min_eq_left (not_le.1 hlt).le] at h
    exact absurd h (lt_min hmul (not_le.1 hlt)).ne
  · rintro (rfl | hcap)
    · rw [zero_mul, zero_mul]
    · have hle : f * 2 ^ a ≤ f * 2 ^ b := mul_le_mul_of_nonneg_left hpow.le hf
      rw [min_eq_right hcap, min_eq_right (hcap.trans hle)]

/-- The power of two before retry `k` is that of the policy, or the cap hides what it is. -/
def PauseFits (f : ℚ) (k : ℕ) : Prop :=
  (1024 < k → k ≤ 2 ^ 31 → 120 ≤ f * 2 ^ (k - 1)) ∧
    (2 ^ 31 < k → f = 0 ∨ 2 ^ 32 - 1023 < k ∧ 120 ≤ f * 2 ^ ((k : ℤ) - 1 - 2 ^ 32))

theorem pauseSteps_of_capped {f d : ℚ} {k : ℕ} (hk : 1 < k)
    (h : backoffDelay (.fin f) k = .fin d) (h0 : 0 ≤ d) (hd : d ≤ 120) :
    pauseSteps (.fin f) k = [.sleep d] := by
  unfold pauseSteps
  rw [if_pos hk, h, F64.toDuration_fin h0 (hd.trans_lt (by norm_num))]
  rfl

/-- **Where the pause is right**: up to retry 1024, and beyond where it does not show. -/
theorem pauseSteps_eq_iff {f : ℚ} (hf : 0 ≤ f) {k : ℕ} (h : k < 2 ^ 32) :
    pauseSteps (.fin f) k = policyPause f k ↔ PauseFits f k := by
  unfold PauseFits policyPause
  by_cases hk : 1 < k
  swap
  · unfold pauseSteps
    rw [if_neg hk, if_neg (show ¬2 ≤ k from hk)]
    exact iff_of_true rfl ⟨fun hlt => by omega, fun hlt => by omega⟩
  rw [if_pos (show 2 ≤ k from hk)]
  have hcast : (f * 2 ^ (k - 1) : ℚ) = f * 2 ^ ((k : ℤ) - 1) := by
    rw [← zpow_natCast, Nat.cast_sub hk.le]
    rfl
  have hcapped : ∀ e : ℤ, 0 ≤ min (f * 2 ^ e) 120 := fun e =>
    le_min (mul_nonneg hf (zpow_pos (by norm_num) e).le) (by norm_num)
  have hexp := asI32_exponent hk.le h
  by_cases hbig : k ≤ 2 ^ 31
  · rw [if_pos hbig] at hexp
    have hnot : ¬2 ^ 31 < k := not_lt.2 hbig
    by_cases hover : 1024 < k
    · -- the power is infinite, and the pause 120 seconds
      have hdelay : backoffDelay (.fin f) k = .fin 120 := by
        unfold backoffDelay
        rw [hexp]
        exact F64.capped_overflow hf (by omega) 120
      rw [pauseSteps_of_capped hk hdelay (by norm_num) le_rfl]
      simp only [List.cons.injEq, RetryStep.sleep.injEq, and_true, hover, hbig, hnot,
        false_imp_iff, true_imp_iff]
      rw [eq_comm, min_eq_right_iff]
    · have hdelay : backoffDelay (.fin f) k = .fin (min (f * 2 ^ ((k : ℤ) - 1)) 120) := by
        unfold backoffDelay
        rw [hexp]
        exact F64.capped_fin f (by omega) (by omega) 120
      rw [pauseSteps_of_capped hk hdelay (hcapped _) (min_le_right _ _), hcast]
      exact iff_of_true rfl ⟨fun hlt => absurd hlt hover, fun hlt => absurd hlt hnot⟩
  · rw [if_neg hbig] at hexp
    have hlt : 2 ^ 31 < k := not_le.1 hbig
    by_cases hunder : 2 ^ 32 - 1023 < k
    · have hdelay : backoffDelay (.fin f) k =
          .fin (min (f * 2 ^ ((k : ℤ) - 1 - 2 ^ 32)) 120) := by
        unfold backoffDelay
        rw [hexp]
        exact F64.capped_fin f (by omega) (by omega) 120
      rw [pauseSteps_of_capped hk hdelay (hcapped _) (min_le_right _ _), hcast]
      simp only [List.cons.injEq, RetryStep.sleep.injEq, and_true, hbig, hlt, hunder,
        false_imp_iff, implies_true, true_imp_iff, true_and]
      exact min_mul_zpow_eq_iff hf (by omega) 120
    · -- the power has vanished
      have hdelay : backoffDelay (.fin f) k = .fin 0 := by
        unfold backoffDelay
        rw [hexp]
        exact F64.capped_underflow f (by omega) (by norm_num)
      rw [pauseSteps_of_capped hk hdelay le_rfl (by norm_num)]
      simp only [List.cons.injEq, RetryStep.sleep.injEq, and_true, hbig, hlt, hunder,
        false_imp_iff, implies_true, true_imp_iff, true_and, false_and, or_false]
      constructor
      · intro hzero
        by_contra hne
        have hpos : 0 < f := lt_of_le_of_ne hf (Ne.symm hne)
        have hmin : 0 < min (f * 2 ^ (k - 1)) 120 := lt_min (by positivity) (by norm_num)
        exact hmin.ne hzero
      · rintro rfl
        rw [zero_mul, min_eq_left (by norm_num)]

theorem pauseSteps_length (factor : F64) (f : ℚ) (k : ℕ) :
    (pauseSteps factor k).length = (policyPause f k).length := by
  unfold pauseSteps policyPause
  by_cases hk : 1 < k
  · rw [if_pos hk, if_pos (show 2 ≤ k from hk)]
    rfl
  · rw [if_neg hk, if_neg (show ¬2 ≤ k from hk)]

/-! ## One policy -/

section Policy

variable {env : Env} {url : String} {method payload : Option String} {enable5xx : Bool}
  {call : Event}
  {α : Type} {o : ℕ → Except KubeError α} {replies : Replies α} {f : ℚ} {n m : ℕ} {s : Sys}

/-- Both loops end with attempt `m`, whose outcome is the answer, after the pauses of the policy. -/
structure FollowPolicy (env : Env) (url : String) (method payload : Option String)
    (enable5xx : Bool)
    (call : Event) {α : Type} (o : ℕ → Except KubeError α) (replies : Replies α) (f : ℚ)
    (s : Sys) (m : ℕ) :
    Prop where
  request_steps : (request env (some url) method enable5xx payload s).2.retrySteps =
    s.retrySteps ++ Retry.steps (policyPause f) .attempt m
  request_answer : (request env (some url) method enable5xx payload s).1 =
    httpAnswer (enforcedStatus enable5xx)
    (env.net (s.netTick + m) ⟨url, isGetMethod method, payload⟩)
  transport_steps : (withTransportRetry env (emit call) replies 0 s).2.retrySteps =
    s.retrySteps ++ Retry.steps (policyPause f) .attempt m
  transport_answer : (withTransportRetry env (emit call) replies 0 s).1.map Prod.fst = some (o m)

theorem toNat_add_one {a : UInt32} (h : a.toNat < 2 ^ 32 - 1) : (a + 1).toNat = a.toNat + 1 := by
  rw [UInt32.toNat_add]
  exact Nat.mod_eq_of_lt (by simpa using Nat.add_lt_of_lt_sub h)

/-- The first step is an attempt. -/
theorem steps_policyPause (f : ℚ) (m : ℕ) : Retry.steps (policyPause f) .attempt m =
    .attempt :: Retry.stepsFrom (policyPause f) .attempt 1 m := Retry.stepsFrom_succ ..

/-- The steps of a request, when there is a client. -/
theorem request_steps_eq (hn : env.httpCfg.retryTotal.toNat = n) (hlt : n < 2 ^ 32 - 1)
    (hmethod : ValidMethod method) (hc : env.Connects)
    (hlast : Retry.IsLast (fun i => httpFails (enforcedStatus enable5xx)
      (env.net (s.netTick + i) ⟨url, isGetMethod method, payload⟩)) n m) :
    (request env (some url) method enable5xx payload s).2.retrySteps =
        s.retrySteps ++ Retry.steps (pauseSteps env.httpCfg.backoffFactor) .attempt m ∧
      (request env (some url) method enable5xx payload s).1 = httpAnswer (enforcedStatus enable5xx)
        (env.net (s.netTick + m) ⟨url, isGetMethod method, payload⟩) := by
  have hattempts : (env.httpCfg.retryTotal + 1).toNat = n + 1 := by
    rw [toNat_add_one (hn ▸ hlt), hn]
  obtain ⟨hsteps, hanswer⟩ := @requestLoop_steps env (enforcedStatus enable5xx)
    ⟨url, isGetMethod method, payload⟩ n 0 none s s.netTick rfl
  rw [request_of_connects url payload enable5xx hmethod hc, hattempts, hsteps, hanswer,
    Retry.run_eq_steps _ _ _ hlast,
    ← hlast.unique (Retry.isLast_lastFrom _ n)]
  exact ⟨rfl, rfl⟩

theorem transport_steps_eq (hn : env.httpCfg.retryTotal.toNat = n)
    (hcall : call.retryStep? = some .attempt) (hreplies : ∀ i ≤ n, replies[i]? = some (o i))
    (hlast : Retry.IsLast (fun i => transportFails (o i)) n m) :
    (withTransportRetry env (emit call) replies 0 s).2.retrySteps =
        s.retrySteps ++ Retry.steps (pauseSteps env.httpCfg.backoffFactor) .attempt m ∧
      (withTransportRetry env (emit call) replies 0 s).1.map Prod.fst = some (o m) := by
  obtain ⟨hsteps, hanswer⟩ := withTransportRetry_steps env call hcall (r := n) (k := 0)
    (by rw [hn, Nat.zero_add]) o (fun i hi => by rw [Nat.zero_add]; exact hreplies i hi) s
  have hafter := Retry.pause_runAfter (pauseSteps env.httpCfg.backoffFactor) .attempt
    (fun i => transportFails (o i)) n 0
  have hfirst : pauseSteps env.httpCfg.backoffFactor 0 = [] := rfl
  rw [hfirst, List.nil_append] at hafter
  rw [hsteps, hanswer, hafter, Retry.run_eq_steps _ _ _ hlast,
    ← hlast.unique (Retry.isLast_lastFrom _ n)]
  exact ⟨rfl, rfl⟩

/-- A retry is made if all attempts before it fail. -/
theorem le_last_iff {fails : ℕ → Bool} (h : Retry.IsLast fails n m) (k : ℕ) :
    k ≤ m ↔ k ≤ n ∧ ∀ i < k, fails i = true := by
  constructor
  · exact fun hk => ⟨hk.trans h.le, fun i hi => h.before i (by omega)⟩
  · rintro ⟨hk, hfails⟩
    by_contra hnot
    have hstop := h.stop (by omega)
    rw [hfails m (by omega)] at hstop
    cases hstop

/-- The pauses up to attempt `m` are those of the policy. -/
theorem steps_eq_policy_iff (h0 : 0 ≤ f) (hm : m < 2 ^ 32) :
    Retry.steps (pauseSteps (.fin f)) .attempt m = Retry.steps (policyPause f) .attempt m ↔
      ∀ k ≤ m, PauseFits f k := by
  rw [Retry.steps_inj (pauseSteps_length (.fin f) f)]
  exact forall_congr' fun k => imp_congr_right fun hk => pauseSteps_eq_iff h0 (by omega)

/-- **Both loops follow one policy** exactly if there is a client, and where the power of two has
overflowed or its exponent has wrapped, the pause would be 120 seconds anyway. -/
theorem retry_loops_follow_policy (hn : env.httpCfg.retryTotal.toNat = n) (hlt : n < 2 ^ 32 - 1)
    (hfactor : env.httpCfg.backoffFactor = .fin f) (h0 : 0 ≤ f) (hmethod : ValidMethod method)
    (hcall : call.retryStep? = some .attempt) (hreplies : ∀ i ≤ n, replies[i]? = some (o i))
    (hsame : ∀ i, httpFails (enforcedStatus enable5xx)
      (env.net (s.netTick + i) ⟨url, isGetMethod method, payload⟩) = transportFails (o i)) :
    (∃ m, Retry.IsLast (fun i => transportFails (o i)) n m ∧
        FollowPolicy env url method payload enable5xx call o replies f s m) ↔
      env.Connects ∧ ∀ k ≤ n, (∀ i < k, transportFails (o i) = true) → PauseFits f k := by
  constructor
  · rintro ⟨m, hlast, hfollow⟩
    by_cases hc : env.Connects
    · refine ⟨hc, fun k hk hfails => ?_⟩
      obtain ⟨hsteps, -⟩ := transport_steps_eq (s := s) hn hcall hreplies hlast
      rw [hfollow.transport_steps, hfactor] at hsteps
      have hpolicy := (steps_eq_policy_iff h0 (by have := hlast.le; omega)).1
        (List.append_cancel_left hsteps).symm
      exact hpolicy k ((le_last_iff hlast k).2 ⟨hk, hfails⟩)
    · -- without a client the first step is no attempt
      obtain ⟨-, hsteps⟩ := request_of_not_connects url payload enable5xx hmethod hc s
      rw [hfollow.request_steps, steps_policyPause] at hsteps
      have hcut := List.append_cancel_left hsteps
      split at hcut <;> cases hcut
  · rintro ⟨hc, hwrap⟩
    have hlast := Retry.isLast_lastFrom (fun i => transportFails (o i)) n
    refine ⟨_, hlast, ?_⟩
    generalize Retry.lastFrom (fun i => transportFails (o i)) n 0 = m at hlast
    have hpolicy := (steps_eq_policy_iff (m := m) h0 (by have := hlast.le; omega)).2 fun k hk => by
      obtain ⟨hkn, hfails⟩ := (le_last_iff hlast k).1 hk
      exact hwrap k hkn hfails
    have hlast' := hlast
    simp only [← hsame] at hlast'
    obtain ⟨hrequest, hanswer⟩ := request_steps_eq hn hlt hmethod hc hlast'
    obtain ⟨htransport, hreply⟩ := transport_steps_eq (s := s) hn hcall hreplies hlast
    rw [hfactor, hpolicy] at hrequest htransport
    exact ⟨hrequest, hanswer, htransport, hreply⟩

end Policy

/-- Every attempt is refused, with so many retries and so long a factor. -/
def sampleRefused (retryTotal : UInt32) (factor : ℚ) : Env :=
  { sampleEnv with
    httpCfg := ⟨retryTotal, .fin factor, .fin 10⟩
    net := fun _ _ => .error "connection refused" }

def sampleRefusal : Except KubeError Unit := .error (.other "connection refused")

/-- Both loops give up after six attempts. -/
theorem retry_loops_follow_policy_sample :
    ∃ m, Retry.IsLast (fun _ => transportFails sampleRefusal) 5 m ∧
      FollowPolicy (sampleRefused 5 (11 / 10)) "http://host/k" none none false
        (.apiGet .configMap "ns" "a")
        (fun _ => sampleRefusal) (List.replicate 6 sampleRefusal) (11 / 10) sampleWorld.sys m := by
  refine (@retry_loops_follow_policy (sampleRefused 5 (11 / 10)) "http://host/k" none none false
    (.apiGet .configMap "ns" "a") Unit (fun _ => sampleRefusal)
    (List.replicate 6 sampleRefusal) (11 / 10) 5
    sampleWorld.sys rfl (by norm_num) rfl (by norm_num) (.inl rfl) rfl (fun i hi => ?_)
    fun _ => rfl).2
    ⟨⟨by decide +kernel, rfl⟩, fun k hk _ => ⟨fun hlt => by omega, fun hlt => by omega⟩⟩
  rw [List.getElem?_replicate, if_pos (by omega)]

theorem not_followPolicy {n k : ℕ} {retryTotal : UInt32} {f : ℚ} (hn : retryTotal.toNat = n)
    (hlt : n < 2 ^ 32 - 1) (hf : 0 ≤ f) (hk : k ≤ n) (hpause : ¬PauseFits f k) :
    ¬∃ m, Retry.IsLast (fun _ => transportFails sampleRefusal) n m ∧
      FollowPolicy (sampleRefused retryTotal f) "http://host/k" none none false
        (.apiGet .configMap "ns" "a") (fun _ => sampleRefusal)
        (List.replicate (n + 1) sampleRefusal)
        f sampleWorld.sys m := by
  rintro ⟨m, hlast, hfollow⟩
  have hreplies : ∀ i ≤ n, (List.replicate (n + 1) sampleRefusal)[i]? = some sampleRefusal :=
    fun i hi => by rw [List.getElem?_replicate, if_pos (by omega)]
  have hle := hlast.le
  obtain ⟨hsteps, -⟩ := @transport_steps_eq (sampleRefused retryTotal f)
    (.apiGet .configMap "ns" "a") Unit (fun _ => sampleRefusal)
    _ n m sampleWorld.sys hn rfl hreplies
    hlast
  rw [hfollow.transport_steps] at hsteps
  have hpolicy := (steps_eq_policy_iff hf (by omega)).1 (List.append_cancel_left hsteps).symm
  exact hpause (hpolicy k ((le_last_iff hlast _).2 ⟨hk, fun _ _ => rfl⟩))

/-- Before retry 1025 the power is infinite, and without a backoff there is a pause of 120 seconds;
before retry `2^31 + 1` the exponent is `-2^31`, and there is no pause. -/
theorem retry_loops_leave_policy :
    (¬∃ m, Retry.IsLast (fun _ => transportFails sampleRefusal) 1025 m ∧
      FollowPolicy (sampleRefused 1025 0) "http://host/k" none none false
        (.apiGet .configMap "ns" "a") (fun _ => sampleRefusal) (List.replicate 1026 sampleRefusal)
        0 sampleWorld.sys m) ∧
      ¬∃ m, Retry.IsLast (fun _ => transportFails sampleRefusal) 2147483649 m ∧
        FollowPolicy (sampleRefused 2147483649 1) "http://host/k" none none false
          (.apiGet .configMap "ns" "a") (fun _ => sampleRefusal)
          (List.replicate 2147483650 sampleRefusal) 1 sampleWorld.sys m := by
  refine ⟨not_followPolicy rfl (by norm_num) le_rfl le_rfl fun h => ?_,
    not_followPolicy rfl (by norm_num) zero_le_one le_rfl fun h => ?_⟩
  · have hlong := h.1 (by norm_num) (by norm_num)
    rw [zero_mul] at hlong
    linarith
  · rcases h.2 (by norm_num) with hzero | ⟨hlate, -⟩
    · exact one_ne_zero hzero
    · omega

/-! ## The settings -/

section Settings

variable {env : Env} {url : String} {method payload : Option String} {enable5xx : Bool}
  {call : Event} {α : Type} {o : ℕ → Except KubeError α} {replies : Replies α} {n m : ℕ} {s : Sys}

/-- A loop made an attempt, no more than are due, and did not panic. -/
def Attempts (n : ℕ) (s s' : Sys) : Prop :=
  ∃ steps, s'.retrySteps = s.retrySteps ++ steps ∧ .attempt ∈ steps ∧ steps.count .attempt ≤ n + 1 ∧
    .abort ∉ steps

/-- A second retry is made. -/
def RetriesTwice (fails : ℕ → Bool) (n : ℕ) : Prop := 2 ≤ n ∧ fails 0 = true ∧ fails 1 = true

theorem retriesTwice_iff {fails : ℕ → Bool} (h : Retry.IsLast fails n m) :
    RetriesTwice fails n ↔ 2 ≤ m := by
  rw [le_last_iff h]
  unfold RetriesTwice
  constructor
  · rintro ⟨hn, h0, h1⟩
    refine ⟨hn, fun i hi => ?_⟩
    obtain rfl | rfl : i = 0 ∨ i = 1 := by omega
    · exact h0
    · exact h1
  · rintro ⟨hn, hall⟩
    exact ⟨hn, hall 0 (by norm_num), hall 1 (by norm_num)⟩

theorem attempt_notMem_pause (factor : F64) (k : ℕ) : .attempt ∉ pauseSteps factor k := by
  unfold pauseSteps
  split
  · cases (backoffDelay factor k).toDuration <;> simp
  · exact List.not_mem_nil

theorem lt_of_abort_mem_pause {factor : F64} {k : ℕ} (h : .abort ∈ pauseSteps factor k) :
    1 < k ∧ factor.lt (.fin 0) = true := by
  unfold pauseSteps at h
  split at h
  · next hk =>
    refine ⟨hk, ?_⟩
    cases hdelay : (backoffDelay factor k).toDuration with
    | none => exact F64.lt_of_capped_toDuration (by norm_num) (by norm_num) hdelay
    | some d => simp [hdelay] at h
  · cases h

/-- The first pause of all. -/
theorem abort_mem_pause_two {factor : F64} (h : factor.lt (.fin 0) = true) :
    .abort ∈ pauseSteps factor 2 := by
  have hdelay : (backoffDelay factor 2).toDuration = none := by
    unfold backoffDelay
    rw [asI32_exponent (by norm_num) (by norm_num), if_pos (by norm_num)]
    exact F64.capped_toDuration_of_lt (by norm_num) 120 h
  unfold pauseSteps
  rw [if_pos (by norm_num), hdelay]
  exact List.mem_singleton_self _

/-- The steps of a loop panic if there is a second retry with a negative factor. -/
theorem attempts_steps_iff {factor : F64} {s' : Sys} (hm : m ≤ n)
    (h : s'.retrySteps = s.retrySteps ++ Retry.steps (pauseSteps factor) .attempt m) :
    Attempts n s s' ↔ (factor.lt (.fin 0) = true → ¬2 ≤ m) := by
  have hcount : (Retry.steps (pauseSteps factor) RetryStep.attempt m).count .attempt = m + 1 :=
    Retry.count_stepsFrom (attempt_notMem_pause factor) 0 (m + 1)
  have habort : .abort ∈ Retry.steps (pauseSteps factor) RetryStep.attempt m ↔
      2 ≤ m ∧ factor.lt (.fin 0) = true := by
    rw [Retry.mem_steps]
    constructor
    · rintro (⟨k, hk, hmem⟩ | hattempt)
      · obtain ⟨hlt, hneg⟩ := lt_of_abort_mem_pause hmem
        exact ⟨by omega, hneg⟩
      · cases hattempt
    · rintro ⟨htwo, hneg⟩
      exact .inl ⟨2, htwo, abort_mem_pause_two hneg⟩
  constructor
  · rintro ⟨steps, hsteps, -, -, hnot⟩ hneg htwo
    rw [h] at hsteps
    rw [← List.append_cancel_left hsteps] at hnot
    exact hnot (habort.2 ⟨htwo, hneg⟩)
  · intro hfew
    refine ⟨_, h, Retry.mem_steps.2 (.inr rfl), by omega, fun hmem => ?_⟩
    obtain ⟨htwo, hneg⟩ := habort.1 hmem
    exact hfew hneg htwo

/-- **The settings work** exactly if the number of attempts does not wrap, there is a client, and no
second retry is made with a negative factor. -/
theorem retry_settings_work (hn : env.httpCfg.retryTotal.toNat = n) (hmethod : ValidMethod method)
    (hcall : call.retryStep? = some .attempt) (hreplies : ∀ i ≤ n, replies[i]? = some (o i)) :
    ((env.httpCfg.retryTotal + 1).toNat = n + 1 ∧
        Attempts n s (request env (some url) method enable5xx payload s).2 ∧
        Attempts n s (withTransportRetry env (emit call) replies 0 s).2) ↔
      n ≠ 2 ^ 32 - 1 ∧ env.Connects ∧ (env.httpCfg.backoffFactor.lt (.fin 0) = true →
        ¬RetriesTwice (fun i => httpFails (enforcedStatus enable5xx)
          (env.net (s.netTick + i) ⟨url, isGetMethod method, payload⟩)) n ∧
        ¬RetriesTwice (fun i => transportFails (o i)) n) := by
  have hlast := Retry.isLast_lastFrom (fun i => httpFails (enforcedStatus enable5xx)
    (env.net (s.netTick + i) ⟨url, isGetMethod method, payload⟩)) n
  have hlast' := Retry.isLast_lastFrom (fun i => transportFails (o i)) n
  obtain ⟨htransport, -⟩ := transport_steps_eq (s := s) hn hcall hreplies hlast'
  rw [attempts_steps_iff hlast'.le htransport, retriesTwice_iff hlast, retriesTwice_iff hlast']
  have hbound : n < 2 ^ 32 := hn ▸ env.httpCfg.retryTotal.toNat_lt
  by_cases hmax : n = 2 ^ 32 - 1
  · -- no attempt is left
    have hwrap : (env.httpCfg.retryTotal + 1).toNat = 0 := by
      rw [UInt32.toNat_add, hn, hmax]
      rfl
    rw [hwrap]
    exact iff_of_false (fun h => absurd h.1 (by omega)) fun h => h.1 hmax
  have hattempts : (env.httpCfg.retryTotal + 1).toNat = n + 1 := by
    rw [toNat_add_one (by omega), hn]
  by_cases hc : env.Connects
  · obtain ⟨hrequest, -⟩ := request_steps_eq hn (by omega) hmethod hc hlast
    rw [attempts_steps_iff hlast.le hrequest]
    constructor
    · rintro ⟨-, hfirst, hsecond⟩
      exact ⟨hmax, hc, fun hneg => ⟨hfirst hneg, hsecond hneg⟩⟩
    · rintro ⟨-, -, hfew⟩
      exact ⟨hattempts, fun hneg => (hfew hneg).1, fun hneg => (hfew hneg).2⟩
  · refine iff_of_false (fun h => ?_) fun h => hc h.2.1
    obtain ⟨-, hquiet⟩ := request_of_not_connects url payload enable5xx hmethod hc s
    obtain ⟨steps, hsteps, hattempt, -, -⟩ := h.2.1
    rw [hsteps] at hquiet
    rw [List.append_cancel_left hquiet] at hattempt
    split at hattempt <;> simp at hattempt

end Settings

theorem retry_settings_work_sample :
    Attempts 5 sampleWorld.sys
      (request (sampleRefused 5 (11 / 10)) (some "http://host/k") none false none
        sampleWorld.sys).2 ∧
      Attempts 5 sampleWorld.sys (withTransportRetry (sampleRefused 5 (11 / 10))
        (emit (.apiGet .configMap "ns" "a")) (List.replicate 6 sampleRefusal)
          0 sampleWorld.sys).2 := by
  refine ((@retry_settings_work (sampleRefused 5 (11 / 10)) "http://host/k" none none false
    (.apiGet .configMap "ns" "a") Unit (fun _ => sampleRefusal) (List.replicate 6 sampleRefusal) 5
    sampleWorld.sys rfl (.inl rfl) rfl fun i hi => ?_).2 ⟨by norm_num, ⟨by decide +kernel, rfl⟩,
      fun hneg => ?_⟩).2
  · rw [List.getElem?_replicate, if_pos (by omega)]
  · exact absurd hneg (by decide +kernel)

/-- The samples with a timeout of their own. -/
def sampleTimeout (timeout : F64) : Env :=
  { sampleEnv with httpCfg := ⟨5, .fin (11 / 10), timeout⟩ }

/-- With the largest number of retries there is no attempt, with a negative factor the second retry
panics, and with a negative timeout the first attempt. -/
theorem retry_settings_break :
    (∀ s, ¬Attempts 4294967295 s
      (request (sampleRefused 4294967295 1) (some "http://host/k") none false none s).2) ∧
      ¬Attempts 5 sampleWorld.sys
        (request (sampleRefused 5 (-1)) (some "http://host/k") none false none
        sampleWorld.sys).2 ∧
      ¬Attempts 5 sampleWorld.sys
        (request (sampleTimeout (.fin (-1))) (some "http://host/k") none false none
        sampleWorld.sys).2 := by
  have hpanics : ∀ {n : ℕ} {s : Sys}, .abort ∈ s.retrySteps → ¬Attempts n sampleWorld.sys s := by
    rintro n s habort ⟨steps, hsteps, -, -, hnot⟩
    have hnew : s.retrySteps = steps := hsteps
    exact hnot (hnew ▸ habort)
  refine ⟨fun s => ?_, hpanics (by decide +kernel), hpanics (by decide +kernel)⟩
  rintro ⟨steps, hsteps, hattempt, -, -⟩
  obtain ⟨-, hquiet⟩ := @requestLoop_exhausted (sampleRefused 4294967295 1) (enforcedStatus false)
    ⟨"http://host/k", isGetMethod none, none⟩ 0 none s
  rw [request_of_connects "http://host/k" none false (.inl rfl) ⟨by decide +kernel, rfl⟩] at hsteps
  have hnone : ((sampleRefused 4294967295 1).httpCfg.retryTotal + 1).toNat = 0 := by decide
  rw [hnone, hquiet] at hsteps
  rw [List.self_eq_append_right.1 hsteps] at hattempt
  cases hattempt

end Sidecar
