import Mathlib.Data.List.Flatten
import Mathlib.Data.Nat.Basic

/-!
# Retrying

Attempts are numbered from 0, and `fails i` says whether attempt `i` would fail. With at most `n`
retries the attempts stop at the first that does not fail, or with the one after the last retry
(`IsLast`). A retry loop may pause before an attempt (`run`) or after a failed one (`runAfter`):
with nothing before the first attempt it is the same (`pause_runAfter`).
-/

namespace Retry

/-- `m` is the last attempt when at most `n` retries are made. -/
structure IsLast (fails : ℕ → Bool) (n m : ℕ) : Prop where
  le : m ≤ n
  before : ∀ i < m, fails i = true
  stop : m < n → fails m = false

theorem IsLast.unique {fails : ℕ → Bool} {n m m' : ℕ} (h : IsLast fails n m)
    (h' : IsLast fails n m') :
    m = m' := by
  have key : ∀ {m m'}, IsLast fails n m → IsLast fails n m' → ¬m < m' := by
    intro m m' h h' hlt
    have hfails := h'.before m hlt
    rw [h.stop (Nat.lt_of_lt_of_le hlt h'.le)] at hfails
    cases hfails
  exact Nat.le_antisymm (Nat.not_lt.1 (key h' h)) (Nat.not_lt.1 (key h h'))

/-- The last attempt from attempt `k` on, with `r` retries left. -/
def lastFrom (fails : ℕ → Bool) : (r k : ℕ) → ℕ
  | 0, k => k
  | r + 1, k => if fails k then lastFrom fails r (k + 1) else k

theorem le_lastFrom (fails : ℕ → Bool) (r k : ℕ) : k ≤ lastFrom fails r k := by
  induction r generalizing k with
  | zero => exact Nat.le_refl k
  | succ r ih =>
    unfold lastFrom
    split
    · exact Nat.le_of_succ_le (ih (k + 1))
    · exact Nat.le_refl k

theorem isLast_lastFrom_aux {fails : ℕ → Bool} {n r k : ℕ} (hn : k + r = n)
    (hbefore : ∀ i < k, fails i = true) : IsLast fails n (lastFrom fails r k) := by
  induction r generalizing k with
  | zero => exact ⟨by simp [lastFrom, ← hn], hbefore, fun h => absurd h (by simp [lastFrom, ← hn])⟩
  | succ r ih =>
    unfold lastFrom
    split
    · next hk =>
      refine ih (by omega) fun i hi => ?_
      rcases Nat.lt_succ_iff_lt_or_eq.1 hi with hlt | rfl
      · exact hbefore i hlt
      · exact hk
    · next hk => exact ⟨by omega, hbefore, fun _ => by simpa using hk⟩

/-- There is a last attempt. -/
theorem isLast_lastFrom (fails : ℕ → Bool) (n : ℕ) : IsLast fails n (lastFrom fails n 0) :=
  isLast_lastFrom_aux (Nat.zero_add n) fun i hi => absurd hi (Nat.not_lt_zero i)

section Steps

variable {σ : Type} (pause : ℕ → List σ) (attempt : σ) (fails : ℕ → Bool)

/-- The steps of `len` attempts from attempt `k` on. -/
def stepsFrom (k len : ℕ) : List σ := (List.range' k len).flatMap fun i => pause i ++ [attempt]

/-- The steps of the attempts up to `m`. -/
def steps (m : ℕ) : List σ := stepsFrom pause attempt 0 (m + 1)

/-- A loop that pauses before each attempt: from attempt `k` on, with `r` retries left. -/
def run : (r k : ℕ) → List σ
  | 0, k => pause k ++ [attempt]
  | r + 1, k => pause k ++ attempt :: if fails k then run r (k + 1) else []

/-- A loop that pauses after each failed attempt that is retried. -/
def runAfter : (r k : ℕ) → List σ
  | 0, _ => [attempt]
  | r + 1, k => attempt :: if fails k then pause (k + 1) ++ runAfter r (k + 1) else []

theorem pause_runAfter (r k : ℕ) :
    pause k ++ runAfter pause attempt fails r k = run pause attempt fails r k := by
  induction r generalizing k with
  | zero => rfl
  | succ r ih =>
    unfold run runAfter
    rw [ih]

theorem stepsFrom_succ (k len : ℕ) :
    stepsFrom pause attempt k (len + 1) = pause k ++ attempt :: stepsFrom pause attempt
      (k + 1) len := by
  unfold stepsFrom
  rw [List.range'_succ, List.flatMap_cons, List.append_assoc]
  rfl

/-- A loop makes the steps up to its last attempt. -/
theorem run_eq_stepsFrom (r k : ℕ) :
    run pause attempt fails r k = stepsFrom pause attempt k (lastFrom fails r k - k + 1) := by
  induction r generalizing k with
  | zero =>
    unfold run lastFrom
    rw [stepsFrom_succ, Nat.sub_self]
    rfl
  | succ r ih =>
    have hle := le_lastFrom fails r (k + 1)
    unfold run lastFrom
    rw [stepsFrom_succ]
    split
    · have hlen : lastFrom fails r (k + 1) - k = lastFrom fails r (k + 1) - (k + 1) + 1 := by omega
      rw [ih, hlen]
    · rw [Nat.sub_self]
      rfl

/-- **A retry loop** makes the steps of the attempts up to the last one. -/
theorem run_eq_steps {n m : ℕ} (h : IsLast fails n m) :
    run pause attempt fails n 0 = steps pause attempt m := by
  rw [run_eq_stepsFrom, h.unique (isLast_lastFrom fails n)]
  rfl

variable {pause attempt}

theorem stepsFrom_inj {pause' : ℕ → List σ}
    (hlen : ∀ i, (pause i).length = (pause' i).length) (k len : ℕ) :
    stepsFrom pause attempt k len = stepsFrom pause' attempt k len ↔
      ∀ i, k ≤ i → i < k + len → pause i = pause' i := by
  induction len generalizing k with
  | zero => exact iff_of_true rfl fun i hi hlt => by omega
  | succ len ih =>
    rw [stepsFrom_succ, stepsFrom_succ]
    constructor
    · intro h i hi hlt
      obtain ⟨hpause, hrest⟩ := List.append_inj h (hlen k)
      rcases Nat.eq_or_lt_of_le hi with rfl | hgt
      · exact hpause
      · exact (ih (k + 1)).1 (List.cons.inj hrest).2 i hgt (by omega)
    · intro h
      rw [h k (Nat.le_refl k) (by omega), (ih (k + 1)).2 fun i hi hlt => h i (by omega) (by omega)]

/-- Which pauses there were can be read off the steps. -/
theorem steps_inj {pause' : ℕ → List σ} (hlen : ∀ i, (pause i).length = (pause' i).length) (m : ℕ) :
    steps pause attempt m = steps pause' attempt m ↔ ∀ i ≤ m, pause i = pause' i := by
  unfold steps
  rw [stepsFrom_inj hlen]
  exact ⟨fun h i hi => h i (Nat.zero_le i) (by omega), fun h i _ hi => h i (by omega)⟩

theorem mem_steps {x : σ} {m : ℕ} :
    x ∈ steps pause attempt m ↔ (∃ k ≤ m, x ∈ pause k) ∨ x = attempt := by
  unfold steps stepsFrom
  simp only [List.mem_flatMap, List.mem_range'_1, List.mem_append, List.mem_singleton]
  constructor
  · rintro ⟨k, hk, hx | hx⟩
    · exact .inl ⟨k, by omega, hx⟩
    · exact .inr hx
  · rintro (⟨k, hk, hx⟩ | hx)
    · exact ⟨k, by omega, .inl hx⟩
    · exact ⟨0, by omega, .inr hx⟩

theorem count_stepsFrom [DecidableEq σ] (h : ∀ k, attempt ∉ pause k) (k len : ℕ) :
    (stepsFrom pause attempt k len).count attempt = len := by
  induction len generalizing k with
  | zero => rfl
  | succ len ih =>
    rw [stepsFrom_succ, List.count_append, List.count_cons_self, ih, List.count_eq_zero.2 (h k)]
    omega

end Steps

end Retry
