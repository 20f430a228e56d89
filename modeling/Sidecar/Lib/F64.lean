import Mathlib

/-!
# Floating-point settings as extended exact numbers

An `f64` without rounding: not a number, an infinity or a rational. Powers of two have the range
they have as an `f64`. Enough for settings that are parsed, multiplied by a power of two, capped
and turned into a duration.
-/

/-- An `f64` without rounding. -/
inductive F64
  | nan
  | inf (neg : Bool)
  | fin (q : ℚ)
  deriving DecidableEq

namespace F64

def mul : F64 → F64 → F64
  | .fin a, .fin b => .fin (a * b)
  | .inf s, .inf t => .inf (s != t)
  | .inf s, .fin b => if b = 0 then .nan else .inf (s != decide (b < 0))
  | .fin a, .inf t => if a = 0 then .nan else .inf (t != decide (a < 0))
  | .nan, _ => .nan
  | _, .nan => .nan

def lt : F64 → F64 → Bool
  | .fin a, .fin b => decide (a < b)
  | .inf s, .inf t => s && !t
  | .inf s, .fin _ => s
  | .fin _, .inf t => !t
  | .nan, _ => false
  | _, .nan => false

/-- `f64::min`: the other operand when one is not a number. -/
def min : F64 → F64 → F64
  | .nan, y => y
  | x, .nan => x
  | x, y => if lt y x then y else x

/-- `2f64.powi(n)`: from `2^1024` on it is no finite number, and a negative power is the inverse of
the positive one. -/
def powiTwo (n : ℤ) : F64 :=
  if 1024 ≤ n then .inf false else if n < -1023 then .fin 0 else .fin (2 ^ n)

/-- `Duration::from_secs_f64`, which panics (`none`) on a value that is negative, not finite or
does not fit in 64 bits of seconds. -/
def toDuration : F64 → Option ℚ
  | .fin q => if 0 ≤ q ∧ q < 2 ^ 64 then some q else none
  | _ => none

/-! ## Capped delays -/

theorem min_fin (a b : ℚ) : (fin a).min (fin b) = fin (Min.min a b) := by
  unfold min lt
  by_cases h : b < a
  · simp [h, min_eq_right h.le]
  · simp [h, min_eq_left (not_lt.1 h)]

theorem toDuration_fin {q : ℚ} (h : 0 ≤ q) (h' : q < 2 ^ 64) : (fin q).toDuration = some q :=
  if_pos ⟨h, h'⟩

theorem powiTwo_fin {n : ℤ} (h : -1023 ≤ n) (h' : n < 1024) : powiTwo n = .fin (2 ^ n) := by
  unfold powiTwo
  rw [if_neg (not_le.2 h'), if_neg (not_lt.2 h)]

/-- A power that is no finite number is cut at the cap, whatever it is multiplied with. -/
theorem capped_overflow {q : ℚ} (hq : 0 ≤ q) {n : ℤ} (h : 1024 ≤ n) (cap : ℚ) :
    ((fin q).mul (powiTwo n)).min (fin cap) = fin cap := by
  unfold powiTwo
  rw [if_pos h]
  by_cases hzero : q = 0
  · simp [mul, hzero, min]
  · have hpos : ¬q < 0 := not_lt.2 hq
    simp [mul, hzero, hpos, min, lt]

theorem capped_underflow (q : ℚ) {n : ℤ} (h : n < -1023) {cap : ℚ} (hcap : 0 ≤ cap) :
    ((fin q).mul (powiTwo n)).min (fin cap) = fin 0 := by
  unfold powiTwo
  rw [if_neg (by omega), if_pos h]
  change (fin (q * 0)).min (fin cap) = fin 0
  rw [mul_zero, min_fin, min_eq_left hcap]

theorem capped_fin (q : ℚ) {n : ℤ} (h : -1023 ≤ n) (h' : n < 1024) (cap : ℚ) :
    ((fin q).mul (powiTwo n)).min (fin cap) = fin (Min.min (q * 2 ^ n) cap) := by
  rw [powiTwo_fin h h']
  exact min_fin _ _

/-- What is capped is a duration, unless the factor is negative. -/
theorem lt_of_capped_toDuration {factor : F64} {n : ℤ} {cap : ℚ} (h : 0 ≤ cap) (h' : cap < 2 ^ 64)
    (hnone : ((factor.mul (powiTwo n)).min (fin cap)).toDuration = none) :
    factor.lt (fin 0) = true := by
  have hcap : (fin cap).toDuration = some cap := toDuration_fin h h'
  cases factor with
  | nan => simp [mul, min, hcap] at hnone
  | inf neg =>
    cases neg with
    | true => rfl
    | false =>
      have hmul : (inf false).mul (powiTwo n) = inf false ∨ (inf false).mul (powiTwo n) = nan := by
        unfold powiTwo
        split
        · exact .inl rfl
        · split
          · exact .inr rfl
          · have hpow : (0 : ℚ) < 2 ^ n := zpow_pos (by norm_num) n
            exact .inl (by simp [mul, hpow.ne', not_lt.2 hpow.le])
      rcases hmul with hmul | hmul <;> simp [hmul, min, lt, hcap] at hnone
  | fin q =>
    by_contra hneg
    have hq : 0 ≤ q := by simpa [lt] using hneg
    by_cases hover : 1024 ≤ n
    · rw [capped_overflow hq hover, hcap] at hnone
      cases hnone
    by_cases hunder : n < -1023
    · rw [capped_underflow q hunder h, toDuration_fin le_rfl (by norm_num)] at hnone
      cases hnone
    · have hpos : 0 ≤ q * 2 ^ n := mul_nonneg hq (zpow_pos (by norm_num) n).le
      rw [capped_fin q (not_lt.1 hunder) (not_le.1 hover),
        toDuration_fin (le_min hpos h) ((min_le_right _ _).trans_lt h')] at hnone
      cases hnone

/-- With a negative one it is none, where the power has not vanished. -/
theorem capped_toDuration_of_lt {factor : F64} {n : ℤ} (hn : -1023 ≤ n) (cap : ℚ)
    (hneg : factor.lt (fin 0) = true) :
    ((factor.mul (powiTwo n)).min (fin cap)).toDuration = none := by
  have hminus : ((inf true).min (fin cap)).toDuration = none := by simp [min, lt, toDuration]
  have hpow : (0 : ℚ) < 2 ^ n := zpow_pos (by norm_num) n
  cases factor with
  | nan => simp [lt] at hneg
  | inf neg =>
    cases neg with
    | false => simp [lt] at hneg
    | true =>
      have hmul : (inf true).mul (powiTwo n) = inf true := by
        unfold powiTwo
        split
        · rfl
        · rw [if_neg (not_lt.2 hn)]
          simp [mul, hpow.ne', not_lt.2 hpow.le]
      rw [hmul, hminus]
  | fin q =>
    have hq : q < 0 := by simpa [lt] using hneg
    by_cases hover : 1024 ≤ n
    · have hmul : (fin q).mul (powiTwo n) = inf true := by
        unfold powiTwo
        rw [if_pos hover]
        simp [mul, hq.ne, hq]
      rw [hmul, hminus]
    · rw [capped_fin q hn (not_le.1 hover)]
      refine if_neg fun hle => ?_
      exact absurd (hle.1.trans (min_le_left _ _)) (not_le.2 (mul_neg_of_neg_of_pos hq hpow))

end F64
