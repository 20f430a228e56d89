import Mathlib.Data.List.Nodup
import Mathlib.Data.List.Perm.Basic
import Mathlib.Logic.Function.Basic

/-!
# A keyed store with suppressed assignments

A store maps paths to values. An assignment sets one path to a value or to nothing; it is
suppressed when what is there already has the same digest, and reports whether it was not. A list
of assignments is applied in order and reports whether any of them changed the store.

When the paths are pairwise distinct the outcome can be read off the list (`settled_of_mem`,
`changed_iff`), and a list that is settled changes nothing (`run_of_settled`).
-/

namespace Store

variable {P V D : Type} [DecidableEq P] [DecidableEq D] (dig : V → D)

/-- Set `path` to `value`; `none` deletes. -/
structure Assign (P V : Type) where
  path : P
  value : Option V

/-- The assignment would set what is already there, as far as digests tell. -/
def Settled (σ : P → Option V) (a : Assign P V) : Prop := (σ a.path).map dig = a.value.map dig

instance (σ : P → Option V) (a : Assign P V) : Decidable (Settled dig σ a) :=
  inferInstanceAs (Decidable (_ = _))

def step (σ : P → Option V) (a : Assign P V) : Bool × (P → Option V) :=
  if Settled dig σ a then (false, σ) else (true, Function.update σ a.path a.value)

/-- Apply a list of assignments; the flag tells whether any of them changed the store. -/
def run (σ : P → Option V) : List (Assign P V) → Bool × (P → Option V)
  | [] => (false, σ)
  | a :: as => ((step dig σ a).1 || (run (step dig σ a).2 as).1, (run (step dig σ a).2 as).2)

variable {dig} {σ : P → Option V}

theorem step_of_settled {a : Assign P V} (h : Settled dig σ a) :
    step dig σ a = (false, σ) := if_pos h

theorem step_of_not_settled {a : Assign P V} (h : ¬Settled dig σ a) :
    step dig σ a = (true, Function.update σ a.path a.value) := if_neg h

theorem step_of_ne {a : Assign P V} {p : P} (h : a.path ≠ p) : (step dig σ a).2 p = σ p := by
  unfold step
  split
  · rfl
  · exact Function.update_of_ne h.symm ..

/-- After an assignment the path has its value, up to the digest. -/
theorem step_settled (a : Assign P V) : Settled dig (step dig σ a).2 a := by
  unfold step
  split
  · assumption
  · unfold Settled
    dsimp only
    rw [Function.update_self]

theorem step_changed (a : Assign P V) : (step dig σ a).1 = true ↔ ¬Settled dig σ a := by
  unfold step
  split <;> simp [*]

omit [DecidableEq P] [DecidableEq D] in
theorem settled_congr {σ' : P → Option V} {a : Assign P V} (h : σ' a.path = σ a.path) :
    Settled dig σ' a ↔ Settled dig σ a := by
  unfold Settled
  rw [h]

@[simp] theorem run_nil : run dig σ [] = (false, σ) := rfl

theorem run_cons (a : Assign P V) (as : List (Assign P V)) :
    run dig σ (a :: as) =
      ((step dig σ a).1 || (run dig (step dig σ a).2 as).1, (run dig (step dig σ a).2 as).2) := rfl

/-- A path no assignment names keeps its value. -/
theorem apply_of_not_mem {as : List (Assign P V)} {p : P} (h : ∀ a ∈ as, a.path ≠ p) :
    (run dig σ as).2 p = σ p := by
  induction as generalizing σ with
  | nil => rfl
  | cons a as ih =>
    rw [run_cons]
    dsimp only
    rw [ih fun b hb => h b (List.mem_cons_of_mem a hb), step_of_ne (h a List.mem_cons_self)]

/-- A value in the store was there before or was assigned. -/
theorem apply_cases (dig : V → D) (σ : P → Option V) (as : List (Assign P V)) (p : P) :
    (run dig σ as).2 p = σ p ∨ ∃ a ∈ as, a.path = p ∧ (run dig σ as).2 p = a.value := by
  induction as generalizing σ with
  | nil => exact .inl rfl
  | cons a as ih =>
    rw [run_cons]
    obtain h | ⟨b, hb, hp, hv⟩ := ih (step dig σ a).2
    · dsimp only
      rw [h]
      by_cases hp : a.path = p
      · unfold step
        split
        · exact .inl rfl
        · refine .inr ⟨a, List.mem_cons_self, hp, ?_⟩
          rw [← hp]
          exact Function.update_self ..
      · exact .inl (step_of_ne hp)
    · exact .inr ⟨b, List.mem_cons_of_mem a hb, hp, hv⟩

/-- With distinct paths every assignment lasts. -/
theorem settled_of_mem {as : List (Assign P V)} (hn : (as.map Assign.path).Nodup)
    {a : Assign P V} (ha : a ∈ as) : Settled dig (run dig σ as).2 a := by
  induction as generalizing σ with
  | nil => cases ha
  | cons b as ih =>
    rw [List.map_cons, List.nodup_cons] at hn
    rw [run_cons]
    rcases List.mem_cons.1 ha with rfl | ha
    · have hlast : (run dig (step dig σ a).2 as).2 a.path = (step dig σ a).2 a.path := by
        refine apply_of_not_mem fun c hc e => hn.1 ?_
        rw [← e]
        exact List.mem_map_of_mem hc
      exact (settled_congr hlast).2 (step_settled a)
    · exact ih hn.2 ha

/-- The flag is down when every assignment sets what is already there. -/
theorem run_of_settled {as : List (Assign P V)} (h : ∀ a ∈ as, Settled dig σ a) :
    run dig σ as = (false, σ) := by
  induction as with
  | nil => rfl
  | cons a as ih =>
    rw [run_cons, step_of_settled (h a List.mem_cons_self), ih fun b hb =>
      h b (List.mem_cons_of_mem a hb)]
    rfl

/-- With distinct paths the flag tells whether some assignment differs from the store before. -/
theorem changed_iff {as : List (Assign P V)} (hn : (as.map Assign.path).Nodup) :
    (run dig σ as).1 = true ↔ ∃ a ∈ as, ¬Settled dig σ a := by
  induction as generalizing σ with
  | nil => simp
  | cons a as ih =>
    rw [List.map_cons, List.nodup_cons] at hn
    have hkeep : ∀ b ∈ as, Settled dig (step dig σ a).2 b ↔ Settled dig σ b := fun b hb => by
      refine settled_congr (step_of_ne fun e => hn.1 ?_)
      rw [e]
      exact List.mem_map_of_mem hb
    simp only [run_cons, Bool.or_eq_true, step_changed, ih hn.2, List.mem_cons, exists_eq_or_imp]
    refine or_congr Iff.rfl (exists_congr fun b => and_congr_right fun hb => ?_)
    rw [hkeep b hb]

end Store
