/-!
# State transformers

Programs written in `StateM σ` are functions from a state to a result and a state. Besides what
unfolds one at a state there are rules that go by the parts of a program: it *moves along* a
preorder when every run of it relates the state before to the state after (or every run that answers
`false`), it *commutes* with a change of the state, it *agrees* along a relation when it cannot tell
related states apart, and it *simulates* another along a map of states.
-/

namespace StateM

variable {σ α β : Type}

@[simp] theorem bind_apply (x : StateM σ α) (f : α → StateM σ β) (s : σ) :
    (x >>= f) s = f (x s).1 (x s).2 := rfl

@[simp] theorem pure_apply (a : α) (s : σ) : (pure a : StateM σ α) s = (a, s) := rfl

@[simp] theorem map_apply (f : α → β) (x : StateM σ α) (s : σ) :
    (f <$> x) s = (f (x s).1, (x s).2) := rfl

@[simp] theorem ite_apply (c : Prop) [Decidable c] (x y : StateM σ α) (s : σ) :
    (if c then x else y) s = if c then x s else y s := by
  split <;> rfl

/-- Run `x` and go on with its value; an error ends the program (Rust's `?`). -/
def andThen {ε : Type} (x : StateM σ (Except ε α)) (f : α → StateM σ (Except ε β)) :
    StateM σ (Except ε β) := do
  match ← x with
  | .ok a => f a
  | .error e => pure (.error e)

theorem andThen_ok {ε : Type} {x : StateM σ (Except ε α)} {s : σ} {a : α} (h : (x s).1 = .ok a)
    (f : α → StateM σ (Except ε β)) : andThen x f s = f a (x s).2 := by
  unfold andThen
  rw [bind_apply, h]

theorem andThen_error {ε : Type} {x : StateM σ (Except ε α)} {s : σ} {e : ε}
    (h : (x s).1 = .error e) (f : α → StateM σ (Except ε β)) :
    andThen x f s = (.error e, (x s).2) := by
  unfold andThen
  rw [bind_apply, h]
  rfl

/-- Every run of `x` goes from a state to an `R`-related one. -/
def Moves (R : σ → σ → Prop) (x : StateM σ α) : Prop := ∀ s, R s (x s).2

/-- A relation that programs can be composed along. -/
structure Preorder (R : σ → σ → Prop) : Prop where
  refl : ∀ s, R s s
  trans : ∀ {s t u}, R s t → R t u → R s u

namespace Moves

variable {R : σ → σ → Prop}

theorem pure (h : Preorder R) (a : α) : Moves R (Pure.pure a : StateM σ α) := fun s => h.refl s

theorem bind (h : Preorder R) {x : StateM σ α} {f : α → StateM σ β} (hx : Moves R x)
    (hf : ∀ a, Moves R (f a)) : Moves R (x >>= f) := fun s => h.trans (hx s) (hf _ _)

theorem andThen (h : Preorder R) {ε : Type} {x : StateM σ (Except ε α)}
    {f : α → StateM σ (Except ε β)} (hx : Moves R x) (hf : ∀ a, Moves R (f a)) :
    Moves R (StateM.andThen x f) := by
  refine Moves.bind h hx fun out => ?_
  cases out with
  | ok a => exact hf a
  | error e => exact Moves.pure h _

theorem ite {c : Prop} [Decidable c] {x y : StateM σ α} (hx : Moves R x) (hy : Moves R y) :
    Moves R (if c then x else y) := by
  split
  · exact hx
  · exact hy

theorem mono {S : σ → σ → Prop} (hRS : ∀ s t, R s t → S s t) {x : StateM σ α} (hx : Moves R x) :
    Moves S x := fun s => hRS _ _ (hx s)

end Moves

/-- A run of `x` that answers `false` goes from a state to an `R`-related one. -/
def MovesIfFalse (R : σ → σ → Prop) (x : StateM σ Bool) : Prop :=
  ∀ s, (x s).1 = false → R s (x s).2

namespace MovesIfFalse

variable {R : σ → σ → Prop}

theorem pure (h : Preorder R) (b : Bool) : MovesIfFalse R (Pure.pure b : StateM σ Bool) :=
  fun s _ => h.refl s

theorem bind (h : Preorder R) {x : StateM σ α} {f : α → StateM σ Bool} (hx : Moves R x)
    (hf : ∀ a, MovesIfFalse R (f a)) : MovesIfFalse R (x >>= f) := fun s hs =>
  h.trans (hx s) (hf _ _ hs)

/-- A program that answers `false` when both its parts do. -/
theorem either (h : Preorder R) {x y : StateM σ Bool} (hx : MovesIfFalse R x)
    (hy : MovesIfFalse R y) : MovesIfFalse R (do
      let a ← x
      let b ← y
      Pure.pure (a || b)) := by
  intro s hs
  simp only [bind_apply, pure_apply, Bool.or_eq_false_iff] at hs
  exact h.trans (hx s hs.1) (hy _ hs.2)

end MovesIfFalse

/-- Running `x` after the change `f` of the state is running it before. -/
def Commutes (f : σ → σ) (x : StateM σ α) : Prop := ∀ s, x (f s) = ((x s).1, f (x s).2)

namespace Commutes

variable {f : σ → σ}

theorem pure (a : α) : Commutes f (Pure.pure a : StateM σ α) := fun _ => rfl

theorem bind {x : StateM σ α} {g : α → StateM σ β} (hx : Commutes f x)
    (hg : ∀ a, Commutes f (g a)) : Commutes f (x >>= g) := by
  intro s
  rw [bind_apply, hx s]
  exact hg _ _

theorem andThen {ε : Type} {x : StateM σ (Except ε α)} {g : α → StateM σ (Except ε β)}
    (hx : Commutes f x) (hg : ∀ a, Commutes f (g a)) : Commutes f (StateM.andThen x g) := by
  refine bind hx fun out => ?_
  cases out with
  | ok a => exact hg a
  | error e => exact pure _

theorem ite {c : Prop} [Decidable c] {x y : StateM σ α} (hx : Commutes f x) (hy : Commutes f y) :
    Commutes f (if c then x else y) := by
  split
  · exact hx
  · exact hy

end Commutes

/-- From related states `x` gives one answer, and related states. -/
def Agrees (R : σ → σ → Prop) (x : StateM σ α) : Prop :=
  ∀ s s', R s s' → (x s).1 = (x s').1 ∧ R (x s).2 (x s').2

namespace Agrees

variable {R : σ → σ → Prop}

theorem pure (a : α) : Agrees R (Pure.pure a : StateM σ α) := fun _ _ h => ⟨rfl, h⟩

theorem bind {x : StateM σ α} {f : α → StateM σ β} (hx : Agrees R x) (hf : ∀ a, Agrees R (f a)) :
    Agrees R (x >>= f) := by
  intro s s' h
  obtain ⟨ha, hr⟩ := hx s s' h
  rw [bind_apply, bind_apply, ha]
  exact hf _ _ _ hr

theorem andThen {ε : Type} {x : StateM σ (Except ε α)} {f : α → StateM σ (Except ε β)}
    (hx : Agrees R x) (hf : ∀ a, Agrees R (f a)) : Agrees R (StateM.andThen x f) := by
  refine bind hx fun out => ?_
  cases out with
  | ok a => exact hf a
  | error e => exact pure _

theorem ite {c : Prop} [Decidable c] {x y : StateM σ α} (hx : Agrees R x) (hy : Agrees R y) :
    Agrees R (if c then x else y) := by
  split
  · exact hx
  · exact hy

end Agrees

/-- `y` does to the image of a state what `x` does to the state. -/
def Simulates {τ : Type} (f : σ → τ) (x : StateM σ α) (y : StateM τ α) : Prop :=
  ∀ s, y (f s) = ((x s).1, f (x s).2)

namespace Simulates

variable {τ : Type} {f : σ → τ}

theorem pure (a : α) : Simulates f (Pure.pure a) (Pure.pure a) := fun _ => rfl

theorem bind {x : StateM σ α} {y : StateM τ α} {g : α → StateM σ β} {h : α → StateM τ β}
    (hxy : Simulates f x y) (hgh : ∀ a, Simulates f (g a) (h a)) :
    Simulates f (x >>= g) (y >>= h) := by
  intro s
  rw [bind_apply, hxy s]
  exact hgh _ _

/-- The value of the first program may be another one, as long as the rest agrees on that. -/
theorem bind_map {α' : Type} {x : StateM σ α} {y : StateM τ α'} {p : α → α'}
    {g : α → StateM σ β} {h : α' → StateM τ β} (hxy : ∀ s, y (f s) = (p (x s).1, f (x s).2))
    (hgh : ∀ a, Simulates f (g a) (h (p a))) : Simulates f (x >>= g) (y >>= h) := by
  intro s
  rw [bind_apply, hxy s]
  exact hgh _ _

/-- Elements are gone through one after the other. -/
theorem mapM'_map {α' : Type} {p : α → α'} {g : α → StateM σ β} {h : α' → StateM τ β}
    (hgh : ∀ a, Simulates f (g a) (h (p a))) (l : List α) :
    Simulates f (l.mapM' g) ((l.map p).mapM' h) := by
  induction l with
  | nil => exact pure _
  | cons a l ih => exact bind (hgh a) fun _ => bind ih fun _ => pure _

theorem mapM' {g : α → StateM σ β} {h : α → StateM τ β} (hgh : ∀ a, Simulates f (g a) (h a))
    (l : List α) : Simulates f (l.mapM' g) (l.mapM' h) := by
  have hmap := mapM'_map (p := id) hgh l
  rwa [List.map_id] at hmap

theorem ite {c : Prop} [Decidable c] {x x' : StateM σ α} {y y' : StateM τ α}
    (hxy : Simulates f x y) (hxy' : Simulates f x' y') :
    Simulates f (if c then x else x') (if c then y else y') := by
  split
  · exact hxy
  · exact hxy'

end Simulates

end StateM
