import Sidecar.Lib.StateM

/-!
# Interleaved programs

A program as a task runs it: atomic sections on a shared state, one after the other, where what
comes next depends on what a section answered. `Prog.run` is the program by itself, `Prog.runUntil`
up to a section that ends it, `Beside` a run in which sections of another program come between its
own, and `Both` one that goes on until both are done.

There are a few rules. A program *simulates* its run by itself when its sections keep a relation of
the shared state to the states of two lone runs, its own and that of the other program; of two such
programs neither can tell that the other is there (`Sims.beside`). And what both programs
*establish* for good holds when both are done, in whatever order (`Both.establishes`). Of any number
of programs, each may rely on what the others *guarantee* (`Guarantees`).
-/

namespace Interleave

/-- A program of atomic sections. -/
inductive Prog (σ α : Type) : Type 1
  | done (a : α)
  | step {β : Type} (x : StateM σ β) (next : β → Prog σ α)

variable {σ α β : Type}

namespace Prog

def bind (p : Prog σ α) (f : α → Prog σ β) : Prog σ β :=
  match p with
  | .done a => f a
  | .step x next => .step x fun b => bind (next b) f

instance : Monad (Prog σ) where
  pure := .done
  bind := bind

/-- One section. -/
def atom (x : StateM σ α) : Prog σ α := .step x .done

/-- The program by itself. -/
def run : Prog σ α → StateM σ α
  | .done a => pure a
  | .step x next => do
    let b ← x
    run (next b)

/-- The program up to the first section that `stop` ends, in the state that `stop` gives. -/
def runUntil (stop : σ → σ → Option σ) : Prog σ α → StateM σ (Option α)
  | .done a => pure (some a)
  | .step x next => fun s =>
    match stop s (x s).2 with
    | some t => (none, t)
    | none => runUntil stop (next (x s).1) (x s).2

@[simp] theorem done_bind (a : α) (f : α → Prog σ β) : (Prog.done a >>= f) = f a := rfl

@[simp] theorem pure_bind (a : α) (f : α → Prog σ β) : ((pure a : Prog σ α) >>= f) = f a := rfl

@[simp] theorem step_bind {γ : Type} (x : StateM σ γ) (next : γ → Prog σ α) (f : α → Prog σ β) :
    (Prog.step x next >>= f) = .step x fun b => next b >>= f := rfl

@[simp] theorem atom_bind (x : StateM σ α) (f : α → Prog σ β) : (atom x >>= f) = .step x f := rfl

@[simp] theorem run_pure (a : α) : (pure a : Prog σ α).run = pure a := rfl

@[simp] theorem run_atom (x : StateM σ α) : (atom x).run = x := rfl

@[simp] theorem run_bind (p : Prog σ α) (f : α → Prog σ β) :
    (p >>= f).run = p.run >>= fun a => (f a).run := by
  induction p with
  | done a => rfl
  | step x next ih =>
    funext s
    exact congrFun (ih (x s).1) (x s).2

@[simp] theorem run_ite {c : Prop} [Decidable c] (p q : Prog σ α) :
    (if c then p else q).run = if c then p.run else q.run := by
  split <;> rfl

/-- One program for each element of a list. -/
def each {κ : Type} (f : κ → Prog σ α) : List κ → Prog σ Unit
  | [] => pure ()
  | x :: xs => do
    let _ ← f x
    each f xs

theorem run_each_congr {κ : Type} {f g : κ → Prog σ α} (h : ∀ x, (f x).run = (g x).run)
    (l : List κ) :
    (each f l).run = (each g l).run := by
  induction l with
  | nil => rfl
  | cons x l ih => simp only [each, run_bind, h, ih]

theorem run_each_append {κ : Type} (f : κ → Prog σ α) (l l' : List κ) (s : σ) :
    (each f (l ++ l')).run s = (each f l').run ((each f l).run s).2 := by
  induction l generalizing s with
  | nil => rfl
  | cons x l ih => simp only [List.cons_append, each, run_bind, StateM.bind_apply, ih]

section RunUntil

variable {stop : σ → σ → Option σ} {p : Prog σ α} {s : σ}

/-- A program that is not stopped runs to its end. -/
theorem runUntil_some {a : α} (h : (p.runUntil stop s).1 = some a) :
    p.runUntil stop s = (some (p.run s).1, (p.run s).2) := by
  induction p generalizing s with
  | done a => rfl
  | step x next ih =>
    unfold runUntil at h ⊢
    split at h
    · cases h
    · exact ih (x s).1 h

/-- Else some section was its last. -/
theorem runUntil_none (h : (p.runUntil stop s).1 = none) :
    ∃ t u, stop t u = some (p.runUntil stop s).2 := by
  induction p generalizing s with
  | done a => cases h
  | step x next ih =>
    unfold runUntil at h ⊢
    split at h
    · next hstop => exact ⟨s, (x s).2, hstop⟩
    · exact ih (x s).1 h

end RunUntil

end Prog

open Prog

/-- A run of the first program, while sections of the second come in between: it answers `a`, and in
the end the state is `t`. The second program need not be done. -/
inductive Beside : Prog σ α → Prog σ β → σ → α → σ → Prop
  | done (a : α) (q : Prog σ β) (s : σ) : Beside (.done a) q s a s
  | own {γ : Type} {x : StateM σ γ} {next : γ → Prog σ α} {q : Prog σ β} {s t : σ} {a : α} :
      Beside (next (x s).1) q (x s).2 a t → Beside (.step x next) q s a t
  | other {γ : Type} {p : Prog σ α} {x : StateM σ γ} {next : γ → Prog σ β} {s t : σ} {a : α} :
      Beside p (next (x s).1) (x s).2 a t → Beside p (.step x next) s a t

/-- A run of two programs until both are done. -/
inductive Both : Prog σ α → Prog σ β → σ → σ → Prop
  | done (a : α) (b : β) (s : σ) : Both (.done a) (.done b) s s
  | left {γ : Type} {x : StateM σ γ} {next : γ → Prog σ α} {q : Prog σ β} {s t : σ} :
      Both (next (x s).1) q (x s).2 t → Both (.step x next) q s t
  | right {γ : Type} {p : Prog σ α} {x : StateM σ γ} {next : γ → Prog σ β} {s t : σ} :
      Both p (next (x s).1) (x s).2 t → Both p (.step x next) s t

theorem Both.beside {p : Prog σ α} {q : Prog σ β} {s t : σ} (h : Both p q s t) :
    ∃ a, Beside p q s a t := by
  induction h with
  | done a b s => exact ⟨a, .done a _ s⟩
  | left _ ih =>
    obtain ⟨a, ha⟩ := ih
    exact ⟨a, .own ha⟩
  | right _ ih =>
    obtain ⟨a, ha⟩ := ih
    exact ⟨a, .other ha⟩

/-- Run two programs as a schedule says: `true` is a section of the first one. -/
def schedule : List Bool → Prog σ α → Prog σ β → σ → Option σ
  | [], .done _, .done _, s => some s
  | true :: l, .step x next, q, s => schedule l (next (x s).1) q (x s).2
  | false :: l, p, .step x next, s => schedule l p (next (x s).1) (x s).2
  | _, _, _, _ => none

theorem both_of_schedule {l : List Bool} {p : Prog σ α} {q : Prog σ β} {s t : σ}
    (h : schedule l p q s = some t) : Both p q s t := by
  induction l generalizing p q s with
  | nil =>
    cases p <;> cases q <;> cases h
    exact .done _ _ _
  | cons b l ih =>
    cases b with
    | true =>
      cases p with
      | done a => cases h
      | step x next => exact .left (ih h)
    | false =>
      cases q with
      | done a => cases p <;> cases h
      | step x next => exact .right (ih (by simpa only [schedule] using h))

/-! ## Noninterference -/

section Sims

variable (R : σ → σ → σ → Prop)

/-- The sections of a program can be told apart from its run by itself neither by the program nor by
another one: `R s a b` relates the shared state to the state `a` of the lone run, which comes to
`o`, and to the state `b` of a lone run of the other. -/
def Sims : Prog σ α → σ → α × σ → Prop
  | .done v, a, o => ∀ s b, R s a b → o.1 = v ∧ R s o.2 b
  | .step x next, a, o => ∀ s b, R s a b → ∃ a', R (x s).2 a' b ∧ Sims (next (x s).1) a' o

variable {R}

/-- **Noninterference.** Of two programs that simulate their lone runs, the one answers beside the
other as by itself, and the state stays related to its lone run. -/
theorem Sims.beside {p : Prog σ α} {q : Prog σ β} {s a b t : σ} {v : α} {o : α × σ} {o' : β × σ}
    (h : Beside p q s v t) (hp : Sims R p a o) (hq : Sims (fun s b a => R s a b) q b o')
    (hs : R s a b) :
    v = o.1 ∧ ∃ b', R t o.2 b' := by
  induction h generalizing a b with
  | done v q s =>
    obtain ⟨hv, hr⟩ := hp s b hs
    exact ⟨hv.symm, b, hr⟩
  | own _ ih =>
    obtain ⟨a', hr, hnext⟩ := hp _ b hs
    exact ih hnext hq hr
  | other _ ih =>
    obtain ⟨b', hr, hnext⟩ := hq _ a hs
    exact ih hp hnext hr

theorem Sims.pure (v : α) (a : σ) : Sims R (Pure.pure v) a (v, a) := fun _ _ hs => ⟨rfl, hs⟩

/-- A section that answers as in the lone run. -/
theorem Sims.step {γ : Type} {x : StateM σ γ} {next : γ → Prog σ α} {a : σ} {o : α × σ}
    (hx : ∀ s b, R s a b → (x s).1 = (x a).1 ∧ R (x s).2 (x a).2 b)
    (hnext : Sims R (next (x a).1) (x a).2 o) : Sims R (.step x next) a o := by
  intro s b hs
  obtain ⟨hv, hr⟩ := hx s b hs
  exact ⟨_, hr, hv ▸ hnext⟩

theorem Sims.atom {x : StateM σ α} {a : σ}
    (hx : ∀ s b, R s a b → (x s).1 = (x a).1 ∧ R (x s).2 (x a).2 b) :
    Sims R (Prog.atom x) a (x a) :=
  Sims.step hx fun _ _ ht => ⟨rfl, ht⟩

/-- A section whose answer does not matter. -/
theorem Sims.skip {γ : Type} {x : StateM σ γ} {p : Prog σ α} {a : σ} {o : α × σ}
    (hx : ∀ s b, R s a b → R (x s).2 (x a).2 b) (hp : Sims R p (x a).2 o) :
    Sims R (.step x fun _ => p) a o :=
  fun s b hs => ⟨_, hx s b hs, hp⟩

/-- The lone run may start in a state that is related to as much. -/
theorem Sims.start {p : Prog σ α} {a a' : σ} {o : α × σ} (hp : Sims R p a' o)
    (hs : ∀ s b, R s a b → R s a' b) : Sims R p a o := by
  cases p with
  | done v => exact fun s b h => hp s b (hs s b h)
  | step x next => exact fun s b h => hp s b (hs s b h)

/-- The lone run may end in a state that is related to as much. -/
theorem Sims.finish {p : Prog σ α} {a : σ} {o o' : α × σ} (hp : Sims R p a o) (hv : o'.1 = o.1)
    (ht : ∀ t b, R t o.2 b → R t o'.2 b) : Sims R p a o' := by
  induction p generalizing a with
  | done v =>
    intro s b hs
    obtain ⟨h, hr⟩ := hp s b hs
    exact ⟨hv.trans h, ht s b hr⟩
  | step x next ih =>
    intro s b hs
    obtain ⟨a', hr, hnext⟩ := hp s b hs
    exact ⟨a', hr, ih _ hnext⟩

/-- There is nothing to show where no state is related. -/
theorem Sims.of_related {p : Prog σ α} {a : σ} {o : α × σ}
    (h : ∀ s b, R s a b → Sims R p a o) : Sims R p a o := by
  cases p with
  | done v => exact fun s b hs => h s b hs s b hs
  | step x next => exact fun s b hs => h s b hs s b hs

theorem Sims.bind {p : Prog σ α} {f : α → Prog σ β} {a : σ} {o : α × σ} {o' : β × σ}
    (hp : Sims R p a o) (hf : Sims R (f o.1) o.2 o') : Sims R (p >>= f) a o' := by
  induction p generalizing a with
  | done v =>
    refine Sims.of_related fun s b hs => ?_
    rw [Prog.done_bind, ← (hp s b hs).1]
    exact hf.start fun t b ht => (hp t b ht).2
  | step x next ih =>
    intro s b hs
    obtain ⟨a', hr, hnext⟩ := hp s b hs
    exact ⟨a', hr, ih _ hnext⟩

/-- What is done one after the other. -/
theorem Sims.run_bind {p : Prog σ α} {f : α → Prog σ β} {a : σ} (hp : Sims R p a (p.run a))
    (hf : Sims R (f (p.run a).1) (p.run a).2 ((f (p.run a).1).run (p.run a).2)) :
    Sims R (p >>= f) a ((p >>= f).run a) := by
  rw [Prog.run_bind]
  exact hp.bind hf

end Sims

/-! ## Convergence -/

section Establishes

variable (I φ : σ → Prop)

/-- No section of a program takes `φ` away. -/
def Keeps : Prog σ α → Prop
  | .done _ => True
  | .step x next => ∀ s, I s → I (x s).2 ∧ (φ s → φ (x s).2) ∧ Keeps (next (x s).1)

theorem Keeps.run {I φ : σ → Prop} {p : Prog σ α} (hp : Keeps I φ p) {s : σ} (hs : I s) :
    I (p.run s).2 ∧ (φ s → φ (p.run s).2) := by
  induction p generalizing s with
  | done a => exact ⟨hs, id⟩
  | step x next ih =>
    obtain ⟨hi, hφ, hnext⟩ := hp s hs
    obtain ⟨hi', hφ'⟩ := ih _ hnext hi
    exact ⟨hi', hφ' ∘ hφ⟩

/-- Some section of a program makes `φ` true, and none after it takes it away. -/
def Establishes : Prog σ α → Prop
  | .done _ => False
  | .step x next => ∀ s, I s → I (x s).2 ∧
      (Establishes (next (x s).1) ∨ φ (x s).2 ∧ Keeps I φ (next (x s).1))

variable {I φ}

theorem Keeps.bind {p : Prog σ α} {f : α → Prog σ β} (hp : Keeps I φ p)
    (hf : ∀ a, Keeps I φ (f a)) :
    Keeps I φ (p >>= f) := by
  induction p with
  | done a => exact hf a
  | step x next ih =>
    intro s hs
    obtain ⟨hi, hφ, hnext⟩ := hp s hs
    exact ⟨hi, hφ, ih _ hnext⟩

theorem Establishes.bind {p : Prog σ α} {f : α → Prog σ β} (hp : Establishes I φ p)
    (hf : ∀ a, Keeps I φ (f a)) : Establishes I φ (p >>= f) := by
  induction p with
  | done a => exact absurd hp id
  | step x next ih =>
    intro s hs
    obtain ⟨hi, hnext | ⟨hφ, hnext⟩⟩ := hp s hs
    · exact ⟨hi, .inl (ih _ hnext)⟩
    · exact ⟨hi, .inr ⟨hφ, hnext.bind hf⟩⟩

theorem Establishes.run {p : Prog σ α} (hp : Establishes I φ p) {s : σ} (hs : I s) :
    I (p.run s).2 ∧ φ (p.run s).2 := by
  induction p generalizing s with
  | done a => exact absurd hp id
  | step x next ih =>
    obtain ⟨hi, hnext | ⟨hφ, hnext⟩⟩ := hp s hs
    · exact ih _ hnext hi
    · obtain ⟨hi', hφ'⟩ := hnext.run hi
      exact ⟨hi', hφ' hφ⟩

/-- What comes first has to keep the invariant only. -/
theorem Establishes.after {p : Prog σ α} {f : α → Prog σ β} (hp : Keeps I (fun _ => True) p)
    (hf : ∀ a, Establishes I φ (f a)) : Establishes I φ (p >>= f) := by
  induction p with
  | done a => exact hf a
  | step x next ih =>
    intro s hs
    obtain ⟨hi, -, hnext⟩ := hp s hs
    exact ⟨hi, .inl (ih _ hnext)⟩

/-- What comes last counts. -/
theorem Establishes.each {κ : Type} {f : κ → Prog σ α} {l : List κ} {x : κ}
    (hl : ∀ y ∈ l, Keeps I (fun _ => True) (f y)) (hx : Establishes I φ (f x)) :
    Establishes I φ (Prog.each f (l ++ [x])) := by
  induction l with
  | nil => exact hx.bind fun _ => trivial
  | cons y l ih =>
    exact .after (hl y List.mem_cons_self) fun _ => ih fun z hz => hl z (List.mem_cons_of_mem y hz)

/-- One of the programs will still establish `φ`, or `φ` holds, and from then on no section takes it
away. -/
def Settling (I φ : σ → Prop) (p : Prog σ α) (q : Prog σ β) (s : σ) : Prop :=
  Establishes I φ p ∧ (Establishes I φ q ∨ Keeps I φ q) ∨ Keeps I φ p ∧ Establishes I φ q ∨
    Keeps I φ p ∧ Keeps I φ q ∧ φ s

theorem Settling.left {γ : Type} {x : StateM σ γ} {next : γ → Prog σ α} {q : Prog σ β} {s : σ}
    (hs : I s) (h : Settling I φ (.step x next) q s) :
    I (x s).2 ∧ Settling I φ (next (x s).1) q (x s).2 := by
  rcases h with ⟨hp, hq⟩ | ⟨hp, hq⟩ | ⟨hp, hq, hφ⟩
  · obtain ⟨hi, hnext | ⟨hφ, hnext⟩⟩ := hp s hs
    · exact ⟨hi, .inl ⟨hnext, hq⟩⟩
    · exact ⟨hi, hq.elim (fun hq => .inr (.inl ⟨hnext, hq⟩)) fun hq => .inr (.inr ⟨hnext, hq, hφ⟩)⟩
  · obtain ⟨hi, -, hnext⟩ := hp s hs
    exact ⟨hi, .inr (.inl ⟨hnext, hq⟩)⟩
  · obtain ⟨hi, hkeeps, hnext⟩ := hp s hs
    exact ⟨hi, .inr (.inr ⟨hnext, hq, hkeeps hφ⟩)⟩

theorem Settling.right {γ : Type} {p : Prog σ α} {x : StateM σ γ} {next : γ → Prog σ β} {s : σ}
    (hs : I s) (h : Settling I φ p (.step x next) s) :
    I (x s).2 ∧ Settling I φ p (next (x s).1) (x s).2 := by
  rcases h with ⟨hp, hq | hq⟩ | ⟨hp, hq⟩ | ⟨hp, hq, hφ⟩
  · obtain ⟨hi, hnext | ⟨-, hnext⟩⟩ := hq s hs
    · exact ⟨hi, .inl ⟨hp, .inl hnext⟩⟩
    · exact ⟨hi, .inl ⟨hp, .inr hnext⟩⟩
  · obtain ⟨hi, -, hnext⟩ := hq s hs
    exact ⟨hi, .inl ⟨hp, .inr hnext⟩⟩
  · obtain ⟨hi, hnext | ⟨hφ, hnext⟩⟩ := hq s hs
    · exact ⟨hi, .inr (.inl ⟨hp, hnext⟩)⟩
    · exact ⟨hi, .inr (.inr ⟨hp, hnext, hφ⟩)⟩
  · obtain ⟨hi, hkeeps, hnext⟩ := hq s hs
    exact ⟨hi, .inr (.inr ⟨hp, hnext, hkeeps hφ⟩)⟩

theorem Both.settled {p : Prog σ α} {q : Prog σ β} {s t : σ} (h : Both p q s t) (hs : I s)
    (hpq : Settling I φ p q s) : I t ∧ φ t := by
  induction h with
  | done a b s =>
    rcases hpq with ⟨hp, -⟩ | ⟨-, hq⟩ | ⟨-, -, hφ⟩
    · exact absurd hp id
    · exact absurd hq id
    · exact ⟨hs, hφ⟩
  | left _ ih =>
    obtain ⟨hi, hnext⟩ := hpq.left hs
    exact ih hi hnext
  | right _ ih =>
    obtain ⟨hi, hnext⟩ := hpq.right hs
    exact ih hi hnext

/-- **Convergence.** What both programs establish holds when both are done. -/
theorem Both.establishes {p : Prog σ α} {q : Prog σ β} {s t : σ} (h : Both p q s t) (hs : I s)
    (hp : Establishes I φ p) (hq : Establishes I φ q) : I t ∧ φ t :=
  h.settled hs (.inl ⟨hp, .inl hq⟩)

end Establishes

/-! ## What all sections do -/

section Along

variable {R : σ → σ → Prop} {Q : α → Prop}

/-- Every section of a program goes from a state to an `R`-related one, whatever the state, and what
the program answers in the end is a `Q`. -/
def Along (R : σ → σ → Prop) (Q : α → Prop) : Prog σ α → Prop
  | .done a => Q a
  | .step x next => ∀ s, R s (x s).2 ∧ Along R Q (next (x s).1)

theorem Along.atom {x : StateM σ α} (hx : StateM.Moves R x) (ha : ∀ s, Q (x s).1) :
    Along R Q (Prog.atom x) :=
  fun s => ⟨hx s, ha s⟩

theorem Along.bind {Q' : β → Prop} {p : Prog σ α} {f : α → Prog σ β} (hp : Along R Q p)
    (hf : ∀ a, Q a → Along R Q' (f a)) : Along R Q' (p >>= f) := by
  induction p with
  | done a => exact hf a hp
  | step x next ih => exact fun s => ⟨(hp s).1, ih _ (hp s).2⟩

/-- What comes next does not depend on the answer's being a `Q`. -/
theorem Along.seq {Q' : β → Prop} {p : Prog σ α} {f : α → Prog σ β} (hp : Along R (fun _ => True) p)
    (hf : ∀ a, Along R Q' (f a)) : Along R Q' (p >>= f) := hp.bind fun a _ => hf a

theorem Along.ite {c : Prop} [Decidable c] {p q : Prog σ α} (hp : c → Along R Q p)
    (hq : ¬c → Along R Q q) :
    Along R Q (if c then p else q) := by
  split
  · next h => exact hp h
  · next h => exact hq h

theorem Along.mono {S : σ → σ → Prop} {Q' : α → Prop} (hRS : ∀ s t, R s t → S s t)
    (hQ : ∀ a, Q a → Q' a) {p : Prog σ α} (hp : Along R Q p) : Along S Q' p := by
  induction p with
  | done a => exact hQ a hp
  | step x next ih => exact fun s => ⟨hRS _ _ (hp s).1, ih _ (hp s).2⟩

/-- What no section does that is not the last. -/
theorem Along.runUntil_some {S : σ → σ → Prop} {stop : σ → σ → Option σ} (hS : StateM.Preorder S)
    (hgoes : ∀ s t, R s t → stop s t = none → S s t) {p : Prog σ α} (hp : Along R Q p) {s : σ}
    {a : α} (h : (p.runUntil stop s).1 = some a) : S s (p.run s).2 := by
  induction p generalizing s with
  | done a => exact hS.refl s
  | step x next ih =>
    obtain ⟨hmove, hnext⟩ := hp s
    unfold Prog.runUntil at h
    split at h
    · cases h
    · next hstop => exact hS.trans (hgoes _ _ hmove hstop) (ih (x s).1 hnext h)

end Along

/-! ## Rely and guarantee -/

section Guarantees

variable (I : σ → Prop) (R G : σ → σ → Prop)

/-- Whatever the others do to the state `s`, as long as they keep `I` and move along `R`, the
program keeps `I` and moves along `G` with each of its sections; and what it answers in the end is a
`Q` of the state it ends in. -/
def Guarantees (Q : α → σ → Prop) : Prog σ α → σ → Prop
  | .done a, s => ∀ t, R s t → I t → Q a t
  | .step x next, s => ∀ t, R s t → I t →
      G t (x t).2 ∧ I (x t).2 ∧ Guarantees Q (next (x t).1) (x t).2

variable {I R G} {T : σ → σ → Prop} {Q : α → σ → Prop} (hR : StateM.Preorder R)

section

include hR

/-- What others do does not take a guarantee away. -/
theorem Guarantees.stable {p : Prog σ α} {s t : σ} (h : Guarantees I R G Q p s) (hst : R s t) :
    Guarantees I R G Q p t := by
  cases p with
  | done a => exact fun u htu hu => h u (hR.trans hst htu) hu
  | step x next => exact fun u htu hu => h u (hR.trans hst htu) hu

variable (hT : StateM.Preorder T) (hRT : ∀ s t, R s t → T s t) (hGT : ∀ s t, G s t → T s t)
include hT hRT hGT

/-- `T` is what all of them move along together. -/
theorem Guarantees.bind {Q' : β → σ → Prop} {p : Prog σ α} {f : α → Prog σ β} {s : σ} (hs : I s)
    (hp : Guarantees I R G Q p s) (hf : ∀ a t, T s t → I t → Q a t → Guarantees I R G Q' (f a) t) :
    Guarantees I R G Q' (p >>= f) s := by
  induction p generalizing s with
  | done a => exact hf a s (hT.refl s) hs (hp s (hR.refl s) hs)
  | step x next ih =>
    intro t hst ht
    obtain ⟨hmove, hinv, hnext⟩ := hp t hst ht
    refine ⟨hmove, hinv, ih (x t).1 hinv hnext fun a u htu hu hQ => ?_⟩
    exact hf a u (hT.trans (hRT s t hst) (hT.trans (hGT t _ hmove) htu)) hu hQ

omit hRT in
/-- What the program does by itself. -/
theorem Guarantees.run {p : Prog σ α} {s : σ} (hs : I s) (hp : Guarantees I R G Q p s) :
    T s (p.run s).2 ∧ I (p.run s).2 ∧ Q (p.run s).1 (p.run s).2 := by
  induction p generalizing s with
  | done a => exact ⟨hT.refl s, hs, hp s (hR.refl s) hs⟩
  | step x next ih =>
    obtain ⟨hmove, hinv, hnext⟩ := hp s (hR.refl s) hs
    obtain ⟨hrest, hinv', hQ⟩ := ih (x s).1 hinv hnext
    exact ⟨hT.trans (hGT s _ hmove) hrest, hinv', hQ⟩

omit hRT in
/-- What it does up to where it is stopped. -/
theorem Guarantees.runUntil {stop : σ → σ → Option σ}
    (hstop : ∀ s t u, G s t → I t → stop s t = some u → T s u ∧ I u) {p : Prog σ α} {s : σ}
    (hs : I s) (hp : Guarantees I R G Q p s) : T s (p.runUntil stop s).2 ∧
    I (p.runUntil stop s).2 := by
  induction p generalizing s with
  | done a => exact ⟨hT.refl s, hs⟩
  | step x next ih =>
    obtain ⟨hmove, hinv, hnext⟩ := hp s (hR.refl s) hs
    unfold Prog.runUntil
    split
    · next u hu => exact hstop _ _ _ hmove hinv hu
    · obtain ⟨hrest, hinv'⟩ := ih (x s).1 hinv hnext
      exact ⟨hT.trans (hGT s _ hmove) hrest, hinv'⟩

end

theorem Guarantees.atom {x : StateM σ α} {s : σ}
    (h : ∀ t, R s t → I t → G t (x t).2 ∧ I (x t).2 ∧ ∀ u, R (x t).2 u → I u → Q (x t).1 u) :
    Guarantees I R G Q (Prog.atom x) s := h

theorem Guarantees.pure {a : α} {s : σ} (h : ∀ t, R s t → I t → Q a t) :
    Guarantees I R G Q (Pure.pure a : Prog σ α) s := h

theorem Guarantees.ite {c : Prop} [Decidable c] {p q : Prog σ α} {s : σ}
    (hp : c → Guarantees I R G Q p s)
    (hq : ¬c → Guarantees I R G Q q s) : Guarantees I R G Q (if c then p else q) s := by
  split
  · next h => exact hp h
  · next h => exact hq h

/-- To rely on more, to guarantee less and to answer less. -/
theorem Guarantees.mono {R' G' : σ → σ → Prop} {Q' : α → σ → Prop} (hR' : ∀ s t, R' s t → R s t)
    (hG : ∀ s t, G s t → G' s t) (hQ : ∀ a t, Q a t → Q' a t) {p : Prog σ α} {s : σ}
    (h : Guarantees I R G Q p s) : Guarantees I R' G' Q' p s := by
  induction p generalizing s with
  | done a => exact fun t hst ht => hQ a t (h t (hR' s t hst) ht)
  | step x next ih =>
    intro t hst ht
    obtain ⟨hmove, hinv, hnext⟩ := h t (hR' s t hst) ht
    exact ⟨hG t _ hmove, hinv, ih _ hnext⟩

/-- **Framing**: what neither the others nor the program take away still holds in the end. -/
theorem Guarantees.frame {φ : σ → Prop} (hRφ : ∀ s t, R s t → φ s → φ t)
    (hGφ : ∀ s t, G s t → φ s → φ t)
    {p : Prog σ α} {s : σ} (h : Guarantees I R G Q p s) (hs : φ s) :
    Guarantees I R G (fun a t => Q a t ∧ φ t) p s := by
  induction p generalizing s with
  | done a => exact fun t hst ht => ⟨h t hst ht, hRφ s t hst hs⟩
  | step x next ih =>
    intro t hst ht
    obtain ⟨hmove, hinv, hnext⟩ := h t hst ht
    exact ⟨hmove, hinv, ih _ hnext (hGφ t _ hmove (hRφ s t hst hs))⟩

/-- **Conjunction**: what holds in the end for one reason and another. -/
theorem Guarantees.all {ι : Type} {Q' : ι → α → σ → Prop} {p : Prog σ α} {s : σ}
    (h : Guarantees I R G Q p s) (hall : ∀ i, Guarantees I R G (Q' i) p s) :
    Guarantees I R G (fun a t => Q a t ∧ ∀ i, Q' i a t) p s := by
  induction p generalizing s with
  | done a => exact fun t hst ht => ⟨h t hst ht, fun i => hall i t hst ht⟩
  | step x next ih =>
    intro t hst ht
    obtain ⟨hmove, hinv, hnext⟩ := h t hst ht
    exact ⟨hmove, hinv, ih _ hnext fun i => (hall i t hst ht).2.2⟩

end Guarantees

/-! ## Lists of single sections -/

section Shuffle

variable {κ : Type}

/-- A list that goes through two others, each in its order. -/
inductive Shuffle : List κ → List κ → List κ → Prop
  | nil : Shuffle [] [] []
  | left {x : κ} {l l' m : List κ} : Shuffle l l' m → Shuffle (x :: l) l' (x :: m)
  | right {x : κ} {l l' m : List κ} : Shuffle l l' m → Shuffle l (x :: l') (x :: m)

namespace Shuffle

variable {l l' m : List κ}

theorem mem_iff (h : Shuffle l l' m) (x : κ) : x ∈ m ↔ x ∈ l ∨ x ∈ l' := by
  induction h with
  | nil => simp
  | left _ ih => simp only [List.mem_cons, ih, or_assoc]
  | right _ ih =>
    simp only [List.mem_cons, ih]
    exact or_left_comm

theorem head?_eq (h : Shuffle l l' m) : m.head? = l.head? ∨ m.head? = l'.head? := by
  cases h with
  | nil => exact .inl rfl
  | left _ => exact .inl rfl
  | right _ => exact .inr rfl

theorem eq_nil (h : Shuffle l l' []) : l = [] ∧ l' = [] := by
  cases h
  exact ⟨rfl, rfl⟩

theorem getLast?_eq (h : Shuffle l l' m) : m.getLast? = l.getLast? ∨ m.getLast? = l'.getLast? := by
  induction h with
  | nil => exact .inl rfl
  | @left x l l' m hm ih =>
    rcases m with _ | ⟨y, m⟩
    · obtain ⟨rfl, rfl⟩ := hm.eq_nil
      exact .inl rfl
    · rw [List.getLast?_cons_cons]
      refine ih.imp (fun h => ?_) id
      rcases l with _ | ⟨z, l⟩
      · simp at h
      · rw [h, List.getLast?_cons_cons]
  | @right x l l' m hm ih =>
    rcases m with _ | ⟨y, m⟩
    · obtain ⟨rfl, rfl⟩ := hm.eq_nil
      exact .inr rfl
    · rw [List.getLast?_cons_cons]
      refine ih.imp id fun h => ?_
      rcases l' with _ | ⟨z, l'⟩
      · simp at h
      · rw [h, List.getLast?_cons_cons]

end Shuffle

/-- Two lists of single sections run as one list. -/
theorem Both.shuffle {f : κ → StateM σ α} {l l' : List κ} {s t : σ}
    (h : Both (Prog.each (fun x => Prog.atom (f x)) l)
      (Prog.each (fun x => Prog.atom (f x)) l') s t) :
    ∃ m, Shuffle l l' m ∧ t = ((Prog.each (fun x => Prog.atom (f x)) m).run s).2 := by
  generalize hp : Prog.each (fun x => Prog.atom (f x)) l = p at h
  generalize hq : Prog.each (fun x => Prog.atom (f x)) l' = q at h
  induction h generalizing l l' with
  | done a b s =>
    rcases l with _ | ⟨x, l⟩ <;> rcases l' with _ | ⟨x', l'⟩
    · exact ⟨[], .nil, rfl⟩
    · cases hq
    · cases hp
    · cases hp
  | left _ ih =>
    rcases l with _ | ⟨x, l⟩
    · cases hp
    · cases hp
      obtain ⟨m, hm, rfl⟩ := ih rfl hq
      exact ⟨x :: m, hm.left, rfl⟩
  | right _ ih =>
    rcases l' with _ | ⟨x, l'⟩
    · cases hq
    · cases hq
      obtain ⟨m, hm, rfl⟩ := ih hp rfl
      exact ⟨x :: m, hm.right, rfl⟩

end Shuffle

end Interleave
