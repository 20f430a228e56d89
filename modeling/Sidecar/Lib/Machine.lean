import Mathlib.Data.Finset.Insert

/-!
# Machines and a supervisor

A machine makes labelled steps, and `Run` is a finite run of it, with its labels latest first. What
every step keeps holds in every state of a run (`Run.invariant`), and a machine *refines* another
one when each of its steps is a step of the other or is not seen there; then each of its runs is one
(`Refines.run`).

`Supervisor` is a machine that is refined by fail-stop processes: it serves while all its workers
run, a worker that has failed is never replaced, and the next look at the workers ends the process,
which may also crash. Once a worker has failed it never serves healthily again
(`Supervisor.not_healthy`).
-/

universe u v u' v'

structure Machine (σ : Type u) (ℓ : Type v) where
  step : σ → ℓ → σ → Prop

namespace Machine

variable {σ : Type u} {ℓ : Type v} {m : Machine σ ℓ}

/-- A run from `s`, its labels latest first. -/
inductive Run (m : Machine σ ℓ) (s : σ) : List ℓ → σ → Prop
  | start : Run m s [] s
  | step {ls : List ℓ} {t u : σ} {l : ℓ} : Run m s ls t → m.step t l u → Run m s (l :: ls) u

namespace Run

variable {s t : σ} {ls : List ℓ}

/-- **What every step keeps holds all along a run**, when the steps are made under labels of a
kind. -/
theorem invariant {I : σ → Prop} {C : ℓ → Prop} (hstep : ∀ s l t, I s → C l → m.step s l t → I t)
    (h : Run m s ls t) (hs : I s) (hls : ∀ l ∈ ls, C l) : I t := by
  induction h with
  | start => exact hs
  | @step ls t u l _ hlast ih =>
    exact hstep t l u (ih fun x hx => hls x (List.mem_cons_of_mem l hx))
      (hls l List.mem_cons_self) hlast

/-- A run of a machine is one of another that can make its steps. -/
theorem mono {m' : Machine σ ℓ} (h : Run m s ls t)
    (hm : ∀ s, ∀ l ∈ ls, ∀ t, m.step s l t → m'.step s l t) :
    Run m' s ls t := by
  induction h with
  | start => exact .start
  | @step ls t u l _ hlast ih =>
    exact (ih fun s x hx t => hm s x (List.mem_cons_of_mem l hx) t).step
      (hm t l List.mem_cons_self u hlast)

end Run

/-- The machine as far as its steps meet `C`. -/
def guard (m : Machine σ ℓ) (C : σ → ℓ → Prop) : Machine σ ℓ := ⟨fun s l t => m.step s l t ∧ C s l⟩

/-! ## Refinement -/

variable {τ : Type u'} {κ : Type v'} {a : Machine τ κ}

/-- Under the invariant `I`, a step of `m` is one of `a` on the abstract states, or nothing
there. -/
structure Refines (m : Machine σ ℓ) (a : Machine τ κ) (abs : σ → τ) (I : σ → Prop) : Prop where
  keeps : ∀ {s l t}, I s → m.step s l t → I t
  step : ∀ {s l t}, I s → m.step s l t → abs t = abs s ∨ ∃ k, a.step (abs s) k (abs t)

/-- **A run of a refining machine is a run of the abstract one.** -/
theorem Refines.run {abs : σ → τ} {I : σ → Prop} (h : Refines m a abs I) {s t : σ} {ls : List ℓ}
    (hr : Run m s ls t) (hs : I s) : I t ∧ ∃ ks, Run a (abs s) ks (abs t) := by
  induction hr with
  | start => exact ⟨hs, [], .start⟩
  | step _ hlast ih =>
    obtain ⟨hi, ks, hks⟩ := ih
    refine ⟨h.keeps hi hlast, ?_⟩
    obtain hsame | ⟨k, hk⟩ := h.step hi hlast
    · rw [hsame]
      exact ⟨ks, hks⟩
    · exact ⟨k :: ks, hks.step hk⟩

end Machine

/-! ## A fail-stop supervisor -/

namespace Supervisor

variable {ι : Type u} [DecidableEq ι]

inductive State (ι : Type u)
  | starting
  /-- All workers were started, and these have failed since. -/
  | serving (failed : Finset ι)
  | exited (code : Nat)
  /-- The process was killed. -/
  | crashed

inductive Label (ι : Type u)
  | serve
  | giveUp (code : Nat)
  | fail (worker : ι)
  | look
  | terminate
  | crash

namespace State

def Healthy : State ι → Prop
  | serving failed => failed = ∅
  | _ => False

/-- The process has ended. -/
def Ended : State ι → Prop
  | exited _ => True
  | crashed => True
  | _ => False

end State

/-- The steps: a look at failed workers ends the process with code 1, a signal with code 0, and it
may crash at any time. -/
inductive Step : State ι → Label ι → State ι → Prop
  | serve : Step .starting .serve (.serving ∅)
  | giveUp (code : Nat) : Step .starting (.giveUp code) (.exited code)
  | fail (failed : Finset ι) (worker : ι) :
    Step (.serving failed) (.fail worker) (.serving (insert worker failed))
  | look {failed : Finset ι} : failed.Nonempty → Step (.serving failed) .look (.exited 1)
  | terminate {s : State ι} : ¬s.Ended → Step s .terminate (.exited 0)
  | crash {s : State ι} : ¬s.Ended → Step s .crash .crashed

def machine (ι : Type u) [DecidableEq ι] : Machine (State ι) (Label ι) := ⟨Step⟩

/-- These workers have failed, or the process has ended. -/
def State.Lost (failed : Finset ι) : State ι → Prop
  | .starting => False
  | .serving failed' => failed ⊆ failed'
  | .exited _ => True
  | .crashed => True

/-- A failed worker stays failed. -/
theorem lost_of_run {failed : Finset ι} {s t : State ι} {ks : List (Label ι)}
    (h : Machine.Run (machine ι) s ks t) (hs : s.Lost failed) : t.Lost failed := by
  refine h.invariant (I := fun s => s.Lost failed) (C := fun _ => True) ?_ hs fun _ _ => trivial
  intro s k t hs _ hstep
  cases hstep with
  | serve => cases hs
  | giveUp => cases hs
  | fail failed' worker =>
    have hsub : failed ⊆ failed' := hs
    exact hsub.trans (Finset.subset_insert worker failed')
  | look => trivial
  | terminate => trivial
  | crash => trivial

/-- **Once a worker has failed** the process never serves healthily again. -/
theorem not_healthy {failed : Finset ι} (hne : failed.Nonempty) {s t : State ι}
    {ks : List (Label ι)}
    (h : Machine.Run (machine ι) s ks t) (hs : s.Lost failed) : ¬t.Healthy := by
  have hlost := lost_of_run h hs
  cases t with
  | starting => exact id
  | serving failed' =>
    intro hempty
    have hsub : failed ⊆ failed' := hlost
    rw [show failed' = ∅ from hempty, Finset.subset_empty] at hsub
    exact hne.ne_empty hsub
  | exited code => exact id
  | crashed => exact id

end Supervisor
