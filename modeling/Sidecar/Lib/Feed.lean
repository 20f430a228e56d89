import Mathlib

/-!
# A replica fed by a stream of changes, with gaps

A source is a set of keys that changes. A replica starts as a copy of it and is fed its changes,
over connections that come and go. A new connection first puts every key of the source once more, so
it makes up for the puts of a gap; nothing makes up for the deletions. When a connection has
delivered everything the replica is the source and its `orphans`, whose deletion was `missed`
(`State.Reachable.caught_up`).
-/

namespace Feed

variable {K : Type}

inductive Change (K : Type)
  | put (k : K)
  | del (k : K)

namespace Change

def key : Change K → K
  | put k => k
  | del k => k

def apply : Change K → Set K → Set K
  | put k, s => insert k s
  | del k, s => s \ {k}

/-- A key that is put is no leftover any more, and a key that is deleted is neither. -/
theorem apply_union (c : Change K) (s t : Set K) :
    c.apply (s ∪ t) = c.apply s ∪ (t \ {c.key}) := by
  ext x
  cases c with
  | put k =>
    by_cases hx : x = k <;> simp [apply, key, hx]
  | del k =>
    simp only [apply, key, Set.mem_sdiff, Set.mem_union, or_and_right]

theorem disjoint_apply (c : Change K) {s t : Set K} (h : Disjoint s t) :
    Disjoint (s \ {c.key}) (c.apply t) := by
  rw [Set.disjoint_left] at h ⊢
  intro x hx hxt
  cases c with
  | put k =>
    obtain rfl | hxt := hxt
    · exact hx.2 rfl
    · exact h hx.1 hxt
  | del k => exact h hx.1 hxt.1

end Change

/-- The set after the changes, oldest first. -/
def after : List (Change K) → Set K → Set K
  | [], s => s
  | c :: cs, s => after cs (c.apply s)

theorem after_append (cs ds : List (Change K)) (s : Set K) :
    after (cs ++ ds) s = after ds (after cs s) := by
  induction cs generalizing s with
  | nil => rfl
  | cons c cs ih => exact ih _

/-- Puts add their keys. -/
theorem after_puts {cs : List (Change K)} (h : ∀ c ∈ cs, ∃ k, c = .put k) (s : Set K) :
    after cs s = s ∪ {k | .put k ∈ cs} := by
  induction cs generalizing s with
  | nil => simp [after]
  | cons c cs ih =>
    obtain ⟨k, rfl⟩ := h c List.mem_cons_self
    rw [after, ih fun d hd => h d (List.mem_cons_of_mem _ hd)]
    ext x
    simp only [Change.apply, Set.mem_union, Set.mem_insert_iff, Set.mem_ofPred_eq, List.mem_cons,
      Change.put.injEq, or_assoc, or_left_comm]

/-- A key that the changes do not delete stays. -/
theorem mem_after {cs : List (Change K)} {k : K} {s : Set K} (hk : k ∈ s) (h : .del k ∉ cs) :
    k ∈ after cs s := by
  induction cs generalizing s with
  | nil => exact hk
  | cons c cs ih =>
    rw [List.mem_cons, not_or] at h
    refine ih ?_ h.2
    cases c with
    | put k' => exact .inr hk
    | del k' => exact ⟨hk, fun e => h.1 (congrArg Change.del e)⟩

/-! ## The system -/

structure State (K : Type) where
  source : Set K
  replica : Set K
  /-- The changes on their way, while there is a connection. -/
  link : Option (List (Change K))
  /-- The keys the replica had and the source had not when the connection was opened, as far as they
  have not been changed since. -/
  orphans : Set K
  /-- The keys whose deletion came while there was no connection, or was lost with one. -/
  missed : Set K

inductive Step : State K → State K → Prop
  | live {s : State K} {pending : List (Change K)} (c : Change K) : s.link = some pending →
    Step s { s with
      source := c.apply s.source, link := some (pending ++ [c]), orphans := s.orphans \ {c.key} }
  | gap {s : State K} (c : Change K) : s.link = none →
    Step s { s with source := c.apply s.source, missed := s.missed ∪ {k | c = .del k} }
  | connect {s : State K} {burst : List (Change K)} : s.link = none →
    (∀ c, c ∈ burst ↔ ∃ k ∈ s.source, c = .put k) →
    Step s { s with link := some burst, orphans := s.replica \ s.source }
  | deliver {s : State K} {c : Change K} {rest : List (Change K)} : s.link = some (c :: rest) →
    Step s { s with replica := c.apply s.replica, link := some rest }
  | drop {s : State K} {pending : List (Change K)} : s.link = some pending →
    Step s { s with link := none, missed := s.missed ∪ {k | .del k ∈ pending} }

namespace State

/-- What runs lead to, from a replica that is a copy of the source. -/
inductive Reachable : State K → Prop
  | start (source : Set K) : Reachable ⟨source, source, none, ∅, ∅⟩
  | step {s s' : State K} : Reachable s → Step s s' → Reachable s'

/-- Connected, the replica is going to be the source and the orphans. Otherwise it has nothing but
the source and what was missed. -/
structure Inv (s : State K) : Prop where
  up : ∀ pending, s.link = some pending → after pending s.replica = s.source ∪ s.orphans ∧
    s.orphans ⊆ s.missed ∧ Disjoint s.orphans s.source
  down : s.link = none → s.replica ⊆ s.source ∪ s.missed

theorem Inv.step {s s' : State K} (hi : s.Inv) (h : Step s s') : s'.Inv := by
  cases h with
  | @live pending c hlink =>
    obtain ⟨hafter, hmissed, hdisj⟩ := hi.up pending hlink
    refine ⟨?_, nofun⟩
    rintro _ ⟨⟩
    refine ⟨?_, Set.sdiff_subset.trans hmissed, c.disjoint_apply hdisj⟩
    rw [after_append, hafter]
    exact c.apply_union s.source s.orphans
  | gap c hlink =>
    have hsub := hi.down hlink
    refine ⟨fun pending h => (by cases hlink.symm.trans h), fun _ k hk => ?_⟩
    obtain hs | hm := hsub hk
    · cases c with
      | put k' => exact .inl (.inr hs)
      | del k' =>
        by_cases hkk : k = k'
        · exact .inr (.inr (congrArg Change.del hkk.symm))
        · exact .inl ⟨hs, hkk⟩
    · exact .inr (.inl hm)
  | @connect burst hlink hburst =>
    refine ⟨?_, nofun⟩
    rintro _ ⟨⟩
    have hputs : ∀ c ∈ burst, ∃ k, c = .put k := fun c hc => by
      obtain ⟨k, -, hk⟩ := (hburst c).1 hc
      exact ⟨k, hk⟩
    have hsource : {k | .put k ∈ burst} = s.source := by
      ext k
      rw [Set.mem_ofPred_eq, hburst]
      simp
    refine ⟨?_, ?_, Set.disjoint_sdiff_left⟩
    · rw [after_puts hputs, hsource, Set.union_comm, Set.union_sdiff_self]
    · rintro k ⟨hk, hnot⟩
      exact (hi.down hlink hk).resolve_left hnot
  | @deliver c rest hlink =>
    refine ⟨?_, nofun⟩
    rintro _ ⟨⟩
    exact hi.up _ hlink
  | @drop pending hlink =>
    obtain ⟨hafter, hmissed, -⟩ := hi.up pending hlink
    refine ⟨nofun, fun _ k hk => ?_⟩
    by_cases hdel : .del k ∈ pending
    · exact .inr (.inr hdel)
    · obtain hs | ho := hafter ▸ mem_after hk hdel
      · exact .inl hs
      · exact .inr (.inl (hmissed ho))

theorem Reachable.inv {s : State K} (h : s.Reachable) : s.Inv := by
  induction h with
  | start source => exact ⟨nofun, fun _ => Set.subset_union_left⟩
  | step _ hstep ih => exact ih.step hstep

/-- **Caught up**, the replica is the source and the orphans, whose deletion was missed. -/
theorem Reachable.caught_up {s : State K} (h : s.Reachable) (hlink : s.link = some []) :
    s.replica = s.source ∪ s.orphans ∧ s.orphans ⊆ s.missed ∧ Disjoint s.orphans s.source :=
  h.inv.up [] hlink

end State

end Feed
