import Sidecar.Lifecycle
import Sidecar.Provenance

/-!
# Where the effects of a life come from

Over a whole life of the process, its watchers run in any order, each of them in its own area. What
the watchers that own something keep of it holds whenever these are at rest, for the others leave it
alone (`Traced.step`). The files that change are those of data keys of items that the server has
delivered, and whoever is called is in the settings or in a delivered item (`provenance`). A process
that watches nothing but some kinds and namespaces asks the API for nothing else.
-/

namespace Sidecar

open StateM Interleave

/-- A section of the process that leaves files and maps alone. -/
theorem Accounts.lift {env : Env} {settings : Settings} {D : Kind → Item → Prop} {A : Area}
    {α : Type} {x : M α}
    (hemits : Moves (Emits (Accounted settings D)) x) (hsilent : Moves Silent x) (w : World) :
    Accounts settings D env A w (liftSys x w).2 := .quiet (hemits w.sys) (hsilent w.sys) rfl rfl

theorem Accounts.later {env : Env} {settings : Settings} {D : Kind → Item → Prop} {A : Area}
    (w : World) (ms : Nat) :
    Accounts settings D env A w { w with sys := { w.sys with clock := w.sys.clock + ms } } :=
  .quiet (.of_same rfl) ⟨List.prefix_rfl, rfl, rfl⟩ rfl rfl

def Watcher.target (t : Watcher) : Kind × String := (t.kind, t.ns)

/-- Between two rounds, or at an end. -/
def Watcher.Resting (t : Watcher) : Prop := ∀ todo, t.state ≠ .busy todo

instance : (t : Watcher) → Decidable t.Resting
  | ⟨_, _, .idle⟩ => .isTrue fun _ hbusy => nomatch hbusy
  | ⟨_, _, .busy todo⟩ => .isFalse fun hresting => hresting todo rfl
  | ⟨_, _, .waiting⟩ => .isTrue fun _ hbusy => nomatch hbusy
  | ⟨_, _, .ended⟩ => .isTrue fun _ hbusy => nomatch hbusy

namespace Process

/-- The server delivers the item in this step. -/
def Label.Delivers (l : Label) (kind : Kind) (item : Item) : Prop :=
  match l with
  | .pass replies => ∃ o, (replies kind).Sends o ∧ item = Item.fromObject kind o
  | .round _ input => ∃ o, (input kind).Sends o ∧ item = Item.fromObject kind o
  | _ => False

/-- What was delivered in a life. -/
def deliveries (ls : List Label) (kind : Kind) (item : Item) : Prop :=
  ∃ l ∈ ls, l.Delivers kind item

/-- What the server's answers in a step hand to the watcher they are for. -/
def Hands (given : Kind × String → Bool → Item → Prop) (p : Process) (l : Label) : Prop :=
  match p.phase, l with
  | .syncing _ ((kind, ns) :: _), .pass replies =>
    ∀ o, (replies kind).Sends o → given (kind, ns) false (Item.fromObject kind o)
  | .watching _ watchers _, .round i input => ∀ t, watchers[i]? = some t →
    (∀ o, (input t.kind).Sends o → given (t.kind, t.ns) false (Item.fromObject t.kind o)) ∧
      ∀ o, (input t.kind).Drops o → given (t.kind, t.ns) true (Item.fromObject t.kind o)
  | _, _ => True

/-! ## Watchers beside each other -/

/-- One watcher at most owns what `φ` is about, and keeps it as long as the others stay in the area
`X`; they do. -/
structure Pool (env : Env) (settings : Settings) (D : Kind → Item → Prop) (X : Area)
    (φ : World → Prop)
    (owner : Kind × String → Prop) (given : Kind × String → Bool → Item → Prop) : Prop where
  stable : Stable env settings D X φ
  own : ∀ target ∈ settings.watched, owner target →
    Conduct env settings D X .all φ target.1 target.2 (given target)
  other : ∀ target ∈ settings.watched, ¬owner target →
    Conduct env settings D .all X (fun _ => True) target.1 target.2 (given target)
  alone : settings.watched.Pairwise fun target target' => ¬(owner target ∧ owner target')

section Pool

variable {env : Env} {settings : Settings} {D : Kind → Item → Prop} {X : Area} {φ : World → Prop}
  {owner : Kind × String → Prop} {given : Kind × String → Bool → Item → Prop}

/-- A task keeps to what is asked of it: the one of the owner may touch everything and leaves `φ` in
the end. -/
structure Trusty (env : Env) (settings : Settings) (D : Kind → Item → Prop) (X : Area)
    (φ : World → Prop) (owner : Kind × String → Prop) (w : World) (t : Watcher) : Prop where
  own : owner t.target → ∀ todo, t.state = .busy todo →
    Honest env settings D X .all (fun _ => φ) todo w
  other : ¬owner t.target → ∀ todo, t.state = .busy todo →
    Honest env settings D .all X (fun _ _ => True) todo w

theorem Trusty.of_resting {w : World} {t : Watcher} (h : t.Resting) :
    Trusty env settings D X φ owner w t :=
  ⟨fun _ todo hbusy => absurd hbusy (h todo), fun _ todo hbusy => absurd hbusy (h todo)⟩

theorem Trusty.stable {w w' : World} {t : Watcher} (h : Trusty env settings D X φ owner w t)
    (hall : Accounts settings D env .all w w')
    (hX : owner t.target → Accounts settings D env X w w') :
    Trusty env settings D X φ owner w' t where
  own howner todo hbusy := Guarantees.stable Accounts.preorder (h.own howner todo hbusy) (hX howner)
  other howner todo hbusy := Guarantees.stable Accounts.preorder (h.other howner todo hbusy) hall

/-- The watchers of the settings, their tasks beside each other in the world `w`. -/
structure Watching (env : Env) (settings : Settings) (D : Kind → Item → Prop) (X : Area)
    (φ : World → Prop)
    (owner : Kind × String → Prop) (watchers : List Watcher) (w : World) : Prop where
  targets : watchers.map Watcher.target = settings.watched
  tasks : ∀ t ∈ watchers, Trusty env settings D X φ owner w t
  atRest : (∀ t ∈ watchers, owner t.target → t.Resting) → φ w

variable (hpool : Pool env settings D X φ owner given)

theorem Watching.mem_watched {watchers : List Watcher} {w : World}
    (h : Watching env settings D X φ owner watchers w) {t : Watcher} (ht : t ∈ watchers) :
    t.target ∈ settings.watched := h.targets ▸ List.mem_map_of_mem ht

include hpool in
/-- The owner is alone. -/
theorem Watching.alone {watchers : List Watcher} {w : World}
    (h : Watching env settings D X φ owner watchers w)
    {i j : Nat} {t u : Watcher} (ht : watchers[i]? = some t) (hu : watchers[j]? = some u)
    (howner : owner t.target) (howner' : owner u.target) : i = j := by
  have hpair := hpool.alone
  rw [← h.targets, List.pairwise_map] at hpair
  obtain ⟨hi, rfl⟩ := List.getElem?_eq_some_iff.1 ht
  obtain ⟨hj, rfl⟩ := List.getElem?_eq_some_iff.1 hu
  rcases Nat.lt_trichotomy i j with hij | hij | hij
  · exact absurd ⟨howner, howner'⟩ (List.pairwise_iff_getElem.1 hpair i j hi hj hij)
  · exact hij
  · exact absurd ⟨howner', howner⟩ (List.pairwise_iff_getElem.1 hpair j i hj hi hij)

include hpool in
/-- Nothing happens in the area. -/
theorem Watching.move {watchers : List Watcher} {w w' : World}
    (h : Watching env settings D X φ owner watchers w)
    (hmove : Accounts settings D env X w w') : Watching env settings D X φ owner watchers w' where
  targets := h.targets
  tasks t ht := (h.tasks t ht).stable (hmove.mono X.le_all) fun _ => hmove
  atRest hrest := hpool.stable w w' hmove (h.atRest hrest)

include hpool in
/-- **One watcher goes on**: beside the owner it stays in the area; the owner leaves `φ` when it
comes to rest. -/
theorem Watching.set {watchers : List Watcher} {w w' : World}
    (h : Watching env settings D X φ owner watchers w)
    {i : Nat} {t u : Watcher} (ht : watchers[i]? = some t) (htarget : u.target = t.target)
    (hmove : Accounts settings D env .all w w')
    (hX : ¬owner t.target → Accounts settings D env X w w')
    (hu : Trusty env settings D X φ owner w' u) (hrest : owner t.target → u.Resting → φ w') :
    Watching env settings D X φ owner (watchers.set i u) w' where
  targets := by
    obtain ⟨hi, rfl⟩ := List.getElem?_eq_some_iff.1 ht
    rw [List.map_set, htarget, ← h.targets,
      ← List.getElem_map Watcher.target (h := by simpa using hi), List.set_getElem_self]
  tasks t' ht' := by
    obtain ⟨j, hj⟩ := List.mem_iff_getElem?.1 ht'
    by_cases hij : i = j
    · subst hij
      have hlt : i < watchers.length := (List.getElem?_eq_some_iff.1 ht).1
      rw [List.getElem?_set_self hlt] at hj
      cases hj
      exact hu
    · rw [List.getElem?_set_ne hij] at hj
      refine (h.tasks t' (List.mem_of_getElem? hj)).stable hmove fun howner => hX fun howner' => ?_
      exact hij (h.alone hpool ht hj howner' howner)
  atRest hresting := by
    have hlt : i < watchers.length := (List.getElem?_eq_some_iff.1 ht).1
    have hmem : u ∈ watchers.set i u := List.mem_of_getElem? (List.getElem?_set_self hlt)
    by_cases howner : owner t.target
    · exact hrest howner (hresting u hmem (htarget ▸ howner))
    · refine hpool.stable w w' (hX howner) (h.atRest fun t' ht' howner' => ?_)
      obtain ⟨j, hj⟩ := List.mem_iff_getElem?.1 ht'
      have hij : i ≠ j := by
        rintro rfl
        rw [ht] at hj
        cases hj
        exact howner howner'
      exact hresting t' (List.mem_of_getElem? ((List.getElem?_set_ne hij).trans hj)) howner'

/-! ## Lives -/

/-- The life up to here is accounted for, and what is still to be done will be. -/
structure Traced (env : Env) (settings : Settings) (D : Kind → Item → Prop) (X : Area)
    (φ : World → Prop) (owner : Kind × String → Prop) (w₀ : World) (p : Process) : Prop where
  known : Vouched D settings.ctx p.world.maps
  accounts : Accounts settings D env .all w₀ p.world
  syncing : ∀ settings' left, p.phase = .syncing settings' left →
    settings' = settings ∧ (∀ target ∈ left, target ∈ settings.watched) ∧ φ p.world
  watching : ∀ settings' watchers nextTick, p.phase = .watching settings' watchers nextTick →
    settings' = settings ∧ Watching env settings D X φ owner watchers p.world

variable {w₀ : World} {p q : Process} {l : Label}

/-- The process ends. -/
theorem Traced.exit (h : Traced env settings D X φ owner w₀ p) {w : World}
    (hmove : Accounts settings D env .all p.world w) (hknown : Vouched D settings.ctx w.maps)
    (code : Nat) :
    Traced env settings D X φ owner w₀ ⟨w, .exited code⟩ where
  known := hknown
  accounts := Accounts.preorder.trans h.accounts hmove
  syncing _ _ hphase := by cases hphase
  watching _ _ _ hphase := by cases hphase

/-- A panic cuts the trace of its section short, and leaves its files and maps. -/
theorem accounts_broken {w w' v : World} (h : Accounts settings D env .all w w')
    (hv : World.Broken w w' v) :
    Accounts settings D env .all w v where
  events := by
    obtain ⟨new, hnew, hall⟩ := h.events
    obtain ⟨⟨cut, hcut⟩, hle⟩ := hv.trace ⟨new, hnew.symm⟩
    refine ⟨cut, hcut.symm, fun e he => hall e ?_⟩
    unfold TraceLe at hle
    rw [← hcut, hnew, List.prefix_append_right_inj] at hle
    exact hle.subset he
  files p hp := by
    rw [hv.tree]
    exact h.files p hp
  dirs := by
    rw [hv.tree]
    exact h.dirs
  produced id hid := absurd trivial hid
  entries k hk := absurd trivial hk
  folders k hk := by
    rw [hv.maps]
    exact h.folders k hk

/-- The process panics. -/
theorem Traced.abort (h : Traced env settings D X φ owner w₀ p) {w : World}
    (hmove : Accounts settings D env .all p.world w) (hknown : Vouched D settings.ctx w.maps) :
    Traced env settings D X φ owner w₀ ⟨w, .aborted⟩ where
  known := hknown
  accounts := Accounts.preorder.trans h.accounts hmove
  syncing _ _ hphase := by cases hphase
  watching _ _ _ hphase := by cases hphase

/-- The process goes on to watch. -/
theorem Traced.watch (h : Traced env settings D X φ owner w₀ p) {watchers : List Watcher}
    {nextTick : Nat} {w : World}
    (hmove : Accounts settings D env .all p.world w) (hknown : Vouched D settings.ctx w.maps)
    (hwatching : Watching env settings D X φ owner watchers w) :
    Traced env settings D X φ owner w₀ ⟨w, .watching settings watchers nextTick⟩ where
  known := hknown
  accounts := Accounts.preorder.trans h.accounts hmove
  syncing _ _ hphase := by cases hphase
  watching _ _ _ hphase := by
    cases hphase
    exact ⟨rfl, hwatching⟩

theorem reportDied_emits (watchers : List Watcher) : Moves (Emits (Accounted settings D))
    (reportDied watchers) := by
  have hp := Emits.preorder (Accounted settings D)
  have hlog := log_emits (accounted_inner settings D)
  induction watchers with
  | nil => exact .pure hp _
  | cons t ts ih =>
    exact .bind hp (.ite (hlog _ _) (.pure hp _)) fun _ => .bind hp ih fun _ => .pure hp _

theorem look_emits (watchers : List Watcher) : Moves (Emits (Accounted settings D))
    (look watchers) := by
  have hp := Emits.preorder (Accounted settings D)
  exact .bind hp (fun _ => .of_same rfl) fun _ => .bind hp (reportDied_emits watchers) fun _ =>
    .bind hp (.ite (log_emits (accounted_inner settings D) _ _) (.pure hp _)) fun _ => .pure hp _

theorem silent_of_same {α : Type} {x : M α}
    (hx : ∀ s, (x s).2.trace = s.trace ∧ (x s).2.tree = s.tree) :
    Moves Silent x := by
  intro s
  obtain ⟨htrace, htree⟩ := hx s
  refine ⟨?_, htree, ?_⟩
  · unfold TraceLe
    rw [htrace]
  · unfold Sys.produced
    rw [htrace]

theorem look_silent (watchers : List Watcher) : Moves Silent (look watchers) := by
  have hp := Silent.preorder
  have hdied : Moves Silent (reportDied watchers) := by
    induction watchers with
    | nil => exact .pure hp _
    | cons t ts ih =>
      exact .bind hp (.ite (log_silent _ _) (.pure hp _)) fun _ => .bind hp ih fun _ => .pure hp _
  exact .bind hp (silent_of_same fun _ => ⟨rfl, rfl⟩) fun _ => .bind hp hdied fun _ =>
    .bind hp (.ite (log_silent _ _) (.pure hp _)) fun _ => .pure hp _

theorem startWatching_accounts {A : Area} (w : World) :
    Accounts settings D env A w (liftSys (startWatching settings) w).2 := by
  have hp := Emits.preorder (Accounted settings D)
  refine .lift (.bind hp (fun _ => .of_same rfl) fun _ =>
    .bind hp (log_emits (accounted_inner settings D) _ _) fun _ =>
    .bind hp (fun _ => .of_same rfl) fun _ => .bind hp (look_emits _) fun _ => .pure hp _) ?_ w
  exact .bind Silent.preorder (silent_of_same fun _ => ⟨rfl, rfl⟩) fun _ => .bind Silent.preorder
    (log_silent _ _) fun _ => .bind Silent.preorder (silent_of_same fun _ => ⟨rfl, rfl⟩) fun _ =>
      .bind Silent.preorder (look_silent _) fun _ => .pure Silent.preorder _

theorem initRequestUrl_cases (settings : Settings) :
    settings.initRequestUrl = none ∨ settings.initRequestUrl = settings.requestUrl := by
  unfold Settings.initRequestUrl
  split
  · exact .inr rfl
  · split
    · exact .inl rfl
    · exact .inr rfl

include hpool in
/-- An initial pass. -/
theorem pass_accounts {w : World} {kind : Kind} {ns : String} (replies : ListReplies kind)
    (hknown : Vouched D settings.ctx w.maps) (hns : (kind, ns) ∈ settings.watched)
    (hsent : ∀ o, replies.Sends o → given (kind, ns) false (Item.fromObject kind o)) (hs : φ w) :
    let out :=
  listResources env settings.ctx kind ns settings.initRequestUrl settings.initIgnore replies w
    Accounts settings D env .all w out.2 ∧ Vouched D settings.ctx out.2.maps ∧ φ out.2 := by
  have hurl := initRequestUrl_cases settings
  rw [← passSections_run]
  by_cases howner : owner (kind, ns)
  · have hhonest : Honest env settings D X .all (fun _ => φ) (passSections env settings.ctx kind ns
        settings.initRequestUrl settings.initIgnore replies) w :=
      passSections_honest (hpool.own _ hns howner) hurl hns hsent hknown hs
    exact Guarantees.run Accounts.preorder Accounts.preorder (fun _ _ h => h) hknown hhonest
  · have hhonest :
      Honest env settings D .all X (fun _ _ => True) (passSections env settings.ctx kind ns
        settings.initRequestUrl settings.initIgnore replies) w :=
      passSections_honest (hpool.other _ hns howner) hurl hns hsent hknown trivial
    obtain ⟨hmove, hvouched, -⟩ :=
      Guarantees.run Accounts.preorder Accounts.preorder (fun _ _ h => h) hknown hhonest
    exact ⟨hmove.mono X.le_all, hvouched, hpool.stable _ _ hmove hs⟩

include hpool in
/-- An initial pass up to a panic. -/
theorem abortedPass_accounts {w w' : World} {kind : Kind} {ns : String} {replies : ListReplies kind}
    (hknown : Vouched D settings.ctx w.maps) (hns : (kind, ns) ∈ settings.watched)
    (hsent : ∀ o, replies.Sends o → given (kind, ns) false (Item.fromObject kind o)) (hs : φ w)
    (habort : (passSections env settings.ctx kind ns settings.initRequestUrl settings.initIgnore
      replies).runUntil World.panic? w = (none, w')) :
    Accounts settings D env .all w w' ∧ Vouched D settings.ctx w'.maps := by
  have hstop : ∀ s t u, Accounts settings D env .all s t → Vouched D settings.ctx t.maps →
      World.panic? s t = some u → Accounts settings D env .all s u ∧
      Vouched D settings.ctx u.maps := by
    intro s t u hmove hvouched hpanic
    have hbroken := World.broken_of_panic hpanic
    exact ⟨accounts_broken hmove hbroken, hbroken.maps ▸ hvouched⟩
  have hurl := initRequestUrl_cases settings
  obtain rfl := congrArg Prod.snd habort
  by_cases howner : owner (kind, ns)
  · have hhonest : Honest env settings D X .all (fun _ => φ) (passSections env settings.ctx kind ns
        settings.initRequestUrl settings.initIgnore replies) w :=
      passSections_honest (hpool.own _ hns howner) hurl hns hsent hknown hs
    exact Guarantees.runUntil Accounts.preorder Accounts.preorder
      (fun _ _ h => h) hstop hknown hhonest
  · have hhonest :
      Honest env settings D .all X (fun _ _ => True) (passSections env settings.ctx kind ns
        settings.initRequestUrl settings.initIgnore replies) w :=
      passSections_honest (hpool.other _ hns howner) hurl hns hsent hknown trivial
    exact Guarantees.runUntil Accounts.preorder Accounts.preorder (fun _ _ h => h.mono X.le_all)
      (fun s t u hmove => hstop s t u (hmove.mono X.le_all)) hknown hhonest

/-- What one section of a task does. -/
theorem section?_accounts {t u : Watcher} {w w' : World} {i : Nat}
    (hknown : Vouched D settings.ctx w.maps)
    (ht : Trusty env settings D X φ owner w t) (hs : section? w t i = some (w', u)) :
    Accounts settings D env .all w w' ∧ Vouched D settings.ctx w'.maps := by
  have hrefl : ∀ {A : Area}, Accounts settings D env A w w := Accounts.preorder.refl _
  unfold section? at hs
  split at hs
  · next x next hbusy =>
    cases hs
    by_cases howner : owner t.target
    · obtain ⟨hmove, hvouched, -⟩ := ht.own howner _ hbusy w hrefl hknown
      exact ⟨hmove, hvouched⟩
    · obtain ⟨hmove, hvouched, -⟩ := ht.other howner _ hbusy w hrefl hknown
      exact ⟨hmove.mono X.le_all, hvouched⟩
  · cases hs
    exact ⟨hrefl, hknown⟩
  · cases hs
    exact ⟨hrefl, hknown⟩
  · cases hs
    exact ⟨.lift (fun _ => .of_same rfl) (silent_of_same fun _ => ⟨rfl, rfl⟩) _, hknown⟩
  · cases hs

include hpool in
/-- One section of a task. -/
theorem section?_traced (h : Traced env settings D X φ owner w₀ p) {watchers : List Watcher}
    {nextTick i : Nat}
    {t u : Watcher} {w : World} (hphase : p.phase = .watching settings watchers nextTick)
    (ht : watchers[i]? = some t) (hs : section? p.world t i = some (w, u)) :
    Traced env settings D X φ owner w₀ ⟨w, .watching settings (watchers.set i u) nextTick⟩ := by
  obtain ⟨-, hwatching⟩ := h.watching _ _ _ hphase
  have htask := hwatching.tasks t (List.mem_of_getElem? ht)
  have hrefl : ∀ {A : Area}, Accounts settings D env A p.world p.world := Accounts.preorder.refl _
  -- a task that is done leaves what the owner has to leave
  have hdone : ∀ {result : Option Bool}, t.state = .busy (.done result) →
      owner t.target → φ p.world :=
    fun hbusy howner => htask.own howner _ hbusy p.world hrefl h.known
  have hended : ∀ {state : TaskState} {result : Option Bool} {w : World},
      t.state = .busy (.done result) →
      (∀ todo, state ≠ .busy todo) → (∀ {A : Area}, Accounts settings D env A p.world w) →
      w.maps = p.world.maps →
      Traced env settings D X φ owner w₀
        ⟨w, .watching settings (watchers.set i { t with state }) nextTick⟩ := by
    intro state result w hbusy hstate hmove hmaps
    refine h.watch hmove (hmaps ▸ h.known) ?_
    exact hwatching.set hpool ht rfl hmove (fun _ => hmove) (.of_resting hstate) fun howner _ =>
      hpool.stable _ _ hmove (hdone hbusy howner)
  unfold section? at hs
  split at hs
  · next x next hbusy =>
    cases hs
    by_cases howner : owner t.target
    · obtain ⟨hmove, hknown, hnext⟩ := htask.own howner _ hbusy p.world hrefl h.known
      refine h.watch hmove hknown
        (hwatching.set hpool ht rfl hmove (absurd howner) ⟨fun _ todo htodo => ?_,
        absurd howner⟩ fun _ hresting => absurd rfl (hresting _))
      cases htodo
      exact hnext
    · obtain ⟨hmove, hknown, hnext⟩ := htask.other howner _ hbusy p.world hrefl h.known
      have hall := hmove.mono X.le_all
      refine h.watch hall hknown
        (hwatching.set hpool ht rfl hall (fun _ => hmove) ⟨fun howner' => absurd howner' howner,
        fun _ todo htodo => ?_⟩ fun howner' => absurd howner' howner)
      cases htodo
      exact hnext
  · next hbusy =>
    cases hs
    exact hended hbusy (fun _ h => by cases h) hrefl rfl
  · next hbusy =>
    cases hs
    exact hended hbusy (fun _ h => by cases h) hrefl rfl
  · next hbusy =>
    cases hs
    exact hended hbusy (fun _ h => by cases h) (.lift (fun _ => .of_same rfl)
      (silent_of_same fun _ => ⟨rfl, rfl⟩) _) rfl
  · cases hs

include hpool in
/-- **A step accounts for what it does**, and what a watcher at rest has left stays. -/
theorem Traced.step (h : Traced env settings D X φ owner w₀ p) (hs : Steps env p l q)
    (hl : Hands given p l) :
    Traced env settings D X φ owner w₀ q := by
  have hlog := log_emits (accounted_inner settings D)
  cases hs with
  | @wait ms =>
    have hmove : ∀ {A : Area}, Accounts settings D env A p.world
        { p.world with sys := { p.world.sys with clock := p.world.sys.clock + ms } } :=
        .later p.world ms
    exact {
      known := h.known
      accounts := Accounts.preorder.trans h.accounts hmove
      syncing := fun _ _ hq => by
        obtain ⟨hsettings, hleft, hφ⟩ := h.syncing _ _ hq
        exact ⟨hsettings, hleft, hpool.stable _ _ hmove hφ⟩
      watching := fun _ _ _ hq => by
        obtain ⟨hsettings, hwatching⟩ := h.watching _ _ _ hq
        exact ⟨hsettings, hwatching.move hpool hmove⟩ }
  | sigterm => exact h.exit (.lift (hlog _ _) (log_silent _ _) _) h.known 0
  | @passed settings' kind ns left replies w hphase hmade =>
    obtain ⟨rfl, hleft, hφ⟩ := h.syncing _ _ hphase
    unfold Hands at hl
    rw [hphase] at hl
    obtain ⟨hmove, hknown, hφ'⟩ :=
      pass_accounts hpool (replies kind) h.known (hleft (kind, ns) List.mem_cons_self) hl hφ
    rw [hmade.1] at hmove hknown hφ'
    exact {
      known := hknown
      accounts := Accounts.preorder.trans h.accounts hmove
      syncing := fun _ _ hq => by
        cases hq
        exact ⟨rfl, fun target ht => hleft target (List.mem_cons_of_mem _ ht), hφ'⟩
      watching := fun _ _ _ hq => by cases hq }
  | @failed settings' kind ns left replies e w hphase hmade =>
    obtain ⟨rfl, hleft, hφ⟩ := h.syncing _ _ hphase
    unfold Hands at hl
    rw [hphase] at hl
    obtain ⟨hmove, hknown, -⟩ :=
      pass_accounts hpool (replies kind) h.known (hleft (kind, ns) List.mem_cons_self) hl hφ
    rw [hmade.1] at hmove hknown
    exact h.exit (Accounts.preorder.trans hmove (.lift (hlog _ _) (log_silent _ _) _)) hknown 1
  | @abortedPass settings' kind ns left replies w hphase habort =>
    obtain ⟨rfl, hleft, hφ⟩ := h.syncing _ _ hphase
    unfold Hands at hl
    rw [hphase] at hl
    obtain ⟨hmove, hknown⟩ :=
      abortedPass_accounts hpool h.known (hleft (kind, ns) List.mem_cons_self) hl hφ habort
    exact h.abort hmove hknown
  | listed =>
    exact h.exit (.lift (fun _ => .of_same rfl) (silent_of_same fun _ => ⟨rfl, rfl⟩) _) h.known 0
  | @serve settings' hphase _ =>
    obtain ⟨rfl, -, hφ⟩ := h.syncing _ _ hphase
    have hmove :
        ∀ {A : Area},
        Accounts settings' D env A p.world (liftSys (startWatching settings') p.world).2 :=
      startWatching_accounts p.world
    have hidle : ∀ t ∈ spawnWatchers settings', t.Resting := by
      rintro t ht todo htodo
      obtain ⟨target, -, rfl⟩ := List.mem_map.1 ht
      cases htodo
    refine h.watch hmove h.known ⟨?_, fun t ht => .of_resting (hidle t ht), fun _ =>
      hpool.stable _ _ hmove hφ⟩
    unfold spawnWatchers
    rw [List.map_map]
    exact List.map_id _
  | @round settings' watchers nextTick i t input hphase ht hidle =>
    obtain ⟨rfl, hwatching⟩ := h.watching _ _ _ hphase
    have hwatched := hwatching.mem_watched (List.mem_of_getElem? ht)
    unfold Hands at hl
    rw [hphase] at hl
    obtain ⟨hsent, hdrops⟩ := hl t ht
    have hrefl : ∀ {A : Area}, Accounts settings' D env A p.world p.world :=
      Accounts.preorder.refl _
    refine h.watch hrefl h.known
      (hwatching.set hpool ht rfl hrefl (fun _ => hrefl) ⟨fun howner todo htodo => ?_,
      fun howner todo htodo => ?_⟩ fun _ hresting => absurd rfl (hresting _))
    · cases htodo
      refine roundSections_honest (hpool.own _ hwatched howner) hwatched hsent hdrops h.known ?_
      refine hwatching.atRest fun t' ht' howner' todo hbusy => ?_
      obtain ⟨j, hj⟩ := List.mem_iff_getElem?.1 ht'
      obtain rfl := hwatching.alone hpool ht hj howner howner'
      rw [ht] at hj
      cases hj
      rw [hidle] at hbusy
      cases hbusy
    · cases htodo
      exact roundSections_honest (hpool.other _ hwatched howner)
        hwatched hsent hdrops h.known trivial
  | @«section» settings' watchers nextTick i t u w hphase ht hsection =>
    obtain ⟨rfl, -⟩ := h.watching _ _ _ hphase
    exact section?_traced hpool h hphase ht hsection
  | @abortedSection settings' watchers nextTick i t u w v hphase ht hsection hpanic =>
    obtain ⟨rfl, hwatching⟩ := h.watching _ _ _ hphase
    have htask := hwatching.tasks t (List.mem_of_getElem? ht)
    obtain ⟨hmove, hknown⟩ := section?_accounts h.known htask hsection
    have hbroken := World.broken_of_panic hpanic
    exact h.abort (accounts_broken hmove hbroken) (hbroken.maps ▸ hknown)
  | @monitor settings' watchers nextTick hphase _ =>
    obtain ⟨rfl, hwatching⟩ := h.watching _ _ _ hphase
    have hmove :
        ∀ {A : Area}, Accounts settings' D env A p.world (liftSys (look watchers) p.world).2 :=
      .lift (look_emits watchers) (look_silent watchers) p.world
    split
    · exact h.exit hmove h.known 1
    · exact h.watch hmove h.known (hwatching.move hpool hmove)

include hpool in
theorem boot_traced {start : Start} {w : World} (hmaps : w.maps = .empty)
    (hread : (readSettings start w.sys).1 = .ok settings) (hs : φ w) :
    Traced env settings D X φ owner w (boot start w) := by
  have hlog := log_emits (accounted_inner settings D)
  have hp := Emits.preorder (Accounted settings D)
  have hsettings : ∀ {A : Area}, Accounts settings D env A w (liftSys (readSettings start) w).2 :=
    .lift (readSettings_moves hp hlog (fun _ => .of_same rfl) start)
      (readSettings_moves Silent.preorder log_silent (silent_of_same fun _ => ⟨rfl, rfl⟩) start) w
  have hsync : ∀ {A : Area}, Accounts settings D env A (liftSys (readSettings start) w).2
      (liftSys (startSync settings) (liftSys (readSettings start) w).2).2 :=
    .lift (startSync_moves hp hlog settings) (startSync_moves Silent.preorder log_silent settings) _
  have hboot : boot start w = ⟨(liftSys (startSync settings) (liftSys (readSettings start) w).2).2,
      .syncing settings settings.watched⟩ := by
    unfold boot liftSys
    dsimp only
    rw [hread]
  rw [hboot]
  exact {
    known := by
      change Vouched D settings.ctx w.maps
      rw [hmaps]
      exact .empty
    accounts := Accounts.preorder.trans hsettings hsync
    syncing := fun _ _ hq => by
      cases hq
      exact ⟨rfl, fun _ ht => ht, hpool.stable _ _ hsync (hpool.stable _ _ hsettings hs)⟩
    watching := fun _ _ _ hq => by cases hq }

include hpool in
theorem run_traced {start : Start} {w : World} {ls : List Label} (hmaps : w.maps = .empty)
    (hread : (readSettings start w.sys).1 = .ok settings) (hs : φ w)
    (hrun : Machine.Run ((machine env).guard (Hands given)) (boot start w) ls p) :
    Traced env settings D X φ owner w p := by
  refine hrun.invariant (C := fun _ => True) ?_ (boot_traced hpool hmaps hread hs)
    fun _ _ => trivial
  rintro p l q h - ⟨hstep, hl⟩
  exact h.step hpool (step_cases env hstep) hl

end Pool

/-! ## Provenance -/

/-- All the watchers, with nothing to keep. -/
theorem pool_of_deliveries (env : Env) (settings : Settings) (D : Kind → Item → Prop) :
    Pool env settings D .all (fun _ => True) (fun _ => False) fun target _ item =>
      D target.1 item where
  stable _ _ _ h := h
  own _ _ howner := howner.elim
  other target _ _ :=
    (conduct_of_scope (K := fun _ => True) .all target.2 fun _ _ _ => trivial).mono
      fun _ _ hitem => ⟨hitem, trivial⟩
  alone := List.pairwise_of_forall fun _ _ h => h.1

/-- What a step hands over was delivered. -/
theorem hands_of_delivers {D : Kind → Item → Prop} {l : Label}
    (hl : ∀ kind item, l.Delivers kind item → D kind item)
    (p : Process) : Hands (fun target _ item => D target.1 item) p l := by
  unfold Hands
  split
  · next kind ns _ replies _ => exact fun o ho => hl kind _ ⟨o, ho, rfl⟩
  · next watchers _ i input _ =>
    refine fun t _ => ⟨fun o ho => hl t.kind _ ⟨o, ho, rfl⟩, fun o ho => ?_⟩
    obtain ⟨events, hevents, hmem⟩ := ho
    exact hl t.kind _ ⟨o, .event hevents hmem, rfl⟩
  · trivial

/-- **Everything is accounted for**, in every life and every order of its sections: by the settings
and by what the server has delivered. -/
theorem provenance {env : Env} {start : Start} {w : World} (hmaps : w.maps = .empty)
    {settings : Settings}
    (hread : (readSettings start w.sys).1 = .ok settings) {ls : List Label} {p : Process}
    (hrun : Machine.Run (machine env) (boot start w) ls p) :
    (∀ file, p.world.sys.tree.fileAt file ≠ w.sys.tree.fileAt file →
      ∃ slot, Wanted (deliveries ls) settings.ctx slot ∧ slot.place env settings.ctx = file) ∧
      ∃ new, p.world.sys.trace = w.sys.trace ++ new ∧
      ∀ e ∈ new, Accounted settings (deliveries ls) e := by
  have hguarded :
      Machine.Run ((machine env).guard (Hands fun target _ item => deliveries ls target.1 item))
        (boot start w) ls p :=
    hrun.mono fun s l hl _ hstep =>
      ⟨hstep, hands_of_delivers (fun kind item hdel => ⟨l, hl, hdel⟩) s⟩
  have haccounts :=
    (run_traced (pool_of_deliveries env settings (deliveries ls))
      hmaps hread trivial hguarded).accounts
  refine ⟨fun file hchanged => ?_, haccounts.events⟩
  by_contra hnone
  exact hchanged (haccounts.files file fun slot hslot _ hplace => hnone ⟨slot, hslot, hplace⟩)

theorem provenance_sample : ∃ settings, (readSettings sampleStart sampleWorld.sys).1 =
    .ok settings ∧
    ∃ slot, Wanted (deliveries sampleServed) settings.ctx slot ∧
      slot.place sampleEnv settings.ctx = sampleEnv.place "/data" "k" := by
  obtain ⟨settings, hread⟩ : ∃ settings, (readSettings sampleStart sampleWorld.sys).1 =
      .ok settings := ⟨_, rfl⟩
  have hrun : Machine.Run (machine sampleEnv) (boot sampleStart sampleWorld) sampleServed
      (sampleLife sampleServed) :=
    sampleLife_run sampleServed (by decide +kernel)
  exact ⟨settings, hread, (provenance rfl hread hrun).1 _ (by decide +kernel)⟩

end Process

end Sidecar
