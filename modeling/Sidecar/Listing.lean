import Sidecar.Blind
import Sidecar.Reading

/-!
# A list pass acts on the complete listing or not at all

However the server cuts a listing into pages, and whatever it retries on the way, the read half
comes to the same items (`listAll_cuts`), and a pass only depends on those (`SamePass.of_start`). If
a request fails for good, the read half ends in an error and so does the pass, before it has done
anything (`readListing_fails`).
-/

namespace Sidecar

open Posix StateM

/-! ## One request -/

section Request

variable {α : Type} (env : Env)

/-- Transport errors that are retried. -/
structure Transient (errs : List KubeError) : Prop where
  transport : ∀ e ∈ errs, isTransportError e = true
  retries : errs.length ≤ env.httpCfg.retryTotal.toNat

/-- An error that is not retried any more: one of the API, or a transport error too many. -/
structure Refused (errs : List KubeError) (e : KubeError) : Prop extends Transient env errs where
  last : isTransportError e = true → errs.length = env.httpCfg.retryTotal.toNat

/-- Replies that start with errors. -/
def afterErrors (errs : List KubeError) (replies : Replies α) : Replies α :=
  errs.map .error ++ replies

/-- Each transient error is followed by another request. -/
theorem withTransportRetry_transient (request : M Unit) {errs : List KubeError} (attempt : Nat)
    (htransport : ∀ e ∈ errs, isTransportError e = true)
    (hretries : attempt + errs.length ≤ env.httpCfg.retryTotal.toNat)
    (replies : Replies α) (s : Sys) :
    ∃ s', withTransportRetry env request (afterErrors errs replies) attempt s =
      withTransportRetry env request replies (attempt + errs.length) s' := by
  induction errs generalizing attempt s with
  | nil => exact ⟨s, rfl⟩
  | cons e errs ih =>
    rw [List.length_cons] at hretries ⊢
    have hretry :
        (isTransportError e && decide (attempt < env.httpCfg.retryTotal.toNat)) = true := by
      rw [htransport e List.mem_cons_self, Bool.true_and, decide_eq_true_eq]
      omega
    obtain ⟨s', hs'⟩ := ih (attempt + 1)
      (fun e he => htransport e (List.mem_cons_of_mem _ he)) (by omega) _
    refine ⟨s', ?_⟩
    rw [show attempt + (errs.length + 1) = attempt + 1 + errs.length by omega, ← hs']
    unfold afterErrors
    rw [List.map_cons, List.cons_append, withTransportRetry, bind_apply, if_pos hretry]
    rfl

variable {env}

theorem withTransportRetry_ok {request : M Unit} {errs : List KubeError} (h : Transient env errs)
    (v : α) (rest : Replies α) (s : Sys) :
    (withTransportRetry env request (afterErrors errs (.ok v :: rest)) 0 s).1 =
      some (.ok v, rest) := by
  obtain ⟨s', hs'⟩ := withTransportRetry_transient env request 0
    h.transport (by simpa using h.retries) (.ok v :: rest) s
  rw [hs']
  rfl

theorem withTransportRetry_error {request : M Unit} {errs : List KubeError} {e : KubeError}
    (h : Refused env errs e) (rest : Replies α) (s : Sys) :
    (withTransportRetry env request (afterErrors errs (.error e :: rest)) 0 s).1 =
      some (.error e, rest) := by
  obtain ⟨s', hs'⟩ := withTransportRetry_transient env request 0
    h.transport (by simpa using h.retries) (.error e :: rest) s
  rw [hs', Nat.zero_add, withTransportRetry, bind_apply, if_neg]
  · rfl
  · intro hretry
    rw [Bool.and_eq_true, decide_eq_true_eq] at hretry
    have := h.last hretry.1
    omega

end Request

/-! ## Pages -/

section Pages

variable {env : Env} {kind : Kind}

/-- The replies are the objects cut into pages: any number of them, of any size, the last without a
continue token (or with an empty one), and each after some transient errors. -/
inductive Cuts (env : Env) (kind : Kind) : List kind.Object → Replies (Page kind) → Prop
  | last {errs : List KubeError} {objects : List kind.Object} {next : Option String} :
    Transient env errs → (next = none ∨ next = some "") →
      Cuts env kind objects (afterErrors errs [.ok (objects, next)])
  | page {errs : List KubeError} {objects objects' : List kind.Object} {next : String}
    {pages : Replies (Page kind)} : Transient env errs → next ≠ "" → Cuts env kind objects' pages →
      Cuts env kind (objects ++ objects') (afterErrors errs (.ok (objects, some next) :: pages))

/-- Some page request fails for good. -/
inductive PagesFail (env : Env) (kind : Kind) : Replies (Page kind) → Prop
  | here {errs : List KubeError} {e : KubeError} {rest : Replies (Page kind)} : Refused env errs e →
      PagesFail env kind (afterErrors errs (.error e :: rest))
  | later {errs : List KubeError} {objects : List kind.Object} {next : String}
    {pages : Replies (Page kind)} : Transient env errs → next ≠ "" → PagesFail env kind pages →
      PagesFail env kind (afterErrors errs (.ok (objects, some next) :: pages))

theorem listPage_ok {errs : List KubeError} (h : Transient env errs) (ns sel : String)
    (limit : UInt32) (cont : Option String) (page : Page kind)
    (rest : Replies (Page kind)) (s : Sys) :
    (listPage env kind ns sel limit cont (afterErrors errs (.ok page :: rest)) s).1 =
      some (.ok (page.1.map (Item.fromObject kind), page.2.filter (· ≠ "")), rest) := by
  unfold listPage
  rw [bind_apply, withTransportRetry_ok h]
  rfl

theorem listPage_error {errs : List KubeError} {e : KubeError} (h : Refused env errs e)
    (ns sel : String) (limit : UInt32) (cont : Option String)
    (rest : Replies (Page kind)) (s : Sys) :
    (listPage env kind ns sel limit cont (afterErrors errs (.error e :: rest)) s).1 =
      some (.error e, rest) := by
  unfold listPage
  rw [bind_apply, withTransportRetry_error h]
  rfl

/-- The fuel that covers the replies covers a page, and the replies after it. -/
theorem fuel_afterErrors {α : Type} {errs : List KubeError} {reply : Except KubeError α}
    {rest : Replies α} {fuel : Nat} (h : (afterErrors errs (reply :: rest)).length ≤ fuel) :
    ∃ n, fuel = n + 1 ∧ rest.length ≤ n := by
  rw [afterErrors, List.length_append, List.length_cons] at h
  exact ⟨fuel - 1, by omega, by omega⟩

/-- The page loop reads the objects, however they are cut. -/
theorem listAll_cuts {objects : List kind.Object} {pages : Replies (Page kind)}
    (h : Cuts env kind objects pages) (ns sel : String) {fuel : Nat} (hfuel : pages.length ≤ fuel)
    (cont : Option String) (s : Sys) :
    (listAll env kind ns sel fuel cont pages s).1 =
      some (.ok (objects.map (Item.fromObject kind))) := by
  induction h generalizing fuel cont s with
  | @last errs objects next herrs hnext =>
    obtain ⟨fuel, rfl, -⟩ := fuel_afterErrors hfuel
    have hnone : next.filter (· ≠ "") = none := by
      obtain rfl | rfl := hnext <;> rfl
    unfold listAll
    rw [bind_apply, listPage_ok herrs, hnone]
    rfl
  | @page errs objects objects' next pages herrs hnext _ ih =>
    obtain ⟨fuel, rfl, hrest⟩ := fuel_afterErrors hfuel
    have hsome : (some next).filter (· ≠ "") = some next := by simp [Option.filter, hnext]
    unfold listAll
    rw [bind_apply, listPage_ok herrs, hsome]
    dsimp only
    rw [bind_apply, ih hrest, List.map_append]
    rfl

/-- If a page cannot be had there is no listing. -/
theorem listAll_fails {pages : Replies (Page kind)} (h : PagesFail env kind pages) (ns sel : String)
    {fuel : Nat} (hfuel : pages.length ≤ fuel) (cont : Option String) (s : Sys) :
    ∃ e, (listAll env kind ns sel fuel cont pages s).1 = some (.error (.kube e)) := by
  induction h generalizing fuel cont s with
  | @here errs e rest hrefused =>
    obtain ⟨fuel, rfl, -⟩ := fuel_afterErrors hfuel
    refine ⟨e, ?_⟩
    unfold listAll
    rw [bind_apply, listPage_error hrefused]
    rfl
  | @later errs objects next pages herrs hnext _ ih =>
    obtain ⟨fuel, rfl, hrest⟩ := fuel_afterErrors hfuel
    have hsome : (some next).filter (· ≠ "") = some next := by simp [Option.filter, hnext]
    unfold listAll
    rw [bind_apply, listPage_ok herrs, hsome]
    dsimp only
    obtain ⟨e, he⟩ := ih hrest (some next) (listPage env kind ns sel 5 cont
      (afterErrors errs (.ok (objects, some next) :: pages)) s).2
    refine ⟨e, ?_⟩
    rw [bind_apply, he]
    rfl

end Pages

/-! ## Reads by name -/

section Reads

variable {env : Env} {kind : Kind}

/-- Some read by name fails for good. -/
inductive ReadsFail (env : Env) (kind : Kind) : List String → Replies (Option kind.Object) → Prop
  | here {errs : List KubeError} {e : KubeError} {rn : String} {names : List String}
    {rest : Replies (Option kind.Object)} : Refused env errs e →
      ReadsFail env kind (rn :: names) (afterErrors errs (.error e :: rest))
  | later {errs : List KubeError} {got : Option kind.Object} {rn : String} {names : List String}
    {rest : Replies (Option kind.Object)} : Transient env errs → ReadsFail env kind names rest →
      ReadsFail env kind (rn :: names) (afterErrors errs (.ok got :: rest))

theorem readNamed_ok {errs : List KubeError} (h : Transient env errs) (ns name : String)
    (got : Option kind.Object) (rest : Replies (Option kind.Object)) (s : Sys) :
    (readNamed env kind ns name (afterErrors errs (.ok got :: rest)) s).1 =
      some (.ok (got.map (Item.fromObject kind)), rest) := by
  unfold readNamed
  rw [bind_apply, withTransportRetry_ok h]
  rfl

theorem readNamed_error {errs : List KubeError} {e : KubeError} (h : Refused env errs e)
    (ns name : String) (rest : Replies (Option kind.Object)) (s : Sys) :
    (readNamed env kind ns name (afterErrors errs (.error e :: rest)) s).1 =
      some (.error e, rest) := by
  unfold readNamed
  rw [bind_apply, withTransportRetry_error h]
  rfl

/-- If a resource cannot be read there is no listing. -/
theorem readAll_fails {names : List String} {replies : Replies (Option kind.Object)}
    (h : ReadsFail env kind names replies) (ns : String) (s : Sys) :
    ∃ e, (readAll env kind ns names replies s).1 = some (.error (.kube e)) := by
  induction h generalizing s with
  | @here errs e rn names rest hrefused =>
    refine ⟨e, ?_⟩
    unfold readAll
    rw [bind_apply, readNamed_error hrefused]
    rfl
  | @later errs got rn names rest herrs _ ih =>
    obtain ⟨e, he⟩ := ih (readNamed env kind ns rn (afterErrors errs (.ok got :: rest)) s).2
    refine ⟨e, ?_⟩
    unfold readAll
    rw [bind_apply, readNamed_ok herrs]
    dsimp only
    rw [bind_apply, he]
    rfl

end Reads

/-! ## The pass -/

section Pass

variable {env : Env} {ctx : Ctx} {kind : Kind} {ns : String} {requestUrl : Option String}
  {ignoreAlreadyProcessed : Bool} {replies replies' : ListReplies kind} {w : World}

/-- The resources are read one by one. -/
def ByName (ctx : Ctx) (kind : Kind) (ns : String) : Prop :=
  ns ≠ "ALL" ∧ resourceNames ctx kind ns ≠ []

instance : Decidable (ByName ctx kind ns) := inferInstanceAs (Decidable (_ ∧ _))

/-- A request of the listing fails for good. -/
def ListingFails (env : Env) (ctx : Ctx) (kind : Kind) (ns : String) (replies : ListReplies kind) :
    Prop :=
  if ByName ctx kind ns then ReadsFail env kind (resourceNames ctx kind ns) replies.reads
  else PagesFail env kind replies.pages

theorem readListing_byName (h : ByName ctx kind ns) : readListing env ctx kind ns replies =
    readAll env kind ns (resourceNames ctx kind ns) replies.reads := if_pos h

theorem readListing_pages (h : ¬ByName ctx kind ns) : readListing env ctx kind ns replies =
    listAll env kind ns ctx.selector (replies.pages.length + 1) none replies.pages := if_neg h

theorem readListing_fails (h : ListingFails env ctx kind ns replies) (s : Sys) :
    ∃ e, (readListing env ctx kind ns replies s).1 = some (.error (.kube e)) := by
  unfold ListingFails at h
  by_cases hnames : ByName ctx kind ns
  · rw [if_pos hnames] at h
    rw [readListing_byName hnames]
    exact readAll_fails h ns s
  · rw [if_neg hnames] at h
    rw [readListing_pages hnames]
    exact listAll_fails h ns ctx.selector (Nat.le_succ _) none s

/-- Two passes from the same world come to the same: result, maps and files, the `files_changed` of
their listings, and the scripts and requests. -/
structure SamePass (env : Env) (ctx : Ctx) (kind : Kind) (ns : String) (requestUrl : Option String)
    (ignoreAlreadyProcessed : Bool) (replies replies' : ListReplies kind) (w : World) : Prop where
  result : (listResources env ctx kind ns requestUrl ignoreAlreadyProcessed replies w).1 =
    (listResources env ctx kind ns requestUrl ignoreAlreadyProcessed replies' w).1
  maps : (listResources env ctx kind ns requestUrl ignoreAlreadyProcessed replies w).2.maps =
    (listResources env ctx kind ns requestUrl ignoreAlreadyProcessed replies' w).2.maps
  tree : (listResources env ctx kind ns requestUrl ignoreAlreadyProcessed replies w).2.sys.tree =
    (listResources env ctx kind ns requestUrl ignoreAlreadyProcessed replies' w).2.sys.tree
  changed : ∀ items, (startPass env ctx kind ns replies w).1 = some (.ok items) →
    (startPass env ctx kind ns replies' w).1 = some (.ok items) ∧
    (applyListing env ctx kind ns ignoreAlreadyProcessed items
        (passStart env ctx kind ns replies w)).1 =
      (applyListing env ctx kind ns ignoreAlreadyProcessed items
        (passStart env ctx kind ns replies' w)).1
  calls : (listResources env ctx kind ns requestUrl ignoreAlreadyProcessed replies w).2.sys.calls =
    (listResources env ctx kind ns requestUrl ignoreAlreadyProcessed replies' w).2.sys.calls

theorem finishPass_blind (r : Option (Except WErr (List Item))) :
    WorldBlind (finishPass env ctx kind ns requestUrl ignoreAlreadyProcessed r) := fun past => by
  rcases r with _ | (e | items)
  · exact .pure _
  · exact .pure _
  · refine .bind (.bind (applyListing_blind env ctx kind ns _ items past) fun changed => ?_)
      fun _ => .pure _
    exact liftSys_blind (notify_blind env ctx requestUrl changed) past

/-- The world without its past. -/
def World.fresh (w : World) : World := { w with sys := { w.sys with trace := [] } }

/-- A pass goes on from the world without its past, given what it has read. -/
theorem listResources_fresh (env : Env) (ctx : Ctx) (kind : Kind) (ns : String)
    (requestUrl : Option String) (ignoreAlreadyProcessed : Bool) (replies : ListReplies kind)
    (w : World) :
    ∃ past, past.filter Event.isCall = w.sys.calls ∧
      passStart env ctx kind ns replies w = w.fresh.after past ∧
      listResources env ctx kind ns requestUrl ignoreAlreadyProcessed replies w =
        (let out := finishPass env ctx kind ns requestUrl ignoreAlreadyProcessed
          (startPass env ctx kind ns replies w).1 w.fresh
        (out.1, out.2.after past)) := by
  have hcalm := startPass_calm env ctx kind ns replies w
  have hcalls := hcalm.calls
  obtain ⟨new, hnew, -⟩ := hcalm
  rw [hnew] at hcalls
  have hstart : passStart env ctx kind ns replies w = w.fresh.after (w.sys.trace ++ new) := by
    rw [passStart, hnew]
    simp [World.fresh, World.after, Sys.after]
  refine ⟨w.sys.trace ++ new, hcalls, hstart, ?_⟩
  rw [listResources_eq_finish, hstart, finishPass_blind]

/-- A pass depends on what it has read, and on nothing else of its replies. -/
theorem SamePass.of_start
    (h : (startPass env ctx kind ns replies w).1 = (startPass env ctx kind ns replies' w).1) :
    SamePass env ctx kind ns requestUrl ignoreAlreadyProcessed replies replies' w := by
  obtain ⟨past, hcalls, hstart, hrun⟩ :=
    listResources_fresh env ctx kind ns requestUrl ignoreAlreadyProcessed replies w
  obtain ⟨past', hcalls', hstart', hrun'⟩ :=
    listResources_fresh env ctx kind ns requestUrl ignoreAlreadyProcessed replies' w
  rw [h] at hrun
  constructor
  case changed =>
    intro items hitems
    rw [← h, hstart, hstart', applyListing_blind, applyListing_blind]
    exact ⟨hitems, rfl⟩
  all_goals rw [hrun, hrun']
  case calls => simp only [Sys.calls, World.after, Sys.after, List.filter_append, hcalls, hcalls']
  case maps => rfl
  case tree => rfl

/-- A pass that could not read its listing has done nothing: maps, files and calls are as before. -/
structure NoPass (out : Option (Except WErr Unit) × World) (w : World) : Prop where
  error : ∃ e, out.1 = some (.error (.kube e))
  maps : out.2.maps = w.maps
  tree : out.2.sys.tree = w.sys.tree
  calls : out.2.sys.calls = w.sys.calls

/-- **A list pass acts on the complete listing or not at all.** -/
theorem listResources_all_or_nothing (env : Env) (ctx : Ctx) (kind : Kind) (ns : String)
    (requestUrl : Option String) (ignoreAlreadyProcessed : Bool) (w : World) :
    (∀ objects replies replies', Cuts env kind objects replies.pages →
      Cuts env kind objects replies'.pages → replies.reads = replies'.reads →
      SamePass env ctx kind ns requestUrl ignoreAlreadyProcessed replies replies' w) ∧
    ∀ replies, ListingFails env ctx kind ns replies →
      NoPass (listResources env ctx kind ns requestUrl ignoreAlreadyProcessed replies w) w := by
  constructor
  · intro objects replies replies' hcut hcut' hreads
    refine SamePass.of_start ?_
    unfold startPass
    by_cases hnames : ByName ctx kind ns
    · rw [readListing_byName hnames, readListing_byName hnames, hreads]
    · rw [readListing_pages hnames, readListing_pages hnames,
        listAll_cuts hcut ns ctx.selector (Nat.le_succ _),
        listAll_cuts hcut' ns ctx.selector (Nat.le_succ _)]
  · intro replies hfails
    obtain ⟨e, he⟩ : ∃ e, (startPass env ctx kind ns replies w).1 = some (.error (.kube e)) :=
      readListing_fails hfails _
    have hcalm := startPass_calm env ctx kind ns replies w
    rw [listResources_eq_finish, he]
    exact ⟨⟨e, rfl⟩, rfl, hcalm.silent.tree, hcalm.calls⟩

/-- The first of two pages is read, whatever comes after. -/
def sampleFirstPage (rest : Replies (Page .configMap)) : ListReplies .configMap :=
  ⟨.ok ([sampleConfigMap "ns" "a" "1" [("k", "v")]], some "next") :: rest, []⟩

/-- A page, a dropped connection and an empty page are the listing in one page; an expired token
after the first page ends the pass. -/
theorem listResources_all_or_nothing_sample :
    SamePass sampleEnv sampleCtx .configMap "ns" none true
        (sampleReplies [sampleConfigMap "ns" "a" "1" [("k", "v")]])
        (sampleFirstPage [.error (.other "connection reset"), .ok ([], some "")]) sampleWorld ∧
      NoPass (listResources sampleEnv sampleCtx .configMap "ns" none true
        (sampleFirstPage [.error (.api 410 "Gone")]) sampleWorld) sampleWorld := by
  obtain ⟨hsame, hnone⟩ :=
    listResources_all_or_nothing sampleEnv sampleCtx .configMap "ns" none true sampleWorld
  have hcalm : Transient sampleEnv [] := ⟨by decide, by decide⟩
  have hreset : Transient sampleEnv [.other "connection reset"] := ⟨by decide, by decide⟩
  have hnext : "next" ≠ "" := by decide
  have hcut : Cuts sampleEnv .configMap ([sampleConfigMap "ns" "a" "1" [("k", "v")]] ++ [])
      (sampleFirstPage [.error (.other "connection reset"), .ok ([], some "")]).pages :=
    .page hcalm hnext (.last hreset (.inr rfl))
  exact ⟨hsame _ _ _ (.last hcalm (.inl rfl)) hcut rfl,
    hnone _ (.later hcalm hnext (.here ⟨hcalm, by decide⟩))⟩

end Pass

end Sidecar
