import Sidecar.Listing

/-!
# The resources that `RESOURCE_NAME` selects

`RESOURCE_NAME` is read once per kind and namespace, and what is left are names to be read one by
one. With names left, a list pass reads those and nothing else; with none left it cannot tell that
the option was set, and lists what has the label (`resource_names_select`).
-/

namespace Sidecar

open Posix StateM

/-! ## Entries -/

/-- The parts of the entries of `RESOURCE_NAME`. -/
def resourceEntries (ctx : Ctx) : List (List String) :=
  (ctx.resourceName.toList.splitOn ',').map fun rn => (rn.splitOn '/').map String.ofList

/-- The name an entry selects for a kind and a namespace: a bare name for all of them, `type/name`
for its kind and `namespace/type/name` for its namespace. -/
def entrySelects (kind : Kind) (ns : String) : List String → Option String
  | [type, name] => if type = kind.asStr then some name else none
  | [namespac, _, name] => if namespac = ns then some name else none
  | parts => parts.getLast?

/-- The names that are selected. -/
def selectedNames (ctx : Ctx) (kind : Kind) (ns : String) : List String :=
  (resourceEntries ctx).filterMap (entrySelects kind ns)

theorem resourceNames_eq {ctx : Ctx} {kind : Kind} {ns : String} (hns : ns ≠ "ALL")
    (hset : ctx.resourceName ≠ "") : resourceNames ctx kind ns = selectedNames ctx kind ns := by
  unfold resourceNames selectedNames resourceEntries
  rw [if_pos ⟨hns, hset⟩, List.filterMap_map]
  refine List.filterMap_congr fun rn _ => ?_
  dsimp only [Function.comp]
  generalize (rn.splitOn '/').map String.ofList = parts
  -- an entry has one part, two, three or more
  match parts with
  | [] => rfl
  | [name] => rfl
  | [type, name] => simp [entrySelects]
  | [namespac, type, name] => simp [entrySelects]
  | a :: b :: c :: d :: rest =>
    have hlength : ((a :: b :: c :: d :: rest).reverse).length = rest.length + 4 := by simp
    rw [if_neg (by omega), if_neg (by omega), List.head?_reverse]
    rfl

/-! ## The server -/

/-- The resources of a kind, each under its namespace and name. -/
structure Cluster (kind : Kind) where
  get : String → String → Option kind.Object
  named : ∀ ns name object, get ns name = some object →
    (Item.fromObject kind object).ns = ns ∧ (Item.fromObject kind object).name = name

/-- Replies to reads by name: each is answered from the cluster after some transient errors, or
refused, or the server is silent from then on. -/
inductive Answered (env : Env) {kind : Kind} (cluster : Cluster kind) (ns : String) :
    List String → Replies (Option kind.Object) → Prop
  | done (rest : Replies (Option kind.Object)) : Answered env cluster ns [] rest
  | read {errs : List KubeError} {rn : String} {names : List String}
    {rest : Replies (Option kind.Object)} : Transient env errs →
    Answered env cluster ns names rest →
      Answered env cluster ns (rn :: names) (afterErrors errs (.ok (cluster.get ns rn) :: rest))
  | refused {errs : List KubeError} {e : KubeError} {rn : String} {names : List String}
    {rest : Replies (Option kind.Object)} : Refused env errs e →
      Answered env cluster ns (rn :: names) (afterErrors errs (.error e :: rest))
  | silent {errs : List KubeError} {rn : String} {names : List String} : Transient env errs →
      Answered env cluster ns (rn :: names) (afterErrors errs [])

section Read

variable {env : Env} {kind : Kind} {cluster : Cluster kind} {ns : String}

theorem readNamed_silent {errs : List KubeError} (h : Transient env errs)
    (name : String) (s : Sys) :
    (readNamed env kind ns name (afterErrors errs []) s).1 = none := by
  obtain ⟨s', hs'⟩ := withTransportRetry_transient env (emit (.apiGet kind ns name)) 0 h.transport
    (by simpa using h.retries) ([] : Replies (Option kind.Object)) s
  unfold readNamed
  rw [bind_apply, hs']
  rfl

/-- What is read by name is in the cluster under one of the names. -/
theorem readAll_answered {names : List String} {replies : Replies (Option kind.Object)}
    {items : List Item} (h : Answered env cluster ns names replies) {s : Sys}
    (hitems : (readAll env kind ns names replies s).1 = some (.ok items)) :
    ∀ item ∈ items, item.ns = ns ∧ item.name ∈ names := by
  induction h generalizing items s with
  | done rest =>
    cases hitems
    simp
  | @read errs rn names rest herrs _ ih =>
    unfold readAll at hitems
    rw [bind_apply, readNamed_ok herrs] at hitems
    dsimp only at hitems
    rw [bind_apply] at hitems
    generalize (readNamed env kind ns rn _ s).2 = t at hitems
    cases hrest : (readAll env kind ns names rest t).1 with
    | none => rw [hrest] at hitems; cases hitems
    | some out =>
      cases out with
      | error e => rw [hrest] at hitems; cases hitems
      | ok others =>
        rw [hrest] at hitems
        cases hitems
        intro item hitem
        rcases List.mem_append.1 hitem with hhere | hlater
        · cases hgot : cluster.get ns rn with
          | none => rw [hgot] at hhere; cases hhere
          | some object =>
            rw [hgot] at hhere
            obtain rfl : item = Item.fromObject kind object := List.mem_singleton.1 hhere
            obtain ⟨hns, hname⟩ := cluster.named ns rn object hgot
            exact ⟨hns, hname ▸ List.mem_cons_self⟩
        · obtain ⟨hns, hname⟩ := ih hrest item hlater
          exact ⟨hns, List.mem_cons_of_mem rn hname⟩
  | @refused errs e rn names rest hrefused =>
    unfold readAll at hitems
    rw [bind_apply, readNamed_error hrefused] at hitems
    cases hitems
  | @silent errs rn names herrs =>
    unfold readAll at hitems
    rw [bind_apply, readNamed_silent herrs] at hitems
    cases hitems

end Read

/-! ## Requests for a label -/

/-- Nothing was listed by its label. -/
def SameLists (s s' : Sys) : Prop := s'.count Event.isApiList = s.count Event.isApiList

theorem sameLists_preorder : Preorder SameLists := ⟨fun _ => rfl, fun h h' => h'.trans h⟩

theorem emit_sameLists {e : Event} (h : e.isApiList = false) :
    Moves SameLists (emit e) := fun s => by
  simp [SameLists, Sys.count, emit_apply, h]

theorem sleepFor_sameLists (secs : F64) : Moves SameLists (sleepFor secs) := by
  unfold sleepFor
  split <;> exact emit_sameLists rfl

theorem readAll_sameLists (env : Env) (kind : Kind) (ns : String) (names : List String)
    (replies : Replies (Option kind.Object)) :
    Moves SameLists (readAll env kind ns names replies) :=
  readAll_moves sameLists_preorder sleepFor_sameLists env kind ns (fun _ _ => emit_sameLists rfl)
    replies

/-- A request for a page is sent once at least. -/
theorem listPage_lists (env : Env) (kind : Kind) (ns sel : String) (limit : UInt32)
    (cont : Option String) (replies : Replies (Page kind)) (s : Sys) : s.count Event.isApiList <
      (listPage env kind ns sel limit cont replies s).2.count Event.isApiList := by
  have hp := Calm.preorder
  have hrequest : Moves Calm (emit (.apiList kind ns sel limit cont)) := emit_calm rfl rfl
  have hsent : (emit (.apiList kind ns sel limit cont) s).2.count Event.isApiList =
      s.count Event.isApiList + 1 := by
    simp [Sys.count, emit_apply, Event.isApiList]
  have hretry : Calm (emit (.apiList kind ns sel limit cont) s).2
      (withTransportRetry env (emit (.apiList kind ns sel limit cont)) replies 0 s).2 := by
    rcases replies with _ | ⟨err | v, rest⟩
    · exact hp.refl _
    · unfold withTransportRetry
      rw [bind_apply]
      exact Moves.ite (Moves.bind hp (Moves.ite (sleepFor_calm _) (Moves.pure hp _)) fun _ =>
        withTransportRetry_calm env hrequest rest _) (Moves.pure hp _) _
    · exact hp.refl _
  have hcount := count_mono hretry.silent.trace Event.isApiList
  unfold listPage
  rw [bind_apply]
  generalize withTransportRetry env (emit (.apiList kind ns sel limit cont)) replies 0 s =
    out at hcount ⊢
  obtain ⟨result, t⟩ := out
  dsimp only at hcount
  have hgoal : s.count Event.isApiList < t.count Event.isApiList := by omega
  rcases result with _ | ⟨e | page, rest⟩
  all_goals exact hgoal

/-- The page loop sends a request first of all. -/
theorem listAll_lists (env : Env) (kind : Kind) (ns sel : String) (fuel : Nat)
    (cont : Option String) (replies : Replies (Page kind)) (s : Sys) :
    s.count Event.isApiList <
      (listAll env kind ns sel (fuel + 1) cont replies s).2.count Event.isApiList := by
  have hp := Calm.preorder
  have hpage := listPage_lists env kind ns sel 5 cont replies s
  unfold listAll
  rw [bind_apply]
  generalize listPage env kind ns sel 5 cont replies s = out at hpage ⊢
  obtain ⟨result, t⟩ := out
  refine hpage.trans_le (count_mono (Calm.silent ?_).trace _)
  rcases result with _ | ⟨e | ⟨page, _ | next⟩, rest⟩
  · exact hp.refl _
  · exact hp.refl _
  · exact hp.refl _
  · refine Moves.bind hp (listAll_calm env kind ns sel fuel (some next) rest) (fun others => ?_) t
    split <;> exact Moves.pure hp _

/-! ## A list pass -/

/-- A pass processes selected resources of its namespace only, and does not go by the label. -/
structure Selects (env : Env) (ctx : Ctx) (kind : Kind) (ns : String) (replies : ListReplies kind)
    (w : World) : Prop where
  items : ∀ items, (startPass env ctx kind ns replies w).1 = some (.ok items) →
    ∀ item ∈ items, item.ns = ns ∧ item.name ∈ selectedNames ctx kind ns
  selector : (startPass env ctx kind ns replies w).2.count Event.isApiList =
    w.sys.count Event.isApiList

theorem startPass_eq (env : Env) (ctx : Ctx) (kind : Kind) (ns : String)
    (replies : ListReplies kind) (w : World) : ∃ msg, startPass env ctx kind ns replies w =
      readListing env ctx kind ns replies (log .info msg w.sys).2 := ⟨_, rfl⟩

/-- **`RESOURCE_NAME` selects** if it selects anything for the kind and namespace; if it does not,
what has the label is listed. -/
theorem resource_names_select {env : Env} {ctx : Ctx} {kind : Kind} {ns : String}
    {replies : ListReplies kind}
    {cluster : Cluster kind} (hns : ns ≠ "ALL") (hset : ctx.resourceName ≠ "")
    (hreplies : Answered env cluster ns (selectedNames ctx kind ns) replies.reads) (w : World) :
    Selects env ctx kind ns replies w ↔ selectedNames ctx kind ns ≠ [] := by
  have hnames := @resourceNames_eq ctx kind ns hns hset
  constructor
  · intro h hnone
    -- with no name left the pages are asked for
    have hpages : ¬ByName ctx kind ns := fun hby => hby.2 (hnames.trans hnone)
    have hselector := h.selector
    obtain ⟨msg, hmsg⟩ := startPass_eq env ctx kind ns replies w
    rw [hmsg, readListing_pages hpages] at hselector
    have hsends := listAll_lists env kind ns ctx.selector replies.pages.length none replies.pages
      (log .info msg w.sys).2
    have hlog := count_mono (log_silent .info msg w.sys).trace Event.isApiList
    omega
  · intro hsome
    have hby : ByName ctx kind ns := ⟨hns, hnames ▸ hsome⟩
    obtain ⟨msg, hmsg⟩ := startPass_eq env ctx kind ns replies w
    rw [readListing_byName hby, hnames] at hmsg
    constructor
    · intro items hitems
      rw [hmsg] at hitems
      exact readAll_answered hreplies hitems
    · rw [hmsg]
      exact sameLists_preorder.trans (emit_sameLists rfl w.sys)
        (readAll_sameLists env kind ns _ _ _)

/-! ## A small cluster -/

def sampleSelecting (resourceName : String) : Ctx := { sampleCtx with resourceName := resourceName }

/-- The ConfigMap `default/a` and nothing else. -/
def sampleCluster : Cluster .configMap where
  get ns name :=
    if ns = "default" ∧ name = "a" then some (sampleConfigMap ns name "1" [("k", "v")]) else none
  named ns name object h := by
    split at h
    · cases h
      exact ⟨rfl, rfl⟩
    · cases h

theorem resource_names_select_sample :
    Selects sampleEnv (sampleSelecting "secret/b,configmap/a") .configMap "default"
      ⟨[], [.ok (sampleCluster.get "default" "a")]⟩ sampleWorld := by
  have hnames :
      selectedNames (sampleSelecting "secret/b,configmap/a") .configMap "default" = ["a"] := by
    decide +kernel
  have hnone : Transient sampleEnv [] := ⟨by simp, by simp⟩
  refine (@resource_names_select _ _ _ _ _ sampleCluster (by decide)
    (by decide) ?_ sampleWorld).2 ?_
  · rw [hnames]
    exact .read hnone (.done [])
  · rw [hnames]
    simp

/-- `RESOURCE_NAME=secret/a` selects no ConfigMap, and the ConfigMap `b` is listed for its label. -/
theorem resource_names_widen :
    let ctx := sampleSelecting "secret/a"
    let replies : ListReplies .configMap :=
      sampleReplies [sampleConfigMap "default" "b" "1" [("k", "v")]]
    selectedNames ctx .configMap "default" = [] ∧
      (startPass sampleEnv ctx .configMap "default" replies sampleWorld).1.bind
        (fun read => read.toOption.map (List.map Item.name)) = some ["b"] ∧
      ¬Selects sampleEnv ctx .configMap "default" replies sampleWorld := by
  intro ctx replies
  refine ⟨by decide +kernel, by decide +kernel, fun h => ?_⟩
  have hselector := h.selector
  revert hselector
  decide +kernel

end Sidecar
