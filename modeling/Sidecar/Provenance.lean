import Sidecar.Main
import Sidecar.Orphans
import Sidecar.Outbound
import Sidecar.Selection

/-!
# Where effects come from

Given the settings and the items the server has delivered, each section of a watcher's round
accounts for what it does (`roundSections_honest`): the files it changes are those of data keys of
delivered items, in the folder of a delivered item with that key; it lists and watches what it was
set to watch, and reads by name what `RESOURCE_NAME` selects there; and it calls `REQ_URL`, `SCRIPT`
and URLs that stand in delivered items, and nobody else. The cache only hands on what was delivered
(`Vouched`), and each task relies on that.
-/

namespace Sidecar

open Posix StateM Interleave

/-! ## Areas -/

/-- The resource of a data key, as the maps file it. -/
def DataId.key (id : DataId) : MapKey := (id.kind, id.ns ++ id.name)

def Slot.key (slot : Slot) : MapKey := slot.id.key

/-- What a program may touch: entries of the maps, the files of slots, and the bytes handed to
writes of data keys. -/
structure Area where
  keys : MapKey → Prop
  slots : Slot → Prop
  ids : DataId → Prop

namespace Area

def all : Area := ⟨fun _ => True, fun _ => True, fun _ => True⟩

/-- All that belongs to these resources. -/
def of (K : MapKey → Prop) : Area := ⟨K, fun slot => K slot.key, fun id => K id.key⟩

/-- A removal hands no bytes to a write. -/
def job (kind : Kind) (j : Job) : Area :=
  ⟨fun _ => False, fun slot => slot = j.slot kind, fun id => j.remove = false ∧ id = j.id kind⟩

structure Le (A B : Area) : Prop where
  keys : ∀ k, A.keys k → B.keys k
  slots : ∀ slot, A.slots slot → B.slots slot
  ids : ∀ id, A.ids id → B.ids id

theorem le_all (A : Area) : A.Le all := ⟨fun _ _ => trivial, fun _ _ => trivial, fun _ _ => trivial⟩

theorem job_le_of {kind : Kind} {j : Job} {K : MapKey → Prop} (hK : K (kind, j.item.key)) :
    (job kind j).Le (of K) where
  keys _ := False.elim
  slots _ h := h ▸ hK
  ids _ h := h.2 ▸ hK

end Area

/-! ## What is accounted for -/

section Accounts

variable (settings : Settings) (D : Kind → Item → Prop)

/-- A URL under a `*.url` key of a delivered item. -/
def Links (url : String) : Prop :=
  ∃ kind item, D kind item ∧ ∃ e ∈ item.entries kind, isUrlKey e.dataKey = true ∧
    e.content.url? = some url

/-- A data key of a delivered item, in the folder of a delivered item that is filed under the same
key. -/
def Wanted (ctx : Ctx) (slot : Slot) : Prop :=
  ∃ kind item other, D kind item ∧ D kind other ∧ other.key = item.key ∧ ∃ e ∈ item.entries kind,
    slot = e.slot kind item.ns item.name (destinationFolder ctx other)

/-- What may happen, given the settings and what was delivered. -/
def Accounted : Event → Prop
  | .log .. | .ioError .. | .sleep _ | .abort => True
  | .produced kind ns name contentType dataKey _ =>
    ∃ item, D kind item ∧ item.ns = ns ∧ item.name = name ∧
      (contentType, dataKey) ∈ (item.entries kind).map Entry.id
  | .attempt req => (req.isGet = true ∧ req.payload = none ∧ Links D req.url) ∨
    settings.requestUrl = some req.url ∧ req.payload = settings.ctx.reqPayload ∧
      (req.isGet = true ∨ settings.ctx.reqMethod = some "POST")
  | .apiList kind ns selector _ _ => (kind, ns) ∈ settings.watched ∧
      selector = settings.ctx.selector
  | .apiGet kind ns name => (kind, ns) ∈ settings.watched ∧
      name ∈ selectedNames settings.ctx kind ns
  | .apiWatch kind ns selector _ => (kind, ns) ∈ settings.watched ∧ selector = settings.ctx.selector
  | .spawn script _ => settings.ctx.script = some script

theorem accounted_inner (e : Event) (he : e.inner = true) : Accounted settings D e := by
  cases e <;> trivial

/-- The cache holds what was delivered. -/
structure Vouched (ctx : Ctx) (m : Maps) : Prop where
  object : ∀ (k : MapKey) (c : CachedItem), m.object[k]? = some c →
    ∃ item, D k.1 item ∧ item.key = k.2 ∧ c = .fromItem item
  dest : ∀ (k : MapKey) (folder : String), m.dest[k]? = some folder →
    ∃ item, D k.1 item ∧ item.key = k.2 ∧ folder = destinationFolder ctx item
  recorded : ∀ k : MapKey, m.object[k]? ≠ none → m.dest[k]? ≠ none

/-- Between two states everything is accounted for, and what is outside the area is as it was;
directories stay, and folders stay on record. -/
structure Accounts (env : Env) (A : Area) (w w' : World) : Prop where
  events : Emits (Accounted settings D) w.sys w'.sys
  files : ∀ p,
    (∀ slot, Wanted D settings.ctx slot → A.slots slot → slot.place env settings.ctx ≠ p) →
    w'.sys.tree.fileAt p = w.sys.tree.fileAt p
  dirs : FileTree.DirsLe w.sys.tree w'.sys.tree
  produced : ∀ id, ¬A.ids id → lastProduced id w'.sys.produced = lastProduced id w.sys.produced
  entries : ∀ k : MapKey, ¬A.keys k →
    w'.maps.object[k]? = w.maps.object[k]? ∧ w'.maps.dest[k]? = w.maps.dest[k]?
  folders : ∀ k : MapKey, w.maps.dest[k]? ≠ none → w'.maps.dest[k]? ≠ none

end Accounts

section Vouched

variable {settings : Settings} {D : Kind → Item → Prop} {env : Env} {A B : Area} {ctx : Ctx}
  {m : Maps} {kind : Kind} {item : Item}

theorem Accounts.preorder : Preorder (Accounts settings D env A) where
  refl w :=
    ⟨(Emits.preorder _).refl _, fun _ _ => rfl, .refl w.sys.tree, fun _ _ => rfl,
      fun _ _ => ⟨rfl, rfl⟩,
    fun _ h => h⟩
  trans h h' := {
    events := (Emits.preorder _).trans h.events h'.events
    files := fun p hp => (h'.files p hp).trans (h.files p hp)
    dirs := h.dirs.trans h'.dirs
    produced := fun id hid => (h'.produced id hid).trans (h.produced id hid)
    entries :=
      fun k hk =>
        ⟨(h'.entries k hk).1.trans (h.entries k hk).1, (h'.entries k hk).2.trans (h.entries k hk).2⟩
    folders := fun k hk => h'.folders k (h.folders k hk) }

theorem Accounts.mono (hAB : A.Le B) {w w' : World} (h : Accounts settings D env A w w') :
    Accounts settings D env B w w' where
  events := h.events
  files p hp := h.files p fun slot hslot hA => hp slot hslot (hAB.slots slot hA)
  dirs := h.dirs
  produced id hid := h.produced id fun hA => hid (hAB.ids id hA)
  entries k hk := h.entries k fun hA => hk (hAB.keys k hA)
  folders := h.folders

/-- A step that leaves files and maps alone. -/
theorem Accounts.quiet {w w' : World} (hemits : Emits (Accounted settings D) w.sys w'.sys)
    (hsilent : Silent w.sys w'.sys) (ho : w'.maps.object = w.maps.object)
    (hd : w'.maps.dest = w.maps.dest) :
    Accounts settings D env A w w' where
  events := hemits
  files p _ := congrArg (fun tree : FileTree => tree.fileAt p) hsilent.tree
  dirs := hsilent.tree ▸ .refl w.sys.tree
  produced id _ := congrArg (lastProduced id) hsilent.produced
  entries k _ := by
    rw [ho, hd]
    exact ⟨rfl, rfl⟩
  folders k hk := by rwa [hd]

theorem Accounts.traceLe {w w' : World} (h : Accounts settings D env A w w') :
    TraceLe w.sys w'.sys := by
  obtain ⟨new, hnew, -⟩ := h.events
  exact ⟨new, hnew.symm⟩

theorem Vouched.empty : Vouched D ctx .empty where
  object k c hc := by simp [Maps.empty] at hc
  dest k c hc := by simp [Maps.empty] at hc
  recorded k hk := by simp [Maps.empty] at hk

/-- The versions on record are not looked at. -/
theorem Vouched.congr (h : Vouched D ctx m) {m' : Maps} (ho : m'.object = m.object)
    (hd : m'.dest = m.dest) :
    Vouched D ctx m' where
  object := ho ▸ h.object
  dest := hd ▸ h.dest
  recorded := by
    rw [ho, hd]
    exact h.recorded

theorem Vouched.enter (h : Vouched D ctx m) {destFolder : Option String} {isRemoved : Bool}
    (hitem : isRemoved = false → D kind item ∧ destFolder = some (destinationFolder ctx item)) :
    Vouched D ctx (m.enter kind item destFolder isRemoved).2 where
  object k c hc := by
    rw [Maps.enter_object] at hc
    split at hc
    · next hk =>
      subst hk
      cases isRemoved with
      | true => cases hc
      | false =>
        cases hc
        exact ⟨item, (hitem rfl).1, rfl, rfl⟩
    · exact h.object k c hc
  dest k folder hf := by
    rw [Maps.enter_dest] at hf
    split at hf
    · next hk =>
      obtain ⟨hadd, rfl⟩ := hk
      obtain ⟨hD, rfl⟩ := hitem hadd
      cases hf
      exact ⟨item, hD, rfl, rfl⟩
    · exact h.dest k folder hf
  recorded k hk := by
    rw [Maps.enter_object] at hk
    rw [Maps.enter_dest]
    split
    · exact Option.some_ne_none _
    · next hne =>
      split at hk
      · next hkey =>
        cases isRemoved with
        | true => exact absurd rfl hk
        | false => exact absurd ⟨rfl, hkey⟩ hne
      · exact h.recorded k hk

/-! ## The jobs of a call -/

/-- What the cache gives back of an entry: its key, and its value if that is a URL. -/
theorem retained_entry {e : Entry} (he : e ∈ item.retained.entries kind) :
    ∃ e₀ ∈ item.entries kind, e₀.id = e.id ∧
    (isUrlKey e.dataKey = true → e.content = e₀.content) := by
  have hfield : ∀ {V : Type} (wrap : V → Content) (elided : V) (contentType : String)
      (field : Option (BTreeMap V)),
      e ∈ fieldEntries (mapEntries wrap) contentType (retainedField elided field) →
      ∃ e₀ ∈ fieldEntries (mapEntries wrap) contentType field, e₀.id = e.id ∧
        (isUrlKey e.dataKey = true → e.content = e₀.content) := by
    intro V wrap elided contentType field hmem
    cases field with
    | none => cases hmem
    | some m =>
      obtain ⟨kv, hkv, rfl⟩ := List.mem_map.1 hmem
      obtain ⟨i, hi, rfl⟩ := List.getElem_of_mem hkv
      have hall := retained_entries_all wrap elided m
      obtain ⟨hkey, hcontent⟩ := List.Forall₂.get hall hi (hall.length_eq ▸ hi)
      refine ⟨_, List.mem_map_of_mem (List.get_mem _ ⟨i, hall.length_eq ▸ hi⟩), ?_, hcontent⟩
      exact congrArg (contentType, ·) hkey.symm
  unfold Item.entries at he ⊢
  rcases List.mem_append.1 he with he | he
  · cases kind with
    | secret => cases he
    | configMap =>
      obtain ⟨e₀, he₀, hsame⟩ := hfield Content.text "" _ item.text he
      exact ⟨e₀, List.mem_append_left _ he₀, hsame⟩
  · obtain ⟨e₀, he₀, hsame⟩ := hfield Content.bin ByteArray.empty _ item.binary he
    exact ⟨e₀, List.mem_append_right _ he₀, hsame⟩

/-- A job for a data key that was delivered, of the resource with this key. -/
structure Told (D : Kind → Item → Prop) (ctx : Ctx) (kind : Kind) (key : String)
    (j : Job) : Prop where
  slot : Wanted D ctx (j.slot kind)
  key : j.item.key = key
  link : ∀ url, isUrlKey j.dataKey = true → j.content.url? = some url → Links D url
  item : ∃ item, D kind item ∧ item.ns = j.item.ns ∧ item.name = j.item.name ∧
    (j.contentType, j.dataKey) ∈ (item.entries kind).map Entry.id

theorem Told.of_entry {other : Item} {e e₀ : Entry} (hitem : D kind item) (hother : D kind other)
    (hkey : other.key = item.key) (he₀ : e₀ ∈ item.entries kind) (hid : e₀.id = e.id)
    (hurl : isUrlKey e.dataKey = true → e.content = e₀.content) (owner : Item)
    (hns : owner.ns = item.ns) (hname : owner.name = item.name) (remove : Bool) :
    Told D ctx kind item.key (e.job (destinationFolder ctx other) owner remove) where
  slot := by
    refine ⟨kind, item, other, hitem, hother, hkey, e₀, he₀, ?_⟩
    rw [slot_congr hid, ← hns, ← hname]
    rfl
  key := by
    change owner.ns ++ owner.name = item.ns ++ item.name
    rw [hns, hname]
  link url hurlKey hcontent := by
    obtain ⟨-, hdataKey⟩ := Prod.mk.inj hid
    refine ⟨kind, item, hitem, e₀, he₀, ?_, ?_⟩
    · rw [hdataKey]
      exact hurlKey
    · rw [← hurl hurlKey]
      exact hcontent
  item := by
    have hmem := List.mem_map_of_mem (f := Entry.id) he₀
    rw [hid] at hmem
    exact ⟨item, hitem, hns.symm, hname.symm, hmem⟩

/-- What list passes and events call `process_resource` for: a delivered item in its own folder, or
the removal of what is cached of one, whose folder is on record. -/
inductive Asked (D : Kind → Item → Prop) (ctx : Ctx) (kind : Kind) (m : Maps) :
    Item → Option String → Bool → Prop
  | given {item : Item} (isRemoved : Bool) (hitem : D kind item) :
    Asked D ctx kind m item (some (destinationFolder ctx item)) isRemoved
  | stale {item : Item} (hitem : D kind item)
      (hfolder : m.dest[((kind, item.key) : MapKey)]? ≠ none) :
    Asked D ctx kind m item.retained none true

variable {destFolder : Option String} {isRemoved : Bool}

/-- The old folder of a call is that of a delivered item. -/
theorem Asked.old_dest (h : Asked D ctx kind m item destFolder isRemoved) (hm : Vouched D ctx m) :
    ∃ other, D kind other ∧ other.key = item.key ∧
      (m.enter kind item destFolder isRemoved).1.dest = destinationFolder ctx other := by
  rw [Maps.enter_old]
  dsimp only
  cases hd : m.dest[((kind, item.key) : MapKey)]? with
  | some folder =>
    obtain ⟨other, hother, hkey, rfl⟩ := hm.dest _ folder hd
    exact ⟨other, hother, hkey, rfl⟩
  | none =>
    cases h with
    | given _ hitem => exact ⟨item, hitem, rfl, rfl⟩
    | stale _ hfolder => exact absurd hd hfolder

/-- The old item of a delivered one is what is cached of a delivered one. -/
theorem Vouched.oldItem (hm : Vouched D ctx m) (hitem : D kind item) :
    ∃ old, D kind old ∧ old.key = item.key ∧ m.oldItem kind item = old.retained := by
  unfold Maps.oldItem
  cases hobject : m.object[((kind, item.key) : MapKey)]? with
  | none => exact ⟨item, hitem, rfl, rfl⟩
  | some c =>
    obtain ⟨old, hold, hkey, rfl⟩ := hm.object _ c hobject
    exact ⟨old, hold, hkey, rfl⟩

theorem Asked.jobs_told (h : Asked D ctx kind m item destFolder isRemoved)
    (hm : Vouched D ctx m) {j : Job}
    (hj : j ∈ jobs (plan kind item (m.enter kind item destFolder isRemoved).1
      (if isRemoved then (m.enter kind item destFolder isRemoved).1.dest
        else destFolder.getD "") isRemoved)) :
    Told D ctx kind item.key j := by
  obtain ⟨other, hother, hkey, hdest⟩ := h.old_dest hm
  cases h with
  | @stale item hitem hfolder =>
    rw [if_pos rfl, hdest, jobs_plan_removed] at hj
    obtain ⟨e, he, rfl⟩ := List.mem_map.1 hj
    obtain ⟨e₀, he₀, hid, hurl⟩ := retained_entry he
    exact .of_entry hitem hother hkey he₀ hid hurl item.retained rfl rfl true
  | given isRemoved hitem =>
    cases isRemoved with
    | true =>
      rw [if_pos rfl, hdest, jobs_plan_removed] at hj
      obtain ⟨e, he, rfl⟩ := List.mem_map.1 hj
      exact .of_entry hitem hother hkey he rfl (fun _ => rfl) _ rfl rfl true
    | false =>
      rw [if_neg Bool.false_ne_true, Option.getD_some, (jobs_plan_perm ..).mem_iff,
        List.mem_append] at hj
      obtain hj | hj := hj
      · obtain ⟨e, he, rfl⟩ := List.mem_map.1 hj
        exact .of_entry hitem hitem rfl he rfl (fun _ => rfl) _ rfl rfl false
      · obtain ⟨e, he, rfl⟩ := List.mem_map.1 hj
        obtain ⟨old, hold, holdKey, hretained⟩ := hm.oldItem hitem
        have he := (List.mem_filter.1 he).1
        rw [Maps.enter_old] at he
        dsimp only at he
        rw [hretained] at he
        obtain ⟨e₀, he₀, hid, hurl⟩ := retained_entry he
        rw [hdest]
        rw [Maps.enter_old]
        dsimp only
        rw [hretained, ← holdKey]
        exact .of_entry hold hother (hkey.trans holdKey.symm) he₀ hid hurl old.retained rfl rfl true

end Vouched

/-! ## Sections -/

/-- A program that accounts for what it does in the area `A`, as long as the others do in the area
`B`. -/
abbrev Honest (env : Env) (settings : Settings) (D : Kind → Item → Prop) (B A : Area) {α : Type}
    (Q : α → World → Prop) (p : Prog World α) (w : World) : Prop :=
  Guarantees (fun w => Vouched D settings.ctx w.maps) (Accounts settings D env B)
    (Accounts settings D env A) Q p w

/-- What happens in the area `B` does not matter to `φ`. -/
def Stable (env : Env) (settings : Settings) (D : Kind → Item → Prop) (B : Area)
    (φ : World → Prop) : Prop :=
  ∀ w w', Accounts settings D env B w w' → φ w → φ w'

section Sections

variable {env : Env} {settings : Settings} {D : Kind → Item → Prop} {A B : Area}
  {φ : World → Prop} {w : World} {kind : Kind}

theorem Honest.bind {α β : Type} {Q : α → World → Prop} {Q' : β → World → Prop} {p : Prog World α}
    {f : α → Prog World β} (hw : Vouched D settings.ctx w.maps)
    (hp : Honest env settings D B A Q p w)
    (hf : ∀ a t, Accounts settings D env .all w t → Vouched D settings.ctx t.maps → Q a t →
      Honest env settings D B A Q' (f a) t) : Honest env settings D B A Q' (p >>= f) w :=
  Guarantees.bind Accounts.preorder Accounts.preorder (fun _ _ h => h.mono B.le_all)
    (fun _ _ h => h.mono A.le_all)
    hw hp hf

/-- What comes next does not depend on the answer. -/
theorem Honest.seq {α β : Type} {Q' : β → World → Prop} {p : Prog World α} {f : α → Prog World β}
    (hw : Vouched D settings.ctx w.maps) (hp : Honest env settings D B A (fun _ => φ) p w)
    (hf : ∀ a t, Vouched D settings.ctx t.maps → φ t → Honest env settings D B A Q' (f a) t) :
    Honest env settings D B A Q' (p >>= f) w :=
  .bind hw hp fun a t _ ht hφ => hf a t ht hφ

section Atoms

variable (hφ : Stable env settings D B φ) (hs : φ w)
include hφ hs

theorem Honest.answer {α : Type} (a : α) : Honest env settings D B A (fun _ => φ) (pure a) w :=
  Guarantees.pure fun t hwt _ => hφ w t hwt hs

/-- A section that leaves files and maps alone. -/
theorem Honest.quiet {α : Type} {x : M α} {P : α → Prop}
    (hemits : Moves (Emits (Accounted settings D)) x)
    (hsilent : Moves Silent x) (hP : ∀ s, P (x s).1) :
    Honest env settings D B A (fun a t => P a ∧ φ t) (Prog.atom (liftSys x)) w := by
  refine Guarantees.atom fun t hwt ht =>
    ⟨.quiet (hemits t.sys) (hsilent t.sys) rfl rfl, ht, fun u htu _ =>
    ⟨hP t.sys, hφ _ u htu ?_⟩⟩
  exact hφ t _ (.quiet (hemits t.sys) (hsilent t.sys) rfl rfl) (hφ w t hwt hs)

/-- Its answer does not matter. -/
theorem Honest.quietly {α : Type} {x : M α} (hemits : Moves (Emits (Accounted settings D)) x)
    (hsilent : Moves Silent x) : Honest env settings D B A (fun _ => φ) (Prog.atom (liftSys x)) w :=
  (Honest.quiet (P := fun _ => True) hφ hs hemits hsilent fun _ => trivial).mono (fun _ _ h => h)
    (fun _ _ h => h)
    fun _ _ h => h.2

theorem Honest.log (level : Level) (msg : String) :
    Honest env settings D B A (fun _ => φ) (Prog.atom (liftSys (log level msg))) w :=
  .quietly hφ hs (log_emits (accounted_inner settings D) level msg) (log_silent level msg)

/-- A version check looks at the versions only. -/
theorem Honest.seen {ignoreAlreadyProcessed : Bool} {f : Maps → Bool × Maps}
    (ho : ∀ m, (f m).2.object = m.object)
    (hd : ∀ m, (f m).2.dest = m.dest) : Honest env settings D B A (fun _ => φ)
      (if ignoreAlreadyProcessed then Prog.atom (withMaps f) else pure false) w := by
  refine Guarantees.ite (fun _ => Guarantees.atom fun t hwt ht => ?_) fun _ =>
    Honest.answer hφ hs false
  have hquiet : ∀ {A : Area}, Accounts settings D env A t ⟨t.sys, (f t.maps).2⟩ :=
    .quiet (.of_same rfl) (Silent.preorder.refl t.sys) (ho t.maps) (hd t.maps)
  exact ⟨hquiet, ht.congr (ho _) (hd _), fun u htu _ => hφ _ u htu (hφ t _ hquiet (hφ w t hwt hs))⟩

end Atoms

/-! ## One resource -/

theorem Told.finish_emits {key : String} {j : Job} (hj : Told D settings.ctx kind key j)
    (fetched : Except String (String × ByteArray)) :
    Moves (Emits (Accounted settings D)) (j.finish env settings.ctx kind fetched) := by
  have hp := Emits.preorder (Accounted settings D)
  have hinner := accounted_inner settings D
  refine .bind hp ?_ fun result => ?_
  · split
    · refine .ite (.bind hp (removeFile_emits hinner env _ _) fun _ => .pure hp _) ?_
      refine .bind hp (emit_emits ?_) fun _ => .bind hp (writeDataToFile_emits hinner env _ _ _ _)
        fun _ => .pure hp _
      exact hj.item
    · exact .pure hp _
  · split
    · exact .pure hp _
    · exact .bind hp (log_emits hinner _ _) fun _ => .pure hp _

/-- A job that writes hands out the bytes of its own data key. -/
theorem Job.finish_produced {ctx : Ctx} {j : Job} {fetched : Except String (String × ByteArray)}
    (h : Fetched env ctx j fetched) (s : Sys) : ∃ l, (j.finish env ctx kind fetched s).2.produced =
      s.produced ++ l ∧
      ∀ d ∈ l, j.remove = false ∧ d.1 = j.id kind := by
  have hp : Preorder fun s s' : Sys => ∃ l, s'.produced = s.produced ++ l ∧
      ∀ d ∈ l, j.remove = false ∧ d.1 = j.id kind := by
    refine ⟨fun s => ⟨[], (List.append_nil _).symm, fun _ hd => absurd hd List.not_mem_nil⟩, ?_⟩
    rintro s t u ⟨l, hl, hall⟩ ⟨l', hl', hall'⟩
    refine ⟨l ++ l', by rw [hl', hl, List.append_assoc], fun d hd => ?_⟩
    exact (List.mem_append.1 hd).elim (hall d) (hall' d)
  refine Job.finish_moves hp (fun s s' hs => ⟨[], ?_, fun _ hd => absurd hd List.not_mem_nil⟩)
    (fun data s => ?_) h s
  · rw [hs.produced, List.append_nil]
  · cases hr : j.remove with
    | true =>
      rw [Job.put_of_remove env ctx kind j hr]
      refine ⟨[], ?_, fun _ hd => absurd hd List.not_mem_nil⟩
      rw [(removeFile_within env j.folder (j.filename ctx kind) s).produced, List.append_nil]
    | false =>
      rw [Job.put_of_write env ctx kind j hr]
      refine ⟨[(j.id kind, data)], ?_, fun d hd => ⟨rfl, by rw [List.mem_singleton.1 hd]⟩⟩
      refine (writeDataToFile_within env j.folder
        (j.filename ctx kind) data j.contentType _).produced.trans ?_
      simp [Job.handed, emit_apply, Sys.produced, Event.produced?, Job.id]

/-- What follows the fetch accounts for what it does. -/
theorem Told.finish_accounts {key : String} {j : Job} (hj : Told D settings.ctx kind key j)
    {fetched : Except String (String × ByteArray)}
    (hfetched : Fetched env settings.ctx j fetched) (t : World) :
    Accounts settings D env (.job kind j) t
      (liftSys (j.finish env settings.ctx kind fetched) t).2 where
  events := hj.finish_emits fetched t.sys
  files p hp := by
    refine (Job.finish_touches hfetched t.sys).files p ?_
    rintro rfl
    exact hp _ hj.slot rfl (Job.place_slot ..).symm
  dirs := (@Job.finish_touches env settings.ctx kind j _ hfetched t.sys).dirs
  produced id hid := by
    obtain ⟨l, hl, hall⟩ := Job.finish_produced hfetched t.sys
    refine (congrArg (lastProduced id) hl).trans ?_
    have hnone : lastProduced id l = none := lastProduced_eq_none fun d hd e => by
      obtain ⟨hr, hd⟩ := hall d hd
      exact hid ⟨hr, e.symm.trans hd⟩
    rw [lastProduced_append, hnone, Option.none_or]
  entries _ _ := ⟨rfl, rfl⟩
  folders _ h := h

/-- The fetch. -/
theorem Told.fetch {key : String} {j : Job} (hj : Told D settings.ctx kind key j)
    (hφ : Stable env settings D B φ) (hs : φ w) :
    Honest env settings D B A (fun fetched t => Fetched env settings.ctx j fetched ∧ φ t)
      (Prog.atom (liftSys (getFileDataAndName env settings.ctx j.dataKey j.content))) w := by
  refine .quiet hφ hs
    (getFileDataAndName_emits (accounted_inner settings D) env (fun url hkey hcontent => ?_) _)
    (getFileDataAndName_silent env settings.ctx _ _) fun s => ⟨s, rfl⟩
  exact .inl ⟨rfl, rfl, hj.link url hkey hcontent⟩

theorem Told.sections {key : String} {j : Job} (hj : Told D settings.ctx kind key j)
    (hA : (Area.job kind j).Le A) (hw : Vouched D settings.ctx w.maps) :
    Honest env settings D B A (fun _ _ => True) (j.sections env settings.ctx kind) w := by
  refine Honest.bind hw (hj.fetch (φ := fun _ => True) (fun _ _ _ h => h) trivial)
    fun fetched _ _ _ hfetched => ?_
  exact Guarantees.atom fun t _ ht =>
    ⟨(hj.finish_accounts hfetched.1 t).mono hA, ht, fun _ _ _ => trivial⟩

theorem mem_jobs_cons {a : Action} {as : List Action} {j : Job} (h : j ∈ jobs as) :
    j ∈ jobs (a :: as) := by
  obtain ⟨b, hb, hbj⟩ := List.mem_filterMap.1 h
  exact List.mem_filterMap.2 ⟨b, List.mem_cons_of_mem a hb, hbj⟩

theorem actionSections_honest (key : String) {as : List Action}
    (hjobs : ∀ j ∈ jobs as, Told D settings.ctx kind key j ∧ (Area.job kind j).Le A)
    (hw : Vouched D settings.ctx w.maps) :
    Honest env settings D B A (fun _ _ => True) (actionSections env settings.ctx kind as) w := by
  have hstable : Stable env settings D B fun _ => True := fun _ _ _ h => h
  induction as generalizing w with
  | nil => exact .answer hstable trivial false
  | cons a as ih =>
    refine Honest.seq (φ := fun _ => True) hw ?_ fun _ t ht _ =>
      Honest.seq ht (ih (fun j hj => hjobs j (mem_jobs_cons hj)) ht) fun _ _ _ _ =>
        .answer hstable trivial _
    cases a with
    | log level msg => exact .log hstable trivial level msg
    | file j =>
      obtain ⟨hj, hA⟩ := hjobs j List.mem_cons_self
      exact hj.sections hA hw

/-- The critical section. -/
theorem Accounts.enter {item : Item} {destFolder : Option String} {isRemoved : Bool}
    (hA : A.keys (kind, item.key)) (t : World) :
    Accounts settings D env A t ⟨t.sys, (t.maps.enter kind item destFolder isRemoved).2⟩ where
  events := .of_same rfl
  files _ _ := rfl
  dirs := .refl t.sys.tree
  produced _ _ := rfl
  entries k hk := by
    have hne : ((kind, item.key) : MapKey) ≠ k := fun e => hk (e ▸ hA)
    rw [Maps.enter_object, Maps.enter_dest, if_neg hne, if_neg fun h => hne h.2]
    exact ⟨rfl, rfl⟩
  folders k hk := by
    change (t.maps.enter kind item destFolder isRemoved).2.dest[k]? ≠ none
    rw [Maps.enter_dest]
    split
    · exact Option.some_ne_none _
    · exact hk

/-- What is asked for stays so. -/
theorem Asked.later {item : Item} {destFolder : Option String} {isRemoved : Bool} {t : World}
    (h : Asked D settings.ctx kind w.maps item destFolder isRemoved)
    (hwt : Accounts settings D env A w t) :
    Asked D settings.ctx kind t.maps item destFolder isRemoved := by
  cases h with
  | given isRemoved hitem => exact .given isRemoved hitem
  | stale hitem hfolder => exact .stale hitem (hwt.folders _ hfolder)

theorem Asked.vouched {item : Item} {destFolder : Option String} {isRemoved : Bool}
    (h : Asked D settings.ctx kind w.maps item destFolder isRemoved)
    (hw : Vouched D settings.ctx w.maps) :
    Vouched D settings.ctx (w.maps.enter kind item destFolder isRemoved).2 := by
  refine hw.enter ?_
  rintro rfl
  cases h with
  | given _ hitem => exact ⟨hitem, rfl⟩

theorem processSections_honest {item : Item} {destFolder : Option String} {isRemoved : Bool}
    {K : MapKey → Prop}
    (h : Asked D settings.ctx kind w.maps item destFolder isRemoved) (hK : K (kind, item.key)) :
    Honest env settings D B (.of K) (fun _ _ => True)
      (processSections env settings.ctx kind item destFolder isRemoved) w := by
  intro t hwt ht
  have hask := h.later hwt
  refine ⟨.enter hK t, hask.vouched ht, actionSections_honest item.key (fun j hj => ?_)
    (hask.vouched ht)⟩
  have htold := hask.jobs_told ht hj
  exact ⟨htold, Area.job_le_of (htold.key ▸ hK)⟩

/-! ## What a watcher's calls are for -/

/-- Besides accounting for what they do, the calls of a watcher keep `φ`: those for the items it is
given, and those of a stale cleanup. -/
structure Conduct (env : Env) (settings : Settings) (D : Kind → Item → Prop) (B A : Area)
    (φ : World → Prop) (kind : Kind) (ns : String) (given : Bool → Item → Prop) : Prop where
  stable : Stable env settings D B φ
  call : ∀ {item isRemoved w}, given isRemoved item → Vouched D settings.ctx w.maps → φ w →
    Honest env settings D B A (fun _ => φ) (processSections env settings.ctx kind item
      (some (destinationFolder settings.ctx item)) isRemoved) w
  cleanup : ∀ existKeys {w}, Vouched D settings.ctx w.maps → φ w →
    Honest env settings D B A (fun _ => φ)
      (Prog.atom (staleItems env kind ns existKeys) >>= removeStaleSections env settings.ctx kind) w

theorem Conduct.mono {ns : String} {given given' : Bool → Item → Prop}
    (h : Conduct env settings D B A φ kind ns given)
    (hgiven : ∀ isRemoved item, given' isRemoved item → given isRemoved item) :
    Conduct env settings D B A φ kind ns given' :=
  ⟨h.stable, fun hitem => h.call (hgiven _ _ hitem), h.cleanup⟩

/-- What is stale was delivered, and its folder is on record. -/
def Stale (D : Kind → Item → Prop) (kind : Kind) (m : Maps) (i : Item) : Prop :=
  ∃ item, D kind item ∧ i = item.retained ∧ m.dest[((kind, item.key) : MapKey)]? ≠ none

theorem Stale.later {i : Item} {t : World} (h : Stale D kind w.maps i)
    (hwt : Accounts settings D env A w t) :
    Stale D kind t.maps i := by
  obtain ⟨item, hitem, hi, hfolder⟩ := h
  exact ⟨item, hitem, hi, hwt.folders _ hfolder⟩

theorem Stale.asked {i : Item} (h : Stale D kind w.maps i) :
    Asked D settings.ctx kind w.maps i none true := by
  obtain ⟨item, hitem, rfl, hfolder⟩ := h
  exact .stale hitem hfolder

/-- The scan finds delivered items of its scope. -/
theorem Vouched.stale {ns : String} {existKeys : List String} {i : Item}
    (hw : Vouched D settings.ctx w.maps)
    (hi : i ∈ (staleItems env kind ns existKeys w).1) : Stale D kind w.maps i ∧
    ∃ item, D kind item ∧
      item.key = i.key ∧ (ns = "ALL" ∨ item.ns = ns) := by
  obtain ⟨k, cached, hc, rfl, hstale, rfl⟩ := exists_of_mem_staleItems hi
  obtain ⟨item, hitem, hkey, rfl⟩ := hw.object k cached hc
  refine ⟨⟨item, hitem, rfl, ?_⟩, item, hitem, rfl, ?_⟩
  · have hk : ((k.1, item.key) : MapKey) = k := Prod.ext rfl hkey
    change w.maps.dest[((k.1, item.key) : MapKey)]? ≠ none
    rw [hk]
    exact hw.recorded k (by rw [hc]; exact Option.some_ne_none _)
  · unfold isStale at hstale
    simp only [Bool.and_eq_true, Bool.or_eq_true, beq_iff_eq] at hstale
    exact hstale.1.2

/-- The scan looks at the maps. -/
theorem Accounts.scan (ns : String) (existKeys : List String) (t : World) :
    Accounts settings D env A t (staleItems env kind ns existKeys t).2 :=
  .quiet (.of_same rfl) (staleItems_silent env kind ns existKeys t).1 rfl rfl

theorem removeStaleSections_honest {K : MapKey → Prop} {items : List Item}
    (hitems : ∀ i ∈ items, Stale D kind w.maps i ∧ K (kind, i.key))
    (hw : Vouched D settings.ctx w.maps) :
    Honest env settings D B (.of K) (fun _ _ => True)
      (removeStaleSections env settings.ctx kind items) w := by
  have hstable : Stable env settings D B fun _ => True := fun _ _ _ h => h
  induction items generalizing w with
  | nil => exact .answer hstable trivial false
  | cons i items ih =>
    refine Honest.bind hw (.log hstable trivial _ _) fun _ t hwt ht _ => ?_
    obtain ⟨hstale, hK⟩ := hitems i List.mem_cons_self
    refine Honest.bind ht (processSections_honest (hstale.later hwt).asked hK)
      fun _ u htu hu _ => ?_
    refine Honest.seq hu (ih (fun i hi => ?_) hu) fun _ _ _ _ => .answer hstable trivial _
    obtain ⟨hstale, hK⟩ := hitems i (List.mem_cons_of_mem _ hi)
    exact ⟨(hstale.later hwt).later htu, hK⟩

/-- **A watcher keeps to the resources of its scope**. -/
theorem conduct_of_scope (B : Area) (ns : String) {K : MapKey → Prop}
    (hscope : ∀ item, D kind item → ns = "ALL" ∨ item.ns = ns → K (kind, item.key)) :
    Conduct env settings D B (.of K) (fun _ => True) kind ns fun _ item => D kind item ∧
    K (kind, item.key) where
  stable _ _ _ h := h
  call hitem _ _ := processSections_honest (.given _ hitem.1) hitem.2
  cleanup existKeys w hw _ := by
    refine Honest.bind (Q := fun items t => ∀ i ∈ items, Stale D kind t.maps i ∧
      K (kind, i.key)) hw ?_ fun items t _ ht hitems => removeStaleSections_honest hitems ht
    refine Guarantees.atom fun t _ ht => ⟨.scan ns existKeys t, ht, fun u htu _ i hi => ?_⟩
    obtain ⟨hstale, item, hitem, hkey, hns⟩ := ht.stale hi
    have hlater : Stale D kind (staleItems env kind ns existKeys t).2.maps i := hstale
    exact ⟨hlater.later htu, hkey ▸ hscope item hitem hns⟩

/-! ## Passes and events -/

section Conduct

variable {ns : String} {given : Bool → Item → Prop} {ignoreAlreadyProcessed : Bool}
  (hc : Conduct env settings D B A φ kind ns given)
include hc

theorem workSections_honest (skipped working : String) {item : Item} {isRemoved : Bool}
    (hitem : given isRemoved item) (skip : Bool) (hw : Vouched D settings.ctx w.maps) (hs : φ w) :
    Honest env settings D B A (fun _ => φ)
      (workSections env settings.ctx kind skipped working item isRemoved skip) w := by
  refine Guarantees.ite (fun _ => ?_) fun _ => Honest.seq hw (.log hc.stable hs _ _)
    fun _ t ht hs => ?_
  · exact Honest.seq hw (.log hc.stable hs _ _) fun _ _ _ hs => Honest.answer hc.stable hs _
  · refine Honest.bind ht
      (Honest.quiet (P := fun dest => dest = destinationFolder settings.ctx item) hc.stable hs ?_
        (getDestinationFolder_silent item settings.ctx) fun s =>
          getDestinationFolder_fst item settings.ctx s)
      fun dest u _ hu hdest => ?_
    · have hp := Emits.preorder (Accounted settings D)
      unfold getDestinationFolder
      split
      · exact .bind hp (log_emits (accounted_inner settings D) _ _) fun _ => .pure hp _
      · exact .pure hp _
    · obtain ⟨rfl, hs⟩ := hdest
      exact hc.call hitem hu hs

theorem eventSections_honest (ev : EventType) {item : Item} (hitem : given (ev == .deleted) item)
    (hw : Vouched D settings.ctx w.maps) (hs : φ w) : Honest env settings D B A (fun _ => φ)
      (eventSections env settings.ctx kind ignoreAlreadyProcessed ev item) w :=
  Honest.seq hw (.seen hc.stable hs (fun m => Maps.watchSeen_object m kind ev item)
    fun m => Maps.watchSeen_dest m kind ev item) fun _ _ ht hs =>
    workSections_honest hc _ _ hitem _ ht hs

theorem listItemsSections_honest {items : List Item} (hitems : ∀ item ∈ items, given false item)
    (hw : Vouched D settings.ctx w.maps) (hs : φ w) : Honest env settings D B A (fun _ => φ)
      (listItemsSections env settings.ctx kind ignoreAlreadyProcessed items) w := by
  induction items generalizing w with
  | nil => exact .answer hc.stable hs false
  | cons item items ih =>
    refine Honest.seq hw
      (Honest.seq hw (.seen hc.stable hs (fun m => Maps.listSeen_object m kind item)
      fun m => Maps.listSeen_dest m kind item) fun _ _ ht hs =>
        workSections_honest hc _ _ (hitems item List.mem_cons_self) _ ht hs) fun _ t ht hs => ?_
    exact Honest.seq ht (ih (fun i hi => hitems i (List.mem_cons_of_mem item hi)) ht hs)
      fun _ _ _ hs =>
      .answer hc.stable hs _

theorem listingSections_honest {items : List Item} (hitems : ∀ item ∈ items, given false item)
    (hw : Vouched D settings.ctx w.maps) (hs : φ w) : Honest env settings D B A (fun _ => φ)
      (listingSections env settings.ctx kind ignoreAlreadyProcessed ns items) w := by
  refine Honest.seq hw (listItemsSections_honest hc hitems hw hs) fun changed t ht hs => ?_
  exact Honest.seq (p := Prog.atom (staleItems env kind ns (items.map Item.key)) >>=
    removeStaleSections env settings.ctx kind) (f := fun removed => pure (changed || removed)) ht
    (hc.cleanup (items.map Item.key) ht hs) fun _ _ _ hs => .answer hc.stable hs _

end Conduct

end Sections

/-! ## What the server sends -/

/-- The server sends the object in one of these replies. -/
inductive ListReplies.Sends {kind : Kind} (replies : ListReplies kind) (o : kind.Object) : Prop
  | page {objects : List kind.Object} {next : Option String} :
    .ok (objects, next) ∈ replies.pages → o ∈ objects → Sends replies o
  | read : .ok (some o) ∈ replies.reads → Sends replies o

/-- In a round also as the object of an event. -/
inductive RoundInput.Sends {kind : Kind} (input : RoundInput kind) (o : kind.Object) : Prop
  | listed : input.replies.Sends o → Sends input o
  | event {events : WatchStream kind} {ev : EventType} :
    input.stream = .ok events → .ok (ev, o) ∈ events → Sends input o

/-- The object is that of a `DELETED` event. -/
def RoundInput.Drops {kind : Kind} (input : RoundInput kind) (o : kind.Object) : Prop :=
  ∃ events, input.stream = .ok events ∧ .ok (.deleted, o) ∈ events

section Replies

variable {env : Env} {kind : Kind} {ns : String}

theorem withTransportRetry_mem {α : Type} {request : M Unit} {replies rest : Replies α}
    {attempt : Nat} {s : Sys} {out : Except KubeError α}
    (h : (withTransportRetry env request replies attempt s).1 = some (out, rest)) :
    out ∈ replies ∧ ∀ reply ∈ rest, reply ∈ replies := by
  induction replies generalizing attempt s with
  | nil => cases h
  | cons reply replies ih =>
    cases reply with
    | ok v =>
      cases h
      exact ⟨List.mem_cons_self, fun _ hr => List.mem_cons_of_mem _ hr⟩
    | error e =>
      unfold withTransportRetry at h
      rw [bind_apply, StateM.ite_apply] at h
      split at h
      · obtain ⟨hout, hrest⟩ := ih h
        exact ⟨List.mem_cons_of_mem _ hout, fun r hr => List.mem_cons_of_mem _ (hrest r hr)⟩
      · cases h
        exact ⟨List.mem_cons_self, fun _ hr => List.mem_cons_of_mem _ hr⟩

theorem readAll_items {names : List String} {replies : Replies (Option kind.Object)} {s : Sys}
    {items : List Item} (h : (readAll env kind ns names replies s).1 = some (.ok items)) :
    ∀ item ∈ items, ∃ o, .ok (some o) ∈ replies ∧ item = Item.fromObject kind o := by
  induction names generalizing replies s items with
  | nil =>
    cases h
    exact fun _ hi => absurd hi List.not_mem_nil
  | cons rn names ih =>
    unfold readAll readNamed at h
    simp only [bind_apply] at h
    generalize hout : withTransportRetry env (emit (.apiGet kind ns rn)) replies 0 s = out at h
    obtain ⟨answer, s'⟩ := out
    rcases answer with _ | ⟨e | got, rest⟩
    · cases h
    · cases h
    · obtain ⟨hgot, hrest⟩ := withTransportRetry_mem (congrArg Prod.fst hout)
      simp only [pure_apply, bind_apply] at h
      generalize hread : readAll env kind ns names rest s' = read at h
      obtain ⟨result, s''⟩ := read
      rcases result with _ | (e | others)
      · cases h
      · cases h
      · cases h
        intro item hi
        rcases List.mem_append.1 hi with hi | hi
        · obtain ⟨o, ho, rfl⟩ := Option.map_eq_some_iff.1 (Option.mem_toList.1 hi)
          exact ⟨o, ho ▸ hgot, rfl⟩
        · obtain ⟨o, ho, hitem⟩ := ih (congrArg Prod.fst hread) item hi
          exact ⟨o, hrest _ ho, hitem⟩

theorem listAll_items {sel : String} {fuel : Nat} {cont : Option String}
    {replies : Replies (Page kind)} {s : Sys}
    {items : List Item} (h : (listAll env kind ns sel fuel cont replies s).1 = some (.ok items)) :
    ∀ item ∈ items, ∃ objects next, .ok (objects, next) ∈ replies ∧ ∃ o ∈ objects,
      item = Item.fromObject kind o := by
  induction fuel generalizing cont replies s items with
  | zero => cases h
  | succ fuel ih =>
    unfold listAll listPage at h
    simp only [bind_apply] at h
    generalize hout :
      withTransportRetry env (emit (.apiList kind ns sel 5 cont)) replies 0 s = out at h
    obtain ⟨answer, s'⟩ := out
    rcases answer with _ | ⟨e | ⟨objects, next⟩, rest⟩
    · cases h
    · cases h
    · obtain ⟨hgot, hrest⟩ := withTransportRetry_mem (congrArg Prod.fst hout)
      have hpage : ∀ item ∈ objects.map (Item.fromObject kind), ∃ objects next,
          .ok (objects, next) ∈ replies ∧
          ∃ o ∈ objects, item = Item.fromObject kind o := by
        intro item hi
        obtain ⟨o, ho, rfl⟩ := List.mem_map.1 hi
        exact ⟨objects, next, hgot, o, ho, rfl⟩
      simp only [pure_apply] at h
      generalize next.filter (· ≠ "") = next' at h
      cases next' with
      | none =>
        cases h
        exact hpage
      | some c =>
        simp only [bind_apply] at h
        generalize hread : listAll env kind ns sel fuel (some c) rest s' = read at h
        obtain ⟨result, s''⟩ := read
        rcases result with _ | (e | others)
        · cases h
        · cases h
        · cases h
          intro item hi
          rcases List.mem_append.1 hi with hi | hi
          · exact hpage item hi
          · obtain ⟨objects', next', hmem, ho⟩ := ih (congrArg Prod.fst hread) item hi
            exact ⟨objects', next', hrest _ hmem, ho⟩

/-- A listing holds what the server sent. -/
theorem startPass_items {ctx : Ctx} {replies : ListReplies kind} {w : World} {items : List Item}
    (h : (startPass env ctx kind ns replies w).1 = some (.ok items)) :
    ∀ item ∈ items, ∃ o, replies.Sends o ∧ item = Item.fromObject kind o := by
  intro item hi
  unfold startPass readListing at h
  dsimp only at h
  split at h
  · obtain ⟨o, ho, hitem⟩ := readAll_items h item hi
    exact ⟨o, .read ho, hitem⟩
  · obtain ⟨objects, next, hmem, o, ho, hitem⟩ := listAll_items h item hi
    exact ⟨o, .page hmem ho, hitem⟩

end Replies

/-! ## Rounds -/

section Rounds

variable {env : Env} {settings : Settings} {D : Kind → Item → Prop} {A B : Area}
  {φ : World → Prop} {w : World}
  {kind : Kind} {ns : String} {given : Bool → Item → Prop} {ignoreAlreadyProcessed : Bool}

theorem startPass_emits (hns : (kind, ns) ∈ settings.watched)
    (replies : ListReplies kind) (w : World) :
    Emits (Accounted settings D) w.sys (startPass env settings.ctx kind ns replies w).2 := by
  have hp := Emits.preorder (Accounted settings D)
  have hinner := accounted_inner settings D
  have hselected : ∀ name ∈ resourceNames settings.ctx kind ns,
      name ∈ selectedNames settings.ctx kind ns := by
    intro name hname
    by_cases hset : ns ≠ "ALL" ∧ settings.ctx.resourceName ≠ ""
    · rwa [resourceNames_eq hset.1 hset.2] at hname
    · unfold resourceNames at hname
      rw [if_neg hset] at hname
      exact absurd hname List.not_mem_nil
  have hread :
      Moves (Emits (Accounted settings D)) (readListing env settings.ctx kind ns replies) := .ite
    (readAll_moves hp (sleepFor_emits hinner) env kind ns
      (fun name hname => emit_emits ⟨hns, hselected name hname⟩) _)
    (listAll_moves hp (sleepFor_emits hinner) env kind ns (fun _ _ => emit_emits ⟨hns, rfl⟩) _ _ _)
  exact hp.trans (log_emits hinner _ _ w.sys) (hread _)

theorem notify_honest (hφ : Stable env settings D B φ) {requestUrl : Option String}
    (hurl : requestUrl = none ∨ requestUrl = settings.requestUrl) (changed : Bool) (hs : φ w) :
    Honest env settings D B A (fun _ => φ)
      (Prog.atom (liftSys (notify env settings.ctx requestUrl changed))) w := by
  refine .quietly hφ hs (notify_emits (accounted_inner settings D) env (fun _ _ h => h)
    (fun url hsome hmethod => .inr ⟨?_, rfl, ?_⟩) changed)
    (notify_silent env settings.ctx requestUrl changed)
  · rcases hurl with rfl | rfl
    · cases hsome
    · exact hsome
  · rcases hmethod with h | h | h <;> simp [h]

/-- What is done with a round's result. -/
theorem endRound_honest (hφ : Stable env settings D B φ)
    (result : Option (Except WErr Unit)) (hs : φ w) :
    Honest env settings D B A (fun _ => φ) (Prog.atom (endRound env result)) w := by
  have hp : Preorder fun w w' : World => Emits (Accounted settings D) w.sys w'.sys ∧
      Silent w.sys w'.sys ∧ w'.maps = w.maps :=
      ⟨fun w => ⟨(Emits.preorder _).refl _, Silent.preorder.refl _, rfl⟩, fun h h' =>
    ⟨(Emits.preorder _).trans h.1 h'.1, Silent.preorder.trans h.2.1 h'.2.1, h'.2.2.trans h.2.2⟩⟩
  have hinner : ∀ {e : Event}, e.inner = true → e.produced? = none →
      Moves (fun w w' : World => Emits (Accounted settings D) w.sys w'.sys ∧ Silent w.sys w'.sys ∧
        w'.maps = w.maps)
          (liftSys (emit e)) := fun he hproduced w =>
    ⟨emit_emits (accounted_inner settings D _ he) w.sys, emit_silent hproduced w.sys, rfl⟩
  have hthrottled :
      ∀ msg secs, Moves (fun w w' : World => Emits (Accounted settings D) w.sys w'.sys ∧
      Silent w.sys w'.sys ∧ w'.maps = w.maps) (do
        liftSys (log .error msg)
        liftSys (emit (.sleep secs))
        pure (some true) : StateM World (Option Bool)) := fun msg secs =>
    .bind hp (hinner rfl rfl) fun _ => .bind hp (hinner rfl rfl) fun _ => .pure hp _
  have hmoves :
      Moves (fun w w' : World => Emits (Accounted settings D) w.sys w'.sys ∧ Silent w.sys w'.sys ∧
      w'.maps = w.maps) (endRound env result) := by
    rcases result with _ | (((⟨code, reason⟩ | msg) | msg) | _)
    · exact .pure hp _
    · exact .ite (.bind hp (hinner rfl rfl) fun _ => .pure hp _) (hthrottled _ _)
    · exact hthrottled _ _
    · exact hthrottled _ _
    · exact .pure hp _
  refine Guarantees.atom fun t hwt ht => ?_
  obtain ⟨hemits, hsilent, hmaps⟩ := hmoves t
  have hquiet : ∀ {A : Area}, Accounts settings D env A t (endRound env result t).2 :=
    .quiet hemits hsilent (by rw [hmaps]) (by rw [hmaps])
  exact ⟨hquiet, by rw [hmaps]; exact ht, fun u htu _ => hφ _ u htu (hφ t _ hquiet (hφ w t hwt hs))⟩

section Conduct

variable (hc : Conduct env settings D B A φ kind ns given)
include hc

theorem passSections_honest {requestUrl : Option String}
    (hurl : requestUrl = none ∨ requestUrl = settings.requestUrl)
    (hns : (kind, ns) ∈ settings.watched) {replies : ListReplies kind}
    (hsent : ∀ o, replies.Sends o → given false (Item.fromObject kind o))
    (hw : Vouched D settings.ctx w.maps) (hs : φ w) : Honest env settings D B A (fun _ => φ)
      (passSections env settings.ctx kind ns requestUrl ignoreAlreadyProcessed replies) w := by
  refine Honest.bind (Q :=
    fun read t => (∀ items, read = some (.ok items) → ∀ item ∈ items, given false item) ∧ φ t)
      hw ?_ fun read t _ ht hread => ?_
  · refine Guarantees.atom fun t hwt ht => ?_
    have hquiet :
        ∀ {A : Area}, Accounts settings D env A t (passStart env settings.ctx kind ns replies t) :=
      .quiet (startPass_emits hns replies t)
        (startPass_calm env settings.ctx kind ns replies t).silent rfl rfl
    refine ⟨hquiet, ht, fun u htu _ => ⟨fun items hread item hi => ?_, ?_⟩⟩
    · obtain ⟨o, ho, rfl⟩ := startPass_items hread item hi
      exact hsent o ho
    · exact hc.stable _ u htu (hc.stable t _ hquiet (hc.stable w t hwt hs))
  · obtain ⟨hread, hs⟩ := hread
    split
    · exact Honest.answer hc.stable hs _
    · exact Honest.answer hc.stable hs _
    · next items =>
      refine Honest.seq ht (listingSections_honest hc (hread items rfl) ht hs)
        fun changed u hu hs => ?_
      exact Honest.seq hu (notify_honest hc.stable hurl changed hs) fun _ _ _ hs =>
        .answer hc.stable hs _

theorem watchEventsSections_honest (firstEvent : Bool) {events : WatchStream kind}
    (hsent : ∀ ev o, .ok (ev, o) ∈ events → given (ev == .deleted) (Item.fromObject kind o))
    (hw : Vouched D settings.ctx w.maps) (hs : φ w) :
    Honest env settings D B A (fun _ => φ)
      (watchEventsSections env settings.ctx kind settings.requestUrl ignoreAlreadyProcessed
        firstEvent events) w := by
  induction events generalizing firstEvent w with
  | nil => exact Honest.answer hc.stable hs _
  | cons e events ih =>
    cases e with
    | error e => exact Honest.answer hc.stable hs _
    | ok delivered =>
      obtain ⟨ev, o⟩ := delivered
      have hmark : Honest env settings D B A (fun _ => φ) (Prog.atom (markEvent firstEvent)) w := by
        refine Guarantees.atom fun t hwt ht => ?_
        have hquiet : ∀ {A : Area}, Accounts settings D env A t (markEvent firstEvent t).2 := by
          cases firstEvent <;> exact .quiet (.of_same rfl) ⟨List.prefix_rfl, rfl, rfl⟩ rfl rfl
        refine ⟨hquiet, ?_, fun u htu _ =>
          hc.stable _ u htu (hc.stable t _ hquiet (hc.stable w t hwt hs))⟩
        cases firstEvent <;> exact ht
      refine Honest.seq hw hmark fun _ t ht hs => ?_
      refine Honest.seq ht (eventSections_honest hc ev (hsent ev o List.mem_cons_self) ht hs)
        fun changed u hu hs => ?_
      refine Honest.seq hu (notify_honest hc.stable (.inr rfl) changed hs) fun result v hv hs => ?_
      split
      · exact Honest.answer hc.stable hs _
      · exact ih false (fun ev o h => hsent ev o (List.mem_cons_of_mem _ h)) hv hs

/-- **A round accounts for what it does** and keeps what the watcher's calls keep, section by
section, beside tasks that keep to their areas. -/
theorem roundSections_honest (hns : (kind, ns) ∈ settings.watched) {input : RoundInput kind}
    (hsent : ∀ o, input.Sends o → given false (Item.fromObject kind o))
    (hdrops : ∀ o, input.Drops o → given true (Item.fromObject kind o))
    (hw : Vouched D settings.ctx w.maps) (hs : φ w) : Honest env settings D B A (fun _ => φ)
    (roundSections env settings.ctx kind ns settings.requestUrl
      ignoreAlreadyProcessed input) w := by
  refine Honest.seq hw (Guarantees.ite (fun _ => ?_) fun _ => ?_) fun result _ _ hs =>
    endRound_honest hc.stable result hs
  · refine Honest.seq hw
      (passSections_honest hc (.inr rfl) hns (fun o ho => hsent o (.listed ho)) hw hs)
      fun out t ht hs => ?_
    split
    · exact Honest.seq ht (.quietly hc.stable hs (emit_emits (accounted_inner settings D _ rfl))
        (emit_silent rfl))
        fun _ _ _ hs => .answer hc.stable hs _
    · exact Honest.answer hc.stable hs _
  · refine Honest.seq (φ := φ) hw (Honest.seq (φ := φ) hw ?_ fun _ t ht hs => ?_) fun _ _ _ hs =>
      .answer hc.stable hs _
    · refine Honest.quietly (x := log .debug _ >>= fun _ => emit _) hc.stable hs ?_ ?_
      · exact .bind (Emits.preorder _) (log_emits (accounted_inner settings D) _ _) fun _ =>
          emit_emits ⟨hns, rfl⟩
      · exact .bind Silent.preorder (log_silent _ _) fun _ => emit_silent rfl
    · split
      · exact Honest.answer hc.stable hs _
      · next events hevents =>
        refine watchEventsSections_honest hc true (fun ev o h => ?_) ht hs
        cases ev with
        | deleted => exact hdrops o ⟨events, hevents, h⟩
        | added => exact hsent o (.event hevents h)
        | modified => exact hsent o (.event hevents h)

end Conduct

end Rounds

end Sidecar
