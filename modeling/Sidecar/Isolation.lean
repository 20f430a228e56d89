import Sidecar.Deliveries

/-!
# Watchers of different namespaces

The maps are filed under `Item::key()`, which runs namespace and name together, and the stale
cleanup goes by the cached namespace. Watchers of different namespaces keep apart as long as their
resources have different keys (`watchers_isolated`), and no longer: `a/bc` and `ab/c` share a key
(`namespaces_collide`).
-/

namespace Sidecar

open Posix StateM

/-! ## Names that Kubernetes accepts

The characters that occur in them; what else Kubernetes asks for does not matter here. -/

def labelChar (c : Char) : Bool := c.isLower || c.isDigit || c == '-'

def DnsLabel (s : String) : Prop := ∀ c ∈ s.toList, labelChar c = true

def DnsSubdomain (s : String) : Prop := ∀ c ∈ s.toList, (labelChar c || c == '.') = true

def ConfigKey (s : String) : Prop :=
  ∀ c ∈ s.toList, (c.isAlphanum || c == '-' || c == '_' || c == '.') = true

instance (s : String) : Decidable (DnsLabel s) := List.decidableBAll _ s.toList

instance (s : String) : Decidable (DnsSubdomain s) := List.decidableBAll _ s.toList

instance (s : String) : Decidable (ConfigKey s) := List.decidableBAll _ s.toList

/-- The names of a resource, and its data keys. -/
structure Item.Accepted (kind : Kind) (item : Item) : Prop where
  ns : DnsLabel item.ns
  name : DnsSubdomain item.name
  keys : ∀ e ∈ item.entries kind, ConfigKey e.dataKey

structure Slot.Accepted (slot : Slot) : Prop where
  ns : DnsLabel slot.ns
  name : DnsSubdomain slot.name
  dataKey : ConfigKey slot.dataKey

theorem DnsLabel.dot {s : String} (h : DnsLabel s) : '.' ∉ s.toList := fun hc => by
  have := h '.' hc
  revert this
  decide

theorem DnsLabel.ne_all {s : String} (h : DnsLabel s) : s ≠ "ALL" := by
  rintro rfl
  revert h
  decide

theorem uniqueFilename_toList (filename ns resource resourceName : String) :
    (uniqueFilename filename ns resource resourceName).toList = "namespace_".toList ++
      (ns.toList ++ '.' ::
        (resource.toList ++ '_' :: (resourceName.toList ++ '.' :: filename.toList))) := by
  unfold uniqueFilename
  simp [toString]

/-- A file name tells the namespace. -/
theorem ns_of_uniqueFilename {filename filename' ns ns' resource resource' name name' : String}
    (hdot : '.' ∉ ns.toList) (hdot' : '.' ∉ ns'.toList)
    (h : uniqueFilename filename ns resource name = uniqueFilename filename' ns' resource' name') :
    ns = ns' := by
  have htake : ∀ (s : String) (rest : List Char), '.' ∉ s.toList →
      (s.toList ++ '.' :: rest).takeWhile (· ≠ '.') = s.toList := by
    intro s rest hs
    rw [List.takeWhile_append_of_pos fun c hc => by simpa using fun e : c = '.' => hs (e ▸ hc)]
    simp
  have hlist := congrArg String.toList h
  rw [uniqueFilename_toList, uniqueFilename_toList, List.append_cancel_left_eq] at hlist
  have := congrArg (List.takeWhile (· ≠ '.')) hlist
  rw [htake ns _ hdot, htake ns' _ hdot'] at this
  exact String.toList_injective this

theorem dataFileName_of_plain {dataKey : String} (h : isUrlKey dataKey = false) :
    dataFileName dataKey = dataKey := by
  unfold isUrlKey at h
  unfold dataFileName
  cases hs : Text.stripSuffix dataKey ".url" with
  | none => rfl
  | some stripped => rw [hs] at h; cases h

theorem mem_dataFileName {dataKey : String} {c : Char} (h : c ∈ (dataFileName dataKey).toList) :
    c ∈ dataKey.toList := by
  unfold dataFileName Text.stripSuffix at h
  split at h
  · simp only [Option.getD_some, String.toList_ofList] at h
    exact List.mem_of_mem_take h
  · exact h

theorem Kind.slash_notMem (kind : Kind) : '/' ∉ kind.asStr.toList := by
  cases kind <;> decide

section Place

variable {env : Env} {ctx : Ctx} (hu : ctx.uniqueFilenames = true)
include hu

/-- The file name of a slot is one plain name. -/
theorem Slot.Accepted.plainName {slot : Slot} (h : slot.Accepted) :
    PlainName (slot.filename ctx) := by
  unfold Slot.filename
  rw [if_pos hu]
  have hlist := uniqueFilename_toList (dataFileName slot.dataKey) slot.ns slot.kind.asStr slot.name
  have hns : '/' ∉ slot.ns.toList := fun hc => absurd (h.ns '/' hc) (by decide)
  have hname : '/' ∉ slot.name.toList := fun hc => absurd (h.name '/' hc) (by decide)
  have hkey : '/' ∉ (dataFileName slot.dataKey).toList := fun hc =>
    absurd (h.dataKey '/' (mem_dataFileName hc)) (by decide)
  have hhead : '/' ∉ "namespace_".toList := by decide
  have hlong : ∀ s : String, s.toList.length < 10 →
      uniqueFilename (dataFileName slot.dataKey) slot.ns slot.kind.asStr slot.name ≠ s := by
    rintro s hs rfl
    rw [hlist, List.length_append] at hs
    have : "namespace_".toList.length = 10 := by decide
    omega
  refine ⟨?_, hlong "" (by decide), hlong "." (by decide), hlong ".." (by decide)⟩
  rw [hlist]
  simp only [List.mem_append, List.mem_cons, not_or]
  exact ⟨hhead, hns, by decide, slot.kind.slash_notMem, by decide, hname, by decide, hkey⟩

/-- Files of different namespaces are different files, whatever their folders. -/
theorem Slot.place_ne {slot slot' : Slot} (h : slot.Accepted) (h' : slot'.Accepted)
    (hns : slot.ns ≠ slot'.ns) : slot.place env ctx ≠ slot'.place env ctx := by
  intro e
  unfold Slot.place Env.place at e
  rw [canon_join _ _ (h.plainName hu), canon_join _ _ (h'.plainName hu)] at e
  have hname := (List.cons.inj e).1
  unfold Slot.filename at hname
  rw [if_pos hu, if_pos hu] at hname
  exact hns (ns_of_uniqueFilename h.ns.dot h'.ns.dot hname)

end Place

/-! ## The resources of a run -/

/-- A set of resources with accepted names, which the cache does not lead out of, and in which a key
belongs to one namespace. -/
structure Census (P : Kind → Item → Prop) : Prop where
  retained {kind : Kind} {item : Item} : P kind item →
    P kind (CachedItem.fromItem item).toRemovalItem
  accepted {kind : Kind} {item : Item} : P kind item → item.Accepted kind
  keys {kind : Kind} {x y : Item} : P kind x → P kind y → x.key = y.key → x.ns = y.ns

/-- The maps hold nothing but these resources. -/
def Maps.Filed (P : Kind → Item → Prop) (m : Maps) : Prop :=
  ∀ (k : MapKey) (c : CachedItem), m.object[k]? = some c →
    P k.1 c.toRemovalItem ∧ c.toRemovalItem.key = k.2

/-- A step on behalf of a namespace: entries under other keys stay, and so do the files that none of
its slots can be at. -/
structure Apart (env : Env) (ctx : Ctx) (P : Kind → Item → Prop) (ns : String) (w w' : World) :
    Prop where
  filed : w'.maps.Filed P
  maps : ∀ k : MapKey, (∀ item, P k.1 item → item.key = k.2 → item.ns ≠ ns) →
    w'.maps.version[k]? = w.maps.version[k]? ∧ w'.maps.object[k]? = w.maps.object[k]? ∧
      w'.maps.dest[k]? = w.maps.dest[k]?
  files : ∀ p, (∀ slot : Slot, slot.Accepted → slot.ns = ns → slot.place env ctx ≠ p) →
    w'.sys.tree.fileAt p = w.sys.tree.fileAt p

/-- What a program does from maps that hold nothing but these resources. -/
def KeepsApart (env : Env) (ctx : Ctx) (P : Kind → Item → Prop) (ns : String)
    (w w' : World) : Prop :=
  w.maps.Filed P → Apart env ctx P ns w w'

section Apart

variable {env : Env} {ctx : Ctx} {P : Kind → Item → Prop} {ns : String}

theorem keepsApart_preorder : Preorder (KeepsApart env ctx P ns) where
  refl _ h := ⟨h, fun _ _ => ⟨rfl, rfl, rfl⟩, fun _ _ => rfl⟩
  trans h₁ h₂ hf := by
    have ha := h₁ hf
    have hb := h₂ ha.filed
    refine ⟨hb.filed, fun k hk => ?_, fun p hp => (hb.files p hp).trans (ha.files p hp)⟩
    obtain ⟨hv, ho, hd⟩ := ha.maps k hk
    obtain ⟨hv', ho', hd'⟩ := hb.maps k hk
    exact ⟨hv'.trans hv, ho'.trans ho, hd'.trans hd⟩

theorem Hush.keepsApart {w w' : World} (h : Hush w w') : KeepsApart env ctx P ns w w' := fun hf =>
  ⟨h.maps ▸ hf, fun _ _ => by rw [h.maps]; exact ⟨rfl, rfl, rfl⟩, fun _ _ => by rw [h.sys.tree]⟩

theorem liftSys_keepsApart {α : Type} {x : M α} (h : Moves Silent x) :
    Moves (KeepsApart env ctx P ns) (liftSys x) := fun w => Hush.keepsApart ⟨h w.sys, rfl⟩

variable (hP : Census P) {kind : Kind} {item : Item} (hi : P kind item) (hns : item.ns = ns)
include hP hi

theorem Census.slot {e : Entry} (he : e ∈ item.entries kind) (folder : String) :
    (e.slot kind item.ns item.name folder).Accepted :=
  ⟨(hP.accepted hi).ns, (hP.accepted hi).name, (hP.accepted hi).keys e he⟩

/-- The old item of a resource is of its namespace, since it is filed under the same key. -/
theorem Census.oldItem {m : Maps} (hm : m.Filed P) :
    P kind (m.oldItem kind item) ∧ (m.oldItem kind item).ns = item.ns := by
  unfold Maps.oldItem
  cases hobj : m.object[((kind, item.key) : MapKey)]? with
  | none => exact ⟨hP.retained hi, rfl⟩
  | some c =>
    obtain ⟨hc, hkey⟩ := hm _ c hobj
    exact ⟨hc, hP.keys hc hi hkey⟩

/-- Every job of a call is at a slot of its namespace. -/
theorem Census.jobs {m : Maps} (hm : m.Filed P) {destFolder : Option String} {isRemoved : Bool}
    {dest : String} {j : Job}
    (hj : j ∈ jobs (plan kind item (m.enter kind item destFolder isRemoved).1 dest isRemoved)) :
    (j.slot kind).Accepted ∧ (j.slot kind).ns = item.ns := by
  rw [Maps.enter_old] at hj
  cases isRemoved with
  | true =>
    rw [jobs_plan_removed] at hj
    obtain ⟨e, he, rfl⟩ := List.mem_map.1 hj
    exact ⟨hP.slot hi he dest, rfl⟩
  | false =>
    rw [(jobs_plan_perm ..).mem_iff, List.mem_append] at hj
    obtain hj | hj := hj
    · obtain ⟨e, he, rfl⟩ := List.mem_map.1 hj
      exact ⟨hP.slot hi he dest, rfl⟩
    · obtain ⟨e, he, rfl⟩ := List.mem_map.1 hj
      obtain ⟨hold, holdNs⟩ := hP.oldItem hi hm
      exact ⟨hP.slot hold (List.mem_filter.1 he).1 _, holdNs⟩

include hns

theorem processResource_keepsApart (destFolder : Option String) (isRemoved : Bool) :
    Moves (KeepsApart env ctx P ns) (processResource env ctx kind item destFolder isRemoved) := by
  intro w hm
  rw [processResource_eq]
  refine ⟨fun k c hc => ?_, fun k hk => ?_, fun p hp => ?_⟩
  · rw [Maps.enter_object] at hc
    split at hc
    · next hk =>
      subst hk
      cases isRemoved with
      | true => cases hc
      | false =>
        cases hc
        exact ⟨hP.retained hi, rfl⟩
    · exact hm k c hc
  · have hne : ((kind, item.key) : MapKey) ≠ k := by
      rintro rfl
      exact hk item hi rfl hns
    rw [Maps.enter_version, Maps.enter_object, Maps.enter_dest, if_neg hne, if_neg fun h => hne h.2]
    exact ⟨rfl, rfl, rfl⟩
  · refine (runActions_touches env ctx kind _ w.sys).files p ?_
    rintro ⟨j, hj, hplace⟩
    obtain ⟨haccepted, hslot⟩ := hP.jobs hi hm hj
    exact hp (j.slot kind) haccepted (hslot.trans hns) (by rw [← Job.place_slot]; exact hplace)

omit hP in
theorem record_keepsApart {w : World} {s : Sys} (hs : Silent w.sys s)
    (ignoreAlreadyProcessed : Bool) :
    KeepsApart env ctx P ns w ⟨s, w.maps.record kind item ignoreAlreadyProcessed⟩ := by
  intro hm
  refine ⟨?_, fun k hk => ?_, fun p _ => by rw [hs.tree]⟩
  · unfold Maps.Filed
    rw [Maps.record_object]
    exact hm
  · have hne : ((kind, item.key) : MapKey) ≠ k := by
      rintro rfl
      exact hk item hi rfl hns
    rw [Maps.record_object, Maps.record_dest]
    refine ⟨?_, rfl, rfl⟩
    unfold Maps.record
    split
    · exact (HashMap.getElem?_insert _ _ _ _).trans (if_neg hne)
    · rfl

omit hP in
theorem forget_keepsApart {w : World} {s : Sys} (hs : Silent w.sys s)
    (ignoreAlreadyProcessed : Bool) :
    KeepsApart env ctx P ns w ⟨s, w.maps.forget kind item ignoreAlreadyProcessed⟩ := by
  intro hm
  refine ⟨?_, fun k hk => ?_, fun p _ => by rw [hs.tree]⟩
  · unfold Maps.Filed
    rw [Maps.forget_object]
    exact hm
  · have hne : ((kind, item.key) : MapKey) ≠ k := by
      rintro rfl
      exact hk item hi rfl hns
    rw [Maps.forget_object, Maps.forget_dest]
    refine ⟨?_, rfl, rfl⟩
    unfold Maps.forget
    split
    · exact (HashMap.getElem?_erase _ _ _).trans (if_neg hne)
    · rfl

theorem Upserted.keepsApart {ignoreAlreadyProcessed : Bool} {w : World} {out : Bool × World}
    (h : Upserted env ctx kind ignoreAlreadyProcessed item w out) :
    KeepsApart env ctx P ns w out.2 := by
  obtain ⟨-, -, hs, rfl⟩ | ⟨-, hs, rfl⟩ := h
  · exact Hush.keepsApart ⟨hs, rfl⟩
  · exact keepsApart_preorder.trans (record_keepsApart hi hns hs _)
      (processResource_keepsApart hP hi hns _ _ _)

theorem applyEvent_keepsApart (ignoreAlreadyProcessed : Bool) (ev : EventType) :
    Moves (KeepsApart env ctx P ns) (applyEvent env ctx kind ignoreAlreadyProcessed ev item) := by
  intro w
  by_cases hev : ev = .deleted
  · subst hev
    obtain ⟨s, hs, heq⟩ := applyEvent_delete env ctx kind item w ignoreAlreadyProcessed
    rw [heq]
    exact keepsApart_preorder.trans (forget_keepsApart hi hns hs _)
      (processResource_keepsApart hP hi hns _ _ _)
  · exact (applyEvent_upserted env ctx kind _ hev item w).keepsApart hP hi hns

end Apart

section Listing

variable {env : Env} {ctx : Ctx} {P : Kind → Item → Prop} {ns : String}
  (hP : Census P) {kind : Kind}
  {items : List Item} (hi : ∀ item ∈ items, P kind item ∧ item.ns = ns)
include hP hi

theorem listItems_keepsApart (ignoreAlreadyProcessed : Bool) :
    Moves (KeepsApart env ctx P ns) (listItems env ctx kind ignoreAlreadyProcessed items) := by
  have hp : Preorder (KeepsApart env ctx P ns) := keepsApart_preorder
  induction items with
  | nil => exact Moves.pure hp _
  | cons item items ih =>
    obtain ⟨hitem, hns⟩ := hi item List.mem_cons_self
    exact Moves.bind hp (fun w => (listItem_upserted env ctx kind _ item w).keepsApart hP hitem hns)
      fun _ => Moves.bind hp (ih fun i h => hi i (List.mem_cons_of_mem item h)) fun _ =>
        Moves.pure hp _

theorem removeStale_keepsApart :
    Moves (KeepsApart env ctx P ns) (removeStale env ctx kind items) := by
  have hp : Preorder (KeepsApart env ctx P ns) := keepsApart_preorder
  induction items with
  | nil => exact Moves.pure hp _
  | cons item items ih =>
    obtain ⟨hitem, hns⟩ := hi item List.mem_cons_self
    exact Moves.bind hp (liftSys_keepsApart (log_silent _ _)) fun _ =>
      Moves.bind hp (processResource_keepsApart hP hitem hns _ _) fun _ =>
        Moves.bind hp (ih fun i h => hi i (List.mem_cons_of_mem item h)) fun _ => Moves.pure hp _

/-- A list pass of a namespace; the stale resources are of that namespace too. -/
theorem applyListing_keepsApart (hall : ns ≠ "ALL") (ignoreAlreadyProcessed : Bool) :
    Moves (KeepsApart env ctx P ns)
      (applyListing env ctx kind ns ignoreAlreadyProcessed items) := by
  intro w hm
  have hlisted :
      KeepsApart env ctx P ns w (listItems env ctx kind ignoreAlreadyProcessed items w).2 :=
    listItems_keepsApart hP hi ignoreAlreadyProcessed w
  rw [applyListing_eq]
  dsimp only
  have hfiled := (hlisted hm).filed
  generalize (listItems env ctx kind ignoreAlreadyProcessed items w).2 = listed at hlisted hfiled ⊢
  have hstale : ∀ i ∈ (staleItems env kind ns (items.map Item.key) listed).1, P kind i ∧
      i.ns = ns := by
    intro i hi
    obtain ⟨k, cached, hc, rfl, hs, rfl⟩ := exists_of_mem_staleItems hi
    refine ⟨(hfiled k cached hc).1, ?_⟩
    unfold isStale at hs
    simp only [Bool.and_eq_true, Bool.or_eq_true, beq_iff_eq, hall, false_or] at hs
    exact hs.1.2
  obtain ⟨hsilent, hmaps⟩ := staleItems_silent env kind ns (items.map Item.key) listed
  have hp : Preorder (KeepsApart env ctx P ns) := keepsApart_preorder
  exact hp.trans hlisted (hp.trans (Hush.keepsApart ⟨hsilent, hmaps⟩)
    (removeStale_keepsApart hP hstale _)) hm

end Listing

/-! ## Runs of two watchers -/

section Runs

variable {env : Env} {ctx : Ctx} {ignoreAlreadyProcessed : Bool} {w₀ w w' : World}
  {ds : List Delivery} {d : Delivery} {f : Bool}

/-- One delivery to a watcher of a namespace. -/
theorem Takes.keepsApart {P : Kind → Item → Prop} {ns : String} (hP : Census P) (hns : DnsLabel ns)
    (hd : d.From ns) (hi : ∀ item ∈ d.items, P d.kind item)
    (h : Takes env ctx ignoreAlreadyProcessed w d f w') : KeepsApart env ctx P ns w w' := by
  have hp : Preorder (KeepsApart env ctx P ns) := keepsApart_preorder
  obtain ⟨u, hu, -, hend⟩ := h.cases
  refine hp.trans hu.keepsApart (hp.trans ?_ hend.keepsApart)
  cases d with
  | listing kind ns' items =>
    obtain ⟨rfl, hsame⟩ := hd
    exact applyListing_keepsApart hP (fun i h => ⟨hi i h, hsame i h⟩) hns.ne_all _ u
  | event kind ev item =>
    exact applyEvent_keepsApart hP (hi item List.mem_cons_self) hd _ ev u

/-- The resources that were delivered, in any version. -/
def Resources (ds : List Delivery) (kind : Kind) (item : Item) : Prop :=
  item.Accepted kind ∧
    ∃ d ∈ ds, d.kind = kind ∧ ∃ x ∈ d.items, x.ns = item.ns ∧ x.name = item.name

/-- What the cache keeps of a resource has accepted names. -/
theorem Item.Accepted.retained {kind : Kind} {item : Item} (h : item.Accepted kind) :
    (CachedItem.fromItem item).toRemovalItem.Accepted kind where
  ns := h.ns
  name := h.name
  keys e he := by
    have hid := List.mem_map_of_mem (f := Entry.id) he
    rw [ids_toRemovalItem] at hid
    obtain ⟨e', he', hid⟩ := List.mem_map.1 hid
    have hkey : e'.dataKey = e.dataKey := congrArg Prod.snd hid
    exact hkey ▸ h.keys e' he'

theorem resources_census
    (hkeys : ∀ d ∈ ds, ∀ d' ∈ ds, ∀ x ∈ d.items, ∀ y ∈ d'.items, d.kind = d'.kind → x.key = y.key →
      x.ns = y.ns) : Census (Resources ds) where
  retained := fun ⟨haccepted, hx⟩ => ⟨haccepted.retained, hx⟩
  accepted h := h.1
  keys := by
    rintro kind x y ⟨-, d, hd, hdk, x', hx', hns, hname⟩
      ⟨-, d', hd', hdk', y', hy', hns', hname'⟩ hxy
    have hkey : x'.key = y'.key := by
      unfold Item.key at hxy ⊢
      rw [hns, hname, hns', hname', hxy]
    rw [← hns, ← hns', hkeys d hd d' hd' x' hx' y' hy' (hdk.trans hdk'.symm) hkey]

theorem resources_of_mem (hnames : ∀ d ∈ ds, ∀ item ∈ d.items, item.Accepted d.kind) (hd : d ∈ ds)
    {item : Item} (hi : item ∈ d.items) : Resources ds d.kind item :=
  ⟨hnames d hd item hi, d, hd, rfl, item, hi, rfl, rfl⟩

/-- After any deliveries to these watchers the maps hold nothing but their resources. -/
theorem Delivered.filed {P : Kind → Item → Prop} {A B : String} (hP : Census P) (hA : DnsLabel A)
    (hB : DnsLabel B) (hrun : Delivered env ctx ignoreAlreadyProcessed w₀ ds w)
    (hmaps : w₀.maps = .empty) (hfrom : ∀ d ∈ ds, d.From A ∨ d.From B)
    (hi : ∀ d ∈ ds, ∀ item ∈ d.items, P d.kind item) : w.maps.Filed P := by
  induction hrun with
  | start =>
    intro k c hc
    rw [hmaps] at hc
    simp [Maps.empty] at hc
  | @take ds w w' d f _ h ih =>
    have hw := ih (fun d' hd' => hfrom d' (List.mem_cons_of_mem d hd'))
      fun d' hd' => hi d' (List.mem_cons_of_mem d hd')
    have hitems := hi d List.mem_cons_self
    obtain hd | hd := hfrom d List.mem_cons_self
    · exact (h.keepsApart hP hA hd hitems hw).filed
    · exact (h.keepsApart hP hB hd hitems hw).filed
  | hush _ hh ih =>
    rw [hh.maps]
    exact ih hfrom hi

/-- Nothing of a resource is lost: its entries stay, its files stay, and its later calls have the
jobs they would have had. -/
structure Untouched (env : Env) (ctx : Ctx) (kind : Kind) (item : Item) (w w' : World) : Prop where
  version :
    w'.maps.version[((kind, item.key) : MapKey)]? = w.maps.version[((kind, item.key) : MapKey)]?
  object : w'.maps.object[((kind, item.key) : MapKey)]? =
    w.maps.object[((kind, item.key) : MapKey)]?
  dest : w'.maps.dest[((kind, item.key) : MapKey)]? = w.maps.dest[((kind, item.key) : MapKey)]?
  files : ∀ slot : Slot, slot.Accepted → slot.kind = kind → slot.ns = item.ns →
    slot.name = item.name →
    w'.sys.tree.fileAt (slot.place env ctx) = w.sys.tree.fileAt (slot.place env ctx)
  jobs : ∀ c : Call, c.key = (kind, item.key) → c.jobs w' = c.jobs w

/-- **Watchers of two namespaces are isolated**, as long as no key belongs to resources of both:
whatever was delivered to them before, a list pass or an event of the one leaves every resource of
the other untouched. -/
theorem watchers_isolated {A B : String} (hA : DnsLabel A) (hB : DnsLabel B) (hAB : A ≠ B)
    (hu : ctx.uniqueFilenames = true) (hrun : Delivered env ctx ignoreAlreadyProcessed w₀ ds w)
    (hmaps : w₀.maps = .empty) (hstep : Takes env ctx ignoreAlreadyProcessed w d f w')
    (hfrom : ∀ d' ∈ ds, d'.From A ∨ d'.From B) (hd : d.From A)
    (hnames : ∀ d' ∈ d :: ds, ∀ item ∈ d'.items, item.Accepted d'.kind)
    (hkeys : ∀ d₁ ∈ d :: ds, ∀ d₂ ∈ d :: ds, ∀ x ∈ d₁.items, ∀ y ∈ d₂.items, d₁.kind = d₂.kind →
      x.key = y.key → x.ns = y.ns) :
    ∀ d' ∈ ds, ∀ b ∈ d'.items, b.ns = B → Untouched env ctx d'.kind b w w' := by
  intro d' hd' b hb hbB
  have hP := resources_census hkeys
  have hmem : ∀ d' ∈ d :: ds, ∀ item ∈ d'.items, Resources (d :: ds) d'.kind item :=
    fun d' hd' item hi =>
    resources_of_mem hnames hd' hi
  have hfiled := hrun.filed hP hA hB hmaps hfrom fun d' hd' => hmem d' (List.mem_cons_of_mem d hd')
  have happart := hstep.keepsApart hP hA hd (hmem d List.mem_cons_self) hfiled
  have hbP := hmem d' (List.mem_cons_of_mem d hd') b hb
  obtain ⟨hv, ho, hdest⟩ := happart.maps (d'.kind, b.key) fun item hitem hkey hns =>
    hAB (hns.symm.trans ((hP.keys hitem hbP hkey).trans hbB))
  refine ⟨hv, ho, hdest, fun slot hslot _ hns _ => ?_, fun c hc => ?_⟩
  · refine happart.files _ fun slot' hslot' hns' => Slot.place_ne hu hslot' hslot ?_
    rw [hns', hns, hbB]
    exact hAB
  · exact Call.jobs_congr (hc ▸ ho) (hc ▸ hdest)

end Runs

def sampleUnique : Ctx := { sampleCtx with uniqueFilenames := true }

/-- Two ConfigMaps are added one after the other. -/
def sampleNeighbours (b a : Item) : World × World :=
  let w := (handleEvent sampleEnv sampleUnique .configMap none false .added b sampleWorld).2
  (w, (handleEvent sampleEnv sampleUnique .configMap none false .added a w).2)

theorem watchers_isolated_sample :
    let b := sampleItem "b" "c" "1" [("k", "v")]
    let added := sampleNeighbours b (sampleItem "a" "c" "1" [("k", "w")])
    Untouched sampleEnv sampleUnique .configMap b added.1 added.2 := by
  intro b added
  have hrun :
      Delivered sampleEnv sampleUnique false sampleWorld [.event .configMap .added b] added.1 :=
    .take .start .event
  have hstep : Takes sampleEnv sampleUnique false added.1
    (.event .configMap .added (sampleItem "a" "c" "1" [("k", "w")])) _ added.2 := .event
  refine watchers_isolated (by decide : DnsLabel "a") (by decide : DnsLabel "b")
    (by decide) rfl hrun rfl
    hstep (fun d hd => .inr ?_) rfl (fun d hd item hi => ?_) ?_ (.event .configMap .added b)
    List.mem_cons_self b List.mem_cons_self rfl
  · obtain rfl := List.mem_singleton.1 hd
    rfl
  · simp only [List.mem_cons, List.not_mem_nil, or_false] at hd
    obtain rfl | rfl := hd <;> obtain rfl := List.mem_singleton.1 hi <;>
      exact ⟨by decide, by decide, by decide +kernel⟩
  · have hitems : ∀ d ∈ [Delivery.event .configMap .added (sampleItem "a" "c" "1" [("k", "w")]),
        .event .configMap .added b], ∀ x ∈ d.items, x.key = x.ns ++ "c" := by
      simp only [List.forall_mem_cons, Delivery.items]
      decide
    intro d₁ hd₁ d₂ hd₂ x hx y hy _ hkey
    rw [hitems d₁ hd₁ x hx, hitems d₂ hd₂ y hy] at hkey
    exact (String.append_left_inj _).1 hkey

/-- `a/bc` takes over the entry of `ab/c`, whose file goes as a leftover of the old item. -/
theorem namespaces_collide :
    let b := sampleItem "ab" "c" "1" [("k", "v")]
    let a := sampleItem "a" "bc" "1" [("j", "v")]
    let added := sampleNeighbours b a
    let key : MapKey := (.configMap, b.key)
    let file : Path := ["namespace_ab.configmap_c.k", "data"]
    a.ns ≠ b.ns ∧ a.Accepted .configMap ∧ b.Accepted .configMap ∧
      added.1.maps.object[key]?.map CachedItem.ns = some b.ns ∧
      added.2.maps.object[key]?.map CachedItem.ns = some a.ns ∧
      added.1.sys.tree.fileAt file = some "v".toUTF8 ∧ added.2.sys.tree.fileAt file = none := by
  refine ⟨by decide, ⟨by decide, by decide, by decide +kernel⟩,
    ⟨by decide, by decide, by decide +kernel⟩,
    ?_, ?_, ?_, ?_⟩ <;> decide +kernel

end Sidecar
