import Sidecar.Origins
import Sidecar.Polling

/-!
# Upkeep

What the watchers keep up together, in any order of their sections: the files of a resource whose
watcher is at rest are those of its cached data keys, each with the bytes that were last written for
it, and of the data keys that it had before no file is left (`Process.kept_of_run`). A call for the
resource brings this about slot by slot (`processSections_kept`), as long as the others keep to
their own resources; a watcher does so for what is in its scope, and the scopes are disjoint.
-/

namespace Sidecar

open Posix StateM Interleave

/-! ## One data key -/

/-- What was delivered has places of its own. -/
def OwnPlaces (env : Env) (ctx : Ctx) (D : Kind → Item → Prop) : Prop :=
  ∀ slot slot', Wanted D ctx slot → Wanted D ctx slot' →
    slot.place env ctx = slot'.place env ctx → slot = slot'

/-- `P` holds, unless something has failed since `w₀`. -/
structure Smooth (w₀ : World) (P : World → Prop) (w : World) : Prop where
  since : TraceLe w₀.sys w.sys
  holds : w.sys.failures = w₀.sys.failures → P w

/-- The file of the job has the digest of the bytes that were last written for its data key, and
these are its bytes. -/
def Job.Written (env : Env) (ctx : Ctx) (kind : Kind) (j : Job) (w : World) : Prop :=
  ∃ data, Computes env ctx j.dataKey j.content data ∧
    lastProduced (j.id kind) w.sys.produced = some data ∧
    (w.sys.tree.fileAt (j.place env ctx kind)).map env.sha256 = some (env.sha256 data) ∧
    j.Reachable env ctx kind w.sys.tree

/-- There is no file, or the one from `w₀`. -/
def Slot.Cleared (env : Env) (ctx : Ctx) (w₀ : World) (slot : Slot) (w : World) : Prop :=
  w.sys.tree.fileAt (slot.place env ctx) = none ∨
    w.sys.tree.fileAt (slot.place env ctx) = w₀.sys.tree.fileAt (slot.place env ctx)

/-- A removal would find the file, or there is nothing to remove. -/
def Slot.Clearable (env : Env) (ctx : Ctx) (w₀ : World) (slot : Slot) (w : World) : Prop :=
  Walkable env slot.folder (slot.filename ctx) w.sys.tree ∨ slot.Cleared env ctx w₀ w

section DataKey

variable {env : Env} {settings : Settings} {D : Kind → Item → Prop} {B : Area} {φ : World → Prop}
  {w₀ w : World} {kind : Kind} {key : String} {j : Job} {slot : Slot}

/-- A step on which `P` leads to `Q` unless it fails. -/
theorem Smooth.step {P Q : World → Prop} {w' : World} (h : Smooth w₀ P w)
    (hle : TraceLe w.sys w'.sys)
    (hQ : w'.sys.failures = w.sys.failures → P w → Q w') : Smooth w₀ Q w' where
  since := h.since.trans hle
  holds hfail := by
    obtain ⟨hbefore, hstep⟩ := count_squeeze h.since hle hfail
    exact hQ hstep (h.holds hbefore)

theorem Stable.smooth {P : World → Prop} (h : Stable env settings D B P) :
    Stable env settings D B (Smooth w₀ P) := fun w w' hmove hs =>
  hs.step hmove.traceLe fun _ => h w w' hmove

theorem Stable.and {ψ : World → Prop} (h : Stable env settings D B φ)
    (h' : Stable env settings D B ψ) :
    Stable env settings D B fun w => φ w ∧ ψ w :=
  fun w w' hmove hs => ⟨h w w' hmove hs.1, h' w w' hmove hs.2⟩

section Places

variable (hplaces : OwnPlaces env settings.ctx D)
include hplaces

/-- A file outside the area stays. -/
theorem Accounts.file_eq {w' : World} (h : Accounts settings D env B w w')
    (hslot : Wanted D settings.ctx slot)
    (hB : ¬B.slots slot) : w'.sys.tree.fileAt (slot.place env settings.ctx) =
      w.sys.tree.fileAt (slot.place env settings.ctx) := by
  refine h.files _ fun slot' hslot' hB' hplace => ?_
  obtain rfl := hplaces slot' slot hslot' hslot hplace
  exact hB hB'

theorem Job.written_stable (hslot : Wanted D settings.ctx (j.slot kind))
    (hB : ¬B.slots (j.slot kind))
    (hid : ¬B.ids (j.id kind)) : Stable env settings D B (j.Written env settings.ctx kind) := by
  rintro w w' hmove ⟨data, hdata, hlast, hfile, hwalk⟩
  refine ⟨data, hdata, (hmove.produced _ hid).trans hlast, ?_, hwalk.mono hmove.dirs⟩
  rw [Job.place_slot, hmove.file_eq hplaces hslot hB]
  exact hfile

theorem Slot.cleared_stable (hslot : Wanted D settings.ctx slot) (hB : ¬B.slots slot) :
    Stable env settings D B (slot.Cleared env settings.ctx w₀) := by
  intro w w' hmove hs
  unfold Slot.Cleared
  rw [hmove.file_eq hplaces hslot hB]
  exact hs

theorem Slot.clearable_stable (hslot : Wanted D settings.ctx slot) (hB : ¬B.slots slot) :
    Stable env settings D B (slot.Clearable env settings.ctx w₀) := fun w w' hmove hs =>
  hs.imp (fun hwalk => hwalk.mono hmove.dirs) (Slot.cleared_stable hplaces hslot hB w w' hmove)

end Places

/-- A job that has made its assignment has written its file. -/
theorem Job.Done.written {data : ByteArray} {s : Sys} {out : Bool × Sys}
    (h : j.Done env settings.ctx kind data s out)
    (hdata : Computes env settings.ctx j.dataKey j.content data)
    (hr : j.remove = false) (m : Maps) : j.Written env settings.ctx kind ⟨out.2, m⟩ := by
  refine ⟨data, hdata, ?_, ?_, h.walk hr⟩
  · dsimp only
    rw [h.produced, hr, lastProduced_append]
    simp [lastProduced]
  · have hset : Store.Settled env.sha256
        (Store.step env.sha256 s.tree.fileAt (j.assign env settings.ctx kind data)).2
        (j.assign env settings.ctx kind data) := Store.step_settled _
    rw [← h.files, Job.assign_of_write hr] at hset
    exact hset

/-- One that removes has removed it. -/
theorem Job.Done.removed {data : ByteArray} {s : Sys} {out : Bool × Sys}
    (h : j.Done env settings.ctx kind data s out) (hr : j.remove = true) :
    out.2.tree.fileAt (j.place env settings.ctx kind) = none := by
  have hset : Store.Settled env.sha256
      (Store.step env.sha256 s.tree.fileAt (j.assign env settings.ctx kind data)).2
      (j.assign env settings.ctx kind data) := Store.step_settled _
  rw [← h.files, Job.assign_of_remove hr] at hset
  exact Option.map_eq_none_iff.1 hset

/-- What a removal does at its place, whatever fails. -/
theorem Job.finish_clears (hr : j.remove = true) {fetched : Except String (String × ByteArray)}
    (hfetched : Fetched env settings.ctx j fetched) (p : Path) :
    Moves (ClearsFile p) (j.finish env settings.ctx kind fetched) := by
  refine Job.finish_moves (ClearsFile.preorder p)
    (fun s s' hs => (hs.touches fun _ => False).clearsFile not_false) (fun data s => ?_) hfetched
  rw [Job.put_of_remove env settings.ctx kind j hr]
  exact removeFile_clearsFile env _ _ p s

variable (hplaces : OwnPlaces env settings.ctx D) (hj : Told D settings.ctx kind key j)
  (hB : ¬B.slots (j.slot kind)) (hw : Vouched D settings.ctx w.maps)
include hplaces hj hB hw

/-- **A job that writes**. -/
theorem Told.writes (hr : j.remove = false) (hid : ¬B.ids (j.id kind))
    (hsince : TraceLe w₀.sys w.sys) :
    Honest env settings D B .all (fun _ => Smooth w₀ (j.Written env settings.ctx kind))
      (j.sections env settings.ctx kind) w := by
  have hstable : Stable env settings D B (Smooth w₀ (j.Written env settings.ctx kind)) :=
    (Job.written_stable hplaces hj.slot hB hid).smooth
  have hbefore : Stable env settings D B (Smooth w₀ fun _ => True) := Stable.smooth fun _ _ _ h => h
  refine Honest.bind hw (hj.fetch hbefore ⟨hsince, fun _ => trivial⟩)
    fun fetched t _ _ ⟨hfetched, hs⟩ => ?_
  refine Guarantees.atom fun t' htt' ht' => ?_
  have hmove := hj.finish_accounts hfetched t'
  refine ⟨hmove.mono (Area.le_all _), ht', fun u htu _ => hstable _ u htu ?_⟩
  refine (hbefore t t' htt' hs).step hmove.traceLe fun hfail _ => ?_
  obtain ⟨data, hdata, hdone⟩ :=
    Job.finish_done hfetched (fun hr' => absurd hr' (by simp [hr])) hfail
  exact hdone.written hdata hr t'.maps

/-- **A job that removes**. -/
theorem Told.removes (hr : j.remove = true)
    (hs : Smooth w₀ ((j.slot kind).Clearable env settings.ctx w₀) w) :
    Honest env settings D B .all (fun _ => Smooth w₀ ((j.slot kind).Cleared env settings.ctx w₀))
      (j.sections env settings.ctx kind) w := by
  have hstable : Stable env settings D B (Smooth w₀ ((j.slot kind).Cleared env settings.ctx w₀)) :=
    (Slot.cleared_stable hplaces hj.slot hB).smooth
  have hbefore :
      Stable env settings D B (Smooth w₀ ((j.slot kind).Clearable env settings.ctx w₀)) :=
    (Slot.clearable_stable hplaces hj.slot hB).smooth
  refine Honest.bind hw (hj.fetch hbefore hs) fun fetched t _ _ ⟨hfetched, hs⟩ => ?_
  refine Guarantees.atom fun t' htt' ht' => ?_
  have hmove := hj.finish_accounts hfetched t'
  refine ⟨hmove.mono (Area.le_all _), ht', fun u htu _ => hstable _ u htu ?_⟩
  refine (hbefore t t' htt' hs).step hmove.traceLe fun hfail hclearable => ?_
  rcases hclearable with hwalk | hcleared
  · obtain ⟨data, -, hdone⟩ := Job.finish_done hfetched (fun _ _ => hwalk) hfail
    exact .inl (hdone.removed hr)
  · rcases @Job.finish_clears env settings kind j hr fetched hfetched
      (j.place env settings.ctx kind) t'.sys
      with hsame | hgone
    · unfold Slot.Cleared at hcleared ⊢
      rw [← Job.place_slot] at hcleared ⊢
      exact hcleared.imp hsame.trans hsame.trans
    · exact .inl hgone

end DataKey

/-! ## One resource -/

/-- The maps have the data key in this folder. -/
def Maps.Holds (m : Maps) (slot : Slot) : Prop :=
  ∃ c, m.object[slot.key]? = some c ∧ m.dest[slot.key]? = some slot.folder ∧
    ∃ e ∈ c.toRemovalItem.entries slot.kind, e.slot slot.kind c.ns c.name slot.folder = slot

/-- What was delivered has keys of its own. -/
def OwnKeys (D : Kind → Item → Prop) : Prop := ∀ kind item item', D kind item → D kind item' →
  item.key = item'.key → item.ns = item'.ns ∧ item.name = item'.name

/-- Whatever was deleted of the resource had the data key. -/
def DroppedWhole (X : Kind → Item → Prop) (slot : Slot) : Prop :=
  ∀ item, X slot.kind item → item.key = slot.key.2 →
    ∃ e ∈ item.entries slot.kind, e.slot slot.kind item.ns item.name slot.folder = slot

/-- The files of a resource are those of the data keys that are cached, as a delivered item has
them. -/
structure Kept (env : Env) (ctx : Ctx) (D X : Kind → Item → Prop) (w₀ : World) (k : MapKey)
    (w : World) : Prop where
  cached : ∀ c, w.maps.object[k]? = some c → ∃ item, D k.1 item ∧ item.key = k.2 ∧
    c = .fromItem item ∧
    w.maps.dest[k]? = some (destinationFolder ctx item) ∧ ∀ j ∈ itemJobs ctx k.1 item,
    j.Written env ctx k.1 w
  others : ∀ slot, Wanted D ctx slot → slot.key = k → ¬w.maps.Holds slot → DroppedWhole X slot →
    slot.Cleared env ctx w₀ w

/-- The area of all resources but one. -/
abbrev Area.but (k : MapKey) : Area := .of fun k' => k' ≠ k

section Resource

variable {env : Env} {settings : Settings} {D X : Kind → Item → Prop} {A B : Area}
  {φ ψ : World → Prop} {w₀ w : World} {kind : Kind} {k : MapKey} {j : Job} {slot : Slot}

theorem Maps.holds_congr {m m' : Maps} (h : m'.object[slot.key]? = m.object[slot.key]? ∧
    m'.dest[slot.key]? = m.dest[slot.key]?) : m'.Holds slot ↔ m.Holds slot := by
  unfold Maps.Holds
  rw [h.1, h.2]

/-- What the maps hold of an item. -/
theorem Maps.holds_iff {m : Maps} {item : Item} {folder : String}
    (ho : m.object[slot.key]? = some (.fromItem item)) (hd : m.dest[slot.key]? = some folder) :
    m.Holds slot ↔ ∃ e ∈ item.entries slot.kind,
      e.slot slot.kind item.ns item.name folder = slot := by
  have hentries : ∀ {i i' : Item}, (i.entries slot.kind).map Entry.id =
      (i'.entries slot.kind).map Entry.id →
      (∃ e ∈ i.entries slot.kind, e.slot slot.kind item.ns item.name folder = slot) →
      ∃ e ∈ i'.entries slot.kind, e.slot slot.kind item.ns item.name folder = slot := by
    rintro i i' hids ⟨e, he, hslot⟩
    have hmem := List.mem_map_of_mem (f := Entry.id) he
    rw [hids] at hmem
    obtain ⟨e', he', hid⟩ := List.mem_map.1 hmem
    exact ⟨e', he', (slot_congr hid ..).trans hslot⟩
  constructor
  · rintro ⟨c, hc, hfolder, hslot⟩
    rw [ho] at hc
    rw [hd] at hfolder
    cases hc
    cases hfolder
    exact hentries (ids_toRemovalItem slot.kind item) hslot
  · intro hslot
    obtain ⟨e, -, hfolder⟩ := id hslot
    have hfolder : folder = slot.folder := by rw [← hfolder]; rfl
    subst hfolder
    exact ⟨_, ho, hd, hentries (ids_toRemovalItem slot.kind item).symm hslot⟩

/-- What the others do to other resources does not matter. -/
theorem Kept.stable (hplaces : OwnPlaces env settings.ctx D) :
    Stable env settings D (.but k) (Kept env settings.ctx D X w₀ k) := by
  intro w w' hmove hs
  obtain ⟨ho, hd⟩ := hmove.entries k fun h => h rfl
  constructor
  · intro c hc
    rw [ho] at hc
    obtain ⟨item, hitem, hkey, rfl, hdest, hwritten⟩ := hs.cached c hc
    refine ⟨item, hitem, hkey, rfl, hd.trans hdest, fun j hj => ?_⟩
    obtain ⟨e, he, rfl⟩ := List.mem_map.1 hj
    have hown : (k.1, item.key) = k := Prod.ext rfl hkey
    refine Job.written_stable hplaces ?_ ?_ ?_ w w' hmove (hwritten _ hj)
    · exact ⟨k.1, item, item, hitem, hitem, rfl, e, he, rfl⟩
    · exact fun hne => hne hown
    · exact fun hne => hne hown
  · rintro slot hslot rfl hnot hdropped
    rw [Maps.holds_congr ⟨ho, hd⟩] at hnot
    exact Slot.cleared_stable hplaces hslot (fun hne : slot.key ≠ slot.key => hne rfl) w w' hmove
      (hs.others slot hslot rfl hnot hdropped)

/-- A program that stays in an area in which nothing matters. -/
theorem Honest.framed {α : Type} {p : Prog World α} (hφ : Stable env settings D B φ)
    (h : Honest env settings D B B (fun _ _ => True) p w) (hs : φ w) :
    Honest env settings D B .all (fun _ => φ) p w :=
  (Guarantees.frame hφ hφ h hs).mono (fun _ _ h => h) (fun _ _ h => h.mono (Area.le_all _))
    fun _ _ h => h.2

/-- To be beside programs that keep to less. -/
theorem Honest.narrow {α : Type} {p : Prog World α} {Q : α → World → Prop} {B' : Area}
    (hB : B'.Le B) (h : Honest env settings D B A Q p w) : Honest env settings D B' A Q p w :=
  h.mono (fun _ _ hmove => hmove.mono hB) (fun _ _ h => h) fun _ _ h => h

/-- **One slot**: what its job makes of it stays, as the jobs of the other slots do not matter. -/
theorem actionSections_slot {key : String} {as : List Action} (hφ : Stable env settings D B φ)
    (hψ : Stable env settings D B ψ) (htold : ∀ x ∈ jobs as, Told D settings.ctx kind key x)
    (hothers : ∀ x ∈ jobs as, x.slot kind ≠ j.slot kind → (Area.job kind x).Le B)
    (hnodup : ((jobs as).map (Job.slot kind)).Nodup) (hj : j ∈ jobs as)
    (hjob : ∀ t, Vouched D settings.ctx t.maps → φ t →
      Honest env settings D B .all (fun _ => ψ) (j.sections env settings.ctx kind) t)
    (hw : Vouched D settings.ctx w.maps) (hs : φ w) :
    Honest env settings D B .all (fun _ => ψ) (actionSections env settings.ctx kind as) w := by
  induction as generalizing w with
  | nil => cases hj
  | cons a as ih =>
    have htold' : ∀ x ∈ jobs as, Told D settings.ctx kind key x :=
      fun x hx => htold x (mem_jobs_cons hx)
    have hothers' : ∀ x ∈ jobs as, x.slot kind ≠ j.slot kind → (Area.job kind x).Le B := fun x hx =>
      hothers x (mem_jobs_cons hx)
    cases a with
    | log level msg =>
      exact Honest.seq hw (.log hφ hs level msg) fun _ t ht hs =>
        Honest.seq ht (ih htold' hothers' hnodup hj ht hs) fun _ _ _ hs => .answer hψ hs _
    | file x =>
      have hcons : jobs (.file x :: as) = x :: jobs as := rfl
      rw [hcons] at hj hnodup
      rw [List.map_cons, List.nodup_cons] at hnodup
      have hx := htold x List.mem_cons_self
      rcases List.mem_cons.1 hj with rfl | hj
      · refine Honest.seq hw (hjob w hw hs) fun _ t ht hs => ?_
        refine Honest.seq ht
          (Honest.framed hψ (actionSections_honest key (fun y hy => ⟨htold' y hy, ?_⟩) ht) hs)
          fun _ _ _ hs => .answer hψ hs _
        exact hothers' y hy fun e => hnodup.1 (e ▸ List.mem_map_of_mem hy)
      · have hne : x.slot kind ≠ j.slot kind := fun e => hnodup.1 (e ▸ List.mem_map_of_mem hj)
        have hfirst := hothers x List.mem_cons_self hne
        refine Honest.seq hw (Honest.framed hφ (hx.sections hfirst hw) hs) fun _ t ht hs => ?_
        exact Honest.seq ht (ih htold' hothers' hnodup.2 hj ht hs) fun _ _ _ hs => .answer hψ hs _

section Slots

variable (hplaces : OwnPlaces env settings.ctx D) {key : String} {as : List Action}
  (htold : ∀ x ∈ jobs as, Told D settings.ctx kind key x)
    (hnodup : ((jobs as).map (Job.slot kind)).Nodup)
  (hk : slot.key = k) (hw : Vouched D settings.ctx w.maps)
include hplaces htold hnodup hk hw

/-- A slot that is written. -/
theorem actionSections_writes (hj : j ∈ jobs as) (hslot : j.slot kind = slot)
    (hr : j.remove = false)
    (hids : ∀ x ∈ jobs as, x.remove = false → x.id kind = j.id kind → x.slot kind = slot)
    (hsince : TraceLe w₀.sys w.sys) :
    Honest env settings D (.but k) .all (fun _ => Smooth w₀ (j.Written env settings.ctx kind))
      (actionSections env settings.ctx kind as) w := by
  subst hslot
  let B : Area := ⟨fun _ => True, fun slot => slot ≠ j.slot kind, fun id => id ≠ j.id kind⟩
  have hB : (Area.but k).Le B := by
    refine ⟨fun _ _ => trivial, ?_, ?_⟩
    · rintro slot hne rfl
      exact hne hk
    · rintro id hne rfl
      exact hne hk
  have hslot : ¬B.slots (j.slot kind) := fun hne => hne rfl
  have hid : ¬B.ids (j.id kind) := fun hne => hne rfl
  have hstable : Stable env settings D B (Smooth w₀ fun _ => True) := Stable.smooth fun _ _ _ h => h
  refine Honest.narrow hB
    (actionSections_slot hstable (Job.written_stable hplaces (htold j hj).slot hslot hid).smooth
    htold (fun x hx hne => ⟨fun _ => False.elim, ?_, ?_⟩) hnodup hj (fun t ht hs => ?_) hw
    ⟨hsince, fun _ => trivial⟩)
  · rintro slot rfl
    exact hne
  · rintro id ⟨hr, rfl⟩
    exact fun e => hne (hids x hx hr e)
  · exact (htold j hj).writes hplaces hslot ht hr hid hs.since

/-- A slot that is cleared by a job. -/
theorem actionSections_removes (hj : j ∈ jobs as) (hslot : j.slot kind = slot)
    (hr : j.remove = true) (hs : Smooth w₀ (slot.Clearable env settings.ctx w₀) w) :
    Honest env settings D (.but k) .all (fun _ => Smooth w₀ (slot.Cleared env settings.ctx w₀))
      (actionSections env settings.ctx kind as) w := by
  subst hslot
  let B : Area := ⟨fun _ => True, fun slot => slot ≠ j.slot kind, fun _ => True⟩
  have hB : (Area.but k).Le B := by
    refine ⟨fun _ _ => trivial, ?_, fun _ _ => trivial⟩
    rintro slot hne rfl
    exact hne hk
  have hslot : ¬B.slots (j.slot kind) := fun hne => hne rfl
  refine Honest.narrow hB
    (actionSections_slot (Slot.clearable_stable hplaces (htold j hj).slot hslot).smooth
    (Slot.cleared_stable hplaces (htold j hj).slot hslot).smooth htold
    (fun x hx hne => ⟨fun _ => False.elim, ?_, fun _ _ => trivial⟩) hnodup hj
    (fun t ht hs => ?_) hw hs)
  · rintro slot rfl
    exact hne
  · exact (htold j hj).removes hplaces hslot ht hr hs

omit hnodup in
/-- A slot without a job. -/
theorem actionSections_leaves (hslot : Wanted D settings.ctx slot)
    (hnone : ∀ x ∈ jobs as, x.slot kind ≠ slot)
    (hs : Smooth w₀ (slot.Cleared env settings.ctx w₀) w) :
    Honest env settings D (.but k) .all (fun _ => Smooth w₀ (slot.Cleared env settings.ctx w₀))
      (actionSections env settings.ctx kind as) w := by
  let B : Area := ⟨fun _ => True, fun slot' => slot' ≠ slot, fun _ => True⟩
  have hB : (Area.but k).Le B := by
    refine ⟨fun _ _ => trivial, ?_, fun _ _ => trivial⟩
    rintro slot' hne rfl
    exact hne hk
  refine Honest.narrow hB
    (Honest.framed (Slot.cleared_stable hplaces hslot fun hne : slot ≠ slot => hne rfl).smooth
    (actionSections_honest key
      (fun x hx => ⟨htold x hx, fun _ => False.elim, ?_, fun _ _ => trivial⟩) hw) hs)
  rintro slot' rfl
  exact hnone x hx

end Slots

/-! ### A call -/

/-- What a call does after its critical section. -/
def Maps.planned (m : Maps) (kind : Kind) (item : Item) (destFolder : Option String)
    (isRemoved : Bool) : List Action :=
  plan kind item (m.enter kind item destFolder isRemoved).1
    (if isRemoved then (m.enter kind item destFolder isRemoved).1.dest
      else destFolder.getD "") isRemoved

/-- A job that writes is for a data key of the item. -/
theorem mem_jobs_write {item : Item} {old : Old} {dest : String} {isRemoved : Bool}
    (hj : j ∈ jobs (plan kind item old dest isRemoved)) (hr : j.remove = false) :
    isRemoved = false ∧ ∃ e ∈ item.entries kind, j = e.job dest item false := by
  cases isRemoved with
  | true =>
    rw [jobs_plan_removed] at hj
    obtain ⟨e, -, rfl⟩ := List.mem_map.1 hj
    cases hr
  | false =>
    rw [(jobs_plan_perm ..).mem_iff, List.mem_append] at hj
    refine ⟨rfl, ?_⟩
    rcases hj with hj | hj
    · obtain ⟨e, he, rfl⟩ := List.mem_map.1 hj
      exact ⟨e, he, rfl⟩
    · obtain ⟨e, -, rfl⟩ := List.mem_map.1 hj
      cases hr

/-- What is kept can be cleared. -/
theorem Kept.clearable (h : Kept env settings.ctx D X w₀ k w) (hslot : Wanted D settings.ctx slot)
    (hk : slot.key = k) (hdropped : DroppedWhole X slot) :
    slot.Clearable env settings.ctx w₀ w := by
  by_cases hholds : w.maps.Holds slot
  · obtain ⟨c, hc, hfolder, -⟩ := id hholds
    subst hk
    obtain ⟨item, -, -, rfl, hdest, hwritten⟩ := h.cached c hc
    obtain ⟨e, he, hslot⟩ := (Maps.holds_iff hc hdest).1 hholds
    obtain ⟨-, -, -, -, hwalk⟩ := hwritten _ (List.mem_map_of_mem he)
    rw [← hslot]
    exact .inl hwalk
  · exact .inr (h.others slot hslot hk hholds hdropped)

/-- What a call leaves to its jobs: the slots that are to have no file. -/
structure Due (D X : Kind → Item → Prop) (ctx : Ctx) (kind : Kind) (k : MapKey)
    (js : List Job) (m : Maps) (slot : Slot) : Prop where
  wanted : Wanted D ctx slot
  key : slot.key = k
  dropped : DroppedWhole X slot
  unwritten : ∀ j ∈ js, j.slot kind = slot → j.remove = true
  job : (∃ j ∈ js, j.slot kind = slot) ∨ ¬m.Holds slot

/-- The jobs of a call do what is left to them. -/
theorem Due.cleared (hplaces : OwnPlaces env settings.ctx D) {key : String} {as : List Action}
    {t : World} {m : Maps} (htold : ∀ x ∈ jobs as, Told D settings.ctx kind key x)
    (hnodup : ((jobs as).map (Job.slot kind)).Nodup)
    (hdue : Due D X settings.ctx kind k (jobs as) t.maps slot) (hm : Vouched D settings.ctx m)
    (hs : Smooth w₀ (Kept env settings.ctx D X w₀ k) t) :
    Honest env settings D (.but k) .all (fun _ => Smooth w₀ (slot.Cleared env settings.ctx w₀))
      (actionSections env settings.ctx kind as) ⟨t.sys, m⟩ := by
  by_cases hjob : ∃ j ∈ jobs as, j.slot kind = slot
  · obtain ⟨j, hj, hslot⟩ := hjob
    refine actionSections_removes hplaces htold hnodup hdue.key hm hj hslot
      (hdue.unwritten j hj hslot) ⟨hs.since, ?_⟩
    exact fun hfail => (hs.holds hfail).clearable hdue.wanted hdue.key hdue.dropped
  · refine actionSections_leaves hplaces htold hdue.key hm hdue.wanted
      (fun x hx e => hjob ⟨x, hx, e⟩) ⟨hs.since, ?_⟩
    exact fun hfail =>
      (hs.holds hfail).others slot hdue.wanted hdue.key (hdue.job.resolve_left hjob) hdue.dropped

/-- The maps keep the entries that the call has made. -/
theorem actionSections_entries {key : String} {as : List Action}
    (htold : ∀ x ∈ jobs as, Told D settings.ctx kind key x) (hw : Vouched D settings.ctx w.maps)
    (hsince : TraceLe w₀.sys w.sys) : Honest env settings D (.but k) .all
      (fun _ u => TraceLe w₀.sys u.sys ∧ u.maps.object[k]? = w.maps.object[k]? ∧
        u.maps.dest[k]? = w.maps.dest[k]?)
      (actionSections env settings.ctx kind as) w := by
  let B : Area := ⟨fun k' => k' ≠ k, fun _ => True, fun _ => True⟩
  have hstable : Stable env settings D B fun u => TraceLe w₀.sys u.sys ∧
      u.maps.object[k]? = w.maps.object[k]? ∧
      u.maps.dest[k]? = w.maps.dest[k]? := by
    rintro u u' hmove ⟨hle, ho, hd⟩
    obtain ⟨ho', hd'⟩ := hmove.entries k fun hne => hne rfl
    exact ⟨hle.trans hmove.traceLe, ho'.trans ho, hd'.trans hd⟩
  refine Honest.narrow (B := B) ⟨fun _ h => h, fun _ _ => trivial, fun _ _ => trivial⟩
    (Honest.framed hstable
    (actionSections_honest key (fun x hx => ⟨htold x hx, fun _ => False.elim, ?_, ?_⟩) hw)
    ⟨hsince, rfl, rfl⟩)
  · exact fun _ _ => trivial
  · exact fun _ _ => trivial

/-- An update has the maps hold the entries of the item. -/
theorem Maps.enter_holds {m : Maps} {item : Item} {destFolder : Option String} {e : Entry}
    (he : e ∈ item.entries kind)
    (hslot : e.slot kind item.ns item.name (destFolder.getD "") = slot) :
    (m.enter kind item destFolder false).2.Holds slot := by
  have hk : ((kind, item.key) : MapKey) = slot.key := by
    rw [← hslot]
    rfl
  obtain rfl : slot.kind = kind := (congrArg Prod.fst hk).symm
  refine (Maps.holds_iff ?_ ?_).2 ⟨e, he, hslot⟩
  · rw [Maps.enter_object, if_pos hk]
    rfl
  · rw [Maps.enter_dest, if_pos ⟨rfl, hk⟩]

/-- **What a call is due to clear**: of the slots that it does not keep, those that were held have a
job. -/
theorem Due.of_call {item : Item} {destFolder : Option String} {isRemoved : Bool} {m : Maps}
    (hkeys : OwnKeys D)
    (hask : Asked D settings.ctx kind m item destFolder isRemoved) (hm : Vouched D settings.ctx m)
    (hwanted : Wanted D settings.ctx slot) (hk : slot.key = (kind, item.key))
    (hdropped : DroppedWhole X slot) (hdrop : isRemoved = true → m.Holds slot →
      ∃ e ∈ item.entries kind, e.slot kind item.ns item.name slot.folder = slot)
    (hnot : ¬(m.enter kind item destFolder isRemoved).2.Holds slot) :
    Due D X settings.ctx kind (kind, item.key)
      (jobs (m.planned kind item destFolder isRemoved)) m slot where
  wanted := hwanted
  key := hk
  dropped := hdropped
  unwritten j hj hslot := by
    by_contra hr
    obtain ⟨rfl, e, he, rfl⟩ := mem_jobs_write hj (Bool.not_eq_true _ ▸ hr)
    exact hnot (Maps.enter_holds he hslot)
  job := by
    by_cases hheld : m.Holds slot
    · refine .inl ?_
      obtain ⟨c, hc, hfolder, e, he, hslot⟩ := id hheld
      rw [hk] at hc hfolder
      have hdest : (m.enter kind item destFolder isRemoved).1.dest = slot.folder := by
        rw [Maps.enter_old, hfolder]
        rfl
      cases isRemoved with
      | true =>
        obtain ⟨e, he, hslot⟩ := hdrop rfl hheld
        unfold Maps.planned
        rw [if_pos rfl, jobs_plan_removed, hdest]
        exact ⟨_, List.mem_map_of_mem he, hslot⟩
      | false =>
        obtain rfl : slot.kind = kind := congrArg Prod.fst hk
        obtain ⟨former, hformer, hkey, rfl⟩ := hm.object _ c hc
        cases hask with
        | given _ hitem =>
          obtain ⟨hns, hname⟩ := hkeys _ former item hformer hitem hkey
          have hold :
              (m.enter slot.kind item (some (destinationFolder settings.ctx item)) false).1.item =
                (CachedItem.fromItem former).toRemovalItem := by
            rw [Maps.enter_old, Maps.oldItem, hc]
            rfl
          by_cases hleft :
            isLeftover (m.enter slot.kind item (some (destinationFolder settings.ctx item)) false).1
              slot.kind item (destinationFolder settings.ctx item) e = true
          · refine ⟨e.job slot.folder (CachedItem.fromItem former).toRemovalItem true, ?_, hslot⟩
            unfold Maps.planned
            rw [if_neg Bool.false_ne_true, Option.getD_some, (jobs_plan_perm ..).mem_iff,
              List.mem_append, hold, hdest]
            refine .inr (List.mem_map_of_mem (List.mem_filter.2 ⟨?_, hleft⟩))
            rw [hold]
            exact he
          · -- the entry is still there, in the same folder: the maps would hold the slot
            refine absurd ?_ hnot
            simp only [isLeftover, decide_eq_true_eq, not_forall, not_not] at hleft
            obtain ⟨hsame, hmem⟩ := hleft
            obtain ⟨e', he', hid⟩ := List.mem_map.1 hmem
            refine Maps.enter_holds he' ?_
            rw [slot_congr hid, Option.getD_some, ← hsame, hdest, ← hns, ← hname]
            exact hslot
    · exact .inr hheld

/-- The jobs of a call keep what its critical section has put into the maps. -/
theorem plannedSections_kept {item : Item} {destFolder : Option String} {isRemoved : Bool}
    (hplaces : OwnPlaces env settings.ctx D) (hkeys : OwnKeys D)
    (hask : Asked D settings.ctx kind w.maps item destFolder isRemoved)
    (hw : Vouched D settings.ctx w.maps)
    (hdrop : ∀ slot, isRemoved = true → slot.key = (kind, item.key) → DroppedWhole X slot →
      w.maps.Holds slot →
      ∃ e ∈ item.entries kind, e.slot kind item.ns item.name slot.folder = slot)
    (hs : Smooth w₀ (Kept env settings.ctx D X w₀ (kind, item.key)) w) {m : Maps} {as : List Action}
    (hm : (w.maps.enter kind item destFolder isRemoved).2 = m)
    (has : w.maps.planned kind item destFolder isRemoved = as) :
    Honest env settings D (.but (kind, item.key)) .all
      (fun _ => Smooth w₀ (Kept env settings.ctx D X w₀ (kind, item.key)))
      (actionSections env settings.ctx kind as) ⟨w.sys, m⟩ := by
  have hknown : Vouched D settings.ctx m := hm ▸ hask.vouched hw
  have htold : ∀ j ∈ jobs as, Told D settings.ctx kind item.key j := by
    intro j hj
    rw [← has] at hj
    exact hask.jobs_told hw hj
  have hnodup : ((jobs as).map (Job.slot kind)).Nodup := has ▸ slots_plan_nodup ..
  have hentries :=
    @actionSections_entries env settings D w₀ ⟨w.sys, m⟩ kind (kind, item.key) _ _ htold hknown
      hs.since
  have hwrites : ∀ j : {j // j ∈ jobs as ∧ j.remove = false},
      Honest env settings D (.but (kind, item.key)) .all
        (fun _ => Smooth w₀ (j.1.Written env settings.ctx kind))
        (actionSections env settings.ctx kind as)
        ⟨w.sys, m⟩ := by
    rintro ⟨j, hj, hr⟩
    have hk : (j.slot kind).key = (kind, item.key) := congrArg (Prod.mk kind) (htold j hj).key
    refine actionSections_writes hplaces htold hnodup hk hknown hj rfl hr
      (fun x hx hxr hid => ?_) hs.since
    subst has
    obtain ⟨rfl, e, -, rfl⟩ := mem_jobs_write hj hr
    obtain ⟨-, e', -, rfl⟩ := mem_jobs_write hx hxr
    exact slot_congr (Prod.ext (congrArg DataId.contentType hid) (congrArg DataId.dataKey hid)) ..
  have hclears :
      ∀ slot : {slot // Due D X settings.ctx kind (kind, item.key) (jobs as) w.maps slot},
      Honest env settings D (.but (kind, item.key)) .all
        (fun _ => Smooth w₀ (slot.1.Cleared env settings.ctx w₀))
        (actionSections env settings.ctx kind as)
        ⟨w.sys, m⟩ := fun ⟨_, hdue⟩ => hdue.cleared hplaces htold hnodup hknown hs
  -- in the end each file is as it should be, and the entries are still there
  refine ((hentries.all hwrites).all hclears).mono (fun _ _ h => h) (fun _ _ h => h) ?_
  rintro - u ⟨⟨⟨hsince, ho, hd⟩, hwritten⟩, hcleared⟩
  subst hm has
  refine ⟨hsince, fun hfail => ⟨fun c hc => ?_, fun slot hslot hk hnot hdropped => ?_⟩⟩
  · rw [ho] at hc
    change (w.maps.enter kind item destFolder isRemoved).2.object[((kind, item.key) : MapKey)]? =
      some c at hc
    rw [Maps.enter_object, if_pos rfl] at hc
    cases isRemoved with
    | true => cases hc
    | false =>
      cases hc
      cases hask with
      | given _ hitem =>
        refine ⟨item, hitem, rfl, rfl, ?_, fun j hj => ?_⟩
        · rw [hd]
          exact (Maps.enter_dest ..).trans (if_pos ⟨rfl, rfl⟩)
        · have hmem :
            j ∈ jobs (w.maps.planned kind item
              (some (destinationFolder settings.ctx item)) false) :=
            (jobs_plan_perm ..).mem_iff.2 (List.mem_append_left _ hj)
          refine (hwritten ⟨j, hmem, ?_⟩).holds hfail
          obtain ⟨e, -, rfl⟩ := List.mem_map.1 hj
          rfl
  · refine (hcleared
      ⟨slot, Due.of_call hkeys hask hw hslot hk hdropped
      (fun hr => hdrop slot hr hk hdropped) ?_⟩).holds
      hfail
    have hheld : u.maps.Holds slot ↔
        (w.maps.enter kind item destFolder isRemoved).2.Holds slot := by
      refine Maps.holds_congr ?_
      rw [hk]
      exact ⟨ho, hd⟩
    exact fun h => hnot (hheld.2 h)

/-- **A call for a resource** keeps its files: it writes those of its data keys and clears the
others, each in a job of its own. -/
theorem processSections_kept {item : Item} {destFolder : Option String} {isRemoved : Bool}
    (hplaces : OwnPlaces env settings.ctx D) (hkeys : OwnKeys D)
    (hask : Asked D settings.ctx kind w.maps item destFolder isRemoved)
    (hdrop : ∀ slot, isRemoved = true → slot.key = (kind, item.key) → DroppedWhole X slot →
      w.maps.Holds slot →
      ∃ e ∈ item.entries kind, e.slot kind item.ns item.name slot.folder = slot)
    (hs : Smooth w₀ (Kept env settings.ctx D X w₀ (kind, item.key)) w) :
    Honest env settings D (.but (kind, item.key)) .all
      (fun _ => Smooth w₀ (Kept env settings.ctx D X w₀ (kind, item.key)))
      (processSections env settings.ctx kind item destFolder isRemoved) w := by
  intro t hwt ht
  have hask := hask.later hwt
  refine ⟨.enter trivial t, hask.vouched ht, plannedSections_kept hplaces hkeys hask ht
    (fun slot hr hk hdropped hheld =>
    hdrop slot hr hk hdropped ((Maps.holds_congr ?_).1 hheld))
      ((Kept.stable hplaces).smooth w t hwt hs) rfl rfl⟩
  rw [hk]
  exact hwt.entries _ fun h => h rfl

/-! ### A stale cleanup -/

theorem Vouched.wf {m : Maps} (h : Vouched D settings.ctx m) : m.WF where
  key key c hc := by
    obtain ⟨item, -, hkey, rfl⟩ := h.object key c hc
    exact hkey.symm
  dest := h.recorded

/-- What the scan has found of the resource is what the maps have of it. -/
def Current (kind : Kind) (k : MapKey) (items : List Item) (m : Maps) : Prop :=
  ∀ c, m.object[k]? = some c → ∀ i ∈ items, (kind, i.key) = k → c.toRemovalItem = i

/-- The files are kept, and what is still to be removed is up to date. -/
def KeptCurrent (env : Env) (ctx : Ctx) (D X : Kind → Item → Prop) (w₀ : World)
    (kind : Kind) (k : MapKey) (items : List Item) (w : World) : Prop :=
  Smooth w₀ (Kept env ctx D X w₀ k) w ∧ Current kind k items w.maps

theorem keptCurrent_stable (hplaces : OwnPlaces env settings.ctx D) (items : List Item) :
    Stable env settings D (.but k) (KeptCurrent env settings.ctx D X w₀ kind k items) := by
  refine Stable.and (Kept.stable hplaces).smooth fun w w' hmove hcurrent => ?_
  unfold Current
  rw [(hmove.entries k fun h => h rfl).1]
  exact hcurrent

theorem removeStaleSections_kept (hplaces : OwnPlaces env settings.ctx D) (hkeys : OwnKeys D)
    {items : List Item}
    (hstale : ∀ i ∈ items, Stale D kind w.maps i) (hnodup : (items.map Item.key).Nodup)
    (hw : Vouched D settings.ctx w.maps) (hs : KeptCurrent env settings.ctx D X w₀ kind k items w) :
    Honest env settings D (.but k) .all (fun _ => Smooth w₀ (Kept env settings.ctx D X w₀ k))
      (removeStaleSections env settings.ctx kind items) w := by
  have hkept : Stable env settings D (.but k) (Smooth w₀ (Kept env settings.ctx D X w₀ k)) :=
    (Kept.stable hplaces).smooth
  induction items generalizing w with
  | nil => exact .answer hkept hs.1 false
  | cons i items ih =>
    obtain ⟨hi, hnodup⟩ := List.nodup_cons.1 (List.map_cons ▸ hnodup)
    refine Honest.bind hw (.log (keptCurrent_stable hplaces _) hs _ _) fun _ t hwt ht hs => ?_
    have hrest : ∀ {u}, Accounts settings D env .all t u → ∀ i ∈ items, Stale D kind u.maps i :=
      fun htu i hi =>
      ((hstale i (List.mem_cons_of_mem _ hi)).later hwt).later htu
    have hasked : Asked D settings.ctx kind t.maps i none true :=
      ((hstale i List.mem_cons_self).later hwt).asked
    by_cases hk : (kind, i.key) = k
    · subst hk
      refine Honest.bind ht (processSections_kept hplaces hkeys hasked ?_ hs.1)
        fun _ u htu hu hkeep => ?_
      · rintro slot - hslot - ⟨c, hc, -, e, he, hheld⟩
        obtain rfl : slot.kind = kind := congrArg Prod.fst hslot
        rw [hslot] at hc
        obtain rfl := hs.2 c hc i List.mem_cons_self rfl
        exact ⟨e, he, hheld⟩
      · refine Honest.seq hu (ih (hrest htu) hnodup hu ⟨hkeep, fun c _ j hj hjk => ?_⟩)
          fun _ _ _ hs =>
          .answer hkept hs _
        have hsame : j.key = i.key := congrArg Prod.snd hjk
        exact absurd (hsame ▸ List.mem_map_of_mem hj) hi
    · refine Honest.bind ht
        (Honest.framed (keptCurrent_stable hplaces _) (processSections_honest hasked hk) hs)
        fun _ u htu hu hs => ?_
      exact Honest.seq hu
        (ih (hrest htu) hnodup hu ⟨hs.1, fun c hc j hj => hs.2 c hc j (List.mem_cons_of_mem _ hj)⟩)
        fun _ _ _ hs => .answer hkept hs _

/-- **The watcher that a resource is in the scope of** keeps its files. -/
theorem conduct_of_owner (hplaces : OwnPlaces env settings.ctx D) (hkeys : OwnKeys D)
    (ns : String) :
    Conduct env settings D (.but k) .all (Smooth w₀ (Kept env settings.ctx D X w₀ k)) kind ns
      fun isRemoved item => D kind item ∧ (isRemoved = true → X kind item) where
  stable := (Kept.stable hplaces).smooth
  call {item isRemoved w} hitem hw hs := by
    have hasked :
        Asked D settings.ctx kind w.maps item
          (some (destinationFolder settings.ctx item)) isRemoved :=
      .given isRemoved hitem.1
    by_cases hk : (kind, item.key) = k
    · subst hk
      refine processSections_kept hplaces hkeys hasked ?_ hs
      rintro slot hr hslot hdropped -
      obtain rfl : slot.kind = kind := congrArg Prod.fst hslot
      exact hdropped item (hitem.2 hr) (congrArg Prod.snd hslot).symm
    · exact Honest.framed (Kept.stable hplaces).smooth (processSections_honest hasked hk) hs
  cleanup existKeys w hw hs := by
    refine Honest.bind (Q :=
      fun items t => ((items.map Item.key).Nodup ∧ ∀ i ∈ items, Stale D kind t.maps i) ∧
      KeptCurrent env settings.ctx D X w₀ kind k items t) hw ?_ fun items t _ ht hitems =>
        removeStaleSections_kept hplaces hkeys hitems.1.2 hitems.1.1 ht hitems.2
    refine Guarantees.atom fun t hwt ht => ⟨.scan ns existKeys t, ht, fun u htu _ => ?_⟩
    refine ⟨⟨staleItems_keys_nodup env kind ns existKeys ht.wf, fun i hi => ?_⟩,
      keptCurrent_stable hplaces _ _ u htu ?_⟩
    · have hlater : Stale D kind (staleItems env kind ns existKeys t).2.maps i := (ht.stale hi).1
      exact hlater.later htu
    · refine ⟨(Kept.stable hplaces).smooth t _ (.scan ns existKeys t)
        ((Kept.stable hplaces).smooth w t hwt hs), ?_⟩
      rintro c hc i hi rfl
      obtain ⟨cached, hcached, -, rfl⟩ := mem_staleItems ht.wf hi
      change t.maps.object[((kind, cached.toRemovalItem.key) : MapKey)]? = some c at hc
      rw [hcached] at hc
      cases hc
      rfl

end Resource

/-! ## Lives -/

/-- No two watchers for one kind have a namespace in common. -/
def Settings.Apart (settings : Settings) : Prop :=
  settings.watched.Pairwise fun target target' =>
    target.1 = target'.1 → target.2 ≠ "ALL" ∧ target'.2 ≠ "ALL" ∧ target.2 ≠ target'.2

namespace Process

/-- A watcher for the namespace, or for all. -/
def InCharge (target : Kind × String) (kind : Kind) (ns : String) : Prop :=
  target.1 = kind ∧ (target.2 = "ALL" ∨ ns = target.2)

instance (target : Kind × String) (kind : Kind) (ns : String) :
    Decidable (InCharge target kind ns) := inferInstanceAs (Decidable (_ ∧ _))

/-- The server answers a watcher with what it has asked for. -/
def Scoped : Process → Label → Prop := Hands fun target _ item => InCharge target target.1 item.ns

/-- In this step the item is that of a `DELETED` event. -/
def Label.Drops (l : Label) (kind : Kind) (item : Item) : Prop :=
  match l with
  | .round _ input => ∃ o, (input kind).Drops o ∧ item = Item.fromObject kind o
  | _ => False

def drops (ls : List Label) (kind : Kind) (item : Item) : Prop := ∃ l ∈ ls, l.Drops kind item

/-- Nothing is being done for the namespace. -/
def AtRest (p : Process) (kind : Kind) (ns : String) : Prop :=
  match p.phase with
  | .syncing _ _ => True
  | .watching _ watchers _ => ∀ t ∈ watchers, InCharge t.target kind ns → t.Resting
  | .exited _ => False
  | .aborted => False

instance (kind : Kind) (ns : String) : (p : Process) → Decidable (p.AtRest kind ns)
  | ⟨_, .syncing _ _⟩ => .isTrue trivial
  | ⟨_, .watching _ watchers _⟩ => inferInstanceAs (Decidable (∀ t ∈ watchers, _ → t.Resting))
  | ⟨_, .exited _⟩ => .isFalse id
  | ⟨_, .aborted⟩ => .isFalse id

section Lives

variable {env : Env} {settings : Settings} {D X : Kind → Item → Prop} {w₀ : World}
  {kind : Kind} {item : Item}

/-- **Each watcher has its own resources**. -/
theorem pool_of_apart (hapart : settings.Apart) (hplaces : OwnPlaces env settings.ctx D)
    (hkeys : OwnKeys D) (hitem : D kind item) : Pool env settings D (.but (kind, item.key))
      (Smooth w₀ (Kept env settings.ctx D X w₀ (kind, item.key)))
      (fun target => InCharge target kind item.ns)
      fun target isRemoved i => D target.1 i ∧ (isRemoved = true → X target.1 i) ∧
      InCharge target target.1 i.ns where
  stable := (Kept.stable hplaces).smooth
  own target _ _ := (conduct_of_owner hplaces hkeys target.2).mono fun _ _ hi => ⟨hi.1, hi.2.1⟩
  other target _ hother := by
    have hne : ∀ i, D target.1 i → target.2 = "ALL" ∨ i.ns = target.2 →
        (target.1, i.key) ≠ (kind, item.key) := by
      rintro i hi hns hk
      obtain ⟨rfl, hkey⟩ := Prod.mk.inj hk
      obtain ⟨hsame, -⟩ := hkeys _ i item hi hitem hkey
      exact hother ⟨rfl, hsame ▸ hns⟩
    exact (conduct_of_scope .all target.2 hne).mono fun _ i hi => ⟨hi.1, hne i hi.1 hi.2.2.2⟩
  alone := hapart.imp fun {target target'} h howners => by
    obtain ⟨⟨hkind, hns⟩, hkind', hns'⟩ := howners
    obtain ⟨hall, hall', hne⟩ := h (hkind.trans hkind'.symm)
    exact hne ((hns.resolve_left hall).symm.trans (hns'.resolve_left hall'))

/-- What a step hands over was delivered, in the scope of its watcher. -/
theorem Scoped.hands {p : Process} {l : Label} (h : Scoped p l)
    (hD : ∀ kind item, l.Delivers kind item → D kind item)
    (hX : ∀ kind item, l.Drops kind item → X kind item) :
    Hands (fun target isRemoved i => D target.1 i ∧ (isRemoved = true → X target.1 i) ∧
      InCharge target target.1 i.ns)
        p l := by
  have hdelivers := hands_of_delivers hD p
  unfold Scoped Hands at h
  unfold Hands at hdelivers ⊢
  split
  · next hphase =>
    rw [hphase] at h hdelivers
    exact fun o ho => ⟨hdelivers o ho, fun hr => absurd hr Bool.false_ne_true, h o ho⟩
  · next hphase =>
    rw [hphase] at h hdelivers
    refine fun t ht => ⟨fun o ho => ?_, fun o ho => ?_⟩
    · exact ⟨(hdelivers t ht).1 o ho, fun hr => absurd hr Bool.false_ne_true, (h t ht).1 o ho⟩
    · exact ⟨(hdelivers t ht).2 o ho, fun _ => hX _ _ ⟨o, ho, rfl⟩, (h t ht).2 o ho⟩
  · trivial

/-- **A life keeps the files of a resource** whose watcher is at rest. -/
theorem kept_of_run {start : Start} {w : World} {ls : List Label} {p : Process}
    (hmaps : w.maps = .empty) (hread : (readSettings start w.sys).1 = .ok settings)
    (hrun : Machine.Run ((machine env).guard Scoped) (boot start w) ls p) (hapart : settings.Apart)
    (hplaces : OwnPlaces env settings.ctx (deliveries ls)) (hkeys : OwnKeys (deliveries ls))
    (hitem : deliveries ls kind item) (hrest : p.AtRest kind item.ns)
    (hfail : p.world.sys.failures = w.sys.failures) :
    Kept env settings.ctx (deliveries ls) (drops ls) w (kind, item.key) p.world := by
  have hguarded :
      Machine.Run ((machine env).guard (Hands fun target isRemoved i => deliveries ls target.1 i ∧
      (isRemoved = true → drops ls target.1 i) ∧ InCharge target target.1 i.ns))
        (boot start w) ls p :=
    hrun.mono fun _ l hl _ hstep =>
      ⟨hstep.1, hstep.2.hands (fun _ _ hdel => ⟨l, hl, hdel⟩) fun _ _ hdrop => ⟨l, hl, hdrop⟩⟩
  have hstart :
      Smooth w (Kept env settings.ctx (deliveries ls) (drops ls) w (kind, item.key)) w := by
    refine ⟨List.prefix_rfl, fun _ => ⟨fun c hc => ?_, fun _ _ _ _ _ => .inr rfl⟩⟩
    rw [hmaps] at hc
    simp [Maps.empty] at hc
  have htraced := run_traced (pool_of_apart hapart hplaces hkeys hitem) hmaps hread hstart hguarded
  have hkept :
      Smooth w (Kept env settings.ctx (deliveries ls) (drops ls) w (kind, item.key)) p.world := by
    unfold AtRest at hrest
    split at hrest
    · next hphase => exact (htraced.syncing _ _ hphase).2.2
    · next hphase => exact (htraced.watching _ _ _ hphase).2.atRest hrest
    · exact hrest.elim
    · exact hrest.elim
  exact hkept.holds hfail

/-- The server keeps to what it was asked for, if it delivers nothing else. -/
theorem scoped_of_deliveries {start : Start} {w : World} {ls : List Label} {p : Process}
    (hmaps : w.maps = .empty) (hread : (readSettings start w.sys).1 = .ok settings)
    (hrun : Machine.Run (machine env) (boot start w) ls p)
    (hscope : ∀ target ∈ settings.watched, ∀ item, deliveries ls target.1 item →
      InCharge target target.1 item.ns) :
    Machine.Run ((machine env).guard Scoped) (boot start w) ls p := by
  induction hrun with
  | start => exact .start
  | @step ls p q l hrun hstep ih =>
    have hbefore : ∀ kind item, deliveries ls kind item → deliveries (l :: ls) kind item :=
      fun _ _ ⟨l', hl', hdel⟩ => ⟨l', List.mem_cons_of_mem l hl', hdel⟩
    have hlast : ∀ kind item, l.Delivers kind item → deliveries (l :: ls) kind item :=
      fun _ _ hdel => ⟨l, List.mem_cons_self, hdel⟩
    refine (ih fun target ht item hitem =>
      hscope target ht item (hbefore _ _ hitem)).step ⟨hstep, ?_⟩
    have hguarded : Machine.Run ((machine env).guard
        (Hands fun target _ item => deliveries ls target.1 item)) (boot start w) ls p :=
      hrun.mono fun s l hl _ hstep =>
        ⟨hstep, hands_of_delivers (fun kind item hdel => ⟨l, hl, hdel⟩) s⟩
    have htraced := run_traced (pool_of_deliveries env settings (deliveries ls)) hmaps hread trivial
      hguarded
    have hhands := hands_of_delivers hlast p
    unfold Scoped Hands
    unfold Hands at hhands
    split
    · next hphase =>
      rw [hphase] at hhands
      have hwatched := (htraced.syncing _ _ hphase).2.1 _ List.mem_cons_self
      exact fun o ho => hscope _ hwatched _ (hhands o ho)
    · next hphase =>
      rw [hphase] at hhands
      intro t ht
      have hwatched := (htraced.watching _ _ _ hphase).2.mem_watched (List.mem_of_getElem? ht)
      exact ⟨fun o ho => hscope _ hwatched _ ((hhands t ht).1 o ho),
        fun o ho => hscope _ hwatched _ ((hhands t ht).2 o ho)⟩
    · trivial

end Lives

/-! ## A life on the small environment -/

/-- The versions of a ConfigMap: a data key is renamed. -/
def sampleVersions : List ConfigMap :=
  [sampleConfigMap "ns" "a" "1" [("k", "v")], sampleConfigMap "ns" "a" "2" [("j", "w")]]

/-- The first version is listed, the second one comes as an event that is dealt with to its end. -/
def sampleRenamed : List Label :=
  List.replicate 13 (.section 0) ++
    [.round 0 fun
      | .configMap => ⟨⟨[], []⟩, .ok (sampleVersions.tail.map fun cm => .ok (.modified, cm))⟩
      | .secret => ⟨⟨[], []⟩, .error (.api 404 "Not Found")⟩,
    .serve, samplePass (sampleVersions.take 1)]

theorem sampleRenamed_deliveries {kind : Kind} {item : Item}
    (h : deliveries sampleRenamed kind item) :
    kind = .configMap ∧ item ∈ sampleVersions.map Item.fromCm := by
  obtain ⟨l, hl, hdel⟩ := h
  rcases List.mem_append.1 hl with hl | hl
  · rw [(List.mem_replicate.1 hl).2] at hdel
    exact hdel.elim
  simp only [List.mem_cons, List.not_mem_nil, or_false] at hl
  rcases hl with rfl | rfl | rfl
  · obtain ⟨o, hsent, rfl⟩ := hdel
    cases kind with
    | configMap =>
      refine ⟨rfl, List.mem_map_of_mem (List.mem_of_mem_tail ?_)⟩
      rcases hsent with ⟨⟨hpage, -⟩ | hread⟩ | ⟨hevents, hmem⟩
      · cases hpage
      · cases hread
      · cases hevents
        obtain ⟨cm, hcm, heq⟩ := List.mem_map.1 hmem
        cases heq
        exact hcm
    | secret =>
      rcases hsent with ⟨⟨hpage, -⟩ | hread⟩ | ⟨hevents, -⟩
      · cases hpage
      · cases hread
      · cases hevents
  · exact hdel.elim
  · obtain ⟨o, hsent, rfl⟩ := hdel
    cases kind with
    | configMap =>
      refine ⟨rfl, List.mem_map_of_mem (List.mem_of_mem_take (i := 1) ?_)⟩
      rcases hsent with ⟨hpage, ho⟩ | hread
      · cases List.mem_singleton.1 hpage
        exact ho
      · cases hread
    | secret =>
      rcases hsent with ⟨hpage, -⟩ | hread
      · cases hpage
      · cases hread

/-- The data keys of both versions, which go to files of their own. -/
theorem sampleRenamed_wanted {settings : Settings} {slot : Slot}
    (hfolder : ∀ item ∈ sampleVersions.map Item.fromCm,
      destinationFolder settings.ctx item = "/data")
    (h : Wanted (deliveries sampleRenamed) settings.ctx slot) :
    slot ∈ (sampleVersions.map Item.fromCm).flatMap fun item =>
      (item.entries .configMap).map fun e => e.slot .configMap "ns" "a" "/data" := by
  obtain ⟨kind, item, other, hitem, hother, -, e, he, rfl⟩ := h
  obtain ⟨rfl, hversion⟩ := sampleRenamed_deliveries hitem
  have hname : ∀ i ∈ sampleVersions.map Item.fromCm, i.ns = "ns" ∧ i.name = "a" := by decide +kernel
  rw [hfolder other (sampleRenamed_deliveries hother).2, (hname item hversion).1,
    (hname item hversion).2]
  exact List.mem_flatMap_of_mem hversion (List.mem_map_of_mem he)

/-- At the end the file of the first version is gone, and that of the second one is kept. -/
theorem kept_of_run_sample : ∃ settings, (readSettings sampleStart sampleWorld.sys).1 =
    .ok settings ∧
    Kept sampleEnv settings.ctx (deliveries sampleRenamed) (drops sampleRenamed) sampleWorld
      (.configMap, "nsa") (sampleLife sampleRenamed).world := by
  obtain ⟨settings, hread, hwatched, hfolder, hdistinct⟩ : ∃ settings,
      (readSettings sampleStart sampleWorld.sys).1 = .ok settings ∧
      settings.watched = [(.configMap, "ns")] ∧
      (∀ item ∈ sampleVersions.map Item.fromCm, destinationFolder settings.ctx item = "/data") ∧
      (((sampleVersions.map Item.fromCm).flatMap fun item => (item.entries .configMap).map fun e =>
        e.slot .configMap "ns" "a" "/data").map (Slot.place sampleEnv settings.ctx)).Nodup :=
    ⟨_, rfl, rfl, by decide +kernel, by decide +kernel⟩
  have hname : ∀ i ∈ sampleVersions.map Item.fromCm, i.ns = "ns" ∧ i.name = "a" := by decide +kernel
  have hrun := scoped_of_deliveries rfl hread (sampleLife_run sampleRenamed (by decide +kernel))
    fun target ht item hitem => by
      rw [hwatched, List.mem_singleton] at ht
      subst ht
      exact ⟨rfl, .inr (hname item (sampleRenamed_deliveries hitem).2).1⟩
  have hitem :
      deliveries sampleRenamed .configMap (.fromCm (sampleConfigMap "ns" "a" "1" [("k", "v")])) :=
    ⟨samplePass (sampleVersions.take 1), List.mem_append_right _ (by simp), _,
      .page List.mem_cons_self List.mem_cons_self, rfl⟩
  have hrest : (sampleLife sampleRenamed).AtRest .configMap "ns" := by decide +kernel
  refine ⟨settings, hread, kept_of_run rfl hread hrun ?_ ?_ ?_ hitem hrest (by decide +kernel)⟩
  · unfold Settings.Apart
    rw [hwatched]
    exact List.pairwise_singleton ..
  · intro slot slot' hslot hslot' hplace
    exact List.inj_on_of_nodup_map hdistinct (sampleRenamed_wanted hfolder hslot)
      (sampleRenamed_wanted hfolder hslot') hplace
  · intro kind item item' hitem hitem' _
    obtain ⟨hns, hn⟩ := hname item (sampleRenamed_deliveries hitem).2
    obtain ⟨hns', hn'⟩ := hname item' (sampleRenamed_deliveries hitem').2
    exact ⟨hns.trans hns'.symm, hn.trans hn'.symm⟩

end Process

end Sidecar
