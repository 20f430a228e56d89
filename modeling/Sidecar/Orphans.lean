import Sidecar.Edits

/-!
# Removals without orphans

Over a run of one resource, a file it ever wrote that is still there belongs to a data key of the
tracked version in its folder (`Cleanly.held`), so removing the resource takes it. That is so as
long as a `*.url` key whose value is no text is not to be removed while its file is there:
`update_file` computes the bytes of a key before it removes the file, and gives up if it cannot.
-/

namespace Sidecar

open Posix StateM

/-! ## What the cache gives back -/

/-- What matters of an entry when it is removed. -/
def Entry.tag (e : Entry) : (String × String) × Bool := (e.id, e.decodes)

theorem tags_retained (kind : Kind) (item : Item) :
    (item.retained.entries kind).map Entry.tag = (item.entries kind).map Entry.tag := by
  have hfield : ∀ {V : Type} (wrap : V → Content) (elided : V) (contentType : String)
      (field : Option (BTreeMap V)),
      (fieldEntries (mapEntries wrap) contentType (retainedField elided field)).map Entry.tag =
        (fieldEntries (mapEntries wrap) contentType field).map Entry.tag := by
    intro V wrap elided contentType field
    cases field with
    | none => rfl
    | some m =>
      have hall := retained_entries_all wrap elided m
      unfold fieldEntries retainedField
      simp only [Option.map_some, List.map_map]
      rw [← List.forall₂_eq_eq_eq, List.forall₂_map_left_iff, List.forall₂_map_right_iff]
      refine hall.imp fun e' e he => ?_
      obtain ⟨key, content⟩ := e
      obtain ⟨key', content'⟩ := e'
      obtain ⟨rfl, hurl⟩ := he
      unfold Entry.tag Entry.decodes decodes
      cases hkey : isUrlKey key' with
      | false => simp [Entry.id, hkey]
      | true =>
        obtain rfl := hurl hkey
        rfl
  unfold Item.entries
  rw [List.map_append, List.map_append]
  refine congrArg₂ (· ++ ·) ?_ (hfield Content.bin ByteArray.empty _ item.binary)
  cases kind with
  | configMap => exact hfield Content.text "" _ item.text
  | secret => rfl

/-! ## The removals of a call -/

section Call

variable {env : Env} {ctx : Ctx} {calls : List Call} {w : World} {c : Call} {v : Item}
  {folder : String}
  (hs : Tracks calls w.maps) (hc : c.Allowed calls w) (hv : tracked calls c.key = some v)
  (hf : lastFolder calls c.key = some folder) (hns : v.ns = c.item.ns)
    (hname : v.name = c.item.name)
include hs hv hf

theorem Tracks.old_eq : c.old w = ⟨v.retained, folder⟩ := by
  unfold Call.old
  rw [Maps.enter_old]
  unfold Maps.oldItem
  rw [hs.object (c.kind, c.item.key), hs.dest (c.kind, c.item.key)]
  rw [show tracked calls (c.kind, c.item.key) = some v from hv,
    show lastFolder calls (c.kind, c.item.key) = some folder from hf]
  rfl

omit hf in
include hc in
/-- A resource is removed with the data keys of the tracked version. -/
theorem Tracks.removed_tags (hr : c.isRemoved = true) :
    (c.item.entries c.kind).map Entry.tag = (v.entries c.kind).map Entry.tag := by
  cases c with
  | upsert => cases hr
  | delete kind item folder =>
    obtain ⟨htext, hbin⟩ := hc v hv
    unfold Item.entries Item.textOf Call.item
    rw [htext, hbin]
  | cleanup kind item =>
    obtain ⟨cached, hcached, hitem⟩ := hc
    have hobj := hs.object (Call.cleanup kind item).key
    rw [hv, show w.maps.object[(Call.cleanup kind item).key]? = some cached from hcached] at hobj
    cases hobj
    rw [show (Call.cleanup kind item).item = item from rfl, hitem]
    exact tags_retained _ v

include hc hns hname

/-- The removals of a call are for data keys of the tracked version, in its folder. -/
theorem Tracks.removal_entry {j : Job} (hj : j ∈ c.jobs w) (hr : j.remove = true) :
    ∃ e ∈ v.entries c.kind, j.slot c.kind = e.slot c.kind v.ns v.name folder ∧
      j.decodes = e.decodes := by
  have hold := hs.old_eq hv hf
  have hfind : ∀ {l : List Entry} {e' : Entry}, l.map Entry.tag = (v.entries c.kind).map Entry.tag →
      e' ∈ l → ∃ e ∈ v.entries c.kind, e.id = e'.id ∧ e.decodes = e'.decodes := by
    intro l e' htags he'
    have hmem := List.mem_map_of_mem (f := Entry.tag) he'
    rw [htags] at hmem
    obtain ⟨e, he, htag⟩ := List.mem_map.1 hmem
    exact ⟨e, he, (Prod.mk.inj htag).1, (Prod.mk.inj htag).2⟩
  cases hremoved : c.isRemoved with
  | true =>
    obtain ⟨e', he', rfl⟩ := (mem_jobs_remove hremoved j).1 hj
    obtain ⟨e, he, hid, hdec⟩ := hfind (hs.removed_tags hc hv hremoved) he'
    refine ⟨e, he, ?_, hdec.symm⟩
    rw [slot_congr hid, hns, hname, hold]
    rfl
  | false =>
    obtain ⟨e', -, rfl⟩ | ⟨e', he', rfl⟩ := (mem_jobs_update hremoved j).1 hj
    · cases hr
    · rw [hold] at he' ⊢
      obtain ⟨e, he, hid, hdec⟩ := hfind (tags_retained c.kind v) (List.mem_filter.1 he').1
      refine ⟨e, he, ?_, hdec.symm⟩
      rw [slot_congr hid]
      rfl

/-- A data key of the tracked version that does not stay is removed. -/
theorem Tracks.removal_job {e : Entry} (he : e ∈ v.entries c.kind)
    (hgone : c.isRemoved = false → folder = c.dest w →
      e.id ∉ (c.item.entries c.kind).map Entry.id) :
    ∃ j ∈ c.jobs w, j.slot c.kind = e.slot c.kind v.ns v.name folder ∧ j.remove = true := by
  have hold := hs.old_eq hv hf
  have hfind : ∀ {l : List Entry}, l.map Entry.tag = (v.entries c.kind).map Entry.tag →
      ∃ e' ∈ l, e'.id = e.id := by
    intro l htags
    have hmem := List.mem_map_of_mem (f := Entry.tag) he
    rw [← htags] at hmem
    obtain ⟨e', he', htag⟩ := List.mem_map.1 hmem
    exact ⟨e', he', (Prod.mk.inj htag).1⟩
  cases hremoved : c.isRemoved with
  | true =>
    obtain ⟨e', he', hid⟩ := hfind (hs.removed_tags hc hv hremoved)
    refine ⟨_, (mem_jobs_remove hremoved _).2 ⟨e', he', rfl⟩, ?_, rfl⟩
    rw [slot_congr hid.symm, hns, hname, hold]
    rfl
  | false =>
    obtain ⟨e', he', hid⟩ := hfind (tags_retained c.kind v)
    refine ⟨_, (mem_jobs_update hremoved _).2 (.inr ⟨e', ?_, rfl⟩), ?_, rfl⟩
    · rw [hold]
      exact List.mem_filter.2 ⟨he', decide_eq_true fun hdest => hid ▸ hgone hremoved hdest⟩
    · rw [slot_congr hid.symm, hold]
      rfl

end Call

/-! ## Runs of one resource -/

/-- All calls are about one resource. -/
def OneResource (kind : Kind) (ns name : String) (calls : List Call) : Prop :=
  ∀ c ∈ calls, c.kind = kind ∧ c.item.ns = ns ∧ c.item.name = name

/-- Some call put a data key with bytes at the path. -/
def WrittenBy (env : Env) (ctx : Ctx) (calls : List Call) (p : Path) : Prop :=
  ∃ c ∈ calls, c.isRemoved = false ∧ ∃ folder, c.folder? = some folder ∧
    ∃ e ∈ c.item.entries c.kind, e.decodes = true ∧ c.item.target env ctx c.kind folder e = p

/-- There is no file where a call has nothing to do but to remove a data key without bytes. -/
def Call.Clean (env : Env) (ctx : Ctx) (c : Call) (w : World) : Prop :=
  ∀ j ∈ c.jobs w, (∀ x ∈ c.jobs w, x.place env ctx c.kind = j.place env ctx c.kind →
    x.remove = true ∧ x.decodes = false) → w.sys.tree.fileAt (j.place env ctx c.kind) = none

instance (env : Env) (ctx : Ctx) (c : Call) (w : World) : Decidable (c.Clean env ctx w) :=
  List.decidableBAll _ (c.jobs w)

/-- The runs in which every call is clean. -/
inductive Cleanly (env : Env) (ctx : Ctx) (w₀ : World) : List Call → World → Prop
  | start : Cleanly env ctx w₀ [] w₀
  | call {calls : List Call} {w : World} (c : Call) : Cleanly env ctx w₀ calls w →
    c.Allowed calls w → c.Clean env ctx w → Cleanly env ctx w₀ (c :: calls) (c.run env ctx w).2
  | idle {calls : List Call} {w w' : World} : Cleanly env ctx w₀ calls w → Idle w w' →
    Cleanly env ctx w₀ calls w'

section Runs

variable {env : Env} {ctx : Ctx} {w₀ w : World} {calls : List Call} {c : Call} {kind : Kind}
  {ns name : String} {p : Path}

theorem Cleanly.reaches (h : Cleanly env ctx w₀ calls w) : Reaches env ctx w₀ calls w := by
  induction h with
  | start => exact .start
  | call c _ hc _ ih => exact ih.call c hc
  | idle _ hidle ih => exact ih.idle hidle

/-- A call writes the data keys of its item. -/
theorem Call.write_job {folder : String} (hr : c.isRemoved = false) (hf : c.folder? = some folder)
    {e : Entry} (he : e ∈ c.item.entries c.kind) : e.job folder c.item false ∈ c.jobs w := by
  refine (mem_jobs_update hr _).2 (.inl ⟨e, he, ?_⟩)
  unfold Call.dest
  rw [hr, hf]
  rfl

/-- A path that a call writes is held after it. -/
theorem holds_of_write {j : Job} (hj : j ∈ c.jobs w) (hw : j.remove = false)
    (hp : j.place env ctx c.kind = p) : ∃ slot, Holds (c :: calls) slot ∧
    slot.place env ctx = p := by
  cases hr : c.isRemoved with
  | true =>
    obtain ⟨e, -, rfl⟩ := (mem_jobs_remove hr j).1 hj
    cases hw
  | false =>
    obtain ⟨e, he, rfl⟩ | ⟨e, -, rfl⟩ := (mem_jobs_update hr j).1 hj
    · obtain ⟨folder, hf⟩ := folder_of_update hr
      have hdest : c.dest w = folder := by
        unfold Call.dest
        rw [hr, hf]
        rfl
      rw [hdest] at hp
      have htracked : tracked (c :: calls) (c.kind, c.item.key) = some c.item := by
        rw [show (c.kind, c.item.key) = c.key from rfl, tracked_cons_self, hr]
        rfl
      exact ⟨e.slot c.kind c.item.ns c.item.name folder,
        ⟨c.item, htracked,
          (if_pos ⟨hr, rfl⟩ : lastFolder (c :: calls) c.key = c.folder?).trans hf, e, he,
          rfl⟩, hp⟩
    · cases hw

section Gone

variable {v : Item} {folder : String} (hs : Tracks calls w.maps) (hc : c.Allowed calls w)
  (hv : tracked calls c.key = some v) (hf : lastFolder calls c.key = some folder)
  (hns : v.ns = c.item.ns) (hname : v.name = c.item.name)
include hs hc hv hf hns hname

/-- A data key of the tracked version has a removal if the call writes nothing to its path. -/
theorem Tracks.removal_at (hwrites : ∀ j ∈ c.jobs w, j.place env ctx c.kind = p → j.remove = true)
    {e : Entry} (he : e ∈ v.entries c.kind)
    (hp : (e.slot c.kind v.ns v.name folder).place env ctx = p) :
    ∃ j ∈ c.jobs w, j.place env ctx c.kind = p := by
  obtain ⟨j, hj, hslot, -⟩ := hs.removal_job hc hv hf hns hname he fun hr hdest hid => by
    obtain ⟨e', he', hid⟩ := List.mem_map.1 hid
    have hjob : e'.job (c.dest w) c.item false ∈ c.jobs w :=
      (mem_jobs_update hr _).2 (.inl ⟨e', he', rfl⟩)
    have hplace : (e'.job (c.dest w) c.item false).place env ctx c.kind = p := by
      rw [← hp, ← slot_congr hid, hdest, hns, hname]
      rfl
    have hremove := hwrites _ hjob hplace
    cases hremove
  exact ⟨j, hj, by rw [Job.place_slot, hslot, hp]⟩

/-- A clean call takes the file of a data key that does not stay. -/
theorem Tracks.gone (hclean : c.Clean env ctx w)
    (hroot : ∀ e ∈ v.entries c.kind, e.decodes = true →
      (e.job folder v false).Reachable env ctx c.kind w.sys.tree)
    (hio : (c.act env ctx w).2.ioErrors = w.sys.ioErrors)
    (hwrites : ∀ j ∈ c.jobs w, j.place env ctx c.kind = p → j.remove = true)
    {e : Entry} (he : e ∈ v.entries c.kind)
    (hp : (e.slot c.kind v.ns v.name folder).place env ctx = p)
    (hthere : w.sys.tree.fileAt p ≠ none) :
    (c.act env ctx w).2.tree.fileAt p = none := by
  obtain ⟨j, hj, hplace⟩ := hs.removal_at hc hv hf hns hname hwrites he hp
  by_cases hbytes : ∃ x ∈ c.jobs w, x.place env ctx c.kind = p ∧ x.decodes = true
  · obtain ⟨x, hx, hxplace, hxdec⟩ := hbytes
    obtain ⟨e', he', hslot, hdec⟩ := hs.removal_entry hc hv hf hns hname hx (hwrites x hx hxplace)
    have hwalk : x.Reachable env ctx c.kind w.sys.tree := by
      rw [Job.reachable_slot, hslot]
      exact hroot e' he' (hdec ▸ hxdec)
    exact runActions_gone (List.nil_append _).symm (fun y hy hyplace => .inl (hwrites y hy hyplace))
      ⟨x, hx, hxplace, hwrites x hx hxplace, hxdec, Job.findable_of_reachable hwalk⟩ hio
  · -- only data keys without bytes are to be removed there
    refine absurd (hclean j hj fun x hx hxplace => ?_) (hplace ▸ hthere)
    have hxp := hxplace.trans hplace
    exact ⟨hwrites x hx hxp, by simpa using fun hdec => hbytes ⟨x, hx, hxp, hdec⟩⟩

end Gone

/-- A call of a run of one resource is about the tracked one. -/
theorem OneResource.key_eq (hone : OneResource kind ns name (c :: calls)) {k : Kind} {v : Item}
    (hv : tracked calls (k, v.key) = some v) :
    k = c.kind ∧ v.ns = c.item.ns ∧ v.name = c.item.name := by
  obtain ⟨c', hc', hk', rfl⟩ := exists_call_of_tracked hv
  obtain ⟨hkind, hns, hname⟩ := hone c List.mem_cons_self
  obtain ⟨hkind', hns', hname'⟩ := hone c' (List.mem_cons_of_mem c hc')
  refine ⟨?_, hns'.trans hns.symm, hname'.trans hname.symm⟩
  rw [hkind, ← hkind']
  exact (congrArg Prod.fst hk').symm

/-- **What was written is held or gone**: a file that some call wrote belongs to a data key of the
tracked version, in its folder. -/
theorem Cleanly.held (h : Cleanly env ctx w₀ calls w) (h₀ : Tracks [] w₀.maps)
    (hone : OneResource kind ns name calls) (hio : w.sys.ioErrors = w₀.sys.ioErrors)
    (hp : WrittenBy env ctx calls p) (hfile : w.sys.tree.fileAt p ≠ none) :
    ∃ slot, Holds calls slot ∧ slot.place env ctx = p := by
  induction h with
  | start =>
    obtain ⟨c, hc, -⟩ := hp
    cases hc
  | idle hrun hidle ih =>
    rw [hidle.sys.tree] at hfile
    exact ih hone (count_squeeze hrun.reaches.traceLe hidle.sys.trace hio).1 hp hfile
  | @call calls w c hrun hc hclean ih =>
    have hreach := hrun.reaches
    obtain ⟨hbefore, hstep⟩ := count_squeeze hreach.traceLe (c.run_traceLe env ctx w) hio
    rw [Call.run_eq] at hstep hfile
    by_cases hwrites : ∀ j ∈ c.jobs w, j.place env ctx c.kind = p → j.remove = true
    · -- nothing is written there, so the file was there before, and it was held
      have hthere : w.sys.tree.fileAt p ≠ none := fun hnone =>
        hfile ((runActions_clears (fun j hj hplace => .inl (hwrites j hj hplace)) w.sys).none hnone)
      have hp' : WrittenBy env ctx calls p := by
        obtain ⟨c', hc', hr, folder, hf, e, he, hdec, htarget⟩ := hp
        rcases List.mem_cons.1 hc' with rfl | hc'
        · have hremove := hwrites _ (Call.write_job hr hf he) htarget
          cases hremove
        · exact ⟨c', hc', hr, folder, hf, e, he, hdec, htarget⟩
      obtain ⟨slot, ⟨v, hv, hf, e, he, hslot⟩, hplace⟩ :=
        ih (fun c' hc' => hone c' (List.mem_cons_of_mem c hc')) hbefore hp' hthere
      obtain ⟨hkind, hns, hname⟩ := hone.key_eq hv
      have hkey : (slot.kind, v.key) = c.key := by
        unfold Call.key Item.key
        rw [hkind, hns, hname]
      have hroot : ∀ e ∈ v.entries c.kind, e.decodes = true →
          (e.job slot.folder v false).Reachable env ctx c.kind w.sys.tree := fun e he hdec =>
        hkind ▸ (hreach.rooted hbefore hv hf (hkind ▸ he) hdec).walk
      refine absurd ((hreach.tracks h₀).gone hc (hkey ▸ hv) (hkey ▸ hf) hns hname hclean hroot hstep
        hwrites (hkind ▸ he) ?_ hthere) hfile
      rw [← hkind, ← hslot, hplace]
    · obtain ⟨j, hj, hplace, hremove⟩ : ∃ j ∈ c.jobs w, j.place env ctx c.kind = p ∧
        j.remove = false := by
        simpa using hwrites
      exact holds_of_write hj hremove hplace

/-- **A removal leaves no orphan** in a run of one resource whose calls are clean: when the resource
has been removed, none of the files it ever wrote is there, whatever was fetched. -/
theorem removal_leaves_no_orphan (h : Cleanly env ctx w₀ (c :: calls) w) (h₀ : Tracks [] w₀.maps)
    (hone : OneResource kind ns name (c :: calls)) (hio : w.sys.ioErrors = w₀.sys.ioErrors)
    (hr : c.isRemoved = true) :
    ∀ p, WrittenBy env ctx (c :: calls) p → w.sys.tree.fileAt p = none := by
  intro p hp
  by_contra hfile
  obtain ⟨slot, ⟨v, hv, -⟩, -⟩ := h.held h₀ hone hio hp hfile
  obtain ⟨c', hc', hk', rfl⟩ := exists_call_of_tracked hv
  obtain ⟨hkind, hns, hname⟩ := hone c List.mem_cons_self
  obtain ⟨hkind', hns', hname'⟩ := hone c' hc'
  have hkey : (slot.kind, c'.item.key) = c.key := by
    rw [← hk']
    unfold Call.key Item.key
    rw [hkind, hns, hname, hkind', hns', hname']
  rw [hkey, tracked_cons_self, hr] at hv
  cases hv

/-- A resource moves to another folder, loses a `*.url` key and is deleted. -/
theorem removal_leaves_no_orphan_sample :
    let v := sampleVersion none (some [("t", "v")])
      (some [("a.url", "http://a".toUTF8), ("b", ⟨#[0xff]⟩)])
    let item := sampleVersion (some "x") none (some [("b", ⟨#[0xff]⟩)])
    let calls := [Call.upsert .configMap item "/data/x", .upsert .configMap v "/data"]
    ∀ p, WrittenBy sampleEnv sampleCtx (.delete .configMap item "/data/x" :: calls) p →
      (sampleTrail (.delete .configMap item "/data/x" :: calls)).sys.tree.fileAt p = none := by
  intro v item calls
  have hdelete : (Call.delete .configMap item "/data/x").Allowed calls (sampleTrail calls) := by
    intro x hx
    cases hx
    exact ⟨rfl, rfl⟩
  have hrun : Cleanly sampleEnv sampleCtx sampleWorld (.delete .configMap item "/data/x" :: calls)
      (sampleTrail (.delete .configMap item "/data/x" :: calls)) :=
    .call _ (.call _ (.call _ .start trivial (by decide +kernel)) trivial
      (by decide +kernel)) hdelete
      (by decide +kernel)
  have hone : OneResource .configMap "ns" "a" (.delete .configMap item "/data/x" :: calls) := by
    intro c hc
    simp only [calls, List.mem_cons, List.not_mem_nil, or_false] at hc
    obtain rfl | rfl | rfl := hc <;> exact ⟨rfl, rfl, rfl⟩
  exact removal_leaves_no_orphan hrun (.empty rfl rfl) hone (by decide +kernel) rfl

/-- A resource that is removed leaves none of the files it ever wrote. -/
def RemovalLeavesNoOrphan (env : Env) (ctx : Ctx) : Prop :=
  ∀ w₀ calls c w kind ns name, Reaches env ctx w₀ (c :: calls) w → Tracks [] w₀.maps →
    OneResource kind ns name (c :: calls) → w.sys.ioErrors = w₀.sys.ioErrors → c.isRemoved = true →
    ∀ p, WrittenBy env ctx (c :: calls) p → w.sys.tree.fileAt p = none

/-- The value of `a.url` is a URL at first and no text afterwards. -/
theorem undecodable_url_is_orphaned : ¬RemovalLeavesNoOrphan sampleEnv sampleCtx := by
  intro hremoval
  let v := sampleVersion none none (some [("a.url", "http://a".toUTF8)])
  let item := sampleVersion none none (some [("a.url", ⟨#[0xff]⟩)])
  let calls := [Call.upsert .configMap item "/data", .upsert .configMap v "/data"]
  have hdelete : (Call.delete .configMap item "/data").Allowed calls (sampleTrail calls) := by
    intro x hx
    cases hx
    exact ⟨rfl, rfl⟩
  have hrun : Reaches sampleEnv sampleCtx sampleWorld (.delete .configMap item "/data" :: calls)
      (sampleTrail (.delete .configMap item "/data" :: calls)) :=
    .call _ (.call _ (.call _ .start trivial) trivial) hdelete
  have hone : OneResource .configMap "ns" "a" (.delete .configMap item "/data" :: calls) := by
    intro c hc
    simp only [calls, List.mem_cons, List.not_mem_nil, or_false] at hc
    obtain rfl | rfl | rfl := hc <;> exact ⟨rfl, rfl, rfl⟩
  have hlost : ∃ e ∈ v.entries .configMap, e.decodes = true ∧
      (sampleTrail (.delete .configMap item "/data" :: calls)).sys.tree.fileAt
        (v.target sampleEnv sampleCtx .configMap "/data" e) ≠ none := by decide +kernel
  obtain ⟨e, he, hdec, hfile⟩ := hlost
  refine hfile (hremoval _ _ _ _ _ _ _ hrun (.empty rfl rfl) hone (by decide +kernel) rfl _ ?_)
  exact ⟨.upsert .configMap v "/data", by simp [calls], rfl, "/data", rfl, e, he, hdec, rfl⟩

end Runs

end Sidecar
