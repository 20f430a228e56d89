import Sidecar.Edits

/-!
# Resources that come back

The old item of a resource that is not tracked is the new one, but its old folder is the one
recorded for it in an earlier life, which a removal does not forget. So when a resource comes back
in another folder its data keys are removed from the former one, whoever put the files there
(`readded_deletes`).
-/

namespace Sidecar

open Posix StateM

/-! ## Files that are there in the end -/

section Actions

variable {env : Env} {ctx : Ctx} {kind : Kind} {as : List Action} {p : Path} {s : Sys}

theorem runActions_present_aux {j : Job} (hj : j ∈ jobs as) (hw : j.remove = false)
    (hd : j.decodes = true) (hp : j.place env ctx kind = p)
    (hr : ∀ x ∈ jobs as, x.remove = true → x.decodes = true → x.place env ctx kind ≠ p)
    (h : (runActions env ctx kind as s).2.ioErrors = s.ioErrors) :
    (runActions env ctx kind as s).2.tree.fileAt p ≠ none := by
  refine runActions_clean env ctx kind (P := fun js s out => (j ∈ js ∨ s.tree.fileAt p ≠ none) →
    (∀ x ∈ js, x.remove = true → x.decodes = true → x.place env ctx kind ≠ p) →
      out.2.tree.fileAt p ≠ none) ?_ ?_ ?_ h (.inl hj) hr
  · rintro s (hj | hpresent) _
    · cases hj
    · exact hpresent
  · intro js s t out hsilent ih
    rwa [hsilent.tree] at ih
  · intro x js s out hfirst _ ih hj hr
    refine ih ?_ fun y hy => hr y (List.mem_cons_of_mem x hy)
    rcases hj with hj | hpresent
    · rcases List.mem_cons.1 hj with rfl | hj
      · obtain ⟨data, -, hfiles, -⟩ := Job.run_assigns hd (by simp [hw]) hfirst
        rw [hfiles, ← hp]
        exact .inr (Job.step_present hw data _)
      · exact .inl hj
    · exact .inr (Job.run_keepsFile (hr x List.mem_cons_self) s hpresent)

/-- A file is there if it is written, and not removed from then on. -/
theorem runActions_present {first rest : List Job} (has : jobs as = first ++ rest) {j : Job}
    (hj : j ∈ rest) (hw : j.remove = false) (hd : j.decodes = true) (hp : j.place env ctx kind = p)
    (hr : ∀ x ∈ rest, x.remove = true → x.decodes = true → x.place env ctx kind ≠ p)
    (h : (runActions env ctx kind as s).2.ioErrors = s.ioErrors) :
    (runActions env ctx kind as s).2.tree.fileAt p ≠ none := by
  obtain ⟨as₁, as₂, rfl, -, rfl⟩ := List.filterMap_eq_append_iff.1 has
  rw [runActions_append] at h ⊢
  have hfirst := (runActions_touches env ctx kind as₁ s).trace
  have hrest := (runActions_touches env ctx kind as₂ (runActions env ctx kind as₁ s).2).trace
  exact runActions_present_aux hj hw hd hp hr (count_squeeze hfirst hrest h).2

end Actions

/-! ## Resources that are not tracked -/

section Readded

variable {env : Env} {ctx : Ctx} {kind : Kind} {item : Item} {dest : String} {w : World}

/-- The folder that an untracked resource is thought to come from. -/
def formerFolder (kind : Kind) (item : Item) (dest : String) (w : World) : String :=
  (w.maps.dest[((kind, item.key) : MapKey)]?).getD dest

theorem updated_untracked (ho : w.maps.object[((kind, item.key) : MapKey)]? = none) :
    updated env ctx kind item dest w =
      (runActions env ctx kind (plan kind item ⟨item, formerFolder kind item dest w⟩ dest false)
        w.sys).2 := by
  refine processResource_update ?_
  rw [Maps.enter_old]
  unfold Maps.oldItem formerFolder
  rw [ho]
  cases w.maps.dest[((kind, item.key) : MapKey)]? <;> rfl

theorem mem_jobs_self {former : String} {j : Job} :
    j ∈ jobs (plan kind item ⟨item, former⟩ dest false) ↔
      (∃ e ∈ item.entries kind, j = e.job dest item false) ∨
        former ≠ dest ∧ ∃ e ∈ item.entries kind, j = e.job former item true := by
  rw [(jobs_plan_perm ..).mem_iff, leftovers_self, List.mem_append, List.mem_map]
  simp only [eq_comm (a := j)]
  split
  · next hfolder => simp [hfolder]
  · next hfolder => simp [hfolder, eq_comm]

/-- A data key that can be removed has a file in the former folder, if that is another one. -/
def Endangered (env : Env) (ctx : Ctx) (kind : Kind) (item : Item) (dest : String) (w : World)
    (e : Entry) : Prop :=
  formerFolder kind item dest w ≠ dest ∧ e ∈ item.entries kind ∧ e.decodes = true ∧
    w.sys.tree.fileAt (item.target env ctx kind (formerFolder kind item dest w) e) ≠ none

/-- The file of a key of `data` is written again for a key of `binaryData`. -/
def Restored (env : Env) (ctx : Ctx) (kind : Kind) (item : Item) (dest former : String)
    (e : Entry) : Prop :=
  e.contentType = contentTypeText ∧ ∃ x ∈ item.entries kind,
    x.contentType = contentTypeBase64Binary ∧
    x.decodes = true ∧ item.target env ctx kind dest x = item.target env ctx kind former e

/-- No file goes. -/
def DeletesNothing (env : Env) (ctx : Ctx) (kind : Kind) (item : Item) (dest : String)
    (w : World) : Prop :=
  ∀ p, w.sys.tree.fileAt p ≠ none → (updated env ctx kind item dest w).tree.fileAt p ≠ none

/-- A file that no data key endangers stays, whatever fails. -/
theorem keeps_of_not_endangered (ho : w.maps.object[((kind, item.key) : MapKey)]? = none) {p : Path}
    (hp : ∀ e, Endangered env ctx kind item dest w e →
      item.target env ctx kind (formerFolder kind item dest w) e ≠ p)
    (hf : w.sys.tree.fileAt p ≠ none) :
    (updated env ctx kind item dest w).tree.fileAt p ≠ none := by
  rw [updated_untracked ho]
  refine runActions_keepsFile (fun j hj hremove hd hplace => ?_) w.sys hf
  obtain ⟨e, -, rfl⟩ | ⟨hfolder, e, he, rfl⟩ := mem_jobs_self.1 hj
  · cases hremove
  · exact hp e ⟨hfolder, he, hd, by rwa [← Entry.place_job, hplace]⟩ hplace

/-- A file that is written again for `binaryData` is there in the end. -/
theorem keeps_of_restored (ho : w.maps.object[((kind, item.key) : MapKey)]? = none)
    (hio : (updated env ctx kind item dest w).ioErrors = w.sys.ioErrors)
    (hall : ∀ e, Endangered env ctx kind item dest w e →
      Restored env ctx kind item dest (formerFolder kind item dest w) e) {e : Entry}
    (he : Endangered env ctx kind item dest w e) :
    (updated env ctx kind item dest w).tree.fileAt
      (item.target env ctx kind (formerFolder kind item dest w) e) ≠ none := by
  obtain ⟨hfolder, hmem, hd, hfile⟩ := he
  obtain ⟨-, x, hx, htype, hxd, htarget⟩ := hall e ⟨hfolder, hmem, hd, hfile⟩
  rw [updated_untracked ho] at hio ⊢
  have hplan := jobs_plan_update kind item ⟨item, formerFolder kind item dest w⟩ dest
  have hxbin : x ∈ fieldEntries binEntries contentTypeBase64Binary item.binary := by
    rcases List.mem_append.1 hx with hx | hx
    · exact absurd ((contentType_of_mem hx).symm.trans htype) contentType_ne
    · exact hx
  refine runActions_present hplan (List.mem_append_left _ (List.mem_map_of_mem hxbin))
    rfl hxd htarget
    (fun j hj hremove hjd hplace => ?_) hio
  rcases List.mem_append.1 hj with hj | hj
  · obtain ⟨y, -, rfl⟩ := List.mem_map.1 hj
    cases hremove
  · -- what is removed after that is in `binaryData`
    obtain ⟨y, hy, rfl⟩ := List.mem_map.1 hj
    have hybin := (List.mem_filter.1 hy).1
    have hthere : w.sys.tree.fileAt
        (item.target env ctx kind (formerFolder kind item dest w) y) ≠ none := by
      rwa [← Entry.place_job, hplace]
    have hytext := (hall y ⟨hfolder, List.mem_append_right _ hybin, hjd, hthere⟩).1
    exact contentType_ne (hytext.symm.trans (contentType_of_mem hybin))

/-- A file that is endangered, can be walked to and is not restored is deleted. -/
theorem deletes_of_not_restored (ho : w.maps.object[((kind, item.key) : MapKey)]? = none)
    (hio : (updated env ctx kind item dest w).ioErrors = w.sys.ioErrors) {e : Entry}
    (he : Endangered env ctx kind item dest w e)
    (hwalk : (e.job (formerFolder kind item dest w) item true).Reachable env ctx kind w.sys.tree)
    (hnot : ¬Restored env ctx kind item dest (formerFolder kind item dest w) e) :
    (updated env ctx kind item dest w).tree.fileAt
      (item.target env ctx kind (formerFolder kind item dest w) e) = none := by
  obtain ⟨hfolder, hmem, hd, -⟩ := he
  rw [updated_untracked ho] at hio ⊢
  have hleft : e ∈ Old.leftovers ⟨item, formerFolder kind item dest w⟩ kind item dest := by
    rw [leftovers_self, if_neg hfolder]
    exact hmem
  exact update_removes hleft hd (Job.findable_of_reachable hwalk) hnot hio

/-- **What adding an untracked resource deletes.** Nothing, whatever fails, if no data key of it has
a file in another folder that is recorded for it. When no call fails and those files can be walked
to, nothing if and only if they are all written again. -/
theorem readded_deletes (ho : w.maps.object[((kind, item.key) : MapKey)]? = none) :
    ((∀ e, ¬Endangered env ctx kind item dest w e) → DeletesNothing env ctx kind item dest w) ∧
    ((updated env ctx kind item dest w).ioErrors = w.sys.ioErrors →
      (∀ e, Endangered env ctx kind item dest w e →
        (e.job (formerFolder kind item dest w) item true).Reachable env ctx kind w.sys.tree) →
      (DeletesNothing env ctx kind item dest w ↔ ∀ e, Endangered env ctx kind item dest w e →
        Restored env ctx kind item dest (formerFolder kind item dest w) e)) := by
  constructor
  · intro hnone p hf
    exact keeps_of_not_endangered ho (fun e he => absurd he (hnone e)) hf
  · intro hio hwalk
    constructor
    · intro hdeletes e he
      by_contra hnot
      exact hdeletes _ he.2.2.2 (deletes_of_not_restored ho hio he (hwalk e he) hnot)
    · intro hall p hf
      by_cases hp : ∃ e, Endangered env ctx kind item dest w e ∧
          item.target env ctx kind (formerFolder kind item dest w) e = p
      · obtain ⟨e, he, rfl⟩ := hp
        exact keeps_of_restored ho hio hall he
      · exact keeps_of_not_endangered ho (fun e he htarget => hp ⟨e, he, htarget⟩) hf

/-- `a` was deleted, and comes back in another folder. -/
theorem readded_deletes_sample :
    let calls := [Call.upsert .configMap (sampleItem "ns" "b" "1" [("j", "v")]) "/data",
      .delete .configMap (sampleItem "ns" "a" "1" [("k", "v")]) "/data",
      .upsert .configMap (sampleItem "ns" "a" "1" [("k", "v")]) "/data"]
    DeletesNothing sampleEnv sampleCtx .configMap (sampleItem "ns" "a" "2" [("k", "v")]) "/data/x"
      (sampleTrail calls) := by
  intro calls
  have ho : (sampleTrail calls).maps.object[((.configMap, "nsa") : MapKey)]? = none :=
    Option.isNone_iff_eq_none.1 (by decide +kernel)
  have hnone : ∀ e ∈ (sampleItem "ns" "a" "2" [("k", "v")]).entries .configMap,
      (sampleTrail calls).sys.tree.fileAt
        ((sampleItem "ns" "a" "2" [("k", "v")]).target sampleEnv sampleCtx .configMap
          (formerFolder .configMap (sampleItem "ns" "a" "2" [("k", "v")]) "/data/x"
            (sampleTrail calls)) e) = none := by decide +kernel
  exact (readded_deletes ho).1 fun e he => he.2.2.2 (hnone e he.2.1)

/-- Adding a resource that is not tracked deletes no file. -/
def AddingDeletesNothing (env : Env) (ctx : Ctx) (kind : Kind) : Prop :=
  ∀ w item dest, w.maps.Reachable → w.maps.object[((kind, item.key) : MapKey)]? = none →
    DeletesNothing env ctx kind item dest w

/-- `b` has put a file of the same name into the folder that `a` had before it was deleted. -/
theorem readded_deletes_file_of_other : ¬AddingDeletesNothing sampleEnv sampleCtx .configMap := by
  intro hnothing
  let calls := [Call.upsert .configMap (sampleItem "ns" "b" "1" [("k", "w")]) "/data",
    .delete .configMap (sampleItem "ns" "a" "1" [("k", "v")]) "/data",
    .upsert .configMap (sampleItem "ns" "a" "1" [("k", "v")]) "/data"]
  have ho : (sampleTrail calls).maps.object[((.configMap, "nsa") : MapKey)]? = none :=
    Option.isNone_iff_eq_none.1 (by decide +kernel)
  have hthere : (sampleTrail calls).sys.tree.fileAt ["k", "data"] ≠ none := by decide +kernel
  have hgone :
      (updated sampleEnv sampleCtx .configMap (sampleItem "ns" "a" "2" [("k", "v")]) "/data/x"
      (sampleTrail calls)).tree.fileAt ["k", "data"] = none := by decide +kernel
  exact hnothing _ (sampleItem "ns" "a" "2" [("k", "v")]) "/data/x"
    (sampleTrail_reachable calls) ho _
    hthere hgone

end Readded

end Sidecar
