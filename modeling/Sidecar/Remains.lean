import Sidecar.SharedPaths
import Sidecar.WholeCache
import Sidecar.Isolation

/-!
# What an update leaves at a path

The calls of `update_file` that one update makes may meet at a path: data keys can share a file
name, and a leftover of the old version can be where a data key of the new one was just written.
What counts then is the order, and each field is written before its leftovers are removed. A write
lasts if nothing goes to its path after it (`runActions_wrote`), and a removal if nothing is written
there after it (`runActions_gone`). Only a key of `binaryData` is written after leftovers were
removed, those of `data` (`update_removes`).
-/

namespace Sidecar

open Posix StateM

/-! ## Data keys that have bytes -/

/-- There are bytes for a data key: the value of a `*.url` key has to be text. -/
def decodes (dataKey : String) (content : Content) : Bool :=
  !isUrlKey dataKey || content.url?.isSome

def Entry.decodes (e : Entry) : Bool := Sidecar.decodes e.dataKey e.content

def Job.decodes (j : Job) : Bool := Sidecar.decodes j.dataKey j.content

theorem decodes_of_plain {dataKey : String} (h : isUrlKey dataKey = false) (content : Content) :
    decodes dataKey content = true := by simp [decodes, h]

theorem decodes_text (dataKey s : String) : decodes dataKey (.text s) = true := by
  simp [decodes, Content.url?]

section Bytes

variable (env : Env) (ctx : Ctx) {dataKey : String} {content : Content}

theorem getFileDataAndName_of_decodes (h : decodes dataKey content = true) (s : Sys) :
    ∃ data, (getFileDataAndName env ctx dataKey content s).1 =
      .ok (dataFileName dataKey, data) := by
  cases hkey : isUrlKey dataKey with
  | false =>
    rw [getFileDataAndName_of_plain hkey]
    exact ⟨_, rfl⟩
  | true =>
    simp only [decodes, hkey, Bool.not_true, Bool.false_or] at h
    obtain ⟨url, hurl⟩ := Option.isSome_iff_exists.1 h
    rw [getFileDataAndName_of_url hkey, hurl]
    exact ⟨_, rfl⟩

theorem getFileDataAndName_of_not_decodes (h : decodes dataKey content = false) (s : Sys) :
    (getFileDataAndName env ctx dataKey content s).1 = .error "invalid utf-8 sequence" := by
  simp only [decodes, Bool.or_eq_false_iff, Bool.not_eq_false', Option.isSome_eq_false_iff,
    Option.isNone_iff_eq_none] at h
  rw [getFileDataAndName_of_url h.1, h.2]

end Bytes

/-! ## One job -/

section Job

variable {env : Env} {ctx : Ctx} {kind : Kind} {j : Job} {p : Path} {s : Sys}

/-- A data key without bytes has nothing done for it. -/
theorem Job.run_not_decodes (h : j.decodes = false) (s : Sys) :
    (j.run env ctx kind s).2.tree = s.tree := by
  rw [Job.run_eq, andThen_error (getFileDataAndName_of_not_decodes env ctx h s)]
  exact (getFileDataAndName_silent env ctx j.dataKey j.content s).tree

/-- A job is its write or removal, and a log line. -/
theorem Job.run_put (h : j.decodes = true) (s : Sys) : ∃ t data, Silent s t ∧
    Computes env ctx j.dataKey j.content data ∧
    (j.run env ctx kind s).2.tree = (j.put env ctx kind data t).2.tree ∧
    TraceLe (j.put env ctx kind data t).2 (j.run env ctx kind s).2 := by
  obtain ⟨data, hdata⟩ := getFileDataAndName_of_decodes env ctx h s
  refine ⟨_, data, getFileDataAndName_silent env ctx j.dataKey j.content s, ⟨s, hdata⟩, ?_⟩
  rw [Job.run_eq, andThen_ok hdata]
  dsimp only
  split
  · exact ⟨rfl, List.prefix_rfl⟩
  · have hlog := log_silent .error (updateErrorMsg j.dataKey j.folder)
      (j.put env ctx kind data (getFileDataAndName env ctx j.dataKey j.content s).2).2
    exact ⟨hlog.tree, hlog.trace⟩

/-- A job without a failing file-system call makes its assignment. -/
theorem Job.run_assigns (hd : j.decodes = true)
    (hw : j.remove = true → s.tree.fileAt (j.place env ctx kind) ≠ none →
      j.Reachable env ctx kind s.tree)
    (h : (j.run env ctx kind s).2.ioErrors = s.ioErrors) :
    ∃ data, Computes env ctx j.dataKey j.content data ∧
      (j.run env ctx kind s).2.tree.fileAt =
        (Store.step env.sha256 s.tree.fileAt (j.assign env ctx kind data)).2 ∧
      (j.remove = false → j.Reachable env ctx kind (j.run env ctx kind s).2.tree) := by
  obtain ⟨t, data, hst, hdata, htree, hle⟩ := @Job.run_put env ctx kind j hd s
  have hput := (j.put_touches env ctx kind data t).trace
  have hio : (j.put env ctx kind data t).2.ioErrors = t.ioErrors :=
    (count_squeeze hst.trace hput (count_squeeze (hst.trace.trans hput) hle h).1).2
  obtain ⟨-, hfiles, -, hwalk⟩ := Job.put_ok env ctx kind j (hst.tree ▸ hw) hio
  rw [hst.tree] at hfiles
  rw [htree]
  exact ⟨data, hdata, hfiles, hwalk⟩

/-- The file of a job is told apart from its bytes by the digest, if they differ. -/
def Job.Told (env : Env) (ctx : Ctx) (kind : Kind) (j : Job)
    (files : Path → Option ByteArray) : Prop :=
  ∀ data, Computes env ctx j.dataKey j.content data → ∀ b, files (j.place env ctx kind) = some b →
    env.sha256 b = env.sha256 data → b = data

/-- The file of a job has the bytes of its data key. -/
def Job.Stored (env : Env) (ctx : Ctx) (kind : Kind) (j : Job)
    (files : Path → Option ByteArray) : Prop :=
  ∃ data, Computes env ctx j.dataKey j.content data ∧ files (j.place env ctx kind) = some data

/-- Wherever directories were only added, the file of a job can be walked to if it is there. -/
def Job.Findable (env : Env) (ctx : Ctx) (kind : Kind) (j : Job) (t : FileTree) : Prop :=
  ∀ t', FileTree.DirsLe t t' → t'.fileAt (j.place env ctx kind) ≠ none → j.Reachable env ctx kind t'

theorem Job.Findable.mono {t t' : FileTree} (h : j.Findable env ctx kind t)
    (ht : FileTree.DirsLe t t') : j.Findable env ctx kind t' := fun t'' ht' => h t'' (ht.trans ht')

theorem Job.findable_of_reachable {t : FileTree} (h : j.Reachable env ctx kind t) :
    j.Findable env ctx kind t := fun _ ht _ => Walkable.mono h ht

/-- A file of a folder written without steps back can be walked to. -/
theorem Job.findable_of_straight {t : FileTree} (hs : Straight j.folder)
    (hn : PlainName (j.filename ctx kind)) : j.Findable env ctx kind t :=
  fun _ _ hf => FileTree.resolve_of_file hs hn hf

theorem Job.run_removed (hr : j.remove = true) (hd : j.decodes = true)
    (hw : j.Findable env ctx kind s.tree) (h : (j.run env ctx kind s).2.ioErrors = s.ioErrors) :
    (j.run env ctx kind s).2.tree.fileAt (j.place env ctx kind) = none := by
  obtain ⟨data, -, hfiles, -⟩ := Job.run_assigns hd (fun _ hf => hw s.tree (.refl _) hf) h
  have hset : Store.Settled env.sha256
      (Store.step env.sha256 s.tree.fileAt (j.assign env ctx kind data)).2
      (j.assign env ctx kind data) :=
    Store.step_settled _
  rw [← hfiles, Job.assign_of_remove hr] at hset
  exact Option.map_eq_none_iff.1 hset

theorem Job.run_stored (hr : j.remove = false) (hd : j.decodes = true)
    (ht : j.Told env ctx kind s.tree.fileAt) (h : (j.run env ctx kind s).2.ioErrors = s.ioErrors) :
    j.Stored env ctx kind (j.run env ctx kind s).2.tree.fileAt := by
  obtain ⟨data, hdata, hfiles, -⟩ := Job.run_assigns hd (by simp [hr]) h
  refine ⟨data, hdata, ?_⟩
  rw [hfiles, Job.assign_of_write hr]
  by_cases hset : Store.Settled env.sha256 s.tree.fileAt ⟨j.place env ctx kind, some data⟩
  · -- the write was suppressed
    rw [Store.step_of_settled hset]
    obtain ⟨b, hb, hdig⟩ := Option.map_eq_some_iff.1 hset
    obtain rfl := ht data hdata b hb hdig
    exact hb
  · rw [Store.step_of_not_settled hset]
    exact Function.update_self ..

/-- Where a job does not write, the file stays as it is or goes. -/
theorem Job.run_clears (hr : j.place env ctx kind = p → j.remove = true ∨ j.decodes = false) :
    Moves (ClearsFile p) (j.run env ctx kind) := by
  by_cases hp : j.place env ctx kind = p
  · rcases hr hp with hremove | hd
    · refine Job.run_moves env ctx kind j (ClearsFile.preorder p)
        (fun _ _ h => (h.touches fun _ => False).clearsFile not_false) fun data s => ?_
      rw [Job.put_of_remove env ctx kind j hremove]
      exact removeFile_clearsFile env j.folder (j.filename ctx kind) p s
    · intro s
      exact .inl (congrArg (FileTree.fileAt · p) (Job.run_not_decodes hd s))
  · exact fun s => (j.run_touches env ctx kind s).clearsFile fun e => hp e.symm

end Job

/-! ## A list of actions -/

section Actions

variable {env : Env} {ctx : Ctx} {kind : Kind} {as : List Action} {p : Path} {s : Sys}

theorem runActions_clears
    (hr : ∀ j ∈ jobs as, j.place env ctx kind = p → j.remove = true ∨ j.decodes = false) :
    Moves (ClearsFile p) (runActions env ctx kind as) :=
  runActions_moves env ctx kind (ClearsFile.preorder p)
    (fun _ _ h => (h.touches fun _ => False).clearsFile not_false) fun j hj =>
    Job.run_clears (hr j hj)

/-- A job that takes the file at `p`, if there is one. -/
structure Job.Takes (env : Env) (ctx : Ctx) (kind : Kind) (p : Path) (t : FileTree)
    (j : Job) : Prop where
  place : j.place env ctx kind = p
  remove : j.remove = true
  decodes : j.decodes = true
  walk : j.Findable env ctx kind t

theorem runActions_gone_aux
    (hr : ∀ j ∈ jobs as, j.place env ctx kind = p → j.remove = true ∨ j.decodes = false)
    (hp : s.tree.fileAt p = none ∨ ∃ j ∈ jobs as, j.Takes env ctx kind p s.tree)
    (h : (runActions env ctx kind as s).2.ioErrors = s.ioErrors) :
    (runActions env ctx kind as s).2.tree.fileAt p = none := by
  refine runActions_clean env ctx kind (P := fun js s out =>
    (∀ j ∈ js, j.place env ctx kind = p → j.remove = true ∨ j.decodes = false) →
      (s.tree.fileAt p = none ∨ ∃ j ∈ js, j.Takes env ctx kind p s.tree) →
        out.2.tree.fileAt p = none) ?_ ?_ ?_ h hr hp
  · rintro s - (hnone | ⟨j, hj, -⟩)
    · exact hnone
    · cases hj
  · intro js s t out hsilent ih
    rwa [hsilent.tree] at ih
  · intro x js s out hfirst _ ih hr hp
    refine ih (fun y hy => hr y (List.mem_cons_of_mem x hy)) ?_
    rcases hp with hnone | ⟨j, hj, htakes⟩
    · exact .inl ((Job.run_clears (hr x List.mem_cons_self) s).none hnone)
    · rcases List.mem_cons.1 hj with rfl | hj
      · left
        rw [← htakes.place]
        exact Job.run_removed htakes.remove htakes.decodes htakes.walk hfirst
      · exact .inr ⟨j, hj, htakes.place, htakes.remove, htakes.decodes,
          htakes.walk.mono (x.run_touches env ctx kind s).dirs⟩

/-- **A removal lasts** if nothing is written to its path from then on. -/
theorem runActions_gone {first rest : List Job} (has : jobs as = first ++ rest)
    (hr : ∀ j ∈ rest, j.place env ctx kind = p → j.remove = true ∨ j.decodes = false)
    (hp : ∃ j ∈ rest, j.Takes env ctx kind p s.tree)
    (h : (runActions env ctx kind as s).2.ioErrors = s.ioErrors) :
    (runActions env ctx kind as s).2.tree.fileAt p = none := by
  obtain ⟨as₁, as₂, rfl, -, rfl⟩ := List.filterMap_eq_append_iff.1 has
  rw [runActions_append] at h ⊢
  have hfirst := runActions_touches env ctx kind as₁ s
  have hrest := (runActions_touches env ctx kind as₂ (runActions env ctx kind as₁ s).2).trace
  refine runActions_gone_aux hr (.inr ?_) (count_squeeze hfirst.trace hrest h).2
  obtain ⟨j, hj, htakes⟩ := hp
  exact ⟨j, hj, htakes.place, htakes.remove, htakes.decodes, htakes.walk.mono hfirst.dirs⟩

/-- **A write lasts** if nothing goes to a path once it has been written. -/
theorem runActions_stored {j : Job} (hj : j ∈ jobs as) (hw : j.remove = false)
    (hd : j.decodes = true) (hlast : (jobs as).Pairwise fun a b => a.remove = false →
      b.place env ctx kind ≠ a.place env ctx kind)
    (ht : j.Told env ctx kind s.tree.fileAt)
    (h : (runActions env ctx kind as s).2.ioErrors = s.ioErrors) :
    j.Stored env ctx kind (runActions env ctx kind as s).2.tree.fileAt := by
  refine runActions_clean env ctx kind (P := fun js s out => j ∈ js →
    (js.Pairwise fun a b => a.remove = false → b.place env ctx kind ≠ a.place env ctx kind) →
      j.Told env ctx kind s.tree.fileAt → j.Stored env ctx kind out.2.tree.fileAt)
        ?_ ?_ ?_ h hj hlast ht
  · intro s hj
    cases hj
  · intro js s t out hsilent ih
    rwa [hsilent.tree] at ih
  · intro x js s out hfirst htouch ih hj hlast ht
    rw [List.pairwise_cons] at hlast
    rcases List.mem_cons.1 hj with rfl | hj
    · obtain ⟨data, hdata, hfile⟩ := Job.run_stored hw hd ht hfirst
      refine ⟨data, hdata, (htouch.files _ ?_).trans hfile⟩
      rintro ⟨y, hy, hplace⟩
      exact hlast.1 y hy hw hplace
    · -- what comes before at this path can only remove
      have hclears := Job.run_clears (j := x) (p := j.place env ctx kind) (fun hplace => by
        cases hx : x.remove with
        | true => exact .inl rfl
        | false => exact absurd hplace.symm (hlast.1 j hj hx)) s
      refine ih hj hlast.2 fun data hdata b hb => ?_
      rcases hclears with hsame | hnone
      · exact ht data hdata b (hsame ▸ hb)
      · have hb' : (x.run env ctx kind s).2.tree.fileAt (j.place env ctx kind) = some b := hb
        rw [hnone] at hb'
        cases hb'

/-- What no job with bytes goes to stays as it is, whatever fails. -/
theorem runActions_same (hp : ∀ j ∈ jobs as, j.decodes = true →
    j.place env ctx kind ≠ p) (s : Sys) :
    (runActions env ctx kind as s).2.tree.fileAt p = s.tree.fileAt p := by
  have hsame : Preorder fun s s' : Sys => s'.tree.fileAt p = s.tree.fileAt p :=
    ⟨fun _ => rfl, fun h h' => h'.trans h⟩
  refine runActions_moves env ctx kind hsame
    (fun _ _ h => (h.touches fun _ => False).files p not_false) (fun j hj s => ?_) s
  cases hd : j.decodes with
  | false => rw [Job.run_not_decodes hd s]
  | true => exact (j.run_touches env ctx kind s).files p (Ne.symm (hp j hj hd))

theorem Job.run_keepsFile {j : Job}
    (hr : j.remove = true → j.decodes = true → j.place env ctx kind ≠ p) :
    Moves (KeepsFile p) (j.run env ctx kind) := by
  cases hd : j.decodes with
  | true => exact Job.run_keeps fun hremove => hr hremove hd
  | false =>
    intro s hf
    rwa [Job.run_not_decodes hd s]

/-- Where nothing is removed a file stays, whatever fails. -/
theorem runActions_keepsFile
    (hr : ∀ j ∈ jobs as, j.remove = true → j.decodes = true → j.place env ctx kind ≠ p) :
    Moves (KeepsFile p) (runActions env ctx kind as) := by
  exact runActions_moves env ctx kind (KeepsFile.preorder p)
    (fun _ _ h => (h.touches fun _ => False).keepsFile not_false) fun j hj =>
    Job.run_keepsFile (hr j hj)

/-- The file of a write can be walked to, and is named plainly if its name has no slash. -/
structure Job.Rooted (env : Env) (ctx : Ctx) (kind : Kind) (j : Job) (t : FileTree) : Prop where
  walk : j.Reachable env ctx kind t
  plain : '/' ∉ (j.filename ctx kind).toList → PlainName (j.filename ctx kind)

theorem Job.Rooted.mono {j : Job} {t t' : FileTree} (h : j.Rooted env ctx kind t)
    (ht : FileTree.DirsLe t t') : j.Rooted env ctx kind t' := ⟨h.walk.mono ht, h.plain⟩

theorem Job.run_rooted {j : Job} (hw : j.remove = false) (hd : j.decodes = true)
    (h : (j.run env ctx kind s).2.ioErrors = s.ioErrors) :
    j.Rooted env ctx kind (j.run env ctx kind s).2.tree := by
  obtain ⟨data, -, hfiles, hwalk⟩ := Job.run_assigns hd (by simp [hw]) h
  have hpresent : (Store.step env.sha256 s.tree.fileAt (j.assign env ctx kind data)).2
      (j.place env ctx kind) ≠ none := Job.step_present hw data s.tree.fileAt
  rw [← hfiles] at hpresent
  refine ⟨hwalk hw, fun hslash => FileTree.plainName_of_file hslash (hwalk hw) fun hdir => ?_⟩
  unfold FileTree.fileAt Job.place Env.place at hpresent
  rw [hdir] at hpresent
  exact hpresent rfl

theorem runActions_rooted {j : Job} (hj : j ∈ jobs as) (hw : j.remove = false)
    (hd : j.decodes = true) (h : (runActions env ctx kind as s).2.ioErrors = s.ioErrors) :
    j.Rooted env ctx kind (runActions env ctx kind as s).2.tree := by
  refine runActions_clean env ctx kind
    (P := fun js _ out => j ∈ js → j.Rooted env ctx kind out.2.tree) ?_ ?_ ?_ h hj
  · intro s hj
    cases hj
  · intro js s t out _ ih
    exact ih
  · intro x js s out hfirst htouch ih hj
    rcases List.mem_cons.1 hj with rfl | hj
    · exact (Job.run_rooted hw hd hfirst).mono htouch.dirs
    · exact ih hj

end Actions

/-! ## One update -/

section Update

variable {env : Env} {ctx : Ctx} {kind : Kind} {item : Item} {old : Old} {dest : String} {s : Sys}

/-- A key of `binaryData` is written to the path, after the leftovers of `data` were removed. -/
def Rewritten (env : Env) (ctx : Ctx) (kind : Kind) (item : Item) (dest : String) (p : Path)
    (leftover : Entry) : Prop :=
  leftover.contentType = contentTypeText ∧ ∃ x ∈ item.entries kind,
    x.contentType = contentTypeBase64Binary ∧ x.decodes = true ∧ item.target env ctx kind dest x = p

/-- **A leftover has no file** after an update without a failing call, unless its path is written to
again. -/
theorem update_removes {e : Entry} (he : e ∈ old.leftovers kind item dest) (hd : e.decodes = true)
    (hwalk : (e.job old.dest old.item true).Findable env ctx kind s.tree)
    (hnot : ¬Rewritten env ctx kind item dest (old.item.target env ctx kind old.dest e) e)
    (h : (runActions env ctx kind (plan kind item old dest false) s).2.ioErrors = s.ioErrors) :
    (runActions env ctx kind (plan kind item old dest false) s).2.tree.fileAt
      (old.item.target env ctx kind old.dest e) = none := by
  have htakes : (e.job old.dest old.item true).Takes env ctx kind
      (old.item.target env ctx kind old.dest e) s.tree := ⟨rfl, rfl, hd, hwalk⟩
  have hplan := jobs_plan_update kind item old dest
  have hremoves : ∀ l : List Entry, ∀ j ∈ l.map (Entry.job old.dest old.item true),
      j.remove = true ∨ j.decodes = false := by
    intro l j hj
    obtain ⟨x, -, rfl⟩ := List.mem_map.1 hj
    exact .inl rfl
  rw [Old.leftovers_eq] at he
  rcases List.mem_append.1 he with he | he
  · rw [List.append_assoc] at hplan
    refine runActions_gone hplan (fun j hj hplace => ?_)
      ⟨_, List.mem_append_left _ (List.mem_map_of_mem he), htakes⟩ h
    rcases List.mem_append.1 hj with hj | hj
    · exact hremoves _ j hj
    · rcases List.mem_append.1 hj with hj | hj
      · -- what is written later is in `binaryData`
        obtain ⟨x, hx, rfl⟩ := List.mem_map.1 hj
        cases hxd : (x.job dest item false).decodes with
        | false => exact .inr rfl
        | true => exact absurd ⟨contentType_of_mem (List.mem_filter.1 he).1, x,
            List.mem_append_right _ hx, contentType_of_mem hx, hxd, hplace⟩ hnot
      · exact hremoves _ j hj
  · -- the leftovers of `binaryData` come last
    rw [← List.append_assoc] at hplan
    exact runActions_gone hplan (fun j hj _ => hremoves _ j hj)
      ⟨_, List.mem_map_of_mem he, htakes⟩ h

/-- Compared with itself, a version has all its data keys left over in another folder, and none in
its own. -/
theorem leftovers_self (item : Item) (former dest : String) :
    Old.leftovers ⟨item, former⟩ kind item dest = if former = dest then []
      else item.entries kind := by
  unfold Old.leftovers isLeftover
  split
  · next hfolder =>
    refine List.filter_eq_nil_iff.2 fun e he => ?_
    have hid := List.mem_map_of_mem (f := Entry.id) he
    simp [hfolder, hid]
  · next hfolder => exact List.filter_eq_self.2 fun e _ => by simp [hfolder]

end Update

/-! ## Runs without a failing call -/

section Runs

variable {env : Env} {ctx : Ctx} {w₀ w : World} {calls : List Call} {kind : Kind} {v : Item}
  {folder : String}

/-- The files of a tracked resource can be walked to. -/
theorem Reaches.rooted (h : Reaches env ctx w₀ calls w) (hio : w.sys.ioErrors = w₀.sys.ioErrors)
    (hv : tracked calls (kind, v.key) = some v) (hf : lastFolder calls (kind, v.key) = some folder)
    {e : Entry} (he : e ∈ v.entries kind) (hd : e.decodes = true) :
    (e.job folder v false).Rooted env ctx kind w.sys.tree := by
  induction h with
  | start => cases hv
  | @call calls w c hreach _ ih =>
    obtain ⟨hbefore, hstep⟩ := count_squeeze hreach.traceLe (c.run_traceLe env ctx w) hio
    rw [Call.run_eq] at hstep ⊢
    by_cases hk : c.key = (kind, v.key)
    · -- the call wrote them
      rw [← hk, tracked_cons_self] at hv
      cases hr : c.isRemoved with
      | true => rw [hr] at hv; cases hv
      | false =>
        rw [hr] at hv
        obtain rfl : c.item = v := Option.some.inj hv
        obtain rfl : c.kind = kind := congrArg Prod.fst hk
        rw [lastFolder_cons, if_pos ⟨hr, hk⟩] at hf
        have hdest : c.dest w = folder := by
          unfold Call.dest
          rw [hr, hf]
          rfl
        have hjob : e.job folder c.item false ∈ c.jobs w :=
          (mem_jobs_update hr _).2 (.inl ⟨e, he, by rw [hdest]⟩)
        exact runActions_rooted hjob rfl hd hstep
    · rw [tracked_cons_of_ne hk] at hv
      rw [lastFolder_cons_of_ne hk] at hf
      exact (ih hbefore hv hf).mono (runActions_touches env ctx c.kind _ w.sys).dirs
  | idle hreach hidle ih =>
    rw [hidle.sys.tree]
    exact ih (count_squeeze hreach.traceLe hidle.sys.trace hio).1 hv hf

/-- The plan of an update is the same for the old item and for what the cache gives back of it. -/
theorem processResource_update {item : Item} {dest : String}
    (hold : (w.maps.enter kind item (some dest) false).1 = ⟨v.retained, folder⟩) :
    (processResource env ctx kind item (some dest) false w).2.sys =
      (runActions env ctx kind (plan kind item ⟨v, folder⟩ dest false) w.sys).2 := by
  unfold processResource
  rw [bind_apply]
  simp only [withMaps, hold, liftSys, Bool.false_eq_true, if_false, Option.getD_some]
  rw [syncItem_old, syncItem_eq_runActions]

end Runs

end Sidecar
