import Sidecar.Edits

/-!
# Deliveries after a failure

The maps are those of the new version as soon as an update starts, whatever fails after that. So
when the item is delivered again it is compared with itself: its data keys are written once more,
but nothing is removed any more. A leftover whose removal failed stays.
-/

namespace Sidecar

open Posix StateM

/-! ## Environments in which calls fail -/

/-- The environment with other failures of file-system calls. -/
def Env.failing (env : Env) (faults : Nat → Option Fault) : Env := { env with fault := faults }

theorem requestLoop_failing (env : Env) (faults : Nat → Option Fault) (enforceStatus : List UInt16)
    (req : HttpRequest) (remaining attempt : Nat) (lastErr : Option String) :
    requestLoop (env.failing faults) enforceStatus req remaining attempt lastErr =
      requestLoop env enforceStatus req remaining attempt lastErr := by
  induction remaining generalizing attempt lastErr with
  | zero => rfl
  | succ remaining ih =>
    unfold requestLoop
    simp only [ih]
    rfl

theorem request_failing (env : Env) (faults : Nat → Option Fault) (url method : Option String)
    (enable5xx : Bool) (payload : Option String) :
    request (env.failing faults) url method enable5xx payload =
      request env url method enable5xx payload := by
  unfold request
  simp only [requestLoop_failing]
  rfl

theorem Fetches.failing {env : Env} {ctx : Ctx} {body : String → ByteArray}
    (h : Fetches env ctx body)
    (faults : Nat → Option Fault) : Fetches (env.failing faults) ctx body := by
  intro url s
  rw [request_failing]
  exact h url s

/-! ## The bytes that files may have -/

/-- Every file has bytes from `B`. -/
def Sys.Holds (s : Sys) (B : Set ByteArray) : Prop := ∀ p b, s.tree.fileAt p = some b → b ∈ B

def KeepsHolding (B : Set ByteArray) (s s' : Sys) : Prop := s.Holds B → s'.Holds B

theorem KeepsHolding.preorder (B : Set ByteArray) : Preorder (KeepsHolding B) :=
  ⟨fun _ h => h, fun h h' hs => h' (h hs)⟩

theorem KeepsHolding.of_files {B : Set ByteArray} {s s' : Sys}
    (h : ∀ p, s'.tree.fileAt p = s.tree.fileAt p) : KeepsHolding B s s' := fun hs p b hb =>
  hs p b (h p ▸ hb)

/-- The data, and what is left of it by a write that fails. -/
def Beginnings (data : ByteArray) : Set ByteArray := {b | ∃ n, b = data.extract 0 n}

theorem self_mem_beginnings (data : ByteArray) : data ∈ Beginnings data :=
  ⟨data.size, ByteArray.extract_zero_size.symm⟩

section Holds

variable {env : Env} {ctx : Ctx} {kind : Kind} {body : String → ByteArray} {B : Set ByteArray}

theorem writeDataToFile_holds {data : ByteArray} (hdata : Beginnings data ⊆ B)
    (folder filename dataType : String) :
    Moves (KeepsHolding B) (writeDataToFile env folder filename data dataType) := by
  refine writeDataToFile_moves (KeepsHolding.preorder B)
    (fun _ _ h => .of_files fun p => h.files p not_false) (fun s => ?_) dataType
  refine (syscall_frame env _ _ _ (fun t t' => (∀ p b, t.fileAt p = some b → b ∈ B) →
    ∀ p b, t'.fileAt p = some b → b ∈ B) (fun t ht p b hb => ?_) (fun f t ht p b hb => ?_) s).2.1
  · rcases FileTree.fileAt_writeFile t env.proc (join folder filename) data p with hsame | hnew
    · exact ht p b (hsame ▸ hb)
    · rw [hnew] at hb
      exact hdata (Option.some.inj hb ▸ self_mem_beginnings data)
  · rcases FileTree.fileAt_writeFault t env.proc
      (join folder filename) data f p with hsame | ⟨n, hnew⟩
    · exact ht p b (hsame ▸ hb)
    · rw [hnew] at hb
      exact hdata ⟨n, (Option.some.inj hb).symm⟩

theorem removeFile_holds (folder filename : String) :
    Moves (KeepsHolding B) (removeFile env folder filename) := by
  intro s hs p b hb
  rcases removeFile_clearsFile env folder filename p s with hsame | hnone
  · exact hs p b (hsame ▸ hb)
  · rw [hnone] at hb
    cases hb

theorem Job.run_holds (hbody : Fetches env ctx body) {j : Job}
    (hj : j.remove = false → ∀ data, keyBytes body j.dataKey j.content = some data →
      Beginnings data ⊆ B) :
    Moves (KeepsHolding B) (j.run env ctx kind) := by
  intro s hs
  cases hd : j.decodes with
  | false =>
    unfold Sys.Holds
    rwa [Job.run_not_decodes hd s]
  | true =>
    obtain ⟨t, data, hst, hdata, htree, -⟩ := @Job.run_put env ctx kind j hd s
    have ht : t.Holds B := by
      unfold Sys.Holds
      rwa [hst.tree]
    unfold Sys.Holds
    rw [htree]
    cases hr : j.remove with
    | true =>
      rw [Job.put_of_remove env ctx kind j hr]
      exact removeFile_holds j.folder _ t ht
    | false =>
      rw [Job.put_of_write env ctx kind j hr]
      exact writeDataToFile_holds (hj hr data (Computes.eq hbody hdata)) j.folder _ _
        (j.handed kind data t) ht

theorem runActions_holds (hbody : Fetches env ctx body) {as : List Action}
    (has : ∀ j ∈ jobs as, j.remove = false → ∀ data, keyBytes body j.dataKey j.content = some data →
      Beginnings data ⊆ B) : Moves (KeepsHolding B) (runActions env ctx kind as) :=
  runActions_moves env ctx kind (KeepsHolding.preorder B)
    (fun _ _ h => .of_files fun p => (h.touches fun _ => False).files p not_false)
    fun j hj => Job.run_holds hbody (has j hj)

/-- Where all bytes are told apart, so are those of a data key. -/
theorem Sys.Holds.told {s : Sys} (hs : s.Holds B) (hB : Set.InjOn env.sha256 B)
    (hbody : Fetches env ctx body) {j : Job}
    (hj : ∀ data, keyBytes body j.dataKey j.content = some data → Beginnings data ⊆ B) :
    j.Told env ctx kind s.tree.fileAt := fun data hdata b hb hdigest =>
  hB (hs _ b hb) (hj data (Computes.eq hbody hdata) (self_mem_beginnings data)) hdigest

/-- **The last write to a path** is what is there in the end. -/
theorem runActions_wrote (hbody : Fetches env ctx body) (hB : Set.InjOn env.sha256 B)
    {as : List Action}
    (has : ∀ j ∈ jobs as, j.remove = false → ∀ data, keyBytes body j.dataKey j.content = some data →
      Beginnings data ⊆ B) {first rest : List Job} {j : Job} (hjobs : jobs as = first ++ j :: rest)
    (hw : j.remove = false) (hd : j.decodes = true)
    (hlast : ∀ x ∈ rest, x.decodes = true → x.place env ctx kind ≠ j.place env ctx kind) {s : Sys}
    (hs : s.Holds B) (h : (runActions env ctx kind as s).2.ioErrors = s.ioErrors) :
    j.Stored env ctx kind (runActions env ctx kind as s).2.tree.fileAt := by
  obtain ⟨as₁, as', rfl, -, hrest⟩ := List.filterMap_eq_append_iff.1 hjobs
  obtain ⟨as₂, a, as₃, rfl, -, ha, hlater⟩ := List.filterMap_eq_cons_iff.1 hrest
  obtain rfl : a = .file j := by
    cases a with
    | log => cases ha
    | file x => exact congrArg Action.file (Option.some.inj ha)
  have hj : j ∈ jobs (as₁ ++ (as₂ ++ .file j :: as₃)) := by
    rw [hjobs]
    exact List.mem_append_right _ List.mem_cons_self
  rw [← List.append_assoc] at has hj h ⊢
  rw [runActions_append, runActions_cons] at h ⊢
  dsimp only at h ⊢
  have hbefore := runActions_touches env ctx kind (as₁ ++ as₂) s
  have hat := j.run_touches env ctx kind (runActions env ctx kind (as₁ ++ as₂) s).2
  have hafter := runActions_touches env ctx kind as₃
    (j.run env ctx kind (runActions env ctx kind (as₁ ++ as₂) s).2).2
  have hcalm := count_squeeze hbefore.trace (hat.trace.trans hafter.trace) h
  have hheld : (runActions env ctx kind (as₁ ++ as₂) s).2.Holds B := by
    refine runActions_holds hbody (fun x hx => has x ?_) s hs
    rw [jobs_append]
    exact List.mem_append_left _ hx
  obtain ⟨data, hdata, hfile⟩ := Job.run_stored hw hd (hheld.told hB hbody (has j hj hw))
    (count_squeeze hat.trace hafter.trace hcalm.2).1
  exact ⟨data, hdata, (runActions_same (by rwa [show jobs as₃ = rest from hlater]) _).trans hfile⟩

end Holds

/-! ## Delivering an item -/

/-- The maps are updated once for all. -/
theorem Maps.enter_enter (m : Maps) (kind : Kind) (item : Item) (destFolder : Option String) :
    ((m.enter kind item destFolder false).2.enter kind item destFolder false).2 =
      (m.enter kind item destFolder false).2 := by
  have hobject :
      ((m.enter kind item destFolder false).2.enter kind item destFolder false).2.object =
        (m.enter kind item destFolder false).2.object := by
    refine Std.ExtTreeMap.ext_getElem? fun {k} => ?_
    rw [Maps.enter_object, Maps.enter_object]
    split <;> rfl
  have hdest : ((m.enter kind item destFolder false).2.enter kind item destFolder false).2.dest =
      (m.enter kind item destFolder false).2.dest := by
    refine Std.ExtTreeMap.ext_getElem? fun {k} => ?_
    rw [Maps.enter_dest, Maps.enter_dest]
    split <;> rfl
  have hversion :=
    Maps.enter_version (m.enter kind item destFolder false).2 kind item destFolder false
  have hext : ∀ m m' : Maps, m.version = m'.version → m.object = m'.object →
      m.dest = m'.dest → m = m' := by
    rintro ⟨⟩ ⟨⟩ rfl rfl rfl
    rfl
  exact hext _ _ hversion hobject hdest

section Delivery

variable (env : Env) (ctx : Ctx) (kind : Kind) (item : Item) (dest : String)

/-- The version that an update is compared with, and its folder. -/
def previous (w : World) : Old := (w.maps.enter kind item (some dest) false).1

/-- The world once the item was processed while calls fail. -/
def delivered (faults : Nat → Option Fault) (w : World) : World :=
  (processResource (env.failing faults) ctx kind item (some dest) false w).2

def noFaults : Nat → Option Fault := fun _ => none

/-- The item was processed again, this time without a failure. -/
def redelivered (faults : Nat → Option Fault) (w : World) : World :=
  delivered env ctx kind item dest noFaults (delivered env ctx kind item dest faults w)

theorem delivered_sys (faults : Nat → Option Fault) (w : World) :
    (delivered env ctx kind item dest faults w).sys = (runActions (env.failing faults) ctx kind
      (plan kind item (previous kind item dest w) dest false) w.sys).2 := by
  unfold delivered
  rw [processResource_eq]
  rfl

theorem delivered_maps (faults : Nat → Option Fault) (w : World) :
    (delivered env ctx kind item dest faults w).maps =
      (w.maps.enter kind item (some dest) false).2 := by
  unfold delivered
  rw [processResource_eq]

/-- The second time an item is compared with itself. -/
theorem redelivered_sys (faults : Nat → Option Fault) (w : World) :
    (redelivered env ctx kind item dest faults w).sys =
      (runActions (env.failing noFaults) ctx kind (plan kind item ⟨item, dest⟩ dest false)
        (delivered env ctx kind item dest faults w).sys).2 := by
  refine processResource_update ?_
  have hobject := Maps.enter_object w.maps kind item (some dest) false (kind, item.key)
  have hdest := Maps.enter_dest w.maps kind item (some dest) false (kind, item.key)
  rw [if_pos rfl] at hobject
  rw [if_pos ⟨rfl, rfl⟩] at hdest
  rw [delivered_maps, Maps.enter_old]
  unfold Maps.oldItem
  rw [hobject, hdest]
  rfl

/-- Then its data keys are written, and nothing is removed. -/
theorem jobs_again : jobs (plan kind item ⟨item, dest⟩ dest false) =
    (item.entries kind).map (Entry.job dest item false) := by
  have hnone := @leftovers_self kind item dest dest
  rw [if_pos rfl, Old.leftovers_eq, List.append_eq_nil_iff] at hnone
  rw [jobs_plan_update]
  dsimp only at hnone ⊢
  rw [hnone.1, hnone.2, List.map_nil, List.append_nil, List.append_nil, ← List.map_append]
  rfl

end Delivery

/-! ## What is left of a failure -/

/-- The bytes that files may have while an item is processed: those that are there, and what the
data keys and writes that fail leave. -/
def AtHand (body : String → ByteArray) (kind : Kind) (item : Item) (t : FileTree) : Set ByteArray :=
  {b | (∃ p, t.fileAt p = some b) ∨ ∃ e ∈ item.entries kind, ∃ data,
    keyBytes body e.dataKey e.content = some data ∧ b ∈ Beginnings data}

section Leftovers

variable {env : Env} {ctx : Ctx} {kind : Kind} {item : Item} {dest : String} {w : World}
  {body : String → ByteArray}

theorem plan_atHand (old : Old) (t : FileTree) {j : Job}
    (hj : j ∈ jobs (plan kind item old dest false)) (hr : j.remove = false) {data : ByteArray}
    (hdata : keyBytes body j.dataKey j.content = some data) :
    Beginnings data ⊆ AtHand body kind item t := by
  rw [(jobs_plan_perm ..).mem_iff] at hj
  rcases List.mem_append.1 hj with hj | hj
  · obtain ⟨e, he, rfl⟩ := List.mem_map.1 hj
    exact fun b hb => .inr ⟨e, he, data, hdata, hb⟩
  · obtain ⟨e, -, rfl⟩ := List.mem_map.1 hj
    cases hr

theorem exists_last {α : Type} {q : α → Prop} {l : List α} (h : ∃ a ∈ l, q a) :
    ∃ l₁ a l₂, l = l₁ ++ a :: l₂ ∧ q a ∧ ∀ b ∈ l₂, ¬q b := by
  induction l with
  | nil => simp at h
  | cons a l ih =>
    by_cases hl : ∃ b ∈ l, q b
    · obtain ⟨l₁, b, l₂, rfl, hb, hlast⟩ := ih hl
      exact ⟨a :: l₁, b, l₂, rfl, hb, hlast⟩
    · obtain ⟨b, hb, hqb⟩ := h
      rcases List.mem_cons.1 hb with rfl | hb
      · exact ⟨[], b, l, rfl, hqb, fun x hx hqx => hl ⟨x, hx, hqx⟩⟩
      · exact absurd ⟨b, hb, hqb⟩ hl

theorem exists_keyBytes {dataKey : String} {content : Content}
    (h : decodes dataKey content = true) :
    ∃ data, keyBytes body dataKey content = some data := by
  unfold keyBytes
  cases hkey : isUrlKey dataKey with
  | false => exact ⟨_, rfl⟩
  | true =>
    simp only [decodes, hkey, Bool.not_true, Bool.false_or] at h
    obtain ⟨url, hurl⟩ := Option.isSome_iff_exists.1 h
    exact ⟨body url, by rw [hurl]; rfl⟩

/-- An entry of the item is written to the path. -/
def WrittenTo (env : Env) (ctx : Ctx) (kind : Kind) (item : Item) (dest : String)
    (p : Path) : Prop :=
  ∃ x ∈ item.entries kind, x.decodes = true ∧ item.target env ctx kind dest x = p

theorem writes_elsewhere {p : Path} {l : List Entry}
    (hl : ∀ e ∈ l, ¬(e.decodes = true ∧ item.target env ctx kind dest e = p)) :
    ∀ x ∈ l.map (Entry.job dest item false), x.decodes = true → x.place env ctx kind ≠ p := by
  intro x hx hd hplace
  obtain ⟨e, he, rfl⟩ := List.mem_map.1 hx
  exact hl e he ⟨hd, hplace⟩

theorem drops_elsewhere {p : Path} {old : Old} {l : List Entry}
    (hl : ∀ e ∈ l, e.decodes = true → old.item.target env ctx kind old.dest e = p →
      Rewritten env ctx kind item dest p e)
      (hnot : ∀ e ∈ l, ¬Rewritten env ctx kind item dest p e) :
    ∀ x ∈ l.map (Entry.job old.dest old.item true), x.decodes = true →
    x.place env ctx kind ≠ p := by
  intro x hx hd hplace
  obtain ⟨e, he, rfl⟩ := List.mem_map.1 hx
  exact hnot e he (hl e he hd hplace)

section Writes

variable (hbody : Fetches env ctx body) {B : Set ByteArray} (hB : Set.InjOn env.sha256 B) {p : Path}
include hbody hB

/-- An update that leaves these bytes at the path, if it is made without a failure and its leftovers
there are written again. -/
def LeavesAt (env : Env) (ctx : Ctx) (kind : Kind) (item : Item) (dest : String)
    (body : String → ByteArray)
    (B : Set ByteArray) (p : Path) (data : ByteArray) (old : Old) (s : Sys) : Prop :=
  (∀ j ∈ jobs (plan kind item old dest false), j.remove = false → ∀ data,
    keyBytes body j.dataKey j.content = some data → Beginnings data ⊆ B) →
  (∀ e ∈ old.leftovers kind item dest, e.decodes = true →
    old.item.target env ctx kind old.dest e = p →
    Rewritten env ctx kind item dest p e) → s.Holds B →
  (runActions env ctx kind (plan kind item old dest false) s).2.ioErrors = s.ioErrors →
  (runActions env ctx kind (plan kind item old dest false) s).2.tree.fileAt p = some data

theorem leavesAt_of_last {e : Entry} {data : ByteArray} {old : Old}
    {first rest : List Job} (s : Sys)
    (hdata : keyBytes body e.dataKey e.content = some data) (hd : e.decodes = true)
    (htarget : item.target env ctx kind dest e = p)
    (hjobs : jobs (plan kind item old dest false) = first ++ e.job dest item false :: rest)
    (hlast : (∀ e ∈ old.leftovers kind item dest, e.decodes = true →
        old.item.target env ctx kind old.dest e = p → Rewritten env ctx kind item dest p e) →
      ∀ x ∈ rest, x.decodes = true → x.place env ctx kind ≠ p) :
    LeavesAt env ctx kind item dest body B p data old s := by
  intro hbytes hclear hs hcalm
  obtain ⟨data', hdata', hfile⟩ := runActions_wrote hbody hB hbytes hjobs rfl hd
    (fun x hx hxd => by rw [Entry.place_job, htarget]; exact hlast hclear x hx hxd) hs hcalm
  rw [Entry.place_job, htarget] at hfile
  rw [hfile, ← hdata]
  exact (Computes.eq hbody hdata').symm

/-- The last one of `binaryData` comes before its leftovers only, and those are not written
again. -/
theorem leaves_binary (hbin : ∃ x ∈ fieldEntries binEntries contentTypeBase64Binary item.binary,
      x.decodes = true ∧ item.target env ctx kind dest x = p) :
    ∃ data, ∀ old s, LeavesAt env ctx kind item dest body B p data old s := by
  obtain ⟨l₁, e, l₂, hl, ⟨hd, htarget⟩, hlast⟩ := exists_last hbin
  obtain ⟨data, hdata⟩ := @exists_keyBytes body e.dataKey e.content hd
  refine ⟨data, fun old s => ?_⟩
  have hplan := jobs_plan_update kind item old dest
  rw [hl, List.map_append, List.map_cons] at hplan
  simp only [List.append_assoc, List.cons_append] at hplan
  simp only [← List.append_assoc] at hplan
  refine leavesAt_of_last hbody hB s hdata hd htarget hplan fun hclear x hx => ?_
  rcases List.mem_append.1 hx with hx | hx
  · exact writes_elsewhere hlast x hx
  · refine drops_elsewhere (fun y hy => hclear y ?_) (fun y hy hre => ?_) x hx
    · rw [Old.leftovers_eq]
      exact List.mem_append_right _ hy
    · exact contentType_ne (hre.1.symm.trans (contentType_of_mem (List.mem_filter.1 hy).1))

/-- Without one in `binaryData`, nothing comes after the last one of `data`. -/
theorem leaves_text (hbin : ¬∃ x ∈ fieldEntries binEntries contentTypeBase64Binary item.binary,
      x.decodes = true ∧ item.target env ctx kind dest x = p)
    (htext : ∃ x ∈ fieldEntries textEntries contentTypeText (item.textOf kind),
      x.decodes = true ∧ item.target env ctx kind dest x = p) :
    ∃ data, ∀ old s, LeavesAt env ctx kind item dest body B p data old s := by
  obtain ⟨l₁, e, l₂, hl, ⟨hd, htarget⟩, hlast⟩ := exists_last htext
  obtain ⟨data, hdata⟩ := @exists_keyBytes body e.dataKey e.content hd
  refine ⟨data, fun old s => ?_⟩
  have hnot : ∀ y ∈ old.leftovers kind item dest, ¬Rewritten env ctx kind item dest p y := by
    rintro y - ⟨-, z, hz, hztype, hzd, hztarget⟩
    rcases List.mem_append.1 hz with hz | hz
    · exact contentType_ne ((contentType_of_mem hz).symm.trans hztype)
    · exact hbin ⟨z, hz, hzd, hztarget⟩
  have hplan := jobs_plan_update kind item old dest
  rw [hl, List.map_append, List.map_cons] at hplan
  simp only [List.append_assoc, List.cons_append] at hplan
  refine leavesAt_of_last hbody hB s hdata hd htarget hplan fun hclear x hx => ?_
  have hdrops := drops_elsewhere hclear hnot
  rw [Old.leftovers_eq, List.map_append] at hdrops
  rcases List.mem_append.1 hx with hx | hx
  · exact writes_elsewhere hlast x hx
  · rcases List.mem_append.1 hx with hx | hx
    · exact hdrops x (List.mem_append_left _ hx)
    · rcases List.mem_append.1 hx with hx | hx
      · exact writes_elsewhere (fun y hy hyp => hbin ⟨y, hy, hyp⟩) x hx
      · exact hdrops x (List.mem_append_right _ hx)

/-- **A path that the item is written to** has the same bytes after every update whose leftovers
there are written again. -/
theorem update_writes (hp : WrittenTo env ctx kind item dest p) :
    ∃ data, ∀ old s, LeavesAt env ctx kind item dest body B p data old s := by
  by_cases hbin : ∃ x ∈ fieldEntries binEntries contentTypeBase64Binary item.binary,
      x.decodes = true ∧ item.target env ctx kind dest x = p
  · exact leaves_binary hbody hB hbin
  · obtain ⟨x, hx, hxd, hxtarget⟩ := hp
    refine leaves_text hbody hB hbin ⟨x, ?_, hxd, hxtarget⟩
    rcases List.mem_append.1 hx with hx | hx
    · exact hx
    · exact absurd ⟨x, hx, hxd, hxtarget⟩ hbin

end Writes

/-- Every leftover is removed before its path is written to again, or it has no file that could
outlive its removal. -/
def Harmless (env : Env) (ctx : Ctx) (kind : Kind) (item : Item) (old : Old) (dest : String)
    (t : FileTree) : Prop :=
  ∀ e ∈ old.leftovers kind item dest, e.decodes = true →
    Rewritten env ctx kind item dest (old.item.target env ctx kind old.dest e) e ∨
      t.fileAt (old.item.target env ctx kind old.dest e) = none ∧
        ¬WrittenTo env ctx kind item dest (old.item.target env ctx kind old.dest e)

/-- A job that goes to a path with bytes writes the item there, or removes a leftover. -/
theorem update_job_cases {old : Old} {p : Path} {j : Job}
    (hj : j ∈ jobs (plan kind item old dest false)) (hd : j.decodes = true)
    (hp : j.place env ctx kind = p) : WrittenTo env ctx kind item dest p ∨
      ∃ e ∈ old.leftovers kind item dest, e.decodes = true ∧
        old.item.target env ctx kind old.dest e = p := by
  rw [(jobs_plan_perm ..).mem_iff] at hj
  rcases List.mem_append.1 hj with hj | hj
  · obtain ⟨e, he, rfl⟩ := List.mem_map.1 hj
    exact .inl ⟨e, he, hd, hp⟩
  · obtain ⟨e, he, rfl⟩ := List.mem_map.1 hj
    exact .inr ⟨e, he, hd, hp⟩

/-- No file that the failures left is lost. -/
theorem redelivered_keepsFile (faults : Nat → Option Fault) (p : Path) :
    KeepsFile p (delivered env ctx kind item dest faults w).sys
      (redelivered env ctx kind item dest faults w).sys := by
  rw [redelivered_sys]
  refine runActions_keepsFile (fun j hj hremove => ?_) _
  rw [jobs_again] at hj
  obtain ⟨e, -, rfl⟩ := List.mem_map.1 hj
  cases hremove

/-- A path the item is not written to is as the failures left it. -/
theorem redelivered_same (faults : Nat → Option Fault) {p : Path}
    (hp : ¬WrittenTo env ctx kind item dest p) :
    (redelivered env ctx kind item dest faults w).sys.tree.fileAt p =
      (delivered env ctx kind item dest faults w).sys.tree.fileAt p := by
  rw [redelivered_sys]
  refine runActions_same (fun j hj hd hplace => ?_) _
  rw [jobs_again] at hj
  obtain ⟨e, he, rfl⟩ := List.mem_map.1 hj
  exact hp ⟨e, he, hd, hplace⟩

end Leftovers

/-! ## What a second delivery heals -/

section Heals

variable (env : Env) (ctx : Ctx) (kind : Kind) (item : Item) (dest : String)

/-- The item can be processed again without a failure. -/
def Repeats (faults : Nat → Option Fault) (w : World) : Prop :=
  (redelivered env ctx kind item dest faults w).sys.ioErrors =
    (delivered env ctx kind item dest faults w).sys.ioErrors

/-- Then the files are as if nothing had failed. -/
def Heals (faults : Nat → Option Fault) (w : World) : Prop :=
  (redelivered env ctx kind item dest faults w).sys.tree.fileAt =
    (delivered env ctx kind item dest noFaults w).sys.tree.fileAt

/-- An update of `old` to the item that could be made without a failure, where digests tell apart
the bytes that files may have, and the leftovers can be walked to. -/
structure Update (body : String → ByteArray) (old : Old) (w : World) : Prop where
  previous : previous kind item dest w = old
  fetches : Fetches env ctx body
  told : Set.InjOn env.sha256 (AtHand body kind item w.sys.tree)
  calm : (delivered env ctx kind item dest noFaults w).sys.ioErrors = w.sys.ioErrors
  walk : ∀ e ∈ old.leftovers kind item dest, e.decodes = true →
    (e.job old.dest old.item true).Findable env ctx kind w.sys.tree

end Heals

namespace Update

variable {env : Env} {ctx : Ctx} {kind : Kind} {item : Item} {dest : String} {w : World}
  {body : String → ByteArray} {old : Old} (h : Update env ctx kind item dest body old w)
include h

theorem delivered_eq (faults : Nat → Option Fault) :
    (delivered env ctx kind item dest faults w).sys =
      (runActions (env.failing faults) ctx kind (plan kind item old dest false) w.sys).2 := by
  rw [delivered_sys, h.previous]

theorem held (faults : Nat → Option Fault) :
    (delivered env ctx kind item dest faults w).sys.Holds (AtHand body kind item w.sys.tree) := by
  rw [h.delivered_eq]
  exact runActions_holds (h.fetches.failing faults) (fun j hj hr _ => plan_atHand _ _ hj hr) _
    fun p b hb => .inl ⟨p, hb⟩

/-- A path that the item is written to has the same bytes in the end, if no leftover takes them. -/
theorem written_alike {faults : Nat → Option Fault}
    (hrepeats : Repeats env ctx kind item dest faults w)
    {p : Path} (hp : WrittenTo env ctx kind item dest p) : ∃ data : ByteArray,
      (redelivered env ctx kind item dest faults w).sys.tree.fileAt p = some data ∧
      ((∀ e ∈ old.leftovers kind item dest, e.decodes = true →
        old.item.target env ctx kind old.dest e = p → Rewritten env ctx kind item dest p e) →
      (delivered env ctx kind item dest noFaults w).sys.tree.fileAt p = some data) := by
  obtain ⟨data, hdata⟩ := update_writes (h.fetches.failing noFaults) h.told hp
  refine ⟨data, ?_, fun hclear => ?_⟩
  · rw [redelivered_sys]
    refine hdata ⟨item, dest⟩ _ (fun j hj hr _ => plan_atHand _ _ hj hr) (fun x hx => ?_)
      (h.held faults) ?_
    · rw [leftovers_self, if_pos rfl] at hx
      cases hx
    · rw [← redelivered_sys]
      exact hrepeats
  · rw [h.delivered_eq]
    refine hdata old w.sys (fun j hj hr _ => plan_atHand _ _ hj hr) hclear
      (fun p b hb => .inl ⟨p, hb⟩) ?_
    rw [← h.delivered_eq]
    exact h.calm

/-- A leftover has no file when nothing fails. -/
theorem gone {e : Entry} (he : e ∈ old.leftovers kind item dest) (hd : e.decodes = true)
    (hnot : ¬Rewritten env ctx kind item dest (old.item.target env ctx kind old.dest e) e) :
    (delivered env ctx kind item dest noFaults w).sys.tree.fileAt
      (old.item.target env ctx kind old.dest e) = none := by
  have hcalm := h.calm
  rw [h.delivered_eq] at hcalm ⊢
  exact update_removes he hd (h.walk e he hd) hnot hcalm

/-- A path of no leftover that the item is not written to is left alone. -/
theorem delivered_same (faults : Nat → Option Fault) {p : Path}
    (hp : ¬WrittenTo env ctx kind item dest p)
    (hl : ∀ e ∈ old.leftovers kind item dest, e.decodes = true →
      old.item.target env ctx kind old.dest e ≠ p) :
    (delivered env ctx kind item dest faults w).sys.tree.fileAt p = w.sys.tree.fileAt p := by
  rw [h.delivered_eq]
  refine runActions_same (fun j hj hd hplace => ?_) _
  rcases update_job_cases hj hd hplace with hwritten | ⟨e, he, hed, htarget⟩
  · exact hp hwritten
  · exact hl e he hed htarget

/-- **What a second delivery heals**: all but a leftover that the first one did not remove, or that
takes a file of the item. -/
theorem heals_iff {faults : Nat → Option Fault}
    (hrepeats : Repeats env ctx kind item dest faults w) :
    Heals env ctx kind item dest faults w ↔ Harmless env ctx kind item old dest
      (delivered env ctx kind item dest faults w).sys.tree := by
  constructor
  · intro hheals e he hd
    by_cases hre : Rewritten env ctx kind item dest (old.item.target env ctx kind old.dest e) e
    · exact .inl hre
    · have hnone := h.gone he hd hre
      rw [← congrFun hheals] at hnone
      have hnot : ¬WrittenTo env ctx kind item dest (old.item.target env ctx kind old.dest e) := by
        intro hp
        obtain ⟨data, hdata, -⟩ := h.written_alike hrepeats hp
        rw [hnone] at hdata
        cases hdata
      exact .inr ⟨(redelivered_same faults hnot).symm.trans hnone, hnot⟩
  · intro hharmless
    funext p
    by_cases hp : WrittenTo env ctx kind item dest p
    · obtain ⟨data, hdata, hsingle⟩ := h.written_alike hrepeats hp
      rw [hdata, hsingle fun e he hd htarget => ?_]
      rcases hharmless e he hd with hre | ⟨-, hnot⟩
      · exact htarget ▸ hre
      · exact absurd (htarget ▸ hp) hnot
    · rw [redelivered_same faults hp]
      by_cases hl : ∃ e ∈ old.leftovers kind item dest, e.decodes = true ∧
          old.item.target env ctx kind old.dest e = p
      · obtain ⟨e, he, hd, rfl⟩ := hl
        have hnot :
            ¬Rewritten env ctx kind item dest (old.item.target env ctx kind old.dest e) e := by
          rintro ⟨-, x, hx, -, hxd, htarget⟩
          exact hp ⟨x, hx, hxd, htarget⟩
        rcases hharmless e he hd with hre | ⟨hnone, -⟩
        · exact absurd hre hnot
        · rw [hnone, h.gone he hd hnot]
      · have hl' : ∀ e ∈ old.leftovers kind item dest, e.decodes = true →
            old.item.target env ctx kind old.dest e ≠ p := fun e he hd htarget =>
          hl ⟨e, he, hd, htarget⟩
        rw [h.delivered_same faults hp hl', h.delivered_same noFaults hp hl']

end Update

/-! ## Failures of everything -/

def allFaults : Nat → Option Fault := fun _ => some ⟨.other, 0⟩

def SameFile (p : Path) (s s' : Sys) : Prop := s'.tree.fileAt p = s.tree.fileAt p

theorem SameFile.preorder (p : Path) : Preorder (SameFile p) :=
  ⟨fun _ => rfl, fun h h' => h'.trans h⟩

section AllFaults

variable (env : Env) (ctx : Ctx) (kind : Kind) (p : Path)

theorem writeDataToFile_allFaults (folder filename : String) (data : ByteArray)
    (dataType : String) :
    Moves (SameFile p) (writeDataToFile (env.failing allFaults) folder filename data dataType) := by
  have hwrite :
      Moves (SameFile p) (writeFile (env.failing allFaults) (join folder filename) data) :=
    fun _ => rfl
  exact writeDataToFile_moves (SameFile.preorder p) (fun _ _ h => h.files p not_false)
    hwrite dataType

theorem removeFile_allFaults (folder filename : String) :
    Moves (SameFile p) (removeFile (env.failing allFaults) folder filename) := by
  have hp := SameFile.preorder p
  have hsilent : ∀ {α : Type} {x : M α}, Moves Silent x → Moves (SameFile p) x := fun hx =>
    hx.mono fun _ _ h => congrArg (FileTree.fileAt · p) h.tree
  refine Moves.bind hp (hsilent (isFile_silent _ _)) fun _ => Moves.ite ?_ ?_
  · exact Moves.bind hp (hsilent (log_silent _ _)) fun _ => Moves.bind hp (fun _ => rfl) fun _ =>
      Moves.pure hp _
  · exact Moves.bind hp (hsilent (log_silent _ _)) fun _ => Moves.pure hp _

/-- Where everything fails no file changes. -/
theorem runActions_allFaults (as : List Action) :
    Moves (SameFile p) (runActions (env.failing allFaults) ctx kind as) := by
  have hcalm : ∀ s s', Silent s s' → SameFile p s s' :=
    fun _ _ h => (h.touches fun _ => False).files p not_false
  refine runActions_moves _ ctx kind (SameFile.preorder p) hcalm fun j _ =>
    Job.run_moves _ ctx kind j (SameFile.preorder p) hcalm fun data s => ?_
  cases hr : j.remove with
  | true =>
    rw [Job.put_of_remove _ ctx kind j hr]
    exact removeFile_allFaults env p j.folder (j.filename ctx kind) s
  | false =>
    rw [Job.put_of_write _ ctx kind j hr]
    exact writeDataToFile_allFaults env p j.folder (j.filename ctx kind) data j.contentType
      (j.handed kind data s)

end AllFaults

/-! ## Sample deliveries -/

theorem beginnings_v {b : ByteArray} (h : b ∈ Beginnings "v".toUTF8) : b = .empty ∨
    b = "v".toUTF8 := by
  obtain ⟨n, rfl⟩ := h
  cases n with
  | zero => exact .inl ByteArray.extract_same
  | succ n =>
    have hsize : "v".toUTF8.data.size ≤ n + 1 := by
      have : "v".toUTF8.data.size = 1 := by decide
      omega
    exact .inr (ByteArray.ext (ByteArray.data_extract.trans (Array.extract_eq_self_of_le hsize)))

theorem sampleDigest_told : Set.InjOn sampleDigest (Beginnings "v".toUTF8) := by
  intro a ha b hb hdigest
  obtain rfl | rfl := beginnings_v ha <;> obtain rfl | rfl := beginnings_v hb
  · rfl
  · exact absurd hdigest (by decide)
  · exact absurd hdigest (by decide)
  · rfl

/-- The data key `k` with the value `v`. -/
def oneKey : Item := sampleVersion none (some [("k", "v")]) none

/-- Its former name. -/
def formerKey : Item := sampleVersion none (some [("j", "v")]) none

/-- Both. -/
def twoKeys : Item := sampleVersion none (some [("j", "v"), ("k", "v")]) none

theorem sampleFirst_holds :
    (sampleFirst formerKey "/data").sys.Holds (Beginnings "v".toUTF8) := by
  have hbytes : ∀ j ∈ jobs (plan .configMap formerKey
      (sampleWorld.maps.enter .configMap formerKey (some "/data") false).1 "/data" false),
      isUrlKey j.dataKey = false ∧ j.content.bytes = "v".toUTF8 := by decide +kernel
  unfold sampleFirst
  rw [Call.run_eq]
  refine runActions_holds sampleEnv_fetches (fun j hj _ data hdata => ?_) _ fun p b hb => ?_
  · obtain ⟨hkey, hvalue⟩ := hbytes j hj
    rw [keyBytes, hkey, hvalue] at hdata
    exact Option.some.inj hdata ▸ Set.Subset.rfl
  · unfold sampleWorld FileTree.empty FileTree.fileAt at hb
    split at hb
    · next hnode =>
      dsimp only at hnode
      split at hnode <;> cases hnode
    · cases hb

/-- The data key `j` is dropped for `k`. -/
theorem sample_update :
    Update sampleEnv sampleCtx .configMap oneKey "/data" (fun _ => "body".toUTF8)
      (previous .configMap oneKey "/data" (sampleFirst formerKey "/data"))
      (sampleFirst formerKey "/data") where
  previous := rfl
  fetches := sampleEnv_fetches
  told := by
    have hbytes : ∀ e ∈ oneKey.entries .configMap,
        isUrlKey e.dataKey = false ∧ e.content.bytes = "v".toUTF8 := by decide +kernel
    refine sampleDigest_told.mono ?_
    rintro b (⟨p, hp⟩ | ⟨e, he, data, hdata, hb⟩)
    · exact sampleFirst_holds p b hp
    · obtain ⟨hkey, hvalue⟩ := hbytes e he
      rw [keyBytes, hkey, hvalue] at hdata
      exact Option.some.inj hdata ▸ hb
  calm := by decide +kernel
  walk := by
    have hdest :
        Straight (previous .configMap oneKey "/data" (sampleFirst formerKey "/data")).dest := by
      decide +kernel
    have hname :
        ∀ e ∈ (previous .configMap oneKey "/data" (sampleFirst formerKey "/data")).leftovers
          .configMap oneKey "/data",
        (e.job "/data" formerKey true).filename sampleCtx .configMap = "j" := by
      decide +kernel
    intro e he _
    refine Job.findable_of_straight hdest ?_
    have hplain : PlainName "j" := ⟨by decide, by decide, by decide, by decide⟩
    exact (hname e he).symm ▸ hplain

/-- One call fails. -/
def failsAt (call : Nat) : Nat → Option Fault :=
  fun n => if n = call then some ⟨.other, 0⟩ else none

section Retry

variable {env : Env} {ctx : Ctx} {kind : Kind} {item : Item} {dest : String} {w : World}
  {body : String → ByteArray} {old : Old}

/-- A leftover without a file that the item is not written to cannot get one. -/
theorem Update.harmless_delivered (h : Update env ctx kind item dest body old w)
    (hharmless : Harmless env ctx kind item old dest w.sys.tree) (faults : Nat → Option Fault) :
    Harmless env ctx kind item old dest (delivered env ctx kind item dest faults w).sys.tree := by
  intro e he hd
  refine (hharmless e he hd).imp_right fun ⟨hnone, hnot⟩ => ⟨?_, hnot⟩
  rw [h.delivered_eq]
  refine (runActions_clears (fun j hj hplace => ?_) w.sys).none hnone
  by_contra hkeeps
  rw [not_or] at hkeeps
  rw [(jobs_plan_perm ..).mem_iff] at hj
  rcases List.mem_append.1 hj with hj | hj
  · obtain ⟨x, hx, rfl⟩ := List.mem_map.1 hj
    exact hnot ⟨x, hx, (Bool.not_eq_false _).mp hkeeps.2, hplace⟩
  · obtain ⟨x, -, rfl⟩ := List.mem_map.1 hj
    exact hkeeps.1 rfl

/-- **Delivering an item again after a failure.** The maps are as if nothing had failed. No file is
lost, and one at a path the item is not written to stays as the failures left it. The files are as
if nothing had failed if and only if every leftover is gone after the first delivery, unless its
path is written to again, and takes no file of the item. So they are after whatever failures, if and
only if there was no file of a leftover to begin with. -/
theorem redelivery_heals (h : Update env ctx kind item dest body old w) :
    (∀ faults, (redelivered env ctx kind item dest faults w).maps =
      (delivered env ctx kind item dest noFaults w).maps) ∧
    (∀ faults p, KeepsFile p (delivered env ctx kind item dest faults w).sys
        (redelivered env ctx kind item dest faults w).sys ∧
      (¬WrittenTo env ctx kind item dest p →
        (redelivered env ctx kind item dest faults w).sys.tree.fileAt p =
          (delivered env ctx kind item dest faults w).sys.tree.fileAt p)) ∧
    (∀ faults, Repeats env ctx kind item dest faults w → (Heals env ctx kind item dest faults w ↔
      Harmless env ctx kind item old dest (delivered env ctx kind item dest faults w).sys.tree)) ∧
    (Repeats env ctx kind item dest noFaults w → Repeats env ctx kind item dest allFaults w →
      ((∀ faults, Repeats env ctx kind item dest faults w → Heals env ctx kind item dest faults w) ↔
        Harmless env ctx kind item old dest w.sys.tree)) := by
  refine ⟨fun faults => ?_, fun faults p =>
    ⟨redelivered_keepsFile faults p, redelivered_same faults⟩,
    fun faults hrepeats => h.heals_iff hrepeats, fun hnone hall => ⟨?_, ?_⟩⟩
  · unfold redelivered
    rw [delivered_maps, delivered_maps, delivered_maps, Maps.enter_enter]
  · intro hheals e he hd
    -- nothing fails: then no leftover takes a file of the item; everything fails: then none has a
    -- file
    refine ((h.heals_iff hnone).1 (hheals noFaults hnone) e he hd).imp_right
      fun ⟨_, hnot⟩ => ⟨?_, hnot⟩
    rcases (h.heals_iff hall).1 (hheals allFaults hall) e he hd with ⟨-, x, hx, -, hxd,
      htarget⟩ | ⟨hgone, -⟩
    · exact absurd ⟨x, hx, hxd, htarget⟩ hnot
    · rw [h.delivered_eq] at hgone
      exact (runActions_allFaults env ctx kind _ _ w.sys).symm.trans hgone
  · intro hharmless faults hrepeats
    exact (h.heals_iff hrepeats).2 (h.harmless_delivered hharmless faults)

/-- A failed write is made up for by the second delivery, a failed removal is not. -/
theorem redelivery_heals_sample :
    Heals sampleEnv sampleCtx .configMap oneKey "/data" (failsAt 6)
      (sampleFirst formerKey "/data") ∧
      ¬Heals sampleEnv sampleCtx .configMap oneKey "/data" (failsAt 8)
        (sampleFirst formerKey "/data") := by
  have hrepeats : ∀ n ∈ [6, 8], Repeats sampleEnv sampleCtx .configMap oneKey "/data" (failsAt n)
      (sampleFirst formerKey "/data") := by
    unfold Repeats
    decide +kernel
  have hheals := fun n hn => (redelivery_heals sample_update).2.2.1 (failsAt n) (hrepeats n hn)
  rw [hheals 6 (by decide), hheals 8 (by decide)]
  unfold Harmless Rewritten WrittenTo
  constructor <;> decide +kernel

/-- An item that is processed again after failures leaves the files and the maps as if there had
been none. -/
def RetriesHeal (env : Env) (ctx : Ctx) (kind : Kind) : Prop :=
  ∀ w item dest faults, w.maps.Reachable →
    (delivered env ctx kind item dest noFaults w).sys.ioErrors = w.sys.ioErrors →
    Repeats env ctx kind item dest faults w →
    (redelivered env ctx kind item dest faults w).maps =
      (delivered env ctx kind item dest noFaults w).maps ∧
      Heals env ctx kind item dest faults w

/-- The data key `j` is dropped, and the removal of its file fails. -/
theorem failed_removal_is_not_repeated : ¬RetriesHeal sampleEnv sampleCtx .configMap := by
  intro hheals
  have hreach : (sampleFirst twoKeys "/data").maps.Reachable :=
    sampleTrail_reachable [.upsert .configMap twoKeys "/data"]
  have hcalm : (delivered sampleEnv sampleCtx .configMap oneKey "/data" noFaults
      (sampleFirst twoKeys "/data")).sys.ioErrors = (sampleFirst twoKeys "/data").sys.ioErrors := by
    decide +kernel
  have hrepeats : Repeats sampleEnv sampleCtx .configMap oneKey "/data" (failsAt 11)
      (sampleFirst twoKeys "/data") := by
    unfold Repeats
    decide +kernel
  have hfile :=
    congrFun (hheals _ oneKey "/data" (failsAt 11) hreach hcalm hrepeats).2 ["j", "data"]
  have hgone : (delivered sampleEnv sampleCtx .configMap oneKey "/data" noFaults
      (sampleFirst twoKeys "/data")).sys.tree.fileAt ["j", "data"] = none := by decide +kernel
  have hthere : (redelivered sampleEnv sampleCtx .configMap oneKey "/data" (failsAt 11)
      (sampleFirst twoKeys "/data")).sys.tree.fileAt ["j", "data"] ≠ none := by decide +kernel
  exact hthere (hfile.trans hgone)

end Retry

end Sidecar
