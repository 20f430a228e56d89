import Sidecar.Edits

/-!
# Keys and folders that move

The fields of a ConfigMap are synced one after the other, and each is compared with its own old keys
only: a key that goes from `binaryData` to `data` is written and then removed (`moved_keys_kept`).
The old folder and the new one are compared as strings: a folder that is spelled anew is emptied of
what was just written there (`moved_folder_kept`).
-/

namespace Sidecar

open Posix StateM

/-! ## Plain data keys -/

/-- `data` and `binaryData` have no key in common, as the API enforces. -/
def Item.Disjoint (kind : Kind) (item : Item) : Prop :=
  ∀ k ∈ fieldKeys (item.textOf kind), k ∉ fieldKeys item.binary

/-- No data key is a `*.url` key. -/
def Item.Plain (kind : Kind) (item : Item) : Prop :=
  ∀ e ∈ item.entries kind, isUrlKey e.dataKey = false

section Plain

variable {kind : Kind} {item v : Item} {e : Entry} {folder dest : String}

theorem Item.Plain.fileName (h : item.Plain kind) (he : e ∈ item.entries kind) :
    e.fileName = e.dataKey := dataFileName_of_plain (h e he)

theorem Item.Plain.fileNames_nodup (h : item.Plain kind) (hd : item.Disjoint kind) :
    ((item.entries kind).map Entry.fileName).Nodup := by
  have hkeys : (item.entries kind).map Entry.fileName =
      ((item.entries kind).map Entry.id).map Prod.snd := by
    rw [List.map_map]
    exact List.map_congr_left fun e he => h.fileName he
  rw [hkeys, ids_entries, List.map_append, List.map_map, List.map_map, List.nodup_append]
  simp only [Function.comp_def, List.map_id']
  refine ⟨fieldKeys_nodup _, fieldKeys_nodup _, ?_⟩
  rintro k hk k' hk' rfl
  exact hd k hk hk'

/-- No leftover is removed after a data key of the new version is written to its file: in one folder
no key moves from `binaryData` to `data`, and to another spelling of the folder no key goes along
but from `data` to `binaryData`. -/
def Undisturbed (kind : Kind) (v : Item) (folder : String) (item : Item) (dest : String) : Prop :=
  if folder = dest then ∀ k ∈ fieldKeys v.binary, k ∉ fieldKeys (item.textOf kind)
  else (∀ k ∈ fieldKeys (item.textOf kind), k ∉ fieldKeys (v.textOf kind) ∧
    k ∉ fieldKeys v.binary) ∧
    ∀ k ∈ fieldKeys item.binary, k ∉ fieldKeys v.binary

theorem undisturbed_iff (hv : v.Plain kind) (hi : item.Plain kind) (hd : item.Disjoint kind) :
    (∀ e ∈ item.entries kind, ∀ e' ∈ Old.leftovers ⟨v, folder⟩ kind item dest,
      RemovedAfter e e' → e'.fileName ≠ e.fileName) ↔ Undisturbed kind v folder item dest := by
  have hleft : ∀ e' ∈ v.entries kind, (folder = dest → e'.id ∉ (item.entries kind).map Entry.id) →
      e' ∈ Old.leftovers ⟨v, folder⟩ kind item dest := fun e' he' hid =>
    List.mem_filter.2 ⟨he', decide_eq_true hid⟩
  have hbinary : ∀ {e e' : Entry}, e'.contentType = contentTypeBase64Binary → RemovedAfter e e' :=
    fun htype htext => absurd (htext.symm.trans htype) contentType_ne
  constructor
  · intro hclear
    -- two data keys with one name would be a leftover after a write
    have hmeet : ∀ e ∈ item.entries kind, ∀ e' ∈ v.entries kind,
        (folder = dest → e'.id ∉ (item.entries kind).map Entry.id) → RemovedAfter e e' →
        e'.dataKey ≠ e.dataKey := by
      intro e he e' he' hid hafter hkey
      refine hclear e he e' (hleft e' he' hid) hafter ?_
      rw [hv.fileName he', hi.fileName he, hkey]
    unfold Undisturbed
    split
    · intro k hk hk'
      obtain ⟨e', he', htype', rfl⟩ := exists_binary_entry kind hk
      obtain ⟨e, he, -, hkey⟩ := exists_text_entry hk'
      refine hmeet e he e' he' (fun _ hid => ?_) (hbinary htype') hkey.symm
      rw [Entry.id, htype', mem_ids_binary] at hid
      exact hd _ hk' hid
    · next hne =>
      refine ⟨fun k hk => ⟨fun hk' => ?_, fun hk' => ?_⟩, fun k hk hk' => ?_⟩
      · obtain ⟨e, he, htype, rfl⟩ := exists_text_entry hk
        obtain ⟨e', he', -, hkey⟩ := exists_text_entry hk'
        exact hmeet e he e' he' (fun h => absurd h hne) (fun _ => htype) hkey
      · obtain ⟨e, he, -, rfl⟩ := exists_text_entry hk
        obtain ⟨e', he', htype', hkey⟩ := exists_binary_entry kind hk'
        exact hmeet e he e' he' (fun h => absurd h hne) (hbinary htype') hkey
      · obtain ⟨e, he, -, rfl⟩ := exists_binary_entry kind hk
        obtain ⟨e', he', htype', hkey⟩ := exists_binary_entry kind hk'
        exact hmeet e he e' he' (fun h => absurd h hne) (hbinary htype') hkey
  · intro hund e he e' he' hafter hfile
    obtain ⟨hold, hid⟩ := List.mem_filter.1 he'
    rw [hv.fileName hold, hi.fileName he] at hfile
    unfold Undisturbed at hund
    split at hund
    · next hfolder =>
      -- in one folder a data key that stays in its field is no leftover
      have hid' : e'.contentType ≠ e.contentType := by
        intro htype
        refine of_decide_eq_true hid hfolder ?_
        rw [show e'.id = e.id from Prod.ext htype hfile]
        exact List.mem_map_of_mem he
      rcases mem_entries_cases hold with ⟨htype', -⟩ | ⟨htype', hk'⟩
      · exact hid' (htype'.trans (hafter htype').symm)
      · rcases mem_entries_cases he with ⟨-, hk⟩ | ⟨htype, -⟩
        · exact hund _ hk' (hfile ▸ hk)
        · exact hid' (htype'.trans htype.symm)
    · rcases mem_entries_cases he with ⟨-, hk⟩ | ⟨htype, hk⟩
      · rcases mem_entries_cases hold with ⟨-, hk'⟩ | ⟨-, hk'⟩
        · exact (hund.1 _ hk).1 (hfile ▸ hk')
        · exact (hund.1 _ hk).2 (hfile ▸ hk')
      · rcases mem_entries_cases hold with ⟨htype', -⟩ | ⟨-, hk'⟩
        · exact contentType_ne ((hafter htype').symm.trans htype)
        · exact hund.2 _ hk (hfile ▸ hk')

end Plain

/-! ## Keys that move, and folders that change -/

section Moves

variable {env : Env} {ctx : Ctx} {w₀ w : World} {calls : List Call} {kind : Kind} {v item : Item}
  {folder dest : String}

theorem Job.stored_iff {j : Job} (hkey : isUrlKey j.dataKey = false) (s : Sys)
    {files : Path → Option ByteArray} :
    j.Stored env ctx kind files ↔ files (j.place env ctx kind) = some j.content.bytes := by
  constructor
  · rintro ⟨data, hdata, hfile⟩
    rwa [hdata.of_plain hkey] at hfile
  · intro hfile
    refine ⟨_, ⟨s, ?_⟩, hfile⟩
    rw [getFileDataAndName_of_plain hkey]

theorem Item.Plain.decodes (hv : v.Plain kind) (hi : item.Plain kind) :
    ∀ e ∈ v.entries kind ++ item.entries kind, e.decodes = true := by
  intro e he
  rcases List.mem_append.1 he with he | he
  · exact decodes_of_plain (hv e he) _
  · exact decodes_of_plain (hi e he) _

/-- The data keys of a version have their files, with their contents. -/
def Provides (env : Env) (ctx : Ctx) (kind : Kind) (item : Item) (dest : String)
    (files : Path → Option ByteArray) : Prop :=
  ∀ e ∈ item.entries kind, files (item.target env ctx kind dest e) = some e.content.bytes

/-- What an update of plain data keys leaves of the new version. -/
theorem NextVersion.provides_iff (h : NextVersion env ctx w₀ calls w kind v folder item dest)
    (hv : v.Plain kind) (hi : item.Plain kind) (hd : item.Disjoint kind) :
    Provides env ctx kind item dest (filesAfter env ctx kind item dest w) ↔
      (canon env.proc.cwd folder = canon env.proc.cwd dest →
        Undisturbed kind v folder item dest) := by
  rw [← undisturbed_iff hv hi hd, ← h.stored_iff (hv.decodes hi) (hi.fileNames_nodup hd)]
  exact forall₂_congr fun e he => (Job.stored_iff (j := e.job dest item false) (hi e he) w.sys).symm

/-- **Keys that move between `data` and `binaryData`.** In its folder every key of the new version
has its file and no other key of the old one has, if and only if no key moves from `binaryData` to
`data`: the leftovers of `binaryData` are removed after `data` is written. -/
theorem moved_keys_kept (h : NextVersion env ctx w₀ calls w .configMap v folder item folder)
    (hv : v.Plain .configMap) (hi : item.Plain .configMap) (hd : item.Disjoint .configMap) :
    (Provides env ctx .configMap item folder (filesAfter env ctx .configMap item folder w) ∧
      ∀ e ∈ v.entries .configMap, (∀ x ∈ item.entries .configMap, x.dataKey ≠ e.dataKey) →
        filesAfter env ctx .configMap item folder w (v.target env ctx .configMap folder e) = none) ↔
    ∀ k ∈ fieldKeys v.binary, k ∉ fieldKeys item.text := by
  have hund : Undisturbed .configMap v folder item folder ↔
      ∀ k ∈ fieldKeys v.binary, k ∉ fieldKeys item.text := by
    unfold Undisturbed
    rw [if_pos rfl]
    rfl
  rw [h.provides_iff hv hi hd, hund]
  refine ⟨fun hkept => hkept.1 rfl, fun hkeys => ⟨fun _ => hkeys, fun e he hother => ?_⟩⟩
  refine h.gone (hv.decodes hi) (List.mem_filter.2 ⟨he, decide_eq_true fun _ hid => ?_⟩) ?_
  · obtain ⟨x, hx, hid⟩ := List.mem_map.1 hid
    exact hother x hx (Prod.mk.inj hid).2
  · intro _ x hx hfile
    rw [hv.fileName he, hi.fileName hx] at hfile
    exact hother x hx hfile.symm

/-- `k` moves to `binaryData`, and `j` goes. -/
theorem moved_keys_kept_sample :
    let v := sampleVersion none (some [("j", "v"), ("k", "v")]) none
    let item := sampleVersion none none (some [("k", "v".toUTF8)])
    Provides sampleEnv sampleCtx .configMap item "/data"
      (filesAfter sampleEnv sampleCtx .configMap item "/data" (sampleFirst v "/data")) := by
  intro v item
  have h : NextVersion sampleEnv sampleCtx sampleWorld _ (sampleFirst v "/data")
      .configMap v "/data" item
      "/data" := sample_next rfl rfl ⟨by decide, by decide, by decide +kernel⟩
    ⟨by decide, by decide, by decide +kernel⟩ (by decide +kernel) (by
      intro e he
      obtain rfl := List.mem_singleton.1 he
      exact told_of_same (by decide +kernel) (by decide +kernel))
  exact ((moved_keys_kept h (by unfold Item.Plain; decide +kernel)
    (by unfold Item.Plain; decide +kernel)
    (by unfold Item.Disjoint; decide +kernel)).2 (by decide +kernel)).1

/-- No update loses a file of its version, wherever its keys come from. -/
def MovedKeysKept (env : Env) (ctx : Ctx) : Prop :=
  ∀ w₀ calls w v folder item, NextVersion env ctx w₀ calls w .configMap v folder item folder →
    v.Plain .configMap → item.Plain .configMap → v.Disjoint .configMap → item.Disjoint .configMap →
    Provides env ctx .configMap item folder (filesAfter env ctx .configMap item folder w) ∧
      ∀ e ∈ v.entries .configMap, (∀ x ∈ item.entries .configMap, x.dataKey ≠ e.dataKey) →
        filesAfter env ctx .configMap item folder w (v.target env ctx .configMap folder e) = none

/-- `k` moves from `binaryData` to `data`. -/
theorem key_moved_to_data_is_lost : ¬MovedKeysKept sampleEnv sampleCtx := by
  intro hkept
  let v := sampleVersion none none (some [("k", "v".toUTF8)])
  let item := sampleVersion none (some [("k", "v")]) none
  have h : NextVersion sampleEnv sampleCtx sampleWorld _ (sampleFirst v "/data")
      .configMap v "/data" item
      "/data" := sample_next rfl rfl ⟨by decide, by decide, by decide +kernel⟩
    ⟨by decide, by decide, by decide +kernel⟩ (by decide +kernel) (by
      intro e he
      obtain rfl := List.mem_singleton.1 he
      exact told_of_same (by decide +kernel) (by decide +kernel))
  have hprovides := (hkept _ _ _ _ _ _ h (by unfold Item.Plain; decide +kernel)
    (by unfold Item.Plain; decide +kernel) (by unfold Item.Disjoint; decide +kernel)
    (by unfold Item.Disjoint; decide +kernel)).1
  have hlost : ∃ e ∈ item.entries .configMap, filesAfter sampleEnv sampleCtx .configMap item "/data"
      (sampleFirst v "/data") (item.target sampleEnv sampleCtx .configMap "/data" e) = none := by
    decide +kernel
  obtain ⟨e, he, hnone⟩ := hlost
  have hfile := hprovides e he
  rw [hnone] at hfile
  cases hfile

/-- **A folder that changes.** The strings are compared, and the old folder is emptied after each
field is written to the new one. Every key of the new version has its file, and the old folder none
of the old version unless it is the same directory, if and only if the directories differ, or the
update is undisturbed. -/
theorem moved_folder_kept
    (h : NextVersion env ctx w₀ calls w kind v (destinationFolder ctx v) item
      (destinationFolder ctx item))
    (hv : v.Plain kind) (hi : item.Plain kind) (hd : item.Disjoint kind) :
    (Provides env ctx kind item (destinationFolder ctx item)
        (filesAfter env ctx kind item (destinationFolder ctx item) w) ∧
      (canon env.proc.cwd (destinationFolder ctx v) ≠ canon env.proc.cwd
        (destinationFolder ctx item) →
        ∀ e ∈ v.entries kind, filesAfter env ctx kind item (destinationFolder ctx item) w
          (v.target env ctx kind (destinationFolder ctx v) e) = none)) ↔
    (canon env.proc.cwd (destinationFolder ctx v) = canon env.proc.cwd
      (destinationFolder ctx item) →
      Undisturbed kind v (destinationFolder ctx v) item (destinationFolder ctx item)) := by
  rw [h.provides_iff hv hi hd, and_iff_left_iff_imp]
  intro _ hmoved e he
  have hstrings : destinationFolder ctx v ≠ destinationFolder ctx item := fun hsame =>
    hmoved (congrArg (canon env.proc.cwd) hsame)
  exact h.gone (hv.decodes hi)
    (List.mem_filter.2 ⟨he, decide_eq_true fun hsame => absurd hsame hstrings⟩)
    fun hsame => absurd hsame hmoved

theorem moved_folder_kept_sample :
    let v := sampleVersion none (some [("k", "v")]) none
    let item := sampleVersion (some "other/") (some [("k", "v")]) none
    let w := sampleFirst v (destinationFolder sampleCtx v)
    Provides sampleEnv sampleCtx .configMap item "/data/other/"
        (filesAfter sampleEnv sampleCtx .configMap item "/data/other/" w) ∧
      ∀ e ∈ v.entries .configMap, filesAfter sampleEnv sampleCtx .configMap item "/data/other/" w
        (v.target sampleEnv sampleCtx .configMap "/data" e) = none := by
  intro v item w
  have h : NextVersion sampleEnv sampleCtx sampleWorld _ w .configMap v
      (destinationFolder sampleCtx v)
      item (destinationFolder sampleCtx item) :=
    sample_next rfl rfl ⟨by decide, by decide, by decide +kernel⟩
      ⟨by decide, by decide, by decide +kernel⟩ (by decide +kernel) (by
        intro e he
        obtain rfl := List.mem_singleton.1 he
        exact told_of_none (by decide +kernel))
  have hmoved : canon sampleEnv.proc.cwd (destinationFolder sampleCtx v) ≠
      canon sampleEnv.proc.cwd (destinationFolder sampleCtx item) := by decide +kernel
  have hkept := (moved_folder_kept h (by unfold Item.Plain; decide +kernel)
    (by unfold Item.Plain; decide +kernel) (by unfold Item.Disjoint; decide +kernel)).2
    fun hsame => absurd hsame hmoved
  have hfolder : destinationFolder sampleCtx item = "/data/other/" := by decide +kernel
  rw [hfolder] at hkept hmoved
  exact ⟨hkept.1, hkept.2 hmoved⟩

/-- A new folder has the files, and the old one none, unless it is the same directory. -/
def MovedFolderKept (env : Env) (ctx : Ctx) (kind : Kind) : Prop :=
  ∀ w₀ calls w v item,
    NextVersion env ctx w₀ calls w kind v (destinationFolder ctx v) item
      (destinationFolder ctx item) →
    v.Plain kind → item.Plain kind → v.Disjoint kind → item.Disjoint kind →
    Provides env ctx kind item (destinationFolder ctx item)
        (filesAfter env ctx kind item (destinationFolder ctx item) w) ∧
      (canon env.proc.cwd (destinationFolder ctx v) ≠ canon env.proc.cwd
        (destinationFolder ctx item) →
        ∀ e ∈ v.entries kind, filesAfter env ctx kind item (destinationFolder ctx item) w
          (v.target env ctx kind (destinationFolder ctx v) e) = none)

/-- The annotation `/data/` on a resource that was in `/data` loses its file. -/
theorem respelled_folder_loses_file : ¬MovedFolderKept sampleEnv sampleCtx .configMap := by
  intro hkept
  let v := sampleVersion none (some [("k", "v")]) none
  let item := sampleVersion (some "/data/") (some [("k", "v")]) none
  have h : NextVersion sampleEnv sampleCtx sampleWorld _
      (sampleFirst v (destinationFolder sampleCtx v)) .configMap v (destinationFolder sampleCtx v)
      item (destinationFolder sampleCtx item) :=
    sample_next rfl rfl ⟨by decide, by decide, by decide +kernel⟩
      ⟨by decide, by decide, by decide +kernel⟩ (by decide +kernel) (by
        intro e he
        obtain rfl := List.mem_singleton.1 he
        exact told_of_same (by decide +kernel) (by decide +kernel))
  have hprovides := (hkept _ _ _ _ _ h (by unfold Item.Plain; decide +kernel)
    (by unfold Item.Plain; decide +kernel) (by unfold Item.Disjoint; decide +kernel)
    (by unfold Item.Disjoint; decide +kernel)).1
  have hlost : ∃ e ∈ item.entries .configMap, filesAfter sampleEnv sampleCtx .configMap item
      (destinationFolder sampleCtx item) (sampleFirst v (destinationFolder sampleCtx v))
      (item.target sampleEnv sampleCtx .configMap (destinationFolder sampleCtx item) e) = none := by
    decide +kernel
  obtain ⟨e, he, hnone⟩ := hlost
  have hfile := hprovides e he
  rw [hnone] at hfile
  cases hfile

end Moves

end Sidecar
