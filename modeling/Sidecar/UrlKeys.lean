import Sidecar.Edits

/-!
# Data keys that become URLs

What is left over is found by comparing data keys, and the file name is the data key without `.url`.
So a data key that is replaced by another one of the same file name takes that one's file with it
(`url_keys_kept`).
-/

namespace Sidecar

open Posix StateM

section Urls

variable {env : Env} {ctx : Ctx} {w₀ w : World} {calls : List Call} {kind : Kind} {v item : Item}
  {folder : String}

/-- The resource has its data in one field. -/
def Item.OneField (kind : Kind) (item : Item) : Prop := kind = .configMap → item.binary = none

theorem Item.OneField.contentType_eq (hv : v.OneField kind) (hi : item.OneField kind) {e e' : Entry}
    (he : e ∈ item.entries kind) (he' : e' ∈ v.entries kind) : e'.contentType = e.contentType := by
  have hnone : ∀ k, k ∉ fieldKeys (none : Option (BTreeMap ByteArray)) := fun k hk => by cases hk
  cases kind with
  | configMap =>
    rcases mem_entries_cases he with ⟨htype, -⟩ | ⟨-, hk⟩
    · rcases mem_entries_cases he' with ⟨htype', -⟩ | ⟨-, hk'⟩
      · exact htype'.trans htype.symm
      · rw [hv rfl] at hk'
        exact absurd hk' (hnone _)
    · rw [hi rfl] at hk
      exact absurd hk (hnone _)
  | secret =>
    rcases mem_entries_cases he with ⟨-, hk⟩ | ⟨htype, -⟩
    · cases hk
    · rcases mem_entries_cases he' with ⟨-, hk'⟩ | ⟨htype', -⟩
      · cases hk'
      · exact htype'.trans htype.symm

/-- The values of the `*.url` keys of a Secret are text, as those of a ConfigMap always are. -/
def Item.TextUrls (kind : Kind) (item : Item) : Prop :=
  kind = .secret → ∀ e ∈ item.entries kind, e.decodes = true

theorem Item.TextUrls.decodes (h : item.TextUrls kind) (hi : item.OneField kind) :
    ∀ e ∈ item.entries kind, e.decodes = true := by
  cases kind with
  | secret => exact h rfl
  | configMap =>
    intro e he
    rcases List.mem_append.1 he with he | he
    · unfold fieldEntries at he
      split at he
      · obtain ⟨kv, hkv, rfl⟩ := List.mem_map.1 he
        obtain ⟨x, -, rfl⟩ := List.mem_map.1 hkv
        exact decodes_text ..
      · cases he
    · rw [hi rfl] at he
      cases he

/-- **Keys that become `*.url` keys, or stop being some.** Every key of the new version has its file
with its content and no other file name of the old one has one, if and only if no key is dropped
that has the file name of a new key: what is left over is found by comparing keys. -/
theorem url_keys_kept (h : NextVersion env ctx w₀ calls w kind v folder item folder)
    (hv : v.OneField kind) (hi : item.OneField kind) (hvu : v.TextUrls kind)
    (hiu : item.TextUrls kind) (hnames : ((item.entries kind).map Entry.fileName).Nodup) :
    ((∀ e ∈ item.entries kind, (e.job folder item false).Stored env ctx kind
        (filesAfter env ctx kind item folder w)) ∧
      ∀ e' ∈ v.entries kind, (∀ e ∈ item.entries kind, e'.fileName ≠ e.fileName) →
        filesAfter env ctx kind item folder w (v.target env ctx kind folder e') = none) ↔
    ∀ e' ∈ v.entries kind, (∀ e ∈ item.entries kind, e'.dataKey ≠ e.dataKey) →
      ∀ e ∈ item.entries kind, e'.fileName ≠ e.fileName := by
  have hdec : ∀ e ∈ v.entries kind ++ item.entries kind, e.decodes = true := fun e he =>
    (List.mem_append.1 he).elim (hvu.decodes hv e) (hiu.decodes hi e)
  -- in one field a key is dropped if the new version does not have it
  have hleft : ∀ e' ∈ v.entries kind, e' ∈ Old.leftovers ⟨v, folder⟩ kind item folder ↔
      ∀ e ∈ item.entries kind, e'.dataKey ≠ e.dataKey := by
    intro e' he'
    unfold Old.leftovers isLeftover
    simp only [List.mem_filter, he', true_and, decide_eq_true_eq, forall_const,
      List.mem_map, not_exists,
      not_and]
    refine forall₂_congr fun e he => not_congr ?_
    rw [Entry.id, Entry.id, hv.contentType_eq hi he he', Prod.mk.injEq]
    exact ⟨fun hid => hid.2.symm, fun hkey => ⟨rfl, hkey.symm⟩⟩
  rw [h.stored_iff hdec hnames]
  constructor
  · rintro ⟨hkept, -⟩ e' he' hdropped e he
    exact hkept rfl e he e' ((hleft e' he').2 hdropped) fun htype =>
      (hv.contentType_eq hi he he').symm.trans htype
  · intro hclear
    constructor
    · intro _ e he e' he' _
      have hold : e' ∈ v.entries kind := (List.mem_filter.1 he').1
      exact hclear e' hold ((hleft e' hold).1 he') e he
    · intro e' he' hother
      refine h.gone hdec ((hleft e' he').2 fun e he hkey => hother e he ?_) fun _ => hother
      rw [Entry.fileName, Entry.fileName, hkey]

theorem url_keys_kept_sample :
    let v := sampleVersion none (some [("a", "v"), ("k", "v")]) none
    let item := sampleVersion none (some [("b.url", "http://b"), ("k", "v")]) none
    ∀ e ∈ item.entries .configMap, (e.job "/data" item false).Stored sampleEnv sampleCtx .configMap
      (filesAfter sampleEnv sampleCtx .configMap item "/data" (sampleFirst v "/data")) := by
  intro v item
  have h : NextVersion sampleEnv sampleCtx sampleWorld _ (sampleFirst v "/data")
      .configMap v "/data" item
      "/data" := sample_next rfl rfl ⟨by decide, by decide, by decide +kernel⟩
    ⟨by decide, by decide, by decide +kernel⟩ (by decide +kernel) (by
      intro e he
      have hcases : item.entries .configMap =
        [⟨contentTypeText, "b.url", .text "http://b"⟩, ⟨contentTypeText, "k", .text "v"⟩] := rfl
      rw [hcases] at he
      simp only [List.mem_cons, List.not_mem_nil, or_false] at he
      obtain rfl | rfl := he
      · exact told_of_none (by decide +kernel)
      · exact told_of_same (by decide +kernel) (by decide +kernel))
  exact ((url_keys_kept h (fun _ => rfl) (fun _ => rfl) nofun nofun (by decide +kernel)).2
    (by decide +kernel)).1

/-- A data key keeps its file when it becomes a `*.url` key, or stops being one. -/
def UrlKeysKept (env : Env) (ctx : Ctx) (kind : Kind) : Prop :=
  ∀ w₀ calls w v folder item, NextVersion env ctx w₀ calls w kind v folder item folder →
    v.OneField kind → item.OneField kind → v.TextUrls kind → item.TextUrls kind →
    ((v.entries kind).map Entry.fileName).Nodup → ((item.entries kind).map Entry.fileName).Nodup →
    (∀ e ∈ item.entries kind, (e.job folder item false).Stored env ctx kind
        (filesAfter env ctx kind item folder w)) ∧
      ∀ e' ∈ v.entries kind, (∀ e ∈ item.entries kind, e'.fileName ≠ e.fileName) →
        filesAfter env ctx kind item folder w (v.target env ctx kind folder e') = none

/-- `a` becomes `a.url`. -/
theorem url_key_is_lost : ¬UrlKeysKept sampleEnv sampleCtx .configMap := by
  intro hkept
  let v := sampleVersion none (some [("a", "body")]) none
  let item := sampleVersion none (some [("a.url", "http://a")]) none
  have h : NextVersion sampleEnv sampleCtx sampleWorld _ (sampleFirst v "/data")
      .configMap v "/data" item
      "/data" := sample_next rfl rfl ⟨by decide, by decide, by decide +kernel⟩
    ⟨by decide, by decide, by decide +kernel⟩ (by decide +kernel) (by
      intro e he data hdata b hb _
      obtain rfl := List.mem_singleton.1 he
      have hbytes : keyBytes (fun _ => "body".toUTF8) "a.url" (.text "http://a") =
        some "body".toUTF8 := by decide +kernel
      have hbody : "body".toUTF8 = data :=
        Option.some.inj (hbytes.symm.trans (hdata.eq sampleEnv_fetches))
      have hfile : (sampleFirst v "/data").sys.tree.fileAt ((Entry.job "/data" item false
        ⟨contentTypeText, "a.url", .text "http://a"⟩).place sampleEnv sampleCtx .configMap) =
          some "body".toUTF8 := by decide +kernel
      rw [← hbody]
      exact (Option.some.inj (hfile.symm.trans hb)).symm)
  have hstored := (hkept _ _ _ _ _ _ h (fun _ => rfl) (fun _ => rfl) nofun nofun (by decide +kernel)
    (by decide +kernel)).1
  have hlost : ∃ e ∈ item.entries .configMap, filesAfter sampleEnv sampleCtx .configMap item "/data"
      (sampleFirst v "/data") (item.target sampleEnv sampleCtx .configMap "/data" e) = none := by
    decide +kernel
  obtain ⟨e, he, hnone⟩ := hlost
  obtain ⟨data, -, hfile⟩ := hstored e he
  rw [Entry.place_job, hnone] at hfile
  cases hfile

end Urls

end Sidecar
