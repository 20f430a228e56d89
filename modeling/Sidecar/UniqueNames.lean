import Sidecar.Isolation

/-!
# What a unique file name tells

`namespace_<ns>.<kind>_<name>.<key>`: a namespace has no dot and a kind is one of two words, so the
file name tells both. What is left is a resource name and a data key with a dot between them, and
both may have dots of their own (`unique_filenames_differ`).
-/

namespace Sidecar

open Posix

/-- Two ways to cut a text at a dot. -/
theorem cut_at_dot {a b c d : List Char} (h : a ++ '.' :: b = c ++ '.' :: d) :
    a = c ∧ b = d ∨ (∃ t, c = a ++ '.' :: t ∧ b = t ++ '.' :: d) ∨ ∃ t, a = c ++ '.' :: t ∧
    d = t ++ '.' :: b := by
  rcases List.append_eq_append_iff.1 h with ⟨l, hc, hb⟩ | ⟨l, ha, hd⟩
  · cases l with
    | nil =>
      simp only [List.nil_append, List.cons.injEq, true_and] at hb
      exact .inl ⟨by simpa using hc.symm, hb⟩
    | cons x t =>
      obtain ⟨rfl, ht⟩ := List.cons.inj hb
      exact .inr (.inl ⟨t, hc, ht⟩)
  · cases l with
    | nil =>
      simp only [List.nil_append, List.cons.injEq, true_and] at hd
      exact .inl ⟨by simpa using ha, hd.symm⟩
    | cons x t =>
      obtain ⟨rfl, ht⟩ := List.cons.inj hd
      exact .inr (.inr ⟨t, ha, ht⟩)

/-- The longer resource name is the shorter one with the beginning of its data key. -/
def Borrows (name dataKey name' dataKey' : String) : Prop :=
  ∃ t, name' = name ++ ("." ++ t) ∧ dataKey = t ++ ("." ++ dataKey')

section Names

variable {filename filename' ns ns' name name' : String} {kind kind' : Kind}
  (hdot : '.' ∉ ns.toList) (hdot' : '.' ∉ ns'.toList)
include hdot hdot'

/-- A file name tells the kind. -/
theorem kind_of_uniqueFilename
    (h : uniqueFilename filename ns kind.asStr name =
      uniqueFilename filename' ns' kind'.asStr name') :
    kind = kind' := by
  obtain rfl := ns_of_uniqueFilename hdot hdot' h
  have hlist := congrArg String.toList h
  simp only [uniqueFilename_toList, List.append_cancel_left_eq, List.cons.injEq, true_and] at hlist
  have hhead := congrArg List.head? hlist
  cases kind <;> cases kind' <;> first | rfl | (revert hhead; simp [Kind.asStr])

theorem uniqueFilename_eq_iff :
    uniqueFilename filename ns kind.asStr name = uniqueFilename filename' ns' kind'.asStr name' ↔
      ns = ns' ∧ kind = kind' ∧ (name = name' ∧ filename = filename' ∨
        Borrows name filename name' filename' ∨ Borrows name' filename' name filename) := by
  have hborrows : ∀ {a b c d : String}, Borrows a b c d ↔
      ∃ t : List Char, c.toList = a.toList ++ '.' :: t ∧ b.toList = t ++ '.' :: d.toList := by
    intro a b c d
    have hstr : (".".toList : List Char) = ['.'] := by decide
    constructor
    · rintro ⟨t, rfl, rfl⟩
      exact ⟨t.toList, by simp [hstr], by simp [hstr]⟩
    · rintro ⟨t, hc, hb⟩
      exact ⟨String.ofList t, String.toList_injective (by simp [hc, hstr]),
        String.toList_injective (by simp [hb, hstr])⟩
  constructor
  · intro h
    obtain rfl := kind_of_uniqueFilename hdot hdot' h
    obtain rfl := ns_of_uniqueFilename hdot hdot' h
    have hlist := congrArg String.toList h
    simp only [uniqueFilename_toList, List.append_cancel_left_eq, List.cons.injEq,
      true_and] at hlist
    refine ⟨rfl, rfl, ?_⟩
    rw [hborrows, hborrows]
    exact (cut_at_dot hlist).imp_left fun h =>
      ⟨String.toList_injective h.1, String.toList_injective h.2⟩
  · rintro ⟨rfl, rfl, hcut⟩
    refine String.toList_injective ?_
    simp only [uniqueFilename_toList]
    rw [hborrows, hborrows] at hcut
    rcases hcut with ⟨rfl, rfl⟩ | ⟨t, hc, hb⟩ | ⟨t, hc, hb⟩
    · rfl
    · rw [hc, hb]
      simp
    · rw [hc, hb]
      simp

end Names

/-- What a file name is to tell: the namespace, the kind, the resource name and the data key. -/
def Slot.source (slot : Slot) : String × Kind × String × String :=
  (slot.ns, slot.kind, slot.name, slot.dataKey)

theorem Slot.filename_of_unique {ctx : Ctx} (hu : ctx.uniqueFilenames = true) {slot : Slot}
    (hkey : isUrlKey slot.dataKey = false) :
    slot.filename ctx = uniqueFilename slot.dataKey slot.ns slot.kind.asStr slot.name := by
  unfold Slot.filename
  rw [if_pos hu, dataFileName_of_plain hkey]

/-- **File names are unique** but for resources of one kind and namespace of which one borrows the
beginning of the other's data key. -/
theorem unique_filenames_differ {ctx : Ctx} (hu : ctx.uniqueFilenames = true) {slot slot' : Slot}
    (h : slot.Accepted) (h' : slot'.Accepted) (hkey : isUrlKey slot.dataKey = false)
    (hkey' : isUrlKey slot'.dataKey = false) (hne : slot.source ≠ slot'.source) :
    slot.filename ctx ≠ slot'.filename ctx ↔
      ¬(slot.ns = slot'.ns ∧ slot.kind = slot'.kind ∧
        (Borrows slot.name slot.dataKey slot'.name slot'.dataKey ∨
          Borrows slot'.name slot'.dataKey slot.name slot.dataKey)) := by
  rw [Slot.filename_of_unique hu hkey, Slot.filename_of_unique hu hkey', ne_eq, not_iff_not,
    uniqueFilename_eq_iff h.ns.dot h'.ns.dot]
  constructor
  · rintro ⟨hns, hkind, ⟨hname, hfile⟩ | hborrows⟩
    · refine absurd ?_ hne
      unfold Slot.source
      rw [hns, hkind, hname, hfile]
    · exact ⟨hns, hkind, hborrows⟩
  · rintro ⟨hns, hkind, hborrows⟩
    exact ⟨hns, hkind, .inr hborrows⟩

def sampleSlot (name dataKey : String) : Slot :=
  ⟨.configMap, "default", name, contentTypeText, dataKey, "/data"⟩

theorem unique_filenames_differ_sample :
    (sampleSlot "a" "k").filename sampleUnique ≠ (sampleSlot "a.b" "k").filename sampleUnique := by
  refine (@unique_filenames_differ sampleUnique rfl _ _ ⟨by decide, by decide, by decide +kernel⟩
    ⟨by decide, by decide, by decide +kernel⟩ (by decide) (by decide) (by decide)).2 ?_
  rintro ⟨-, -, ⟨t, -, hkey⟩ | ⟨t, -, hkey⟩⟩
  all_goals
    have hlength := congrArg (fun s => s.toList.length) hkey
    simp [sampleSlot] at hlength

/-- `a` with the key `b.c` and `a.b` with the key `c`. -/
theorem unique_filenames_meet :
    (sampleSlot "a" "b.c").Accepted ∧ (sampleSlot "a.b" "c").Accepted ∧
      isUrlKey "b.c" = false ∧ isUrlKey "c" = false ∧
      (sampleSlot "a" "b.c").source ≠ (sampleSlot "a.b" "c").source ∧
      (sampleSlot "a" "b.c").filename sampleUnique = (sampleSlot "a.b" "c").filename sampleUnique :=
  ⟨⟨by decide, by decide, by decide +kernel⟩, ⟨by decide, by decide, by decide +kernel⟩,
    by decide, by decide,
    by decide, by decide +kernel⟩

end Sidecar
