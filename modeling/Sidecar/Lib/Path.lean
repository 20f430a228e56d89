import Mathlib.Data.List.Basic

/-!
# Path strings and canonical paths

A path string is resolved component by component. In a tree without symbolic links the place it
names is a function of the string and the working directory alone (`canon`): empty components and
`.` are skipped, `..` drops the innermost component. Whether the kernel can *walk* the string
depends on the tree (`FileTree.resolve`), but a walk that succeeds ends at `canon`.

`canon_join` is the fact the rest uses: a plain file name joined to a folder names the entry of
that name in the folder, however the folder is spelled.
-/

namespace Posix

/-- A canonical absolute path, innermost component first; `[]` is the root. -/
abbrev Path := List String

/-- The parts of a path string between slashes. -/
def components (s : String) : List String := (s.toList.splitOn '/').map String.ofList

/-- One component applied to a canonical path. -/
def push (p : Path) (c : String) : Path :=
  if c = "" ∨ c = "." then p else if c = ".." then p.tail else c :: p

def isAbsolute (s : String) : Bool := s.toList.head? == some '/'

/-- Where the walk of a path string starts. -/
def base (cwd : Path) (s : String) : Path := if isAbsolute s then [] else cwd

/-- The place a path string names. -/
def canon (cwd : Path) (s : String) : Path := (components s).foldl push (base cwd s)

/-- The places that the walk of a path string comes by. -/
def Passes (cwd : Path) (s : String) (q : Path) : Prop :=
  ∃ cs, cs <+: components s ∧ cs.foldl push (base cwd s) = q

/-- `Path::join`: an absolute name replaces the folder, otherwise a slash goes between the two
unless the folder is empty or already ends in one. -/
def join (folder name : String) : String :=
  if isAbsolute name then name
  else if folder = "" ∨ folder.toList.getLast? = some '/' then folder ++ name
  else folder ++ "/" ++ name

/-- A name that is one ordinary component: nonempty, no slash, neither `.` nor `..`. -/
structure PlainName (name : String) : Prop where
  slash : '/' ∉ name.toList
  nonempty : name ≠ ""
  dot : name ≠ "."
  dotDot : name ≠ ".."

theorem push_plain {name : String} (h : PlainName name) (p : Path) : push p name = name :: p := by
  simp [push, h.nonempty, h.dot, h.dotDot]

theorem isAbsolute_eq_false {name : String} (h : '/' ∉ name.toList) : isAbsolute name = false := by
  unfold isAbsolute
  cases hn : name.toList with
  | nil => rfl
  | cons c cs =>
    have hc : c ≠ '/' := fun e => h (by rw [hn, e]; exact List.mem_cons_self)
    simpa using hc

/-- A path string that never steps back. -/
def Straight (s : String) : Prop := ".." ∉ components s

instance (s : String) : Decidable (Straight s) := inferInstanceAs (Decidable (".." ∉ components s))

/-- Nothing but empty components and `.`, with a `.` among them. -/
def Dots (cs : List String) : Prop := "." ∈ cs ∧ ∀ c ∈ cs, c = "" ∨ c = "."

instance (cs : List String) : Decidable (Dots cs) :=
  inferInstanceAs (Decidable ("." ∈ cs ∧ ∀ c ∈ cs, c = "" ∨ c = "."))

/-- The last component that is not empty is `.`. -/
def EndsInDot (cs : List String) : Prop := (cs.filter (· ≠ "")).getLast? = some "."

instance (cs : List String) : Decidable (EndsInDot cs) :=
  inferInstanceAs (Decidable ((cs.filter (· ≠ "")).getLast? = some "."))

theorem EndsInDot.cons {cs : List String} (h : EndsInDot cs) (c : String) :
    EndsInDot (c :: cs) := by
  unfold EndsInDot at h ⊢
  rw [List.filter_cons]
  split
  · rw [List.getLast?_cons, h]
    rfl
  · exact h

theorem Dots.endsInDot {cs : List String} (h : Dots cs) : EndsInDot cs := by
  obtain ⟨hmem, hall⟩ := h
  have hfilter : "." ∈ cs.filter (· ≠ "") := List.mem_filter.2 ⟨hmem, by decide⟩
  have hne := List.ne_nil_of_mem hfilter
  obtain ⟨hc, hnonempty⟩ := List.mem_filter.1 (List.getLast_mem hne)
  unfold EndsInDot
  rw [List.getLast?_eq_some_getLast hne]
  exact congrArg some ((hall _ hc).resolve_left (of_decide_eq_true hnonempty))

/-- A path string that never steps back and does not end in `.`: where it can be walked to does not
depend on what is there before the way is made. -/
structure Direct (s : String) : Prop where
  straight : Straight s
  ending : ¬EndsInDot (components s)

instance (s : String) : Decidable (Direct s) :=
  decidable_of_iff (Straight s ∧ ¬EndsInDot (components s))
    ⟨fun h => ⟨h.1, h.2⟩, fun h => ⟨h.straight, h.ending⟩⟩

theorem suffix_push {c : String} (h : c ≠ "..") (p : Path) : p <:+ push p c := by
  unfold push
  rw [if_neg h]
  split
  · exact List.suffix_rfl
  · exact List.suffix_cons c p

/-- Without steps back a walk only goes deeper. -/
theorem suffix_foldl_push {cs : List String} (h : ".." ∉ cs) (p : Path) :
    p <:+ cs.foldl push p := by
  induction cs generalizing p with
  | nil => exact List.suffix_rfl
  | cons c cs ih =>
    rw [List.mem_cons, not_or] at h
    exact (suffix_push (Ne.symm h.1) p).trans (ih h.2 (push p c))

/-- Without steps back every place on the way lies above the end. -/
theorem Passes.suffix {cwd : Path} {s : String} {q : Path} (hs : Straight s) (h : Passes cwd s q) :
    q <:+ canon cwd s := by
  obtain ⟨cs, ⟨rest, hrest⟩, rfl⟩ := h
  have hback : ".." ∉ rest := fun hm => hs (hrest ▸ List.mem_append_right cs hm)
  unfold canon
  rw [← hrest, List.foldl_append]
  exact suffix_foldl_push hback _

theorem components_of_noSlash {name : String} (h : '/' ∉ name.toList) :
    components name = [name] := by
  simp [components, List.splitOn_eq_singleton h]

/-- A string that ends in a slash splits into its parts, the last one empty. -/
theorem splitOn_append_slash (l name : List Char) (h : '/' ∉ name) :
    (l ++ '/' :: name).splitOn '/' = l.splitOn '/' ++ [name] := by
  rw [List.splitOn_append_cons_self, List.splitOn_eq_singleton h]

theorem foldl_push_nil_part (ls : List (List Char)) (p : Path) :
    ((ls ++ [[]]).map String.ofList).foldl push p = (ls.map String.ofList).foldl push p := by
  simp [push]

/-- A name without a slash joined to a folder is walked to by way of the folder. -/
theorem components_join (cwd : Path) (folder : String) {name : String} (h : '/' ∉ name.toList) :
    ∃ cs, components (join folder name) = cs ++ [name] ∧
      cs.foldl push (base cwd folder) = canon cwd folder ∧
      base cwd (join folder name) = base cwd folder ∧ (∀ c ∈ cs, c ∈ components folder) ∧
      (folder ≠ "" → components folder = cs ∨ components folder = cs ++ [""]) := by
  have habs := isAbsolute_eq_false h
  unfold join
  rw [habs]
  by_cases hempty : folder = ""
  · subst hempty
    refine ⟨[], by simp [components_of_noSlash h], ?_, ?_, by simp, fun hne => absurd rfl hne⟩
    · simp [canon, components, push]
    · simp only [Bool.false_eq_true, if_false, true_or, if_true, String.empty_append, base, habs]
      rfl
  have habsEq : ∀ rest : String, isAbsolute (folder ++ rest) = isAbsolute folder := by
    intro rest
    unfold isAbsolute
    rw [String.toList_append]
    cases hf : folder.toList with
    | nil => exact absurd (by simpa using hf) hempty
    | cons c cs => rfl
  by_cases hlast : folder.toList.getLast? = some '/'
  · -- the folder already ends in a slash: its last part is empty
    simp only [Bool.false_eq_true, if_false, hempty, hlast, or_true, if_true]
    obtain ⟨l, hl⟩ : ∃ l, folder.toList = l ++ ['/'] := by
      obtain ⟨l, hl⟩ := List.getLast?_eq_some_iff.1 hlast
      exact ⟨l, hl⟩
    have hf : components folder = (l.splitOn '/' ++ [[]]).map String.ofList := by
      unfold components
      rw [hl, splitOn_append_slash l [] (by simp)]
    refine ⟨(l.splitOn '/').map String.ofList, ?_, ?_, by rw [base, habsEq, base], ?_,
      fun _ => .inr ?_⟩
    · unfold components
      rw [String.toList_append, hl, List.append_assoc, List.singleton_append,
        splitOn_append_slash l _ h]
      simp
    · rw [canon, hf, foldl_push_nil_part]
    · intro c hc
      rw [hf, List.map_append]
      exact List.mem_append_left _ hc
    · rw [hf, List.map_append]
      rfl
  · simp only [Bool.false_eq_true, if_false, hempty, hlast, or_self]
    refine ⟨components folder, ?_, rfl, by rw [String.append_assoc, base, habsEq, base],
      fun _ => id, fun _ => .inl rfl⟩
    unfold components
    have hs : ("/" : String).toList = ['/'] := by decide
    rw [String.append_assoc, String.toList_append, String.toList_append, hs, List.singleton_append,
      splitOn_append_slash _ _ h]
    simp

/-- A name without a slash joined to a folder is one more component of the folder. -/
theorem canon_join_push (cwd : Path) (folder : String) {name : String} (h : '/' ∉ name.toList) :
    canon cwd (join folder name) = push (canon cwd folder) name := by
  obtain ⟨cs, hcs, hfold, hbase, -, -⟩ := components_join cwd folder h
  rw [canon, hcs, hbase, List.foldl_append, hfold]
  rfl

/-- **A plain name joined to a folder** names that entry of the folder. -/
theorem canon_join (cwd : Path) (folder : String) {name : String} (h : PlainName name) :
    canon cwd (join folder name) = name :: canon cwd folder := by
  rw [canon_join_push cwd folder h.slash, push_plain h]

end Posix
