import Sidecar.Resources

/-!
# What a program can do to the process state

Frames, each a preorder on `Sys`: `TraceLe` (the trace only grows), `Silent` (besides that nothing
changes on disk and no bytes are handed to a write), `Touches P` (only files at paths in `P` change,
directories stay) and `Within P` (the same without bytes handed to a write). Every program of the
bottom layer moves along one of them.

Failures are counted: `ioErrors` counts the file-system calls that failed, `failures` also every
`update_file` that took its error branch. A run in which a count stays where it was had no such
event in any of its steps (`count_squeeze`).
-/

namespace Sidecar

open Posix StateM

/-! ## Failures and produced bytes -/

def Event.isIoError : Event → Bool
  | .ioError .. => true
  | _ => false

def Event.isUpdateError : Event → Bool
  | .log .error msg => updateErrorPrefix.toList.isPrefixOf msg.toList
  | _ => false

def Event.isFailure (e : Event) : Bool := e.isIoError || e.isUpdateError

/-- How many events of a kind there have been. -/
def Sys.count (p : Event → Bool) (s : Sys) : Nat := s.trace.countP p

def Sys.ioErrors (s : Sys) : Nat := s.count Event.isIoError

def Sys.failures (s : Sys) : Nat := s.count Event.isFailure

/-- Which data key bytes were computed for. -/
structure DataId where
  kind : Kind
  ns : String
  name : String
  contentType : String
  dataKey : String
  deriving DecidableEq

def Event.produced? : Event → Option (DataId × ByteArray)
  | .produced kind ns name contentType dataKey data =>
    some (⟨kind, ns, name, contentType, dataKey⟩, data)
  | _ => none

/-- The bytes handed to writes so far. -/
def Sys.produced (s : Sys) : List (DataId × ByteArray) := s.trace.filterMap Event.produced?

theorem isUpdateError_msg (dataKey destFolder : String) :
    Event.isUpdateError (.log .error (updateErrorMsg dataKey destFolder)) = true := by
  unfold Event.isUpdateError updateErrorMsg
  rw [List.isPrefixOf_iff_prefix, String.toList_append]
  exact List.prefix_append ..

/-! ## Frames -/

def TraceLe (s s' : Sys) : Prop := s.trace <+: s'.trace

structure Silent (s s' : Sys) : Prop where
  trace : TraceLe s s'
  tree : s'.tree = s.tree
  produced : s'.produced = s.produced

structure Touches (P : Path → Prop) (s s' : Sys) : Prop where
  trace : TraceLe s s'
  files : ∀ q, ¬P q → s'.tree.fileAt q = s.tree.fileAt q
  dirs : FileTree.DirsLe s.tree s'.tree

structure Within (P : Path → Prop) (s s' : Sys) : Prop extends Touches P s s' where
  produced : s'.produced = s.produced

theorem TraceLe.preorder : Preorder TraceLe := ⟨fun _ => List.prefix_rfl, List.IsPrefix.trans⟩

theorem Silent.preorder : Preorder Silent where
  refl _ := ⟨List.prefix_rfl, rfl, rfl⟩
  trans h h' := ⟨h.trace.trans h'.trace, h'.tree.trans h.tree, h'.produced.trans h.produced⟩

theorem Touches.preorder (P : Path → Prop) : Preorder (Touches P) where
  refl s := ⟨List.prefix_rfl, fun _ _ => rfl, .refl s.tree⟩
  trans h h' :=
    ⟨h.trace.trans h'.trace, fun q hq => (h'.files q hq).trans (h.files q hq),
      h.dirs.trans h'.dirs⟩

theorem Touches.mono {P Q : Path → Prop} (hPQ : ∀ p, P p → Q p) {s s' : Sys}
    (h : Touches P s s') : Touches Q s s' :=
  ⟨h.trace, fun q hq => h.files q fun hp => hq (hPQ q hp), h.dirs⟩

theorem Within.preorder (P : Path → Prop) : Preorder (Within P) where
  refl s := ⟨(Touches.preorder P).refl s, rfl⟩
  trans h h' := ⟨(Touches.preorder P).trans h.toTouches h'.toTouches,
    h'.produced.trans h.produced⟩

theorem Silent.moves {α : Type} {x : M α} (h : Moves Silent x) : Moves TraceLe x :=
  h.mono fun _ _ hs => hs.trace

theorem Within.moves {α : Type} {P : Path → Prop} {x : M α} (h : Moves (Within P) x) :
    Moves TraceLe x := h.mono fun _ _ hs => hs.trace

theorem Silent.within {s s' : Sys} (h : Silent s s') (P : Path → Prop) : Within P s s' :=
  ⟨⟨h.trace, fun q _ => by rw [h.tree], h.tree ▸ .refl s.tree⟩, h.produced⟩

theorem Silent.touches {s s' : Sys} (h : Silent s s') (P : Path → Prop) : Touches P s s' :=
  (h.within P).toTouches

theorem count_mono {s s' : Sys} (h : TraceLe s s') (p : Event → Bool) :
    s.count p ≤ s'.count p := by
  obtain ⟨t, ht⟩ := h
  unfold Sys.count
  rw [← ht, List.countP_append]
  exact Nat.le_add_right _ _

/-- Between two states with the same count there was no such event. -/
theorem count_squeeze {s t u : Sys} (hst : TraceLe s t) (htu : TraceLe t u) {p : Event → Bool}
    (h : u.count p = s.count p) : t.count p = s.count p ∧ u.count p = t.count p := by
  have h1 := count_mono hst p
  have h2 := count_mono htu p
  omega

theorem bind_count {α β : Type} {x : M α} {f : α → M β} (hx : Moves TraceLe x)
    (hf : ∀ a, Moves TraceLe (f a)) {s : Sys} {p : Event → Bool}
    (h : ((x >>= f) s).2.count p = s.count p) :
    (x s).2.count p = s.count p ∧ (f (x s).1 (x s).2).2.count p = (x s).2.count p :=
  count_squeeze (hx s) (hf _ _) h

theorem andThen_count {ε α β : Type} {x : M (Except ε α)} {f : α → M (Except ε β)}
    (hx : Moves TraceLe x) (hf : ∀ a, Moves TraceLe (f a)) {s : Sys} {p : Event → Bool}
    (h : (andThen x f s).2.count p = s.count p) :
    (x s).2.count p = s.count p ∧
      ∀ a, (x s).1 = .ok a → (f a (x s).2).2.count p = (x s).2.count p := by
  have hsplit := bind_count hx (fun out => by
    cases out with
    | ok a => exact hf a
    | error e => exact Moves.pure TraceLe.preorder _) h
  refine ⟨hsplit.1, fun a ha => ?_⟩
  have hrest := hsplit.2
  rw [ha] at hrest
  exact hrest

/-- No failure at all is in particular no failing file-system call. -/
theorem ioErrors_of_failures {s s' : Sys} (hle : TraceLe s s') (h : s'.failures = s.failures) :
    s'.ioErrors = s.ioErrors := by
  obtain ⟨t, ht⟩ := hle
  unfold Sys.failures Sys.ioErrors Sys.count at *
  rw [← ht, List.countP_append] at h ⊢
  have hnone : ∀ e ∈ t, ¬e.isFailure = true := List.countP_eq_zero.1 (by omega)
  rw [List.countP_eq_zero.2 fun e he hio => hnone e he (by simp [Event.isFailure, hio])]
  rfl

/-! ## The calls -/

theorem emit_apply (e : Event) (s : Sys) :
    emit e s = ((), { s with trace := s.trace ++ [e] }) := rfl

theorem emit_silent {e : Event} (h : e.produced? = none) : Moves Silent (emit e) := fun s =>
  ⟨List.prefix_append .., rfl, by simp [emit_apply, Sys.produced, h]⟩

theorem log_silent (level : Level) (msg : String) : Moves Silent (log level msg) :=
  emit_silent rfl

/-- A system call relates the trees as both its outcomes do. -/
theorem syscall_frame {α : Type} (env : Env) (what : FsCall)
    (call : FileTree → Except ErrorKind α × FileTree)
    (faulty : Fault → FileTree → FileTree) (T : FileTree → FileTree → Prop)
    (hcall : ∀ t, T t (call t).2) (hfaulty : ∀ f t, T t (faulty f t)) (s : Sys) :
    TraceLe s (syscall env what call faulty s).2 ∧
    T s.tree (syscall env what call faulty s).2.tree ∧
      (syscall env what call faulty s).2.produced = s.produced := by
  unfold syscall
  refine ⟨List.prefix_append .., ?_, ?_⟩
  · dsimp only
    split
    · exact hfaulty _ _
    · exact hcall _
  · simp only [Sys.produced, List.filterMap_append]
    split <;> simp [Event.produced?]

theorem sysStat_silent (env : Env) (path : String) : Moves Silent (sysStat env path) := by
  refine Moves.bind Silent.preorder (fun s => ?_) fun _ => Moves.pure Silent.preorder _
  obtain ⟨h, htree, hp⟩ := syscall_frame env (.stat path) (fun t => (.ok (t.stat env.proc path), t))
    (fun _ t => t) (fun t t' => t' = t) (fun _ => rfl) (fun _ _ => rfl) s
  exact ⟨h, htree, hp⟩

theorem pathExists_silent (env : Env) (path : String) : Moves Silent (pathExists env path) :=
  Moves.bind Silent.preorder (sysStat_silent env path) fun _ => Moves.pure Silent.preorder _

theorem isFile_silent (env : Env) (path : String) : Moves Silent (isFile env path) :=
  Moves.bind Silent.preorder (sysStat_silent env path) fun _ => Moves.pure Silent.preorder _

theorem readFile_silent (env : Env) (path : String) : Moves Silent (readFile env path) := fun s =>
  have h := syscall_frame env (.read path) (fun t => (t.readFile env.proc path, t)) (fun _ t => t)
    (fun t t' => t' = t) (fun _ => rfl) (fun _ _ => rfl) s
  ⟨h.1, h.2.1, h.2.2⟩

theorem createDirAll_within (env : Env) (path : String) (P : Path → Prop) :
    Moves (Within P) (createDirAll env path) := fun s =>
  have h := syscall_frame env (.createDirAll path) _ _ FileTree.SameFiles
    (fun t => FileTree.sameFiles_createDirAll t env.proc path)
    (fun f t => FileTree.sameFiles_createDirAllFault t env.proc path f) s
  ⟨⟨h.1, fun q _ => h.2.1.files q, h.2.1.dirs⟩, h.2.2⟩

theorem setPermissions_within (env : Env) (path : String) (mode : UInt32) (P : Path → Prop) :
    Moves (Within P) (setPermissions env path mode) := fun s =>
  have h := syscall_frame env (.chmod path) _ _ FileTree.SameFiles
    (fun t => FileTree.sameFiles_setPermissions t env.proc path mode)
    (fun _ t => .refl t) s
  ⟨⟨h.1, fun q _ => h.2.1.files q, h.2.1.dirs⟩, h.2.2⟩

theorem writeFile_within (env : Env) (path : String) (data : ByteArray) :
    Moves (Within (· = canon env.proc.cwd path)) (writeFile env path data) := fun s =>
  have h := syscall_frame env (.write path) _ _ (FileTree.OnlyAt (canon env.proc.cwd path))
    (fun t => FileTree.onlyAt_writeFile t env.proc path data)
    (fun f t => FileTree.onlyAt_writeFault t env.proc path data f) s
  ⟨⟨h.1, fun q hq => h.2.1.files q hq, h.2.1.dirs⟩, h.2.2⟩

theorem unlinkFile_within (env : Env) (path : String) :
    Moves (Within (· = canon env.proc.cwd path)) (unlinkFile env path) := fun s =>
  have h := syscall_frame env (.unlink path) _ _ (FileTree.OnlyAt (canon env.proc.cwd path))
    (fun t => FileTree.onlyAt_removeFile t env.proc path) (fun _ t => .refl _ t) s
  ⟨⟨h.1, fun q hq => h.2.1.files q hq, h.2.1.dirs⟩, h.2.2⟩

/-- A system call that did not fail had the outcome of the call itself. -/
theorem syscall_ok {α : Type} {env : Env} {what : FsCall}
    (call : FileTree → Except ErrorKind α × FileTree)
    (faulty : Fault → FileTree → FileTree) {s : Sys}
    (h : (syscall env what call faulty s).2.ioErrors = s.ioErrors) :
    ∃ a, (syscall env what call faulty s).1 = .ok a ∧ (call s.tree).1 = .ok a ∧
      (syscall env what call faulty s).2.tree = (call s.tree).2 := by
  unfold syscall at h ⊢
  cases hf : env.fault s.ioTick with
  | some f =>
    simp [hf, Sys.ioErrors, Sys.count, Event.isIoError] at h
  | none =>
    cases hc : (call s.tree).1 with
    | ok a => exact ⟨a, rfl, rfl, rfl⟩
    | error e => simp [hf, hc, Sys.ioErrors, Sys.count, Event.isIoError] at h

/-! ## HTTP requests -/

/-- A preorder that log lines and the parts of a request move along. -/
structure Sys.Requests (env : Env) (R : Sys → Sys → Prop) : Prop where
  preorder : Preorder R
  log (level : Level) (msg : String) : Moves R (log level msg)
  sleep (secs : ℚ) : Moves R (emit (.sleep secs))
  abort : Moves R (emit .abort)
  send (req : HttpRequest) : Moves R (sendOnce env req)

namespace Sys.Requests

variable {env : Env} {R : Sys → Sys → Prop} (h : Sys.Requests env R)
include h

theorem sleepFor (secs : F64) : Moves R (sleepFor secs) := by
  unfold Sidecar.sleepFor
  split
  · exact h.sleep _
  · exact h.abort

theorem requestLoop (enforceStatus : List UInt16) (req : HttpRequest) (remaining attempt : Nat)
    (lastErr : Option String) :
    Moves R (requestLoop env enforceStatus req remaining attempt lastErr) := by
  have hp := h.preorder
  induction remaining generalizing attempt lastErr with
  | zero => exact .bind hp (h.log _ _) fun _ => .bind hp (h.log _ _) fun _ => .pure hp _
  | succ remaining ih =>
    unfold Sidecar.requestLoop
    refine .bind hp (.ite (h.sleepFor _) (.pure hp _)) fun _ => .bind hp (h.send req) fun out => ?_
    split
    · exact .ite (ih _ _) (.bind hp (h.log _ _) fun _ => .pure hp _)
    · exact ih _ _

theorem request (url method : Option String) (enable5xx : Bool) (payload : Option String) :
    Moves R (request env url method enable5xx payload) := by
  have hp := h.preorder
  unfold Sidecar.request
  dsimp only
  split
  · exact .bind hp (h.log _ _) fun _ => .pure hp _
  · refine .ite (.bind hp (h.log _ _) fun _ => .pure hp _)
      (.ite (.bind hp h.abort fun _ => .pure hp _) ?_)
    split
    · exact .bind hp (h.log _ _) fun _ => .bind hp (h.log _ _) fun _ => .pure hp _
    · exact h.requestLoop _ _ _ _ _

theorem getFileDataAndName (ctx : Ctx) (dataKey : String) (content : Content) :
    Moves R (getFileDataAndName env ctx dataKey content) := by
  have hp := h.preorder
  unfold Sidecar.getFileDataAndName
  split
  · split
    · exact .pure hp _
    · exact .bind hp (h.request _ _ _ _) fun _ => .pure hp _
  · exact .pure hp _

end Sys.Requests

theorem silent_requests (env : Env) : Sys.Requests env Silent where
  preorder := Silent.preorder
  log := log_silent
  sleep _ := emit_silent rfl
  abort := emit_silent rfl
  send _ _ := ⟨List.prefix_append .., rfl, by simp [sendOnce, Sys.produced, Event.produced?]⟩

/-- A request leaves the disk alone. -/
theorem request_silent (env : Env) (url method : Option String) (enable5xx : Bool)
    (payload : Option String) : Moves Silent (request env url method enable5xx payload) :=
  (silent_requests env).request url method enable5xx payload

theorem getFileDataAndName_silent (env : Env) (ctx : Ctx) (dataKey : String) (content : Content) :
    Moves Silent (getFileDataAndName env ctx dataKey content) :=
  (silent_requests env).getFileDataAndName ctx dataKey content

theorem getDestinationFolder_silent (item : Item) (ctx : Ctx) :
    Moves Silent (getDestinationFolder item ctx) := by
  have hp := Silent.preorder
  unfold getDestinationFolder
  split
  · exact Moves.bind hp (log_silent _ _) fun _ => Moves.pure hp _
  · exact Moves.pure hp _

/-! ## Scripts and notifications -/

theorem spawnChild_silent (env : Env) (scriptPath : String) (argv : List String) :
    Moves Silent (spawnChild env scriptPath argv) :=
  fun _ => ⟨List.prefix_append .., rfl, by simp [spawnChild, Sys.produced, Event.produced?]⟩

theorem execute_silent (env : Env) (scriptPath : String) :
    Moves Silent (execute env scriptPath) := by
  have hp := Silent.preorder
  unfold execute
  refine Moves.bind hp (log_silent _ _) fun _ => Moves.bind hp (fun s => hp.refl s) fun _ =>
    Moves.bind hp (spawnChild_silent _ _ _) fun result => ?_
  split
  · exact Moves.pure hp _
  · refine Moves.bind hp ?_ fun _ => Moves.pure hp _
    refine Moves.ite ?_ (log_silent _ _)
    exact Moves.bind hp (log_silent _ _) fun _ => Moves.bind hp (log_silent _ _) fun _ =>
      log_silent _ _

/-- Notifying leaves the disk alone. -/
theorem notify_silent (env : Env) (ctx : Ctx) (requestUrl : Option String) (filesChanged : Bool) :
    Moves Silent (notify env ctx requestUrl filesChanged) := by
  have hp := Silent.preorder
  unfold notify
  refine Moves.ite (Moves.bind hp ?_ fun ran => ?_) (Moves.pure hp _)
  · split
    · exact execute_silent env _
    · exact Moves.pure hp _
  · split
    · exact Moves.pure hp _
    · split
      · exact Moves.bind hp (request_silent _ _ _ _ _) fun _ => Moves.pure hp _
      · exact Moves.pure hp _

end Sidecar
