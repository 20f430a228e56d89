import Sidecar.Rounds

/-!
# What a program emits

The events of a program, each from a given set: the file operations of `files.rs` emit log lines and
failures only, a request emits attempts at its own URL, a notification a run of `SCRIPT` and
attempts at the URL it is given.
-/

namespace Sidecar

open Posix StateM

/-! ## Emitting -/

/-- An event that nobody outside notices. -/
def Event.inner : Event → Bool
  | .log .. | .ioError .. | .sleep _ | .abort => true
  | _ => false

/-- All that happened between two states is in `E`. -/
def Emits (E : Event → Prop) (s s' : Sys) : Prop := ∃ new, s'.trace = s.trace ++ new ∧
    ∀ e ∈ new, E e

theorem Emits.preorder (E : Event → Prop) : Preorder (Emits E) where
  refl s := ⟨[], (List.append_nil _).symm, fun _ he => absurd he List.not_mem_nil⟩
  trans := by
    rintro s t u ⟨new, ht, hnew⟩ ⟨new', hu, hnew'⟩
    refine ⟨new ++ new', by rw [hu, ht, List.append_assoc], fun e he => ?_⟩
    rcases List.mem_append.1 he with he | he
    · exact hnew e he
    · exact hnew' e he

/-- Nothing happened. -/
theorem Emits.of_same {E : Event → Prop} {s s' : Sys} (h : s'.trace = s.trace) : Emits E s s' :=
  ⟨[], by rw [h, List.append_nil], fun _ he => absurd he List.not_mem_nil⟩

theorem emit_emits {E : Event → Prop} {e : Event} (he : E e) : Moves (Emits E) (emit e) := fun _ =>
  ⟨[e], rfl, fun _ hmem => List.mem_singleton.1 hmem ▸ he⟩

section Emits

variable {E : Event → Prop} (hE : ∀ e : Event, e.inner = true → E e) (env : Env)
include hE

theorem log_emits (level : Level) (msg : String) : Moves (Emits E) (log level msg) :=
  emit_emits (hE _ rfl)

theorem sleepFor_emits (secs : F64) : Moves (Emits E) (sleepFor secs) := by
  unfold sleepFor
  split <;> exact emit_emits (hE _ rfl)

/-! ## Files -/

theorem syscall_emits {α : Type} {what : FsCall}
    (call : FileTree → Except ErrorKind α × FileTree)
    (faulty : Fault → FileTree → FileTree) : Moves (Emits E) (syscall env what call faulty) := by
  intro s
  refine ⟨_, rfl, fun e he => ?_⟩
  split at he
  · cases he
  · rw [List.mem_singleton.1 he]
    exact hE _ rfl

theorem pathExists_emits (path : String) : Moves (Emits E) (pathExists env path) := by
  have hp := Emits.preorder E
  exact .bind hp (.bind hp (syscall_emits hE env _ _) fun _ => .pure hp _) fun _ => .pure hp _

theorem isFile_emits (path : String) : Moves (Emits E) (isFile env path) := by
  have hp := Emits.preorder E
  exact .bind hp (.bind hp (syscall_emits hE env _ _) fun _ => .pure hp _) fun _ => .pure hp _

theorem applyFileMode_emits (path : String) : Moves (Emits E) (applyFileMode env path) := by
  have hp := Emits.preorder E
  unfold applyFileMode
  split
  · exact .pure hp _
  · refine .ite (.pure hp _) ?_
    split
    · exact .pure hp _
    · exact syscall_emits hE env _ _

theorem rewrite_emits (path filename : String) (data : ByteArray) (dataType : String) :
    Moves (Emits E) (rewrite env path filename data dataType) := by
  have hp := Emits.preorder E
  refine .andThen hp ?_ fun _ => .ite ?_ ?_
  · exact .bind hp (pathExists_emits hE env path) fun _ =>
      .ite (.bind hp (syscall_emits hE env _ _) fun _ => .pure hp _) (.pure hp _)
  · exact .bind hp (log_emits hE _ _) fun _ => .pure hp _
  · exact .bind hp (log_emits hE _ _) fun _ => .andThen hp (syscall_emits hE env _ _) fun _ =>
      .andThen hp (applyFileMode_emits hE env path) fun _ => .pure hp _

theorem writeDataToFile_emits (folder filename : String) (data : ByteArray) (dataType : String) :
    Moves (Emits E) (writeDataToFile env folder filename data dataType) := by
  have hp := Emits.preorder E
  refine .bind hp ?_ fun created => ?_
  · exact .bind hp (pathExists_emits hE env folder) fun _ =>
      .ite (.pure hp _) (syscall_emits hE env _ _)
  · have hrewrite := rewrite_emits hE env (join folder filename) filename data dataType
    cases created with
    | ok _ => exact hrewrite
    | error e =>
      exact .ite (.bind hp (log_emits hE _ _) fun _ => .pure hp _) (.ite hrewrite (.pure hp _))

theorem removeFile_emits (folder filename : String) : Moves (Emits E)
    (removeFile env folder filename) := by
  have hp := Emits.preorder E
  exact .bind hp (isFile_emits hE env _) fun _ =>
    .ite (.bind hp (log_emits hE _ _) fun _ =>
      .bind hp (syscall_emits hE env _ _) fun _ => .pure hp _)
        (.bind hp (log_emits hE _ _) fun _ => .pure hp _)

/-! ## Requests and scripts -/

omit hE in
theorem sendOnce_emits {req : HttpRequest} (hreq : E (.attempt req)) : Moves (Emits E)
    (sendOnce env req) :=
  fun _ => ⟨[.attempt req], rfl, fun _ he => List.mem_singleton.1 he ▸ hreq⟩

theorem requestLoop_emits {req : HttpRequest} (hreq : E (.attempt req))
    (enforceStatus : List UInt16) (remaining attempt : Nat) (lastErr : Option String) :
    Moves (Emits E) (requestLoop env enforceStatus req remaining attempt lastErr) := by
  have hp := Emits.preorder E
  induction remaining generalizing attempt lastErr with
  | zero =>
    exact .bind hp (log_emits hE _ _) fun _ =>
      .bind hp (log_emits hE _ _) fun _ => .pure hp _
  | succ remaining ih =>
    unfold requestLoop
    refine .bind hp (.ite (sleepFor_emits hE _) (.pure hp _)) fun _ =>
      .bind hp (sendOnce_emits env hreq) fun out => ?_
    split
    · exact .ite (ih _ _) (.bind hp (log_emits hE _ _) fun _ => .pure hp _)
    · exact ih _ _

/-- A request is sent to its URL, with its method and payload. -/
theorem request_emits {url : String} {method payload : Option String}
    (hreq : method = none ∨ method = some "GET" ∨ method = some "POST" →
      E (.attempt ⟨url, method.isNone || method == some "GET", payload⟩)) (enable5xx : Bool) :
    Moves (Emits E) (request env (some url) method enable5xx payload) := by
  have hp := Emits.preorder E
  unfold request
  dsimp only
  by_cases hmethod : method = none ∨ method = some "GET" ∨ method = some "POST"
  · refine .ite (.bind hp (log_emits hE _ _) fun _ => .pure hp _)
      (.ite (.bind hp (emit_emits (hE _ rfl)) fun _ => .pure hp _) ?_)
    split
    · exact .bind hp (log_emits hE _ _) fun _ => .bind hp (log_emits hE _ _) fun _ => .pure hp _
    · exact requestLoop_emits hE env (hreq hmethod) _ _ _ _
  · rw [not_or, not_or] at hmethod
    rw [if_pos (by simp [Option.isSome_iff_ne_none, hmethod])]
    exact .bind hp (log_emits hE _ _) fun _ => .pure hp _

theorem getFileDataAndName_emits {dataKey : String} {content : Content}
    (hlink : ∀ url, isUrlKey dataKey = true → content.url? = some url →
      E (.attempt ⟨url, true, none⟩)) (ctx : Ctx) :
    Moves (Emits E) (getFileDataAndName env ctx dataKey content) := by
  have hp := Emits.preorder E
  unfold getFileDataAndName
  split
  · next stripped hkey =>
    have hurl : isUrlKey dataKey = true := by rw [isUrlKey, hkey]; rfl
    split
    · exact .pure hp _
    · next url hcontent =>
      exact .bind hp (request_emits hE env (fun _ => hlink url hurl hcontent) _) fun _ => .pure hp _
  · exact .pure hp _

theorem execute_emits {script : String} (hscript : ∀ ok, E (.spawn script ok)) :
    Moves (Emits E) (execute env script) := by
  have hp := Emits.preorder E
  have hspawn : ∀ argv, Moves (Emits E) (spawnChild env script argv) := fun argv s =>
    ⟨[_], rfl, fun _ he => List.mem_singleton.1 he ▸ hscript _⟩
  unfold execute
  refine .bind hp (log_emits hE _ _) fun _ => .bind hp (fun s => hp.refl s) fun _ =>
    .bind hp (hspawn _) fun result => ?_
  split
  · exact .pure hp _
  · refine .bind hp (.ite ?_ (log_emits hE _ _)) fun _ => .pure hp _
    exact .bind hp (log_emits hE _ _) fun _ => .bind hp (log_emits hE _ _) fun _ => log_emits hE _ _

theorem notify_emits {ctx : Ctx} {requestUrl : Option String}
    (hscript : ∀ script ok, ctx.script = some script → E (.spawn script ok))
    (hurl : ∀ url, requestUrl = some url →
      ctx.reqMethod = none ∨ ctx.reqMethod = some "GET" ∨ ctx.reqMethod = some "POST" →
      E (.attempt ⟨url, ctx.reqMethod.isNone || ctx.reqMethod == some "GET", ctx.reqPayload⟩))
      (changed : Bool) :
    Moves (Emits E) (notify env ctx requestUrl changed) := by
  have hp := Emits.preorder E
  unfold notify
  refine .ite (.bind hp ?_ fun ran => ?_) (.pure hp _)
  · split
    · next script hsome => exact execute_emits hE env fun ok => hscript script ok hsome
    · exact .pure hp _
  · split
    · exact .pure hp _
    · split
      · next url => exact .bind hp (request_emits hE env (hurl url rfl) _) fun _ => .pure hp _
      · exact .pure hp _

end Emits

end Sidecar
