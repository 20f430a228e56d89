import Sidecar.Plan

/-!
# The trace is only written

No program reads the trace: what was in it before makes no difference to what a program does
(`Blind`). So two passes that start in states which differ in their traces alone go on the same way
(`applyListing_blind`, `notify_blind`).
-/

namespace Sidecar

open Posix StateM

/-- The state with more events in the past. -/
def Sys.after (past : List Event) (s : Sys) : Sys := { s with trace := past ++ s.trace }

def World.after (past : List Event) (w : World) : World := { w with sys := w.sys.after past }

abbrev Blind {α : Type} (x : M α) : Prop := ∀ past, Commutes (Sys.after past) x

abbrev WorldBlind {α : Type} (x : StateM World α) : Prop := ∀ past, Commutes (World.after past) x

theorem emit_blind (e : Event) : Blind (emit e) := fun past s => by
  simp [emit_apply, Sys.after, List.append_assoc]

theorem log_blind (level : Level) (msg : String) : Blind (log level msg) := emit_blind _

theorem sleepFor_blind (secs : F64) : Blind (sleepFor secs) := by
  unfold sleepFor
  split <;> exact emit_blind _

/-! ## File operations -/

section Files

variable (env : Env)

theorem syscall_blind {α : Type} {what : FsCall}
    (call : FileTree → Except ErrorKind α × FileTree)
    (faulty : Fault → FileTree → FileTree) : Blind (syscall env what call faulty) :=
  fun past s => by
  simp [syscall, Sys.after, List.append_assoc]

theorem sysStat_blind (path : String) : Blind (sysStat env path) := fun past =>
  .bind (syscall_blind env _ _ past) fun _ => .pure _

theorem pathExists_blind (path : String) : Blind (pathExists env path) := fun past =>
  .bind (sysStat_blind env path past) fun _ => .pure _

theorem isFile_blind (path : String) : Blind (isFile env path) := fun past =>
  .bind (sysStat_blind env path past) fun _ => .pure _

theorem ensureFolder_blind (folder : String) : Blind (ensureFolder env folder) := fun past =>
  .bind (pathExists_blind env folder past) fun _ => .ite (.pure _) (syscall_blind env _ _ past)

theorem readCurrent_blind (path : String) : Blind (readCurrent env path) := fun past =>
  .bind (pathExists_blind env path past) fun _ =>
    .ite (.bind (syscall_blind env _ _ past) fun _ => .pure _) (.pure _)

theorem applyFileMode_blind (path : String) : Blind (applyFileMode env path) := fun past => by
  unfold applyFileMode
  split
  · exact .pure _
  · refine .ite (.pure _) ?_
    split
    · exact .pure _
    · exact syscall_blind env _ _ past

theorem writeOut_blind (path : String) (data : ByteArray) : Blind (writeOut env path data) :=
  fun past => .andThen (syscall_blind env _ _ past) fun _ =>
    .andThen (applyFileMode_blind env path past) fun _ => .pure _

theorem rewrite_blind (path filename : String) (data : ByteArray) (dataType : String) :
    Blind (rewrite env path filename data dataType) := fun past =>
  .andThen (readCurrent_blind env path past) fun _ =>
    .ite (.bind (log_blind _ _ past) fun _ => .pure _)
      (.bind (log_blind _ _ past) fun _ => writeOut_blind env path data past)

theorem writeDataToFile_blind (folder filename : String) (data : ByteArray) (dataType : String) :
    Blind (writeDataToFile env folder filename data dataType) := fun past => by
  refine .bind (ensureFolder_blind env folder past) fun created => ?_
  have hrewrite := rewrite_blind env (join folder filename) filename data dataType past
  cases created with
  | ok _ => exact hrewrite
  | error e =>
    exact .ite (.bind (log_blind _ _ past) fun _ => .pure _) (.ite hrewrite (.pure _))

theorem removeFile_blind (folder filename : String) : Blind (removeFile env folder filename) :=
  fun past => .bind (isFile_blind env _ past) fun _ =>
    .ite (.bind (log_blind _ _ past) fun _ => .bind (syscall_blind env _ _ past) fun _ => .pure _)
      (.bind (log_blind _ _ past) fun _ => .pure _)

end Files

/-! ## Requests and scripts -/

section Calls

variable (env : Env)

theorem sendOnce_blind (req : HttpRequest) : Blind (sendOnce env req) := fun past s => by
  simp [sendOnce, Sys.after, List.append_assoc]

theorem requestLoop_blind (enforceStatus : List UInt16) (req : HttpRequest)
    (remaining attempt : Nat) (lastErr : Option String) :
    Blind (requestLoop env enforceStatus req remaining attempt lastErr) := fun past => by
  induction remaining generalizing attempt lastErr with
  | zero => exact .bind (log_blind _ _ past) fun _ => .bind (log_blind _ _ past) fun _ => .pure _
  | succ remaining ih =>
    unfold requestLoop
    refine .bind (.ite (sleepFor_blind _ past) (.pure _)) fun _ =>
      .bind (sendOnce_blind env req past) fun out => ?_
    split
    · exact .ite (ih _ _) (.bind (log_blind _ _ past) fun _ => .pure _)
    · exact ih _ _

theorem request_blind (url method : Option String) (enable5xx : Bool) (payload : Option String) :
    Blind (request env url method enable5xx payload) := fun past => by
  unfold request
  dsimp only
  split
  · exact .bind (log_blind _ _ past) fun _ => .pure _
  · refine .ite (.bind (log_blind _ _ past) fun _ => .pure _)
      (.ite (.bind (emit_blind _ past) fun _ => .pure _) ?_)
    split
    · exact .bind (log_blind _ _ past) fun _ => .bind (log_blind _ _ past) fun _ => .pure _
    · exact requestLoop_blind env _ _ _ _ _ past

theorem spawnChild_blind (scriptPath : String) (argv : List String) :
    Blind (spawnChild env scriptPath argv) := fun past s => by
  simp [spawnChild, Sys.after, List.append_assoc]

theorem execute_blind (scriptPath : String) : Blind (execute env scriptPath) := fun past => by
  unfold execute
  refine .bind (log_blind _ _ past) fun _ => .bind (fun _ => rfl) fun _ =>
    .bind (spawnChild_blind env _ _ past) fun result => ?_
  split
  · exact .pure _
  · refine .bind (.ite ?_ (log_blind _ _ past)) fun _ => .pure _
    exact .bind (log_blind _ _ past) fun _ => .bind (log_blind _ _ past) fun _ =>
      log_blind _ _ past

theorem notify_blind (ctx : Ctx) (requestUrl : Option String) (filesChanged : Bool) :
    Blind (notify env ctx requestUrl filesChanged) := fun past => by
  refine .ite (.bind ?_ fun ran => ?_) (.pure _)
  · split
    · exact execute_blind env _ past
    · exact .pure _
  · split
    · exact .pure _
    · split
      · exact .bind (request_blind env _ _ _ _ past) fun _ => .pure _
      · exact .pure _

end Calls

/-! ## Resources -/

section Resources

variable (env : Env) (ctx : Ctx) (kind : Kind)

theorem getFileDataAndName_blind (dataKey : String) (content : Content) :
    Blind (getFileDataAndName env ctx dataKey content) := fun past => by
  unfold getFileDataAndName
  split
  · split
    · exact .pure _
    · exact .bind (request_blind env _ _ _ _ past) fun _ => .pure _
  · exact .pure _

theorem Action.run_blind (a : Action) : Blind (a.run env ctx kind) := fun past => by
  cases a with
  | log level msg => exact .bind (log_blind _ _ past) fun _ => .pure _
  | file j =>
    refine .bind (.andThen (getFileDataAndName_blind env ctx _ _ past) fun out => ?_)
      fun result => ?_
    · exact .ite (.bind (removeFile_blind env _ _ past) fun _ => .pure _)
        (.bind (emit_blind _ past) fun _ => .bind (writeDataToFile_blind env _ _ _ _ past) fun _ =>
          .pure _)
    · split
      · exact .pure _
      · exact .bind (log_blind _ _ past) fun _ => .pure _

theorem runActions_blind (as : List Action) : Blind (runActions env ctx kind as) := fun past => by
  induction as with
  | nil => exact .pure _
  | cons a as ih => exact .bind (a.run_blind env ctx kind past) fun _ => .bind ih fun _ => .pure _

theorem liftSys_blind {α : Type} {x : M α} (h : Blind x) : WorldBlind (liftSys x) :=
  fun past w => by
  have hx := h past w.sys
  simp only [liftSys, World.after, hx]

theorem withMaps_blind {α : Type} (f : Maps → α × Maps) : WorldBlind (withMaps f) :=
  fun _ _ => rfl

theorem processResource_blind (item : Item) (destFolder : Option String) (isRemoved : Bool) :
    WorldBlind (processResource env ctx kind item destFolder isRemoved) := fun past =>
  .bind (withMaps_blind _ past) fun old => by
    dsimp only
    rw [syncItem_eq_runActions]
    exact liftSys_blind (runActions_blind env ctx kind _) past

theorem getDestinationFolder_blind (item : Item) : Blind (getDestinationFolder item ctx) :=
  fun past => by
    unfold getDestinationFolder
    split
    · exact .bind (log_blind _ _ past) fun _ => .pure _
    · exact .pure _

theorem listItem_blind (ignoreAlreadyProcessed : Bool) (item : Item) :
    WorldBlind (listItem env ctx kind ignoreAlreadyProcessed item) := fun past =>
  have hlog : ∀ level msg, WorldBlind (liftSys (log level msg)) := fun level msg =>
    liftSys_blind (log_blind level msg)
  .bind (.ite (withMaps_blind _ past) (.pure _)) fun _ =>
    .ite (.bind (hlog _ _ past) fun _ => .pure _)
      (.bind (hlog _ _ past) fun _ =>
        .bind (liftSys_blind (getDestinationFolder_blind ctx item) past) fun _ =>
          processResource_blind env ctx kind _ _ _ past)

theorem listItems_blind (ignoreAlreadyProcessed : Bool) (items : List Item) :
    WorldBlind (listItems env ctx kind ignoreAlreadyProcessed items) := fun past => by
  induction items with
  | nil => exact .pure _
  | cons item items ih =>
    exact .bind (listItem_blind env ctx kind _ item past) fun _ => .bind ih fun _ => .pure _

theorem removeStale_blind (items : List Item) : WorldBlind (removeStale env ctx kind items) :=
  fun past => by
    induction items with
    | nil => exact .pure _
    | cons item items ih =>
      exact .bind (liftSys_blind (log_blind _ _) past) fun _ =>
        .bind (processResource_blind env ctx kind _ _ _ past) fun _ => .bind ih fun _ => .pure _

theorem applyListing_blind (ns : String) (ignoreAlreadyProcessed : Bool) (items : List Item) :
    WorldBlind (applyListing env ctx kind ns ignoreAlreadyProcessed items) := fun past =>
  .bind (listItems_blind env ctx kind _ items past) fun _ => .bind (fun _ => rfl) fun _ =>
    .bind (removeStale_blind env ctx kind _ past) fun _ => .pure _

end Resources

end Sidecar
