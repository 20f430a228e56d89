import Sidecar.Steps

/-!
# Relations every program moves along

A relation of process states that log lines, system calls and requests move along is one that all
the processing moves along: the files, the fetches, the actions of a plan, and so list passes and
events (`Sys.Frame.world`). Scripts are left out, since some of these relations are about them.
-/

namespace Sidecar

open Posix StateM

def Event.spawned? : Event → Option Bool
  | .spawn _ ok => some ok
  | _ => none

/-- A preorder on process states that the primitive effects move along; spawning is not one. -/
structure Sys.Frame (env : Env) (R : Sys → Sys → Prop) : Prop where
  preorder : Preorder R
  event {e : Event} (he : e.spawned? = none) : Moves R (emit e)
  call {α : Type} {what : FsCall} (call : FileTree → Except ErrorKind α × FileTree)
    (faulty : Fault → FileTree → FileTree) : Moves R (syscall env what call faulty)
  send (req : HttpRequest) : Moves R (sendOnce env req)
  scan (s : Sys) : R s { s with scanTick := s.scanTick + 1 }

namespace Sys.Frame

variable {env : Env} {R : Sys → Sys → Prop} (h : Sys.Frame env R)
include h

theorem log (level : Level) (msg : String) : Moves R (log level msg) := h.event rfl

/-! ## Files -/

theorem pathExists (path : String) : Moves R (pathExists env path) :=
  .bind h.preorder (.bind h.preorder (h.call _ _) fun _ => .pure h.preorder _) fun _ =>
    .pure h.preorder _

theorem isFile (path : String) : Moves R (isFile env path) :=
  .bind h.preorder (.bind h.preorder (h.call _ _) fun _ => .pure h.preorder _) fun _ =>
    .pure h.preorder _

theorem applyFileMode (path : String) : Moves R (applyFileMode env path) := by
  have hp := h.preorder
  unfold Sidecar.applyFileMode
  split
  · exact .pure hp _
  · refine .ite (.pure hp _) ?_
    split
    · exact .pure hp _
    · exact h.call _ _

theorem rewrite (path filename : String) (data : ByteArray) (dataType : String) :
    Moves R (rewrite env path filename data dataType) := by
  have hp := h.preorder
  refine .andThen hp ?_ fun _ => .ite ?_ ?_
  · exact .bind hp (h.pathExists path) fun _ =>
      .ite (.bind hp (h.call _ _) fun _ => .pure hp _) (.pure hp _)
  · exact .bind hp (h.log _ _) fun _ => .pure hp _
  · exact .bind hp (h.log _ _) fun _ => .andThen hp (h.call _ _) fun _ =>
      .andThen hp (h.applyFileMode path) fun _ => .pure hp _

theorem writeDataToFile (folder filename : String) (data : ByteArray) (dataType : String) :
    Moves R (writeDataToFile env folder filename data dataType) := by
  have hp := h.preorder
  refine .bind hp ?_ fun created => ?_
  · exact .bind hp (h.pathExists folder) fun _ => .ite (.pure hp _) (h.call _ _)
  have hrewrite := h.rewrite (join folder filename) filename data dataType
  cases created with
  | ok _ => exact hrewrite
  | error e => exact .ite (.bind hp (h.log _ _) fun _ => .pure hp _) (.ite hrewrite (.pure hp _))

theorem removeFile (folder filename : String) : Moves R (removeFile env folder filename) := by
  have hp := h.preorder
  exact .bind hp (h.isFile _) fun _ =>
    .ite (.bind hp (h.log _ _) fun _ => .bind hp (h.call _ _) fun _ => .pure hp _)
      (.bind hp (h.log _ _) fun _ => .pure hp _)

/-! ## Requests -/

theorem requests : Sys.Requests env R where
  preorder := h.preorder
  log := h.log
  sleep _ := h.event rfl
  abort := h.event rfl
  send := h.send

/-! ## Plans, passes and events -/

theorem action (ctx : Ctx) (kind : Kind) (a : Action) : Moves R (a.run env ctx kind) := by
  have hp := h.preorder
  cases a with
  | log level msg => exact .bind hp (h.log _ _) fun _ => .pure hp _
  | file j =>
    refine .bind hp (.andThen hp (h.requests.getFileDataAndName ctx _ _) fun out => .ite ?_ ?_)
      fun result => ?_
    · exact .bind hp (h.removeFile _ _) fun _ => .pure hp _
    · exact .bind hp (h.event rfl) fun _ => .bind hp (h.writeDataToFile _ _ _ _) fun _ => .pure hp _
    · split
      · exact .pure hp _
      · exact .bind hp (h.log _ _) fun _ => .pure hp _

theorem runActions (ctx : Ctx) (kind : Kind) (as : List Action) :
    Moves R (runActions env ctx kind as) := by
  have hp := h.preorder
  induction as with
  | nil => exact .pure hp _
  | cons a as ih => exact .bind hp (h.action ctx kind a) fun _ => .bind hp ih fun _ => .pure hp _

theorem world (ctx : Ctx) (kind : Kind) : World.Frame env ctx kind fun w w' => R w.sys w'.sys :=
  World.frame_of_sys env ctx kind h.preorder h.log h.scan (h.runActions ctx kind)

end Sys.Frame

end Sidecar
