import Sidecar.Sys

/-!
# Health endpoint state

`health.rs`: readiness, the time of the last Kubernetes contact and the watchers' flags.
-/

namespace Sidecar

def k8sContactThresholdSeconds : Nat := 60

def markReady : M Unit := modify fun s => { s with health := { s.health with ready := true } }

def updateK8sContact : M Unit :=
  modify fun s => { s with health := { s.health with lastContactMs := s.clock } }

def registerWatchers (flags : List Bool) : M Unit :=
  modify fun s => { s with health := { s.health with watchers := flags } }

/-- Status code, reason and body of `/healthz`. -/
def statusBody (s : Sys) : Nat × String × String :=
  if !s.health.ready then (503, "Service Unavailable", "NOT READY")
  else if s.clock - s.health.lastContactMs > k8sContactThresholdSeconds * 1000 then
    (503, "Service Unavailable", "NOT LIVE (K8s contact lost)")
  else if !s.health.watchers.isEmpty && s.health.watchers.any (!·) then
    (503, "Service Unavailable", "NOT LIVE (watcher thread died)")
  else (200, "OK", "OK")

end Sidecar
