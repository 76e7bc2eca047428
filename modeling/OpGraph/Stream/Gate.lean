import OpGraph.Device.Timeline

/-!
# `Stream.Gate` — jobs that wait at a gate

A gate is a name that is opened once and for good. A gated job holds its queue up until its gate is
open, and then ends or panics. It may keep a share in its queue until its end.
-/

namespace OpGraph

/-- A job that may wait at a gate. -/
structure GatedJob where
  gate : Option String := none
  panics : Bool := false
  /-- Whether it keeps a share in its queue. -/
  shares : Bool := false
  deriving DecidableEq

/-- Run gated jobs, given the gates that are open. -/
def GatedJob.run : Executor GatedJob (List String) := fun job openGates =>
  if job.gate.all (· ∈ openGates) then
    some (openGates, { panicked := job.panics, releases := job.shares })
  else none

end OpGraph
