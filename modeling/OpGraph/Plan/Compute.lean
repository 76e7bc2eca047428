import OpGraph.Plan.Basic

/-!
# `Plan.Compute` — the work of one node

Values of a run stand in slots, one for each value of the plan, and a slot is filled at most once. The
work of a node is to take its arguments from their slots, run its kernel on them, and publish what the
kernel made, output by output. It fails with the first cause: an argument that is not there, the
kernel's own error or panic, an output the kernel did not make, or a slot that is filled already.

Slots are shared by everything that runs at one time, so the work comes twice. `compute` does it in one
go, with nobody else at the slots. `advance` is one step of it, which reads one slot, runs the kernel, or
fills one slot; whatever others do may come between two steps.
-/

namespace OpGraph

/-- Values of a run so far, by number. -/
abbrev ValueStore := List (Option Tensor)

namespace ValueStore

/-- The value in a slot. -/
def get? (s : ValueStore) (v : Nat) : Option Tensor := (s[v]?).join

/-- The arguments of a node, from input `i` on. -/
def gather (s : ValueStore) : Nat → List (Option Nat) → Except OpError (List (Option Tensor))
  | _, [] => .ok []
  | i, none :: rest => (gather s (i + 1) rest).map (none :: ·)
  | i, some v :: rest =>
      match s.get? v with
      | none => .error (.invalidArgument (.neverProduced i))
      | some t => (gather s (i + 1) rest).map (some t :: ·)

/-- Publish what a kernel made, from output `i` on. -/
def publish (i : Nat) (s : ValueStore) : List (Option Tensor × Option Nat) → Except OpError Unit × ValueStore
  | [] => (.ok (), s)
  | (_, none) :: rest => publish (i + 1) s rest
  | (none, some _) :: _ => (.error (.invalidArgument (.notProduced i)), s)
  | (some t, some v) :: rest =>
      if (s.get? v).isSome then (.error (.invalidArgument (.alreadySet i)), s)
      else publish (i + 1) (s.set v (some t)) rest

end ValueStore

/-- The error a kernel stopped with. A panic is the operator's failure. -/
def Abort.toError (op : String) : Abort → OpError
  | .error e => e
  | .panic payload => .kernelPanicked op (payload.getD "unknown panic payload")

namespace PlannedNode

/-- Run the kernel of a node: how it ended, and the context it left. -/
def invoke (n : PlannedNode) (stream : Option Stream) (args : List (Option Tensor)) :
    Except Abort Unit × KernelContext :=
  KernelM.start n.kernel.compute (KernelContext.start args n.types stream n.logger)

/-! ## In one go -/

/-- Do the work of a node. -/
def compute (n : PlannedNode) (stream : Option Stream) (slots : ValueStore) :
    Except OpError Unit × ValueStore :=
  match slots.gather 0 n.inputs with
  | .error e => (.error e, slots)
  | .ok args =>
      match n.invoke stream args with
      | (.error stop, _) => (.error (stop.toError n.op), slots)
      | (.ok _, c) => slots.publish 0 (c.outputs.zip n.outputs)

end PlannedNode

/-! ## Step by step -/

/-- How far the work of a node has come. -/
inductive Stage where
  /-- The kernel has not run yet; these arguments were taken. -/
  | taking (args : List (Option Tensor))
  /-- The kernel has run; what it made is still to be published from output `i` on. -/
  | publishing (i : Nat) (left : List (Option Tensor × Option Nat))
  /-- Something failed and nobody was told yet. -/
  | failing (e : OpError)
  deriving DecidableEq

/-- What a step of the work of a node did. -/
structure WorkStep where
  slots : ValueStore
  /-- What is left of the work; none once it is over. -/
  rest : Option Stage := none
  /-- The failure it told of. -/
  failure : Option OpError := none
  /-- The arguments the kernel ran on, if it did. -/
  arguments : Option (List (Option Tensor)) := none
  reports : List StepReport := []
  log : List LogEvent := []
  /-- Jobs the kernel enqueued. -/
  launched : List FixedJob := []

namespace PlannedNode

/-- Take the next argument; none if all are taken. -/
def take (n : PlannedNode) (slots : ValueStore) (args : List (Option Tensor)) : Option Stage :=
  (n.inputs[args.length]?).map fun
    | none => .taking (args ++ [none])
    | some v =>
        match slots.get? v with
        | none => .failing (.invalidArgument (.neverProduced args.length))
        | some t => .taking (args ++ [some t])

/-- Run the kernel on all arguments. -/
def runKernel (n : PlannedNode) (stream : Option Stream) (slots : ValueStore)
    (args : List (Option Tensor)) : WorkStep :=
  let (ending, c) := n.invoke stream args
  { slots, arguments := some args, reports := c.reports, log := c.log, launched := c.launched
    rest := some <|
      match ending with
      | .error stop => .failing (stop.toError n.op)
      | .ok _ => .publishing 0 (c.outputs.zip n.outputs) }

/-- One step of the work of a node. -/
def advance (n : PlannedNode) (stream : Option Stream) (slots : ValueStore) : Stage → WorkStep
  | .taking args =>
      match n.take slots args with
      | some stage => { slots, rest := some stage }
      | none => n.runKernel stream slots args
  | .publishing _ [] => { slots }
  | .publishing i ((_, none) :: left) => { slots, rest := some (.publishing (i + 1) left) }
  | .publishing i ((none, some _) :: _) =>
      { slots, rest := some (.failing (.invalidArgument (.notProduced i))) }
  | .publishing i ((some t, some v) :: left) =>
      if (slots.get? v).isSome then
        { slots, rest := some (.failing (.invalidArgument (.alreadySet i))) }
      else { slots := slots.set v (some t), rest := some (.publishing (i + 1) left) }
  | .failing e => { slots, failure := some e }

/-- A bound for the number of steps that the work of a node takes. -/
def workSteps (n : PlannedNode) : Nat := n.inputs.length + n.outputs.length + 3

end PlannedNode

end OpGraph
