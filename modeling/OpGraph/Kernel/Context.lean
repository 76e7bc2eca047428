import OpGraph.Kernel.Answer

/-!
# `Kernel.Context` — one computation of a kernel

The context holds the inputs, the planned output types and the outputs made so far. An output is made in
one of three ways: allocated as planned, allocated with a type of the kernel's choice, or handed over
whole. Each checks the position and the planned type first and changes nothing when it refuses; each
replaces whatever stood at the position before.

`KernelM` is the language kernels are written in: the context as state, and two ways to stop early, by
an error or by a panic. What was done before stopping stays done.
-/

namespace OpGraph

/-- The state of one computation. -/
structure KernelContext where
  /-- The inputs; none where an optional input was left out. -/
  inputs : List (Option Tensor)
  /-- The planned type of each output. -/
  planned : List DataType
  /-- The outputs made so far, one place for each planned one. -/
  outputs : List (Option Tensor)
  /-- The stream the kernel runs on; none on the host. -/
  stream : Option Stream := none
  logger : Option Logger := none
  /-- What the kernel reported about its steps. -/
  reports : List StepReport := []
  /-- What was emitted. -/
  log : List LogEvent := []
  /-- Jobs the kernel enqueued on its own stream. -/
  launched : List FixedJob := []

namespace KernelContext

/-- A fresh computation, with no output made. -/
def start (inputs : List (Option Tensor)) (planned : List DataType) (stream : Option Stream)
    (logger : Option Logger) : KernelContext :=
  { inputs, planned, outputs := List.replicate planned.length none, stream, logger }

/-! ## Inputs -/

/-- Input `i`; none where it was left out. -/
def input (c : KernelContext) (i : Nat) : Except OpError (Option Tensor) :=
  match c.inputs[i]? with
  | some t => .ok t
  | none => .error (.indexOutOfBounds .input i c.inputs.length)

/-- Input `i`, which must be there. -/
def requiredInput (c : KernelContext) (i : Nat) : Except OpError Tensor := do
  match ← c.input i with
  | some t => pure t
  | none => throw (.invalidArgument (.notSupplied i))

/-! ## Outputs -/

/-- The planned type of output `i`. -/
def plannedType (c : KernelContext) (i : Nat) : Except OpError DataType :=
  match c.planned[i]? with
  | some d => .ok d
  | none => .error (.indexOutOfBounds .output i c.planned.length)

/-- Refuse a type that differs from the planned one, where that is known. -/
def checkOutput (c : KernelContext) (i : Nat) (d : DataType) : Except OpError Unit := do
  let planned ← c.plannedType i
  if planned.isDefined && planned ≠ d then throw (.invalidArgument (.offPlan i planned d))

/-- The context with output `i` in place. -/
def place (c : KernelContext) (i : Nat) (t : Tensor) : KernelContext :=
  { c with outputs := c.outputs.set i (some t) }

/-- Hand over a whole value for output `i`. -/
def setOutput (c : KernelContext) (i : Nat) (t : Tensor) : Except OpError KernelContext := do
  c.checkOutput i t.dtype
  pure (c.place i t)

/-- Allocate output `i` with a type of the kernel's choice. -/
def allocate (c : KernelContext) (i : Nat) (d : DataType) (shape : Shape) :
    Except OpError KernelContext := do
  c.checkOutput i d
  match Tensor.zeros d shape with
  | .ok t => pure (c.place i t)
  | .error e => throw (.tensor e)

/-- Allocate output `i` as planned. -/
def allocatePlanned (c : KernelContext) (i : Nat) (shape : Shape) :
    Except OpError KernelContext := do
  let planned ← c.plannedType i
  if planned.isDefined then c.allocate i planned shape
  else throw (.invalidArgument (.unplanned i))

/-- The value at output `i`, where one was made. -/
def output? (c : KernelContext) (i : Nat) : Option Tensor := (c.outputs[i]?).join

/-- Replace every element of the value at output `i`, which must be of type `d`. -/
def overwriteOutput (c : KernelContext) (i : Nat) (d : DataType) (xs : List (Element d)) :
    Except OpError KernelContext :=
  match c.output? i with
  | none => .error (.invalidArgument (.notProduced i))
  | some t =>
      match t.overwrite d xs with
      | .ok t' => .ok (c.place i t')
      | .error e => .error (.tensor e)

/-- The logger of the computation. -/
def contextLogger (c : KernelContext) : Except OpError Logger :=
  match c.logger with
  | some l => .ok l
  | none => .error (.missingInformation .noContextLogger)

end KernelContext

/-! ## The language kernels are written in -/

/-- How a kernel stops early. -/
inductive Abort where
  | error (e : OpError)
  /-- A panic; its payload may be no text. -/
  | panic (payload : Option String)
  deriving DecidableEq

/-- How a kernel is stopped by an operation that failed: by the error, unless it is one that panics. -/
def Abort.of : OpError → Abort
  | .tensor e => if e.panics then .panic (some e.message) else .error (.tensor e)
  | e => .error e

/-- A computation of a kernel. -/
abbrev KernelM := ExceptT Abort (StateM KernelContext)

namespace KernelM

/-- Read from the context. -/
def ask {α : Type} (f : KernelContext → Except OpError α) : KernelM α := do
  match f (← get) with
  | .ok a => pure a
  | .error e => throw (.of e)

/-- Change the context, unless the change is refused. -/
def update (f : KernelContext → Except OpError KernelContext) : KernelM Unit := do
  set (← ask f)

/-- Stop with an error. -/
def fail {α : Type} (e : OpError) : KernelM α := throw (.error e)

/-- Elements of a tensor, read as those of type `d`. -/
def view (d : DataType) (t : Tensor) : KernelM (List (Element d)) :=
  ask fun _ => (t.view d).mapError .tensor

/-- Emit a message, if the logger lets it through; whether it did. -/
def log (l : Logger) (s : Severity) (message function : String) (origin : Option Origin) :
    KernelM Bool := do
  match l.log s message function origin with
  | some m =>
      modify fun c => { c with log := c.log ++ [.message m] }
      pure true
  | none => pure false

/-- Report what a step came to. -/
def report (r : StepReport) : KernelM Unit :=
  modify fun c => { c with reports := c.reports ++ [r] }

/-- Enqueue a job on the stream the kernel runs on. There is none on the host, and nothing happens; on a
    graphics device the job runs at once, so its panic is the kernel's. -/
def launch (job : FixedJob) : KernelM Unit := do
  match (← get).stream with
  | none => pure ()
  | some (.gpu _) => if job.panics then throw (.panic none) else pure ()
  | some (.sim ..) => modify fun c => { c with launched := c.launched ++ [job] }

/-- Run a computation from a context: how it ended and the context it left. -/
def start {α : Type} (k : KernelM α) (c : KernelContext) : Except Abort α × KernelContext :=
  (k.run).run c

end KernelM

end OpGraph
