import OpGraph.Plan.Compute
import OpGraph.Stream.Host

/-!
# `Plan.Run` — running plans

A run has two sides. The *host* follows a list of instructions: node by node it waits, launches, and
announces, then it waits for the outputs; in the end it flushes every stream. The *workers* take jobs off
the queues of the devices. Both sides change the same execution, in any order: `Execution.hostStep` is
one step of the host of one run, `Execution.workerStep` one step of one worker, and the work of a node
takes several steps of either. `finish` picks the order in which workers go as far as they can between any
two steps of the host.

Only the first failure of a job is kept. A failure on the host ends the launching at once; one on a
device is seen when everything is flushed.
-/

namespace OpGraph

/-! ## Instructions -/

/-- Who waits. -/
inductive Waiter where
  /-- A node that is about to be launched. -/
  | node (n : Nat)
  /-- An output of the graph that is about to be read. -/
  | output (value : Nat)
  deriving DecidableEq

/-- What the host does next. -/
inductive Instruction where
  | wait (w : PlannedWait) (who : Waiter)
  /-- Enqueue the work of a node on its stream. -/
  | launch (n : Nat)
  /-- Begin the work of a node on the host. -/
  | work (n : Nat)
  /-- Launch no more if anything failed so far. -/
  | check
  /-- Make the notification of a node, and activate it. -/
  | announce (n : Nat)
  /-- Give all notifications up. -/
  | forget
  /-- Ask a stream for a flush. -/
  | flush (stream : Nat)
  /-- Wait for the answer to the flush that was asked for. -/
  | flushed (stream : Nat)
  deriving DecidableEq

namespace Plan

/-- Instructions for one node. -/
def nodeInstructions (n : PlannedNode) (i : Nat) : List Instruction :=
  n.waits.map (.wait · (.node i)) ++
    match n.stream with
    | none => [.work i, .check]
    | some _ => .launch i :: if n.consumers = 0 then [] else [.announce i]

/-- Instructions up to the point where every output is there. -/
def launching (p : Plan) : List Instruction :=
  (p.nodes.zipIdx.flatMap fun (n, i) => nodeInstructions n i) ++
    p.outputs.filterMap fun o => o.wait.map (.wait · (.output o.value))

/-- Instructions that leave no job behind. -/
def draining (p : Plan) : List Instruction :=
  .forget :: (List.range p.streams.length).flatMap fun s => [.flush s, .flushed s]

/-- The stream that waits; none for the host. -/
def waitingStream (p : Plan) : Waiter → Option Stream
  | .node n => (p.nodes[n]?).bind p.streamOf
  | .output _ => none

end Plan

/-! ## Runs -/

/-- The work of a node in a run, and how far it has come. -/
structure NodeJob where
  run : Nat
  node : Nat
  stage : Stage := .taking []
  deriving DecidableEq

/-- A run of a plan. -/
structure Run where
  plan : Plan
  slots : ValueStore
  /-- The first failure of a job. -/
  failure : Option SessionError := none
  /-- Kernels that ran, in order: each with its node and its arguments. -/
  calls : List (Nat × List (Option Tensor)) := []
  reports : List StepReport := []
  log : List LogEvent := []
  /-- Work the host is in the middle of. -/
  active : Option NodeJob := none
  /-- Instructions still ahead while launching. -/
  launching : List Instruction
  /-- Instructions still ahead after that. -/
  draining : List Instruction
  /-- Notifications made so far, by node. -/
  notifications : List (Option Notification)
  /-- The number of the flush that was asked for last. -/
  asked : Nat := 0
  launchError : Option SessionError := none
  flushError : Option SessionError := none

namespace Run

/-- Put the value fed for one graph input in its slot. -/
def feed (p : Plan) (feeds : List (String × Tensor)) (slots : ValueStore) (v : Nat) :
    Except SessionError ValueStore :=
  match p.values[v]? with
  | none => .ok slots
  | some value =>
      match lastValue? value.name feeds with
      | none => .error (.missingFeed value.name)
      | some t =>
          if value.type.isDefined && value.type ≠ t.dtype then
            .error (.feedType value.name value.type t.dtype)
          else .ok (slots.set v (some t))

/-- The slots at the start of a run. -/
def initialSlots (p : Plan) (feeds : List (String × Tensor)) : Except SessionError ValueStore := do
  let slots ← p.feeds.foldlM (feed p feeds) (List.replicate p.values.length none)
  pure (p.initializers.foldl (fun s (v, t) => s.set v (some t)) slots)

/-- A run before its first instruction. Of two values fed under one name the last holds. -/
def start (p : Plan) (feeds : List (String × Tensor)) : Except SessionError Run :=
  (initialSlots p feeds).map fun slots =>
    { plan := p, slots, launching := p.launching, draining := p.draining
      notifications := List.replicate p.nodes.length none }

/-- Whether the host has come to the end. -/
def isOver (r : Run) : Bool := r.active.isNone && r.launching.isEmpty && r.draining.isEmpty

/-- A bound for the number of steps the host has ahead. -/
def ahead (r : Run) : Nat :=
  r.plan.nodes.foldl (fun total n => total + n.workSteps) (r.launching.length + r.draining.length)

/-- Take up a step of the work of node `i`. -/
def absorb (r : Run) (i : Nat) (name : String) (w : WorkStep) : Run :=
  { r with
    slots := w.slots
    calls := r.calls ++ (w.arguments.map fun args => (i, args)).toList
    reports := r.reports ++ w.reports
    log := r.log ++ w.log
    failure := r.failure.or (w.failure.map (.kernel name ·)) }

/-- Stop launching because of an error. -/
def stop (r : Run) (e : SessionError) : Run := { r with launching := [], launchError := some e }

/-- The notification of a node. -/
def notification? (r : Run) (n : Nat) : Option Notification := (r.notifications[n]?).join

/-- Keep the notification of a node. -/
def keep (r : Run) (n : Nat) (notification : Notification) : Run :=
  { r with notifications := r.notifications.set n (some notification) }

/-- The error of a wait for a node that was never launched. -/
def absent (r : Run) : Waiter → SessionError
  | .node n => .invalidGraph (.neverLaunched (((r.plan.nodes[n]?).map (·.name)).getD ""))
  | .output value => .missingOutput (r.plan.valueName value)

/-- The value of an output of the graph. -/
def output (r : Run) (o : PlannedOutput) : Except SessionError Tensor :=
  match r.slots.get? o.value with
  | some t => .ok t
  | none => .error (.missingOutput (r.plan.valueName o.value))

/-- What the run came to: the error that ended launching, else the first failure of a job, else the
    first failed flush, else the outputs. -/
def result (r : Run) : Except SessionError (List Tensor) :=
  match (r.launchError.or r.failure).or r.flushError with
  | some e => .error e
  | none => r.plan.outputs.mapM r.output

/-! ### The host -/

/-- Wait for the notification of a node. -/
def await (r : Run) (m : Machine NodeJob) (w : PlannedWait) (who : Waiter) :
    Option (Run × Machine NodeJob) :=
  match r.notification? w.producer with
  | none => some (r.stop (r.absent who), m)
  | some n =>
      let consumer := r.plan.waitingStream who
      let (outcome, counted) := w.f.check consumer n
      match outcome with
      | .error e => some ((r.keep w.producer counted).stop (.stream e), m)
      | .ok _ =>
          (w.f.complete consumer counted m).map fun m =>
            match w.f.outcome counted with
            | .ok _ => (r.keep w.producer counted, m)
            | .error e => ((r.keep w.producer counted).stop (.stream e), m)

/-- Go on with the work of a node on the host. -/
def proceed (r : Run) (job : NodeJob) : Run :=
  match r.plan.nodes[job.node]? with
  | none => { r with active := none }
  | some n =>
      let w := n.advance (r.plan.streamOf n) r.slots job.stage
      { r.absorb job.node n.name w with active := w.rest.map fun stage => { job with stage } }

/-- Launch the work of a node of run `i`. -/
def launch (r : Run) (i : Nat) (m : Machine NodeJob) (n : Nat) (name : String) (s : Stream) :
    Run × Machine NodeJob :=
  let job : NodeJob := { run := i, node := n }
  match s.launch name job (s.share m) with
  | (.queued, m) => (r, m)
  | (.inline, m) => ({ r with active := some job }, m)

/-- Make and activate the notification of a node. -/
def announce (r : Run) (m : Machine NodeJob) (n : Nat) (node : PlannedNode) (s : Stream) :
    Run × Machine NodeJob :=
  let (notification, m) := s.notification node.consumers m
  let (notification, m) := notification.activate m
  (r.keep n notification, m)

/-- Go on with a node and its stream, if it has one. -/
def withStream (r : Run) (m : Machine NodeJob) (n : Nat)
    (f : PlannedNode → Stream → Run × Machine NodeJob) : Run × Machine NodeJob :=
  match r.plan.nodes[n]? with
  | none => (r, m)
  | some node =>
      match r.plan.streamOf node with
      | none => (r, m)
      | some s => f node s

/-- Carry out an instruction of run `i`; none while the host cannot return from it. -/
def perform (r : Run) (i : Nat) (m : Machine NodeJob) : Instruction → Option (Run × Machine NodeJob)
  | .wait w who => r.await m w who
  | .launch n => some (r.withStream m n fun node s => r.launch i m n node.name s)
  | .work n => some ({ r with active := some { run := i, node := n } }, m)
  | .check => some (if r.failure.isSome then { r with launching := [] } else r, m)
  | .announce n => some (r.withStream m n fun node s => r.announce m n node s)
  | .forget =>
      some (r, (r.notifications.filterMap id).foldl (fun m n => n.stream.release m) m)
  | .flush k =>
      match r.plan.streams[k]? with
      | none => some (r, m)
      | some s =>
          let (number, m) := s.postFlush m
          some ({ r with asked := number }, m)
  | .flushed k =>
      match r.plan.streams[k]? with
      | none => some (r, m)
      | some s =>
          (s.flushReply? r.asked m).map fun
            | .ok _ => (r, m)
            | .error e => ({ r with draining := [], flushError := some (.stream e) }, m)

/-- One step of the host of run `i`: of the work it is in the middle of, else its next instruction. -/
def hostStep (r : Run) (i : Nat) (m : Machine NodeJob) : Option (Run × Machine NodeJob) :=
  match r.active, r.launching, r.draining with
  | some job, _, _ => some (r.proceed job, m)
  | none, a :: rest, _ => { r with launching := rest }.perform i m a
  | none, [], a :: rest => { r with draining := rest }.perform i m a
  | none, [], [] => none

end Run

namespace NodeJob

/-- One step of the work of a node in its run. A job on a simulated stream holds a share in its queue. -/
def execute : Executor NodeJob (List Run) := fun job runs =>
  match runs[job.run]? with
  | none => some (runs, {})
  | some r =>
      match r.plan.nodes[job.node]? with
      | none => some (runs, {})
      | some n =>
          let w := n.advance (r.plan.streamOf n) r.slots job.stage
          some (runs.set job.run (r.absorb job.node n.name w),
            { rest := w.rest.map fun stage => { job with stage }
              launched := w.launched
              releases := n.stream.isSome })

/-- A bound for the number of steps a job takes. -/
def size (runs : List Run) (job : NodeJob) : Nat :=
  ((runs[job.run]?.bind fun r => r.plan.nodes[job.node]?).map (·.workSteps)).getD 1

end NodeJob

/-! ## Executions -/

/-- Runs in progress on a machine. -/
structure Execution where
  machine : Machine NodeJob := {}
  runs : List Run := []

namespace Execution

/-- One step of the host of a run. -/
def hostStep (x : Execution) (i : Nat) : Option Execution :=
  match x.runs[i]? with
  | none => none
  | some r =>
      (r.hostStep i x.machine).map fun (r, machine) => { machine, runs := x.runs.set i r }

/-- One step of a worker. -/
def workerStep (x : Execution) (w : Machine.Worker) : Option Execution :=
  (x.machine.step NodeJob.execute w x.runs).map fun (runs, machine) => { machine, runs }

/-- Let all workers go as far as they can. -/
def settle (x : Execution) : Execution :=
  let (runs, machine) := x.machine.settle NodeJob.execute (NodeJob.size x.runs) x.runs
  { machine, runs }

/-- Let the host of a run take up to `fuel` steps, and the workers go on in between. -/
def advance (i : Nat) : Nat → Execution → Execution
  | 0, x => x.settle
  | fuel + 1, x =>
      let x := x.settle
      match x.hostStep i with
      | none => x
      | some x => advance i fuel x

/-- Let a run come to its end. -/
def finish (x : Execution) (i : Nat) : Execution :=
  x.advance i (((x.runs[i]?).map (·.ahead)).getD 0)

/-- Start a run next to those there are; its number is that of runs before. -/
def begin (x : Execution) (r : Run) : Nat × Execution :=
  (x.runs.length, { x with runs := x.runs ++ [r] })

/-- Start a run and let it come to its end: the run, and the machine afterwards. Without an answer the
    host would wait forever. -/
def whole (m : Machine NodeJob) (r : Run) : Option Run × Machine NodeJob :=
  let (i, x) := Execution.begin { machine := m } r
  let x := x.finish i
  ((x.runs[i]?).filter (·.isOver), x.machine)

end Execution

end OpGraph
