import OpGraph.Device.Timeline

/-!
# `Device.Machine` — all timelines, and letting the workers go on

The machine is the state of all simulated devices. `Machine.step` is one step of one worker; `settle`
lets workers step, first come first served, until none can. Settling ends because a step takes a command
away or a job further, every job has so many steps, and only jobs put new commands in a queue, which are
none that could do so again.
-/

namespace OpGraph

/-- The state of all simulated devices. -/
structure Machine (Job : Type) where
  timelines : List (Timeline Job) := []

namespace Machine

variable {Job State : Type}

/-! ## Timelines -/

/-- A new timeline, and where it is. -/
def addTimeline (m : Machine Job) : Nat × Machine Job :=
  let fresh : Timeline Job := {}
  (m.timelines.length, ⟨m.timelines ++ [fresh]⟩)

/-- A timeline. -/
def timeline (m : Machine Job) (t : Nat) : Timeline Job := m.timelines.getD t {}

/-- Change a timeline. -/
def modify (m : Machine Job) (t : Nat) (f : Timeline Job → Timeline Job) : Machine Job :=
  ⟨m.timelines.modify t f⟩

/-! ## Steps of workers -/

/-- A worker: its timeline and its queue. -/
structure Worker where
  timeline : Nat
  queue : Nat
  deriving DecidableEq

/-- All workers. -/
def workers (m : Machine Job) : List Worker :=
  m.timelines.zipIdx.flatMap fun (t, i) => (List.range t.queues.length).map fun q => ⟨i, q⟩

/-- One step of a worker. -/
def step (exec : Executor Job State) (w : Worker) (s : State) (m : Machine Job) :
    Option (State × Machine Job) :=
  match m.timelines[w.timeline]? with
  | none => none
  | some t => (t.step exec w.queue s).map fun (s, t) => (s, ⟨m.timelines.set w.timeline t⟩)

/-- Whether a command is a job that may put further commands in a queue. -/
def isOpen : Command Job → Bool
  | .run .. => true
  | _ => false

/-- All waiting commands. -/
def commands (m : Machine Job) : List (Command Job) :=
  m.timelines.flatMap fun t => t.queues.flatMap (·.pending)

/-- Number of waiting commands that are no jobs of the user's. -/
def closedCommands (m : Machine Job) : Nat := (m.commands.filter (! isOpen ·)).length

/-- Number of steps that waiting jobs take, given how many each does at most. -/
def jobSteps (size : Job → Nat) (m : Machine Job) : Nat :=
  m.commands.foldl (fun total command =>
    match command with
    | .run _ job => total + size job
    | _ => total) 0

/-- The command a worker takes next. -/
def front? (m : Machine Job) (w : Worker) : Option (Command Job) :=
  m.timelines[w.timeline]?.bind fun t => t.front? w.queue

/-- The step of the first worker that can take one, and whether it took a job further. -/
def stepFirst (exec : Executor Job State) (s : State) (m : Machine Job) :
    Option (Bool × State × Machine Job) :=
  m.workers.findSome? fun w =>
    (m.step exec w s).map fun r => (((m.front? w).map isOpen).getD false, r)

/-- Let workers take up to so many steps, the last of them one of a job; whether one was. -/
def stepToJob (exec : Executor Job State) : Nat → State → Machine Job → Bool × State × Machine Job
  | 0, s, m => (false, s, m)
  | n + 1, s, m =>
      match m.stepFirst exec s with
      | none => (false, s, m)
      | some (true, s, m) => (true, s, m)
      | some (false, s, m) => stepToJob exec n s m

/-- Let workers step until none can, over up to so many steps of jobs. Between two of these every step
    takes one of the other commands away. -/
def settleWithin (exec : Executor Job State) : Nat → State → Machine Job → State × Machine Job
  | 0, s, m => (stepToJob exec m.closedCommands s m).2
  | n + 1, s, m =>
      match stepToJob exec (m.closedCommands + 1) s m with
      | (true, s, m) => settleWithin exec n s m
      | (false, s, m) => (s, m)

/-- Let workers step until none can, given how many steps each job takes at most. -/
def settle (exec : Executor Job State) (size : Job → Nat) (s : State) (m : Machine Job) :
    State × Machine Job :=
  settleWithin exec (m.jobSteps size) s m

end Machine

end OpGraph
