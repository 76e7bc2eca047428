import OpGraph.Stream.Basic

/-!
# `Device.Timeline` — queues of commands on a shared timeline

A simulated device and its peers share one timeline: a trace of what happened, the markers that were
reached, and the queues. Each queue is worked off in order by a worker of its own. `Timeline.step` is one
step of one worker: it goes on with the command at the front of the queue, or with nothing when the queue
is empty, when the front waits for a marker nobody reached yet, or when the job at the front cannot go on.
Every interleaving of the workers is a sequence of such steps.

Jobs belong to whoever uses the timeline: a step of one reads and changes a state of the user's, and may
fail to be ready. A job that takes several steps stays at the front until its last, so jobs of different
queues overlap.
-/

namespace OpGraph

/-! ## The trace -/

/-- What happens on a timeline. -/
inductive Occurrence where
  /-- A job ended. -/
  | job (label : String)
  /-- A marker was reached. -/
  | marker (id : Nat)
  /-- The host went on after waiting for a marker. -/
  | resume (id : Nat)
  deriving DecidableEq

/-- The occurrence in text. -/
def Occurrence.text : Occurrence → String
  | job label => "job:" ++ label
  | marker id => "marker:" ++ toString id
  | resume id => "resume:" ++ toString id

/-- The occurrence that a text stands for. -/
def Occurrence.ofText? (s : String) : Option Occurrence :=
  match s.splitOn ":" with
  | ["marker", id] => id.toNat?.map .marker
  | ["resume", id] => id.toNat?.map .resume
  | "job" :: rest => some (.job (":".intercalate rest))
  | _ => none

/-- An entry of the trace. Ticks count from one. -/
structure TraceEvent where
  tick : Nat
  /-- The queue it happened on; none for the host. -/
  queue : Option Nat
  what : Occurrence
  deriving DecidableEq

/-! ## Commands and queues -/

/-- What a step of a job did besides changing its user's state. -/
structure JobEffect (Job : Type) where
  /-- What is left of the job; none once it is over. -/
  rest : Option Job := none
  /-- Whether it ended in a panic. -/
  panicked : Bool := false
  /-- Jobs it enqueued on its own queue. -/
  launched : List FixedJob := []
  /-- Whether it gives up a share in its queue at its end. -/
  releases : Bool := false

/-- How jobs run, step by step: none while the job cannot go on, else the state and what was done. -/
abbrev Executor (Job State : Type) := Job → State → Option (State × JobEffect Job)

/-- What a queue is asked to do. -/
inductive Command (Job : Type) where
  | run (label : String) (job : Job)
  /-- A job whose outcome is settled beforehand. -/
  | fixed (job : FixedJob)
  /-- Reach a marker. -/
  | record (marker : Nat)
  /-- Go on once a marker is reached. -/
  | wait (marker : Nat)
  /-- Answer with the first job that panicked since the last flush. -/
  | flush
  | shutdown

/-- A queue and its worker. -/
structure Queue (Job : Type) where
  pending : List (Command Job) := []
  /-- The first job that panicked since the last flush. -/
  failed : Option String := none
  /-- Answers to flushes, in order. -/
  replies : List (Option String) := []
  /-- Number of flushes asked for. -/
  flushes : Nat := 0
  /-- Number of handles that keep the queue open. -/
  shares : Nat := 1
  /-- Whether the worker has left. -/
  closed : Bool := false

/-- Queues on a shared timeline. -/
structure Timeline (Job : Type) where
  events : List TraceEvent := []
  /-- For each marker the tick at which it was reached. -/
  markers : List (Option Nat) := []
  queues : List (Queue Job) := []

namespace Timeline

variable {Job State : Type}

/-! ## Reading and changing parts -/

/-- The tick of the next event. -/
def nextTick (t : Timeline Job) : Nat := t.events.length + 1

/-- Add an event. -/
def stamp (t : Timeline Job) (queue : Option Nat) (what : Occurrence) : Timeline Job :=
  { t with events := t.events ++ [⟨t.nextTick, queue, what⟩] }

/-- Whether a marker was reached, and when. -/
def reachedAt (t : Timeline Job) (marker : Nat) : Option Nat := (t.markers[marker]?).join

/-- Change a queue. -/
def modifyQueue (t : Timeline Job) (q : Nat) (f : Queue Job → Queue Job) : Timeline Job :=
  { t with queues := t.queues.modify q f }

/-- Put a command behind all others. -/
def push (t : Timeline Job) (q : Nat) (c : Command Job) : Timeline Job :=
  t.modifyQueue q fun k => { k with pending := k.pending ++ [c] }

/-- The tick of the first event of a kind. -/
def tickOf (t : Timeline Job) (what : Occurrence) : Option Nat :=
  (t.events.find? fun e => e.what = what).map (·.tick)

/-- The events of each queue and, last, of the host; only where there are any. -/
def byQueue (t : Timeline Job) : List (Option Nat × List TraceEvent) :=
  (((List.range t.queues.length).map some ++ [none]).map fun q =>
    (q, t.events.filter fun (e : TraceEvent) => e.queue = q)).filter fun e => !e.2.isEmpty

/-! ## Steps of a worker -/

/-- The end of a job: its event, or the memory that it panicked. -/
def endJob (t : Timeline Job) (q : Nat) (label : String) (panicked : Bool) : Timeline Job :=
  if panicked then t.modifyQueue q fun k => { k with failed := k.failed.or (some label) }
  else t.stamp (some q) (.job label)

/-- Reach a marker. -/
def reach (t : Timeline Job) (q marker : Nat) : Timeline Job :=
  { t.stamp (some q) (.marker marker) with markers := t.markers.set marker (some t.nextTick) }

/-- Answer a flush. -/
def reply (t : Timeline Job) (q : Nat) : Timeline Job :=
  t.modifyQueue q fun k => { k with replies := k.replies ++ [k.failed], failed := none }

/-- Give up a share in a queue. The worker is sent home with the last one. -/
def release (t : Timeline Job) (q : Nat) : Timeline Job :=
  t.modifyQueue q fun k =>
    if k.shares = 1 then { k with shares := 0, pending := k.pending ++ [.shutdown] }
    else { k with shares := k.shares - 1 }

/-- Take the front command off a queue. -/
def drop (t : Timeline Job) (q : Nat) : Timeline Job :=
  t.modifyQueue q fun k => { k with pending := k.pending.tail }

/-- Leave what is left of a job at the front of its queue. -/
def resume (t : Timeline Job) (q : Nat) (label : String) (job : Job) : Timeline Job :=
  t.modifyQueue q fun k => { k with pending := .run label job :: k.pending.tail }

/-- Take a job that is over off its queue. -/
def finishJob (t : Timeline Job) (q : Nat) (label : String) (e : JobEffect Job) : Timeline Job :=
  let t := (t.drop q).endJob q label e.panicked
  if e.releases then t.release q else t

/-- Carry out what a step of the job at the front of a queue did. -/
def settleJob (t : Timeline Job) (q : Nat) (label : String) (e : JobEffect Job) : Timeline Job :=
  let t := e.launched.foldl (fun t j => t.push q (.fixed j)) t
  match e.rest with
  | some job => t.resume q label job
  | none => t.finishJob q label e

/-- Go on with the command at the front of a queue. -/
def perform (exec : Executor Job State) (q : Nat) (s : State) (t : Timeline Job) :
    Command Job → Option (State × Timeline Job)
  | .run label job => (exec job s).map fun (s, e) => (s, t.settleJob q label e)
  | .fixed job => some (s, (t.drop q).endJob q job.label job.panics)
  | .record marker => some (s, (t.drop q).reach q marker)
  | .wait marker => if (t.reachedAt marker).isSome then some (s, t.drop q) else none
  | .flush => some (s, (t.drop q).reply q)
  | .shutdown => some (s, (t.drop q).modifyQueue q fun k => { k with closed := true })

/-- The command the worker of a queue takes next. -/
def front? (t : Timeline Job) (q : Nat) : Option (Command Job) :=
  match t.queues[q]? with
  | some k => if k.closed then none else k.pending.head?
  | none => none

/-- One step of the worker of a queue. -/
def step (exec : Executor Job State) (q : Nat) (s : State) (t : Timeline Job) :
    Option (State × Timeline Job) :=
  (t.front? q).bind (t.perform exec q s)

end Timeline

end OpGraph
