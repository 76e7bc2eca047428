import OpGraph.Stream.Host

/-!
# `Stream.Workshop` — host threads at streams, and workers, in any order

A workshop is where any number of host threads use the streams of simulated devices while the workers go
on. Each thread is idle or in the middle of a call, and `Workshop.step` is one step of one of them: a thread
makes a call or goes on with the one it is in, or a worker goes on. What a program does next may depend on
anything, so a program is any sequence of calls of its threads, and every interleaving of every program is a
sequence of such steps.

A call takes several steps where others may come between. Activating puts the marker behind the stream
first and makes the notification ready after that. A wait is issued, and goes on once the notification is
ready and, on the host, its marker was reached; both stay so once they are, so nothing is lost by looking at
them in the step in which the wait returns.

Jobs are numbered as they are launched, notifications as they are made. The log tells in which order things
happened.
-/

namespace OpGraph

variable {Job State : Type}

/-! ## Jobs -/

/-- A job with its number. -/
structure Ticketed (Job : Type) where
  ticket : Nat
  job : Job
  /-- Whether it keeps a share in its queue until its end. -/
  shares : Bool := false

/-- Run numbered jobs. -/
def Ticketed.run (exec : Executor Job State) : Executor (Ticketed Job) State := fun job s =>
  (exec job.job s).map fun (s, e) =>
    (s, { rest := e.rest.map fun left => { job with job := left }
          panicked := e.panicked
          launched := e.launched
          releases := job.shares })

/-! ## Workshops -/

/-- What happened, with the tick of its event where it has one. -/
inductive Happening where
  | launched (job : Nat)
  /-- A job is over; it has no tick if it panicked. -/
  | ended (job : Nat) (tick : Option Nat)
  /-- The marker of a notification is behind its stream. -/
  | recorded (n : Nat)
  /-- A notification is ready. -/
  | activated (n : Nat)
  /-- A wait of a stream returned. -/
  | waited (n : Nat) (consumer : Stream)
  /-- A wait of the host returned. -/
  | resumed (n : Nat) (tick : Nat)
  /-- A wait was refused. -/
  | refused (n : Nat) (e : StreamError)
  /-- A flush returned. -/
  | flushed (s : Stream) (answer : Option StreamError)
  deriving DecidableEq

/-- What a thread is in the middle of. -/
inductive Call where
  /-- The marker is recorded, and the notification is not ready yet. -/
  | activating (n : Nat)
  /-- A stream is to wait for a notification. -/
  | onDevice (consumer : Stream) (n : Nat)
  /-- The host waits for a notification. -/
  | onHost (n : Nat)
  /-- A flush was asked for, under this number. -/
  | flushing (s : Stream) (number : Nat)
  deriving DecidableEq

/-- Whether the call needs a stream. -/
def Call.usesStream (s : Stream) : Call → Bool
  | onDevice consumer _ => consumer = s
  | flushing s' _ => s' = s
  | _ => false

/-- Whether the call needs a notification. -/
def Call.usesNotification (n : Nat) : Call → Bool
  | activating n' => n' = n
  | onDevice _ n' => n' = n
  | onHost n' => n' = n
  | flushing .. => false

/-- Host threads, streams and notifications on a machine. -/
structure Workshop (Job State : Type) where
  machine : Machine (Ticketed Job) := {}
  /-- What jobs read and change. -/
  state : State
  /-- Whether a wait too many is refused; without assertions it goes on. -/
  strict : Bool := true
  /-- Streams that were not given up. -/
  streams : List Stream := []
  /-- For each job its stream and its label. -/
  jobs : List (Stream × String) := []
  notifications : List Notification := []
  /-- Notifications that were given up. -/
  dropped : List Nat := []
  /-- For each thread the call it is in. -/
  threads : List (Option Call) := []
  log : List Happening := []

namespace Workshop

/-- A step of somebody. -/
inductive Move (Job State : Type) where
  /-- A simulated device is put up. -/
  | device
  /-- There is one more thread. -/
  | thread
  /-- Open a stream on a device that serves a provider. -/
  | stream (t timeline : Nat) (provider : ProviderId)
  | launch (t : Nat) (s : Stream) (label : String) (job : Job) (shares : Bool)
  /-- Make a notification. -/
  | notify (t : Nat) (s : Stream) (consumers : Nat)
  | activate (t n : Nat)
  | waitOnDevice (t : Nat) (consumer : Stream) (n : Nat)
  | waitOnHost (t n : Nat)
  | flush (t : Nat) (s : Stream)
  | dropStream (t : Nat) (s : Stream)
  | dropNotification (t n : Nat)
  /-- Change what jobs read. -/
  | touch (t : Nat) (state : State)
  /-- Go on with a call. -/
  | proceed (t : Nat)
  | work (w : Machine.Worker)

/-! ## Calls -/

/-- A notification that was not given up. -/
def notification? (x : Workshop Job State) (n : Nat) : Option Notification :=
  if n ∈ x.dropped then none else x.notifications[n]?

/-- Whether no thread is in a call of this kind. -/
def free (x : Workshop Job State) (uses : Call → Bool) : Bool :=
  x.threads.all fun c => !(c.any uses)

/-- Whether a thread can make a call. -/
def idle (x : Workshop Job State) (t : Nat) : Bool := x.threads[t]? = some none

/-- A thread in the middle of a call. -/
def busy (x : Workshop Job State) (t : Nat) (c : Call) : Workshop Job State :=
  { x with threads := x.threads.set t (some c) }

/-- A thread is done with its call; what it came to. -/
def done (x : Workshop Job State) (t : Nat) (what : Happening) : Workshop Job State :=
  { x with threads := x.threads.set t none, log := x.log ++ [what] }

/-- Put a notification in the place of one. -/
def put (x : Workshop Job State) (n : Nat) (note : Notification) : Workshop Job State :=
  { x with notifications := x.notifications.set n note }

/-- Launch a job. -/
def launch (x : Workshop Job State) (s : Stream) (label : String) (job : Job) (shares : Bool) :
    Workshop Job State :=
  let m := if shares then s.share x.machine else x.machine
  let (_, machine) := s.launch label { ticket := x.jobs.length, job, shares } m
  { x with machine, jobs := x.jobs ++ [(s, label)], log := x.log ++ [.launched x.jobs.length] }

/-- Issue a wait: it is refused, or the thread is in it. -/
def issue (x : Workshop Job State) (t n : Nat) (note : Notification) (f : WaitFunction)
    (consumer : Option Stream) (c : Call) : Workshop Job State :=
  match f.check consumer note with
  | (.ok _, note) => (x.put n note).busy t c
  | (.error e, note) =>
      if e = .overWaited note.producer note.consumers ∧ !x.strict then (x.put n note).busy t c
      else { x.put n note with log := x.log ++ [.refused n e] }

/-- A wait of a stream. -/
def deviceWait : WaitFunction := ⟨.device, .sim⟩

/-- A wait of the host. -/
def hostWait : WaitFunction := ⟨.host, .sim⟩

/-- Go on with a call; none while the thread cannot. -/
def proceed (x : Workshop Job State) (t : Nat) : Call → Option (Workshop Job State)
  | .activating n =>
      (x.notifications[n]?).map fun note => (x.put n { note with ready := true }).done t (.activated n)
  | .onDevice consumer n =>
      (x.notifications[n]?).bind fun note =>
        (deviceWait.complete (some consumer) note x.machine).map fun machine =>
          { x with machine }.done t (.waited n consumer)
  | .onHost n =>
      (x.notifications[n]?).bind fun note =>
        (hostWait.complete none note x.machine).map fun machine =>
          { x with machine }.done t (.resumed n (note.nextTick x.machine))
  | .flushing s number =>
      (s.flushReply? number x.machine).map fun
        | .ok _ => x.done t (.flushed s none)
        | .error e => x.done t (.flushed s (some e))

/-! ## Workers -/

/-- What becomes known as a worker goes on with a command. -/
def ending (exec : Executor Job State) (x : Workshop Job State) (w : Machine.Worker) :
    Command (Ticketed Job) → List Happening
  | .run _ job =>
      match exec job.job x.state with
      | some (_, e) =>
          if e.rest.isNone then
            let tick := (x.machine.timeline w.timeline).nextTick
            [.ended job.ticket (if e.panicked then none else some tick)]
          else []
      | none => []
  | _ => []

/-- One step of a worker. -/
def work (exec : Executor Job State) (x : Workshop Job State) (w : Machine.Worker) :
    Option (Workshop Job State) :=
  match x.machine.front? w with
  | none => none
  | some c =>
      (x.machine.step (Ticketed.run exec) w x.state).map fun (state, machine) =>
        { x with machine, state, log := x.log ++ x.ending exec w c }

/-! ## Steps -/

/-- One step of somebody; none if it cannot be made. -/
def step (exec : Executor Job State) (x : Workshop Job State) :
    Move Job State → Option (Workshop Job State)
  | .device => some { x with machine := x.machine.addTimeline.2 }
  | .thread => some { x with threads := x.threads ++ [none] }
  | .stream t timeline provider =>
      if x.idle t ∧ timeline < x.machine.timelines.length then
        match (Device.sim timeline provider).openStream provider x.machine with
        | .ok (s, machine) => some { x with machine, streams := x.streams ++ [s] }
        | .error _ => none
      else none
  | .launch t s label job shares =>
      if x.idle t ∧ s ∈ x.streams then some (x.launch s label job shares) else none
  | .notify t s consumers =>
      if x.idle t ∧ s ∈ x.streams then
        let (note, machine) := s.notification consumers x.machine
        some { x with machine, notifications := x.notifications ++ [note] }
      else none
  | .activate t n =>
      -- A second activation is left open by what streams promise.
      if x.idle t ∧ .recorded n ∉ x.log then
        (x.notification? n).map fun note =>
          { x.busy t (.activating n) with
            machine := note.record x.machine
            log := x.log ++ [.recorded n] }
      else none
  | .waitOnDevice t consumer n =>
      if x.idle t ∧ consumer ∈ x.streams then
        (x.notification? n).map fun note =>
          x.issue t n note deviceWait (some consumer) (.onDevice consumer n)
      else none
  | .waitOnHost t n =>
      if x.idle t then
        (x.notification? n).map fun note => x.issue t n note hostWait none (.onHost n)
      else none
  | .flush t s =>
      if x.idle t ∧ s ∈ x.streams then
        let (number, machine) := s.postFlush x.machine
        some ({ x with machine }.busy t (.flushing s number))
      else none
  | .dropStream t s =>
      if x.idle t ∧ s ∈ x.streams ∧ x.free (·.usesStream s) then
        some { x with machine := s.release x.machine, streams := x.streams.erase s }
      else none
  | .dropNotification t n =>
      if x.idle t ∧ x.free (·.usesNotification n) then
        (x.notification? n).map fun note =>
          { x with machine := note.stream.release x.machine, dropped := n :: x.dropped }
      else none
  | .touch t state => if x.idle t then some { x with state } else none
  | .proceed t =>
      match x.threads[t]? with
      | some (some c) => x.proceed t c
      | _ => none
  | .work w => x.work exec w

/-- Steps in order. -/
def run (exec : Executor Job State) (x : Workshop Job State) :
    List (Move Job State) → Option (Workshop Job State)
  | [] => some x
  | a :: rest => (x.step exec a).bind fun x => run exec x rest

/-- Workshops that can come about. -/
inductive Reached (exec : Executor Job State) : Workshop Job State → Prop
  | empty (state : State) (strict : Bool) : Reached exec { state, strict }
  | step {x x' : Workshop Job State} {a : Move Job State} :
      Reached exec x → x.step exec a = some x' → Reached exec x'

end Workshop

end OpGraph
