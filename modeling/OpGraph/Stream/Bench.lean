import OpGraph.Device.Rack
import OpGraph.Stream.Gate

/-!
# `Stream.Bench` — streams and notifications known by name

A bench is a place to try streams out: devices, providers, streams and notifications have names, jobs
wait at gates, and everything that happens is a step with an answer. Between steps the workers go as far
as closed gates and unreached markers let them, so the answer to a step depends on the steps before it
alone. A step that names a thing which is not there is answered by the role of that thing.
-/

namespace OpGraph

/-- Streams and notifications known by name. -/
structure Bench where
  rack : Rack GatedJob := {}
  /-- The gates that are open. -/
  gates : List String := []
  providers : List (String × Provider) := []
  streams : List (String × Stream) := []
  notifications : List (String × Notification) := []
  handles : StreamHandles := {}
  /-- What was reported so far. -/
  log : List LogEvent := []

namespace Bench

/-! ## Steps and answers -/

/-- Something to do on a bench. -/
inductive Step where
  | device (name : String) (request : DeviceRequest)
  | provider (name : String) (request : ProviderRequest)
  /-- Open a stream on a device for a provider. -/
  | stream (name device provider : String)
  /-- Write what a provider offers into the table of handles. -/
  | bringUp (provider : String)
  | registerWait (producer consumer : ProviderId) (f : WaitFunction)
  | registerFactory (provider : ProviderId) (device : String)
  | hasFactory (provider : ProviderId)
  | lookupWait (producer consumer : ProviderId)
  /-- Open a stream through the table of handles. -/
  | createStream (name provider : String)
  /-- Show the table of handles. -/
  | showHandles
  | launch (stream label : String) (job : GatedJob)
  | openGate (gate : String)
  | flush (stream : String)
  | dropStream (stream : String)
  | dropNotification (notification : String)
  /-- Whether a job has ended. -/
  | ended (device label : String)
  | notify (name stream : String) (consumers : Nat)
  | activate (notification : String)
  | state (notification : String)
  /-- Wait, by a given function or the one registered for a pair; perhaps the notification is activated
      while the wait is under way. -/
  | wait (notification : String) (consumer : Option String)
      (f : WaitFunction ⊕ (ProviderId × ProviderId)) (activated : Bool)
  | trace (device : String)
  /-- Whether two devices are peers. -/
  | samePlace (a b : String)

/-- What a step came to. -/
inductive Answer where
  | done
  /-- The thing named in this role is not there. -/
  | missing (role : String)
  | refused (e : StreamError)
  /-- The job ran at once and panicked. -/
  | panicked (label : String)
  | provider (p : Provider)
  | stream (s : Stream)
  | flag (b : Bool)
  | text (s : String)
  /-- A notification, and whether its marker was reached. -/
  | state (n : Notification) (reached : Option Bool)
  /-- The host would wait for a notification that nobody activates. -/
  | spins
  /-- The host would wait for what cannot happen. -/
  | blocks
  | trace (t : Timeline GatedJob)

/-! ## Names -/

/-- Go on with the thing of a name. -/
def withNamed {α : Type} (b : Bench) (role name : String) (table : List (String × α))
    (f : α → Answer × Bench) : Answer × Bench :=
  match Assoc.find? name table with
  | some a => f a
  | none => (.missing role, b)

/-- A table without a name. -/
def without {α : Type} (name : String) (table : List (String × α)) : List (String × α) :=
  table.filter fun e => e.1 ≠ name

/-- Change the machine. -/
def withMachine (b : Bench) (m : Machine GatedJob) : Bench :=
  { b with rack := { b.rack with machine := m } }

/-- Let all workers go on. -/
def settle (b : Bench) : Bench :=
  b.withMachine (b.rack.machine.settle GatedJob.run (fun _ => 1) b.gates).2

/-- Give up the stream of a name. -/
def dropStream (b : Bench) (name : String) : Bench :=
  match Assoc.find? name b.streams with
  | some s =>
      { b.withMachine (s.release b.rack.machine) with streams := without name b.streams }
  | none => b

/-- Give up the notification of a name. -/
def dropNotification (b : Bench) (name : String) : Bench :=
  match Assoc.find? name b.notifications with
  | some n =>
      { b.withMachine (n.stream.release b.rack.machine) with
        notifications := without name b.notifications }
  | none => b

/-- Give a stream a name, unless it was refused. -/
def putStream (b : Bench) (name : String) :
    Except StreamError (Stream × Machine GatedJob) → Answer × Bench
  | .error e => (.refused e, b)
  | .ok (s, m) =>
      let b := (b.withMachine m).dropStream name
      (.stream s, { b with streams := Assoc.put name s b.streams })

/-- Give a notification a name. -/
def putNotification (b : Bench) (name : String) (n : Notification) : Bench :=
  { b with notifications := Assoc.put name n b.notifications }

/-- Take over a table of handles and what was reported on the way. -/
def withHandles (b : Bench) : StreamHandles × List LogEvent → Answer × Bench
  | (handles, events) => (.done, { b with handles, log := b.log ++ events })

/-! ## Carrying steps out -/

/-- Launch a job. -/
def launch (b : Bench) (s : Stream) (label : String) (job : GatedJob) : Answer × Bench :=
  let m := if job.shares then s.share b.rack.machine else b.rack.machine
  match s.launch label job m with
  | (.queued, m) => (.done, b.withMachine m)
  | (.inline, m) =>
      match GatedJob.run job b.gates with
      | some (_, e) => (if e.panicked then .panicked label else .done, b.withMachine m)
      | none => (.done, b.withMachine m)

/-- Flush a stream. -/
def flush (b : Bench) (s : Stream) : Answer × Bench :=
  let (number, m) := s.postFlush b.rack.machine
  let b := (b.withMachine m).settle
  match s.flushReply? number b.rack.machine with
  | some (.ok _) => (.done, b)
  | some (.error e) => (.refused e, b)
  | none => (.blocks, b)

/-- Wait for a notification. -/
def wait (b : Bench) (name : String) (n : Notification) (consumer : Option Stream)
    (f : WaitFunction) (activated : Bool) : Answer × Bench :=
  if !n.ready && !activated then (.spins, b)
  else
    let (outcome, n) := f.check consumer n
    let (n, m) := if activated then n.activate b.rack.machine else (n, b.rack.machine)
    let b := ((b.withMachine m).putNotification name n).settle
    match outcome with
    | .error e => (.refused e, b)
    | .ok _ =>
        match f.complete consumer n b.rack.machine with
        | some m =>
            match f.outcome n with
            | .ok _ => (.done, b.withMachine m)
            | .error e => (.refused e, b.withMachine m)
        | none => (.blocks, b)

/-- Carry out one step, before the workers go on. -/
def perform (b : Bench) : Step → Answer × Bench
  | .device name request =>
      match b.rack.putUp name request with
      | some rack => (.done, { b with rack })
      | none => (.missing "device", b)
  | .provider name request =>
      match b.rack.provider request with
      | some (p, rack) => (.provider p, { b with rack, providers := Assoc.put name p b.providers })
      | none => (.missing "device", b)
  | .stream name device provider =>
      b.withNamed "device" device b.rack.devices fun d =>
        b.withNamed "provider" provider b.providers fun p =>
          b.putStream name (d.openStream p.id b.rack.machine)
  | .bringUp provider =>
      b.withNamed "provider" provider b.providers fun p => b.withHandles (p.register b.handles)
  | .registerWait producer consumer f =>
      b.withHandles (b.handles.registerWait producer consumer f)
  | .registerFactory provider device =>
      b.withNamed "device" device b.rack.devices fun d =>
        b.withHandles (b.handles.registerFactory provider d)
  | .hasFactory provider => (.flag (b.handles.hasFactory provider), b)
  | .lookupWait producer consumer =>
      match b.handles.lookupWait producer consumer with
      | .ok _ => (.done, b)
      | .error e => (.refused e, b)
  | .createStream name provider =>
      b.withNamed "provider" provider b.providers fun p =>
        b.putStream name (b.handles.createStream p.id b.rack.machine)
  | .showHandles => (.text b.handles.literal, b)
  | .launch stream label job =>
      b.withNamed "stream" stream b.streams fun s => b.launch s label job
  | .openGate gate => (.done, { b with gates := gate :: b.gates })
  | .flush stream => b.withNamed "stream" stream b.streams b.flush
  | .dropStream stream => (.flag (Assoc.has stream b.streams), b.dropStream stream)
  | .dropNotification notification =>
      (.flag (Assoc.has notification b.notifications), b.dropNotification notification)
  | .ended device label =>
      match b.rack.timeline? device with
      | some t => (.flag (t.tickOf (.job label)).isSome, b)
      | none => (.missing "device", b)
  | .notify name stream consumers =>
      b.withNamed "stream" stream b.streams fun s =>
        let (n, m) := s.notification consumers b.rack.machine
        (.done, ((b.withMachine m).dropNotification name).putNotification name n)
  | .activate notification =>
      b.withNamed "notification" notification b.notifications fun n =>
        let (n, m) := n.activate b.rack.machine
        (.done, (b.withMachine m).putNotification notification n)
  | .state notification =>
      b.withNamed "notification" notification b.notifications fun n =>
        (.state n (n.reached? b.rack.machine), b)
  | .wait notification consumer f activated =>
      b.withNamed "notification" notification b.notifications fun n =>
        let go (consumer : Option Stream) : Answer × Bench :=
          match f with
          | .inl f => b.wait notification n consumer f activated
          | .inr (producer, waiting) =>
              match b.handles.lookupWait producer waiting with
              | .ok f => b.wait notification n consumer f activated
              | .error e => (.refused e, b)
        match consumer with
        | none => go none
        | some name => b.withNamed "consumer" name b.streams fun s => go (some s)
  | .trace device =>
      match b.rack.timeline? device with
      | some t => (.trace t, b)
      | none => (.missing "device", b)
  | .samePlace x y =>
      b.withNamed "a" x b.rack.devices fun d =>
        b.withNamed "b" y b.rack.devices fun e => (.flag (d.isPeer e), b)

/-- Carry out one step, and let the workers go on. -/
def step (b : Bench) (s : Step) : Answer × Bench :=
  let (a, b) := b.perform s
  (a, b.settle)

/-- Carry out steps in order. -/
def run (b : Bench) : List Step → List Answer × Bench
  | [] => ([], b)
  | s :: rest =>
      let (a, b) := b.step s
      let (answers, b) := b.run rest
      (a :: answers, b)

end Bench

end OpGraph
