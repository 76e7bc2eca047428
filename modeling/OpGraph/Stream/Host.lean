import OpGraph.Device.Machine

/-!
# `Stream.Host` — what the host does with streams and notifications

Each operation is one step of the host: it changes the machine and returns, or it cannot return yet. The
host cannot return from a wait on a notification that was not activated, from a wait of its own on a
marker not reached, and from a flush not answered. On a graphics device nothing is ever pending: the host
runs a job as it launches it, and a marker is reached as it is recorded. But a host that blocks there polls
the device, and that may fail.
-/

namespace OpGraph

variable {Job : Type}

/-! ## Streams -/

/-- Open a stream on a device for a provider, which must be the one the device serves. -/
def Device.openStream (d : Device) (provider : ProviderId) (m : Machine Job) :
    Except StreamError (Stream × Machine Job) :=
  if provider ≠ d.provider then .error (.providerMismatch d.provider provider .createStream)
  else
    match d with
    | .gpu context => .ok (.gpu context, m)
    | .sim timeline p =>
        .ok (.sim timeline (m.timeline timeline).queues.length p,
          m.modify timeline fun t =>
            let fresh : Queue Job := {}
            { t with queues := t.queues ++ [fresh] })

namespace Stream

/-- What became of a job that was launched. -/
inductive Launched where
  /-- It is behind everything enqueued before. -/
  | queued
  /-- Whoever launched it runs it at once. -/
  | inline
  deriving DecidableEq

/-- Launch a job. -/
def launch (st : Stream) (label : String) (job : Job) (m : Machine Job) : Launched × Machine Job :=
  match st with
  | .sim timeline queue _ => (.queued, m.modify timeline (·.push queue (.run label job)))
  | .gpu _ => (.inline, m)

/-- Make a notification that some waits will be issued on. -/
def notification (st : Stream) (consumers : Nat) (m : Machine Job) : Notification × Machine Job :=
  match st with
  | .sim timeline queue _ =>
      (⟨st, some (m.timeline timeline).markers.length, consumers, false, 0⟩,
        m.modify timeline fun t =>
          { t with
            markers := t.markers ++ [none]
            queues := t.queues.modify queue fun k => { k with shares := k.shares + 1 } })
  | .gpu _ => (⟨st, none, consumers, false, 0⟩, m)

/-- Take one more share in the stream's queue. -/
def share (st : Stream) (m : Machine Job) : Machine Job :=
  match st with
  | .sim timeline queue _ =>
      m.modify timeline (·.modifyQueue queue fun k => { k with shares := k.shares + 1 })
  | .gpu _ => m

/-- Give up a share in the stream's queue. -/
def release (st : Stream) (m : Machine Job) : Machine Job :=
  match st with
  | .sim timeline queue _ => m.modify timeline (·.release queue)
  | .gpu _ => m

/-- Ask for a flush; the number by which its answer is found. -/
def postFlush (st : Stream) (m : Machine Job) : Nat × Machine Job :=
  match st with
  | .sim timeline queue _ =>
      ((((m.timeline timeline).queues[queue]?).map (·.flushes)).getD 0,
        m.modify timeline fun t =>
          (t.push queue .flush).modifyQueue queue fun k => { k with flushes := k.flushes + 1 })
  | .gpu _ => (0, m)

/-- The answer to a flush, once there is one. -/
def flushReply? (st : Stream) (number : Nat) (m : Machine Job) : Option (Except StreamError Unit) :=
  match st with
  | .sim timeline queue _ =>
      ((m.timeline timeline).queues[queue]?.bind (·.replies[number]?)).map fun
        | none => .ok ()
        | some label => .error (.jobPanicked label)
  | .gpu context => some context.poll

end Stream

/-! ## Notifications -/

namespace Notification

/-- Record the marker behind everything on the producer's stream. -/
def record (n : Notification) (m : Machine Job) : Machine Job :=
  match n.stream, n.marker? with
  | .sim timeline queue _, some marker => m.modify timeline (·.push queue (.record marker))
  | _, _ => m

/-- Record the marker, and be ready. -/
def activate (n : Notification) (m : Machine Job) : Notification × Machine Job :=
  ({ n with ready := true }, n.record m)

/-- The tick at which the marker was reached. -/
def reachedAt (n : Notification) (m : Machine Job) : Option Nat :=
  match n.stream, n.marker? with
  | .sim timeline _ _, some marker => (m.timeline timeline).reachedAt marker
  | _, _ => none

/-- The tick of the next event where the marker is. -/
def nextTick (n : Notification) (m : Machine Job) : Nat :=
  match n.stream with
  | .sim timeline _ _ => (m.timeline timeline).nextTick
  | .gpu _ => 0

/-- Whether the marker was reached, on devices with a timeline. -/
def reached? (n : Notification) (m : Machine Job) : Option Bool :=
  match n.stream, n.marker? with
  | .sim timeline _ _, some marker => some ((m.timeline timeline).reachedAt marker).isSome
  | _, _ => none

end Notification

/-- The rest of an admitted wait: none while the host cannot return from it. -/
def WaitFunction.complete (f : WaitFunction) (consumer : Option Stream) (n : Notification)
    (m : Machine Job) : Option (Machine Job) :=
  if !n.ready then none
  else
    match f.target, consumer, n.stream, n.marker? with
    | .device, some (.sim timeline queue _), .sim .., some marker =>
        some (m.modify timeline (·.push queue (.wait marker)))
    | .host, _, .sim timeline _ _, some marker =>
        if ((m.timeline timeline).reachedAt marker).isSome then
          some (m.modify timeline (·.stamp none (.resume marker)))
        else none
    | _, _, _, _ => some m

/-- What a wait comes to that has returned: the host has polled the device, a stream has asked nobody. -/
def WaitFunction.outcome (f : WaitFunction) (n : Notification) : Except StreamError Unit :=
  match f.target with
  | .device => .ok ()
  | .host => n.stream.poll

end OpGraph
