import OpGraph.Stream.Error

/-!
# `Stream.Basic` — devices, streams and notifications

These are handles: names for places on hardware, without the hardware's state. A simulated device is a
timeline together with the provider it serves, and devices on one timeline are peers. A graphics device
is a context, and devices on one context are peers. A stream is an ordered queue of its device; a
notification belongs to the stream that made it and counts the waits issued on it.

What a graphics device answers when it is polled is up to the hardware, so a context comes with that answer.
-/

namespace OpGraph

/-- A context on graphics hardware. -/
structure GraphicsContext where
  /-- Which one it is. -/
  id : Nat
  /-- What its device reports whenever it is polled; nothing while it works. -/
  fault? : Option String := none
  deriving DecidableEq

/-- Poll the device until it has processed what was submitted. -/
def GraphicsContext.poll (c : GraphicsContext) : Except StreamError Unit :=
  match c.fault? with
  | none => .ok ()
  | some detail => .error (.device s!"wgpu poll failed: {detail}")

/-- A device that runs kernels for one provider. -/
inductive Device where
  | sim (timeline : Nat) (provider : ProviderId)
  | gpu (context : GraphicsContext)
  deriving DecidableEq

namespace Device

/-- The kind of device. -/
def backend : Device → Backend
  | sim .. => .sim
  | gpu .. => .gpu

/-- The provider the device serves. -/
def provider : Device → ProviderId
  | sim _ provider => provider
  | gpu _ => .gpu

/-- Whether queues of one device may wait for markers of the other. -/
def isPeer : Device → Device → Bool
  | sim a _, sim b _ => a = b
  | gpu a, gpu b => a = b
  | _, _ => false

end Device

/-- An ordered queue of work, owned by one provider. -/
inductive Stream where
  | sim (timeline queue : Nat) (provider : ProviderId)
  | gpu (context : GraphicsContext)
  deriving DecidableEq

namespace Stream

/-- The device the stream runs on. -/
def device : Stream → Device
  | sim timeline _ provider => .sim timeline provider
  | gpu context => .gpu context

/-- The provider that owns the stream. -/
def provider (s : Stream) : ProviderId := s.device.provider

/-- The queue on the device's timeline, where there are several. -/
def queue? : Stream → Option Nat
  | sim _ queue _ => some queue
  | gpu _ => none

/-- What the host is told when it blocks until the stream has come to an end. A simulated device tells of
    jobs in its answer to a flush. -/
def poll : Stream → Except StreamError Unit
  | sim .. => .ok ()
  | gpu context => context.poll

end Stream

/-- A job whose outcome is settled when it is enqueued. -/
structure FixedJob where
  label : String
  panics : Bool
  deriving DecidableEq

/-- A one-shot signal that a stream's work so far is done. -/
structure Notification where
  /-- The stream that made it. -/
  stream : Stream
  /-- The marker that tells, on devices with a timeline. -/
  marker? : Option Nat
  /-- Number of waits it was made for. -/
  consumers : Nat
  /-- Whether it was activated. -/
  ready : Bool := false
  /-- Number of waits issued so far. -/
  waits : Nat := 0
  deriving DecidableEq

namespace Notification

/-- The provider of the stream that made it. -/
def producer (n : Notification) : ProviderId := n.stream.provider

/-- The kind of device that made it. -/
def backend (n : Notification) : Backend := n.stream.device.backend

/-- Count one more wait, unless all are taken; the wait counts either way. -/
def countWait (n : Notification) : Except StreamError Unit × Notification :=
  (if n.waits < n.consumers then .ok () else .error (.overWaited n.producer n.consumers),
    { n with waits := n.waits + 1 })

end Notification

/-! ## Ways to wait -/

/-- Who waits when a consumer waits for a notification. -/
inductive WaitTarget where
  /-- The consumer's stream: its later work waits. -/
  | device
  /-- The host: the call itself waits. -/
  | host
  deriving DecidableEq

/-- How consumers of one provider wait for notifications of another. -/
structure WaitFunction where
  target : WaitTarget
  /-- The kind of device whose notifications it understands. -/
  backend : Backend
  deriving DecidableEq

namespace WaitFunction

/-- Check a wait and count it. On a device the consumer must be a stream of a peer, and a wait that
    fails that check does not count. The notification comes back with its count. -/
def check (f : WaitFunction) (consumer : Option Stream) (n : Notification) :
    Except StreamError Unit × Notification :=
  match f.target, consumer with
  | .device, none => (.error .missingConsumer, n)
  | .device, some s =>
      if n.backend ≠ f.backend then (.error (.foreignNotification f.backend), n)
      else if n.stream.device.isPeer s.device then n.countWait
      else (.error (.providerMismatch n.stream.device.provider s.provider .waitOnDevice), n)
  | .host, _ =>
      if n.backend ≠ f.backend then (.error (.foreignNotification f.backend), n) else n.countWait

end WaitFunction

end OpGraph
