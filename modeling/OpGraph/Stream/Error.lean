import OpGraph.ProviderId

/-!
# `Stream.Error` — why a stream operation was refused
-/

namespace OpGraph

/-- The kinds of device a stream can run on. -/
inductive Backend where
  /-- A simulated device: queues of commands on a shared timeline. -/
  | sim
  /-- A graphics device, whose single queue runs jobs as they are launched. -/
  | gpu
  deriving DecidableEq, Inhabited

/-- The name used in diagnostics. -/
def Backend.name : Backend → String
  | sim => "sim"
  | gpu => "wgpu"

/-- What a provider was refused. -/
inductive StreamAction where
  | createStream
  | waitOnDevice
  deriving DecidableEq

/-- The action in running text. -/
def StreamAction.text : StreamAction → String
  | createStream => "create this stream"
  | waitOnDevice => "wait on this notification on device"

/-- Why a stream operation was refused. -/
inductive StreamError where
  /-- The provider is not the one the device serves, or its device is no peer. -/
  | providerMismatch (expected found : ProviderId) (action : StreamAction)
  /-- No way is registered for the consumer to wait on the producer. -/
  | waitUnregistered (producer consumer : ProviderId)
  /-- The provider registered no stream factory. -/
  | factoryUnregistered (provider : ProviderId)
  /-- A wait on the device was asked for without a stream to wait on. -/
  | missingConsumer
  /-- The notification comes from another kind of device. -/
  | foreignNotification (expected : Backend)
  /-- A job enqueued since the last flush panicked. -/
  | jobPanicked (job : String)
  /-- A notification was waited on more often than it was created for. -/
  | overWaited (producer : ProviderId) (consumers : Nat)
  /-- The device itself reports something. -/
  | device (detail : String)
  deriving DecidableEq

/-- The diagnostic. -/
def StreamError.message : StreamError → String
  | providerMismatch expected found action =>
      s!"provider '{found}' cannot {action.text}, expected '{expected}'"
  | waitUnregistered producer consumer =>
      s!"no wait function registered for notifications from '{producer}' consumed on '{consumer}'"
  | factoryUnregistered provider => s!"no stream factory registered for provider '{provider}'"
  | missingConsumer => "a device-side wait needs a consumer stream"
  | foreignNotification expected => s!"notification was not created by a {expected.name} stream"
  | jobPanicked job => s!"device job '{job}' panicked"
  | overWaited producer consumers =>
      s!"notification from '{producer}' waited on more than its {consumers} consumer(s)"
  | device detail => s!"device error: {detail}"

end OpGraph
