import OpGraph.Provider

/-!
# `Device.Rack` — devices known by name

A rack holds the machine together with the devices that were put up on it under names. Requests say which
device or provider is wanted in terms of those names; a request that names no device, or one of another
kind, is not met and changes nothing. A simulated provider without a device gets a timeline of its own.
-/

namespace OpGraph

/-- Which device is wanted. -/
inductive DeviceRequest where
  /-- A simulated device with a timeline of its own. -/
  | simulated
  /-- A device for another provider on the timeline of an earlier one. -/
  | peerOf (other : String) (provider : ProviderId)
  /-- A graphics device with a context of its own, and what polling it reports. -/
  | graphics (fault? : Option String)
  /-- A graphics device on the context of an earlier one. -/
  | graphicsOf (other : String)
  deriving DecidableEq

/-- Which provider is wanted. -/
inductive ProviderRequest where
  | host
  /-- A provider that computes on the host under some name. -/
  | plain (id : ProviderId) (threshold : Option Severity)
  | simulated (device : Option String) (peers : List ProviderId)
  /-- Like a simulated one, but nobody may wait for it. -/
  | unwired (device : Option String)
  | graphics (device : String)
  deriving DecidableEq

/-- The machine and its devices, by name. -/
structure Rack (Job : Type) where
  machine : Machine Job := {}
  devices : List (String × Device) := []
  /-- Number of graphics contexts made so far. -/
  contexts : Nat := 0

namespace Rack

variable {Job : Type}

/-- The device of a name. -/
def device? (r : Rack Job) (name : String) : Option Device := Assoc.find? name r.devices

/-- The timeline of a named simulated device. -/
def timeline? (r : Rack Job) (name : String) : Option (Timeline Job) :=
  match r.device? name with
  | some (.sim timeline _) => some (r.machine.timeline timeline)
  | _ => none

/-- Put a device up under a name, which from now on stands for it. -/
def putUp (r : Rack Job) (name : String) (request : DeviceRequest) : Option (Rack Job) :=
  let named (r : Rack Job) (d : Device) : Rack Job :=
    { r with devices := Assoc.put name d r.devices }
  match request with
  | .simulated =>
      let (timeline, machine) := r.machine.addTimeline
      some (named { r with machine } (.sim timeline .sim))
  | .graphics fault? =>
      some (named { r with contexts := r.contexts + 1 } (.gpu { id := r.contexts, fault? }))
  | .peerOf other provider =>
      match r.device? other with
      | some (.sim timeline _) => some (named r (.sim timeline provider))
      | _ => none
  | .graphicsOf other =>
      match r.device? other with
      | some (.gpu context) => some (named r (.gpu context))
      | _ => none

/-- A place on a simulated device: that of a name, or on a timeline of its own. -/
def simulatedPlace (r : Rack Job) : Option String → Option (Nat × ProviderId × Rack Job)
  | none =>
      let (timeline, machine) := r.machine.addTimeline
      some (timeline, .sim, { r with machine })
  | some name =>
      match r.device? name with
      | some (.sim timeline id) => some (timeline, id, r)
      | _ => none

/-- Bring a provider up. -/
def provider (r : Rack Job) : ProviderRequest → Option (Provider × Rack Job)
  | .host => some (Provider.host, r)
  | .plain id threshold => some (Provider.plain id threshold, r)
  | .simulated device peers =>
      (r.simulatedPlace device).map fun (timeline, id, r) =>
        (Provider.simulated timeline id peers, r)
  | .unwired device =>
      (r.simulatedPlace device).map fun (timeline, id, r) => (Provider.unwired timeline id, r)
  | .graphics device =>
      match r.device? device with
      | some (.gpu context) => some (Provider.graphics context, r)
      | _ => none

end Rack

end OpGraph
