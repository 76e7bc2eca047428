import OpGraph.Stream.Handles

/-!
# `Provider` — who runs kernels

A provider has a name, perhaps a logger, perhaps a device its streams are made on, and a list of those
who may wait for it and how. Bringing a provider up writes these into the table of handles. A provider
on a simulated device lets itself and its peers wait on the device, and the host wait for the marker.
-/

namespace OpGraph

/-- An execution provider. -/
structure Provider where
  id : ProviderId
  logger : Option Logger := none
  /-- The device streams are made on; none for a provider that computes on the host. -/
  device : Option Device := none
  /-- Who may wait for notifications of this provider, and how, in the order of registration. -/
  waits : List (ProviderId × WaitFunction) := []
  deriving DecidableEq

namespace Provider

/-- The logger of a provider that is not told otherwise. -/
def standardLogger (id : ProviderId) : Option Logger := some ⟨id, .warning⟩

/-- The host. -/
def host : Provider := { id := .cpu, logger := standardLogger .cpu }

/-- A provider on a simulated device, with those that may wait for it on their own device. -/
def simulated (timeline : Nat) (id : ProviderId) (peers : List ProviderId) : Provider :=
  { id, logger := standardLogger id, device := some (.sim timeline id)
    waits :=
      (id :: peers).map (fun p => (p, ⟨.device, .sim⟩)) ++ [(.cpu, ⟨.host, .sim⟩)] }

/-- A provider on a simulated device that lets nobody wait for it. -/
def unwired (timeline : Nat) (id : ProviderId) : Provider :=
  { simulated timeline id [] with waits := [] }

/-- The provider on a graphics device. -/
def graphics (context : GraphicsContext) : Provider :=
  { id := .gpu, logger := standardLogger .gpu, device := some (.gpu context)
    waits := [(.gpu, ⟨.device, .gpu⟩), (.cpu, ⟨.host, .gpu⟩)] }

/-- A provider of some name that computes on the host. -/
def plain (id : ProviderId) (threshold : Option Severity) : Provider :=
  { id, logger := threshold.map fun s => ⟨id, s⟩ }

/-- Write what the provider offers into the table of handles. -/
def register (p : Provider) (h : StreamHandles) : StreamHandles × List LogEvent :=
  let (h, events) := p.waits.foldl (fun (h, events) (consumer, f) =>
    let (h, more) := h.registerWait p.id consumer f
    (h, events ++ more)) (h, [])
  match p.device with
  | none => (h, events)
  | some d =>
      let (h, more) := h.registerFactory p.id d
      (h, events ++ more)

end Provider

end OpGraph
