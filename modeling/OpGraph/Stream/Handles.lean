import OpGraph.Assoc
import OpGraph.Logging
import OpGraph.Stream.Host

/-!
# `Stream.Handles` — how providers make streams and wait for each other

The table is filled while providers are brought up and only read afterwards. It says, for a producer and
a consumer, how the consumer waits for the producer's notifications, and for a provider, on which device
its streams are made. Edges within one provider need no entry: its one stream is ordered already.
Registering a key again replaces what it meant, with a warning.
-/

namespace OpGraph

/-- How providers make streams and wait for each other. -/
structure StreamHandles where
  waits : List ((ProviderId × ProviderId) × WaitFunction) := []
  factories : List (ProviderId × Device) := []
  deriving DecidableEq

namespace StreamHandles

/-- Register how a consumer waits for a producer. -/
def registerWait (h : StreamHandles) (producer consumer : ProviderId) (f : WaitFunction) :
    StreamHandles × List LogEvent :=
  ({ h with waits := Assoc.put (producer, consumer) f h.waits },
    if Assoc.has (producer, consumer) h.waits then [.waitReplaced producer consumer] else [])

/-- Register the device a provider's streams are made on. -/
def registerFactory (h : StreamHandles) (provider : ProviderId) (device : Device) :
    StreamHandles × List LogEvent :=
  ({ h with factories := Assoc.put provider device h.factories },
    if Assoc.has provider h.factories then [.factoryReplaced provider] else [])

/-- How a consumer waits for a producer. -/
def lookupWait (h : StreamHandles) (producer consumer : ProviderId) :
    Except StreamError WaitFunction :=
  match Assoc.find? (producer, consumer) h.waits with
  | some f => .ok f
  | none => .error (.waitUnregistered producer consumer)

/-- Whether a provider makes streams. -/
def hasFactory (h : StreamHandles) (provider : ProviderId) : Bool := Assoc.has provider h.factories

/-- Make a stream for a provider. -/
def createStream {Job : Type} (h : StreamHandles) (provider : ProviderId) (m : Machine Job) :
    Except StreamError (Stream × Machine Job) :=
  match Assoc.find? provider h.factories with
  | some device => device.openStream provider m
  | none => .error (.factoryUnregistered provider)

/-- The table inside diagnostics. -/
def literal (h : StreamHandles) : String :=
  Text.record "StreamHandleRegistry"
    [("wait_fns",
        Text.listing (h.waits.map fun e => "(" ++ e.1.1.literal ++ ", " ++ e.1.2.literal ++ ")")),
      ("create_stream_fns", Text.listing (h.factories.map (·.1.literal)))]

end StreamHandles

end OpGraph
