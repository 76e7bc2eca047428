import OpGraph.ProviderId

/-!
# `Logging` — severities, provider loggers and what they emit

Every logger belongs to a provider and has a threshold: a message is emitted exactly when its severity
reaches the threshold. Emission is a value, not an effect: whatever runs a kernel or brings up a
provider returns the events it emitted.
-/

namespace OpGraph

/-- How grave a message is. -/
inductive Severity where
  | verbose
  | info
  | warning
  | error
  | fatal
  deriving DecidableEq, Inhabited

namespace Severity

/-- Every severity, lowest first. -/
def all : List Severity := [verbose, info, warning, error, fatal]

/-- Place in the order of severities, lowest first. -/
def rank : Severity → Nat
  | verbose => 0
  | info => 1
  | warning => 2
  | error => 3
  | fatal => 4

/-- The severity's name. -/
def name : Severity → String
  | verbose => "Verbose"
  | info => "Info"
  | warning => "Warning"
  | error => "Error"
  | fatal => "Fatal"

/-- The severity with a given name. -/
def ofName? (n : String) : Option Severity := all.find? fun s => s.name = n

/-- The level under which messages leave the library. The two gravest share one. -/
def level : Severity → String
  | verbose => "DEBUG"
  | info => "INFO"
  | warning => "WARN"
  | error => "ERROR"
  | fatal => "ERROR"

end Severity

/-- Where in a kernel's text a message comes from. -/
structure Origin where
  file : String
  line : Nat
  deriving DecidableEq

/-- An emitted message. -/
structure LogMessage where
  provider : ProviderId
  severity : Severity
  message : String
  function : String
  origin : Option Origin
  deriving DecidableEq

/-- Something the library reports to whoever embeds it. -/
inductive LogEvent where
  /-- A logger's message. -/
  | message (m : LogMessage)
  /-- A wait function took the place of another for the same pair of providers. -/
  | waitReplaced (producer consumer : ProviderId)
  /-- A stream factory took the place of another for the same provider. -/
  | factoryReplaced (provider : ProviderId)
  deriving DecidableEq

/-- A logger scoped to one provider. -/
structure Logger where
  provider : ProviderId
  threshold : Severity
  deriving DecidableEq

namespace Logger

/-- Whether messages of a severity are emitted. -/
def enabled (l : Logger) (s : Severity) : Bool := l.threshold.rank ≤ s.rank

/-- The message a call emits, if its severity reaches the threshold. -/
def log (l : Logger) (s : Severity) (message function : String) (origin : Option Origin) :
    Option LogMessage :=
  if l.enabled s then some ⟨l.provider, s, message, function, origin⟩ else none

end Logger

end OpGraph
