import OpGraph.Operator.Error
import OpGraph.Session.Config

/-!
# `Session.Error` — what can go wrong between settings and results

From reading the settings over bringing providers up and planning a graph to running it. Errors of
operators and streams keep their own wording.
-/

namespace OpGraph

/-- What is wrong with a graph. -/
inductive GraphFault where
  | definedTwice (value : String)
  | producedTwice (value : String)
  /-- A node reads a value nobody makes. -/
  | unknownValue (node value : String)
  /-- An output of the graph is a value nobody makes. -/
  | undefinedOutput (value : String)
  /-- A node is to wait for one that was never launched. -/
  | neverLaunched (node : String)
  deriving DecidableEq

/-- The fault in running text. -/
def GraphFault.text : GraphFault → String
  | definedTwice value => s!"value '{value}' is defined more than once"
  | producedTwice value => s!"value '{value}' is produced twice"
  | unknownValue node value => s!"node '{node}' reads unknown value '{value}'"
  | undefinedOutput value => s!"graph output '{value}' is never defined"
  | neverLaunched node => s!"'{node}' waits on a producer that never launched"

/-- What went wrong in a session. -/
inductive SessionError where
  | op (error : OpError)
  | stream (error : StreamError)
  | config (fault : ConfigFault)
  /-- Settings that cannot be read. -/
  | unreadable
  /-- A file of settings that is not there or holds no text. -/
  | noText
  | unknownProvider (provider : ProviderId)
  | duplicateProvider (provider : ProviderId)
  /-- A provider could not be brought up. -/
  | bringUp (provider : ProviderId) (detail : String)
  | invalidGraph (fault : GraphFault)
  /-- Nodes on a cycle, and nodes behind one. -/
  | cycle (nodes : List String)
  | missingFeed (input : String)
  | feedType (input : String) (expected found : DataType)
  /-- The kernel of a node failed. -/
  | kernel (node : String) (source : OpError)
  /-- A graph output has no value. -/
  | missingOutput (value : String)
  deriving DecidableEq

/-- The diagnostic. -/
def SessionError.message : SessionError → String
  | op error => error.message
  | stream error => error.message
  | config fault => s!"invalid configuration: {fault.text}"
  | unreadable => "failed to parse configuration"
  | noText => "failed to read configuration"
  | unknownProvider provider => s!"execution provider '{provider}' is not registered"
  | duplicateProvider provider => s!"execution provider '{provider}' is registered twice"
  | bringUp provider detail => s!"failed to bring up execution provider '{provider}': {detail}"
  | invalidGraph fault => s!"invalid graph: {fault.text}"
  | cycle nodes => s!"graph has a cycle through {Text.strings nodes}"
  | missingFeed input => s!"no value fed for graph input '{input}'"
  | feedType input expected found =>
      s!"graph input '{input}' expects {expected.label}, got {found.label}"
  | kernel node source => s!"node '{node}' failed: {source.message}"
  | missingOutput value => s!"graph output '{value}' was not produced"

end OpGraph
