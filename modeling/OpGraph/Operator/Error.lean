import OpGraph.Operator.Parameter
import OpGraph.Stream.Error
import OpGraph.Tensor.Error

/-!
# `Operator.Error` — what can go wrong with an operator

From registering an operator over selecting its kernel to running it. Each cause keeps its data; the
wording is in `OpError.message` alone.
-/

namespace OpGraph

/-- Why a signature has no formal shape. Positions count from one. -/
inductive SignatureFault where
  /-- A position other than the last repeats. -/
  | variadicNotLast (side : Side) (position : Nat)
  /-- A single output is templated and no input is. -/
  | templatedOutput (position : Nat)
  deriving DecidableEq

/-- The fault in running text. -/
def SignatureFault.text : SignatureFault → String
  | variadicNotLast side position =>
      s!"only the last {side.name} may be variadic, the {Text.ordinal position} is"
  | templatedOutput position =>
      s!"the {Text.ordinal position} output is templated but no input is, its type cannot be inferred"

/-- Where two formal shapes of one operator differ first. Positions count from one. -/
inductive ShapeDifference where
  | count (side : Side) (registered now : Nat)
  | form (side : Side) (position : Nat) (registered now : ParameterForm)
  deriving DecidableEq

/-- The difference in running text. -/
def ShapeDifference.text : ShapeDifference → String
  | count side registered now => s!"{side.name} count differs, {registered} registered and {now} now"
  | form side position registered now =>
      s!"the {Text.ordinal position} {side.name} is {now.text} but was registered as {registered.text}"

/-- What a kernel was not told. -/
inductive MissingInformation where
  /-- The type of an input or output is not known. -/
  | untyped (side : Side) (name : String)
  /-- The node has no provider. -/
  | noProvider
  /-- The provider has no logger. -/
  | noProviderLogger (provider : ProviderId)
  /-- The computation has no logger. -/
  | noContextLogger
  deriving DecidableEq

/-- The gap in running text. -/
def MissingInformation.text : MissingInformation → String
  | untyped side name => s!"{side.name} '{name}' has no type information"
  | noProvider => "node has no execution provider"
  | noProviderLogger provider => s!"provider '{provider}' exposes no logger"
  | noContextLogger => "kernel context has no logger"

/-- What is wrong with an argument or a result of a kernel. -/
inductive ArgumentFault where
  /-- A required input was left out. -/
  | notSupplied (input : Nat)
  /-- An output was to be allocated by its plan and has none. -/
  | unplanned (output : Nat)
  /-- An output's type is not the planned one. -/
  | offPlan (output : Nat) (planned produced : DataType)
  /-- The state handed to a kernel is another operator's. -/
  | foreignState (op : String)
  /-- An input's producer left no value. -/
  | neverProduced (input : Nat)
  /-- The kernel ended without an output that the node names. -/
  | notProduced (output : Nat)
  /-- The value of an output is there already. -/
  | alreadySet (output : Nat)
  deriving DecidableEq

/-- The fault in running text. -/
def ArgumentFault.text : ArgumentFault → String
  | notSupplied input => s!"input {input} was not supplied"
  | unplanned output => s!"output {output} has no planned type, allocate it with output_typed"
  | offPlan output planned produced =>
      s!"output {output} is planned as {planned.label}, kernel produced {produced.label}"
  | foreignState op => s!"kernel state does not belong to '{op}'"
  | neverProduced input => s!"input {input} was never produced"
  | notProduced output => s!"output {output} was not produced"
  | alreadySet output => s!"output {output} was already set"

/-- What went wrong with an operator. -/
inductive OpError where
  /-- The operator's shape is not that of the schema of its name. -/
  | schemaMismatch (op : String) (difference : ShapeDifference)
  /-- The operator's signature has no shape. -/
  | invalidSignature (op : String) (fault : SignatureFault)
  /-- The same kernel is registered already. -/
  | duplicateKernel (kernel : String)
  /-- No kernel takes these inputs on this provider. -/
  | kernelNotFound (op domain : String) (provider : ProviderId) (inputs : List DataType)
  /-- The plugin is newer than the host allows. -/
  | unsupportedVersion (op : String) (version newest : Nat)
  /-- A query's buffer is too short. -/
  | bufferTooSmall (required : Nat)
  /-- There is no such input or output. -/
  | indexOutOfBounds (side : Side) (index count : Nat)
  | attributeNotFound (name : String)
  /-- The attribute holds a value of another kind. -/
  | attributeType (name expected : String)
  | missingInformation (gap : MissingInformation)
  | invalidArgument (fault : ArgumentFault)
  /-- The kernel gave up, for a reason of its own. -/
  | kernelFailed (op detail : String)
  /-- The kernel panicked. -/
  | kernelPanicked (op payload : String)
  | tensor (error : TensorError)
  | stream (error : StreamError)
  deriving DecidableEq

/-- The diagnostic. -/
def OpError.message : OpError → String
  | schemaMismatch op difference => s!"custom op schemas mismatch for '{op}': {difference.text}"
  | invalidSignature op fault => s!"invalid descriptor for custom op '{op}': {fault.text}"
  | duplicateKernel kernel => s!"kernel already registered: {kernel}"
  | kernelNotFound op domain provider inputs =>
      s!"no kernel for {domain}::{op} on '{provider}' accepting inputs " ++
        Signature.typeListing inputs
  | unsupportedVersion op version newest =>
      s!"unsupported version '{version}' in custom op '{op}', host supports up to {newest}"
  | bufferTooSmall required => s!"result buffer is not large enough, {required} needed"
  | indexOutOfBounds side index count =>
      s!"{side.name} index {index} is out of bounds ({count} available)"
  | attributeNotFound name => s!"attribute '{name}' not found"
  | attributeType name expected => s!"attribute '{name}' does not hold {expected}"
  | missingInformation gap => s!"invalid graph: {gap.text}"
  | invalidArgument fault => s!"invalid argument: {fault.text}"
  | kernelFailed op detail => s!"kernel '{op}' failed: {detail}"
  | kernelPanicked op payload => s!"kernel '{op}' failed: panicked: {payload}"
  | tensor error => error.message
  | stream error => error.message

end OpGraph
