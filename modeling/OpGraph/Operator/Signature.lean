import OpGraph.DataType
import OpGraph.ProviderId

/-!
# `Operator.Signature` — what an operator declares about itself

A signature has a name, the interface version it was written against, the types of its inputs and
outputs and a set of optional slots. A slot came in with some version and is honoured only from that
version on; before it, and where a slot is empty, the declared default holds. Everything downstream
reads slots through the gated accessors of this module, so a slot that the version does not cover
cannot influence anything.

The type `undefined` in a signature is templated: all such positions share one type, found per use.
-/

namespace OpGraph

/-! ## Interface versions -/

namespace Interface

/-- The newest version this host understands. -/
def newest : Nat := 16

/-- First version with required, optional and variadic positions. -/
def characteristics : Nat := 8

/-- First version with memory types of inputs. -/
def memoryTypes : Nat := 13

/-- First version with variadic positions, their least counts and homogeneity. -/
def variadics : Nat := 14

/-- Whether a plugin of version `v` may use what came in with version `since`. -/
def supports (v since : Nat) : Bool := since ≤ v

end Interface

/-- Whether a position of a signature must be filled, may be left out, or repeats. -/
inductive Characteristic where
  | required
  | optional
  | variadic
  deriving DecidableEq, Inhabited

/-- The characteristic's name. -/
def Characteristic.name : Characteristic → String
  | required => "Required"
  | optional => "Optional"
  | variadic => "Variadic"

/-- Where a kernel expects an input to lie. -/
inductive MemoryType where
  | standard
  | hostInput
  | hostOutput
  deriving DecidableEq, Inhabited

/-- The memory type's name. -/
def MemoryType.name : MemoryType → String
  | standard => "Default"
  | hostInput => "CpuInput"
  | hostOutput => "CpuOutput"

/-- The optional slots of a signature, each empty unless filled. -/
structure Slots where
  inputCharacteristic : Option (Nat → Characteristic) := none
  outputCharacteristic : Option (Nat → Characteristic) := none
  inputMemory : Option (Nat → MemoryType) := none
  variadicInputLeast : Option Nat := none
  variadicInputHomogeneous : Option Bool := none
  variadicOutputLeast : Option Nat := none
  variadicOutputHomogeneous : Option Bool := none

/-- What an operator declares about itself. -/
structure Signature where
  name : String
  version : Nat
  /-- The provider the kernels run on; none means the host. -/
  providerName : Option ProviderId
  inputs : List DataType
  outputs : List DataType
  slots : Slots

namespace Signature

/-- The provider the kernels run on. -/
def provider (s : Signature) : ProviderId := s.providerName.getD .cpu

/-- A slot, if the version covers it. -/
def gated {α : Type} (s : Signature) (since : Nat) (slot : Option α) : Option α :=
  if Interface.supports s.version since then slot else none

/-- Characteristic of input `i`. -/
def inputCharacteristic (s : Signature) (i : Nat) : Characteristic :=
  ((s.gated Interface.characteristics s.slots.inputCharacteristic).map (· i)).getD .required

/-- Characteristic of output `i`. -/
def outputCharacteristic (s : Signature) (i : Nat) : Characteristic :=
  ((s.gated Interface.characteristics s.slots.outputCharacteristic).map (· i)).getD .required

/-- Memory type of input `i`; none where the signature does not say. -/
def inputMemory (s : Signature) (i : Nat) : Option MemoryType :=
  (s.gated Interface.memoryTypes s.slots.inputMemory).map (· i)

/-- Least number of values a variadic input takes. -/
def variadicInputLeast (s : Signature) : Nat :=
  (s.gated Interface.variadics s.slots.variadicInputLeast).getD 1

/-- Whether all values of a variadic input have one type. -/
def variadicInputHomogeneous (s : Signature) : Bool :=
  (s.gated Interface.variadics s.slots.variadicInputHomogeneous).getD true

/-- Least number of values a variadic output gives. -/
def variadicOutputLeast (s : Signature) : Nat :=
  (s.gated Interface.variadics s.slots.variadicOutputLeast).getD 1

/-- Whether all values of a variadic output have one type. -/
def variadicOutputHomogeneous (s : Signature) : Bool :=
  (s.gated Interface.variadics s.slots.variadicOutputHomogeneous).getD true

/-- Type of input `i`, templated past the end. -/
def inputType (s : Signature) (i : Nat) : DataType := s.inputs.getD i .undefined

/-- Type of output `i`, templated past the end. -/
def outputType (s : Signature) (i : Nat) : DataType := s.outputs.getD i .undefined

/-- A list of types inside diagnostics. -/
def typeListing (ts : List DataType) : String := Text.listing (ts.map DataType.name)

/-- The signature inside diagnostics. -/
def literal (s : Signature) : String :=
  Text.record "OperatorDescriptor"
    [("name", Text.quoted s.name), ("version", toString s.version),
      ("provider", s.provider.literal), ("inputs", typeListing s.inputs),
      ("outputs", typeListing s.outputs)]

end Signature

end OpGraph
