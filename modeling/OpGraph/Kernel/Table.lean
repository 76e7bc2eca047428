import OpGraph.Operator.Schema

/-!
# `Kernel.Table` — kernel definitions and how one is found

A definition says for which operator, provider and types a kernel is made. The table keeps definitions
in the order they were registered, and a look-up takes the first one on the provider whose binding takes
the inputs. Two definitions that agree on name, domain, version, provider and binding are one kernel,
and the second is refused; the table keeps the keys it has seen beside the definitions.
-/

namespace OpGraph

/-- For which operator, provider and types a kernel is made. -/
structure KernelDefinition where
  name : String
  domain : String
  since : Nat
  provider : ProviderId
  binding : TypeBinding
  /-- Inputs whose memory type is declared. -/
  memory : List (Nat × MemoryType) := []
  constraints : List TypeConstraint := []
  deriving DecidableEq

/-- What makes two definitions one kernel. -/
structure KernelKey where
  name : String
  domain : String
  since : Nat
  provider : ProviderId
  binding : TypeBinding
  deriving DecidableEq

namespace KernelDefinition

/-- The definition's key. -/
def key (d : KernelDefinition) : KernelKey := ⟨d.name, d.domain, d.since, d.provider, d.binding⟩

/-- The definition in running text. -/
def text (d : KernelDefinition) : String :=
  s!"{d.domain}::{d.name} v{d.since} on '{d.provider}' " ++
    Signature.typeListing d.binding.inputs ++ " -> " ++ Signature.typeListing d.binding.outputs

/-- Whether the definition serves an operator on a provider with these inputs. -/
def serves (d : KernelDefinition) (name domain : String) (inputs : List DataType)
    (provider : ProviderId) : Bool :=
  d.domain = domain && d.name = name && d.provider = provider &&
    (d.binding.matchInputs inputs).isSome

end KernelDefinition

/-- Definitions, each with what makes its kernels, in the order they were registered. -/
structure KernelTable (Maker : Type) where
  entries : List (KernelDefinition × Maker) := []
  /-- The keys of all kernels. -/
  keys : List KernelKey := []

namespace KernelTable

variable {Maker : Type}

/-- Number of kernels. -/
def size (t : KernelTable Maker) : Nat := t.keys.length

/-- The kernels of one operator. -/
def ofOperator (t : KernelTable Maker) (name domain : String) : List (KernelDefinition × Maker) :=
  t.entries.filter fun e => e.1.domain = domain && e.1.name = name

/-- Add a kernel, unless it is there already. -/
def register (t : KernelTable Maker) (d : KernelDefinition) (m : Maker) :
    Except OpError (KernelTable Maker) :=
  if d.key ∈ t.keys then .error (.duplicateKernel d.text)
  else .ok ⟨t.entries ++ [(d, m)], t.keys ++ [d.key]⟩

/-- The first kernel that serves an operator on a provider with these inputs. -/
def lookup (t : KernelTable Maker) (name domain : String) (inputs : List DataType)
    (provider : ProviderId) : Except OpError (KernelDefinition × Maker) :=
  match t.entries.find? fun e => e.1.serves name domain inputs provider with
  | some e => .ok e
  | none => .error (.kernelNotFound name domain provider inputs)

end KernelTable

end OpGraph
