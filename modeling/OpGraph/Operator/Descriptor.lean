import OpGraph.Kernel.Composed

/-!
# `Operator.Descriptor` — operators with behaviour, and the kernels made of them

An operator is a signature with two functions: one that creates the state of a kernel for a node and one that
computes with that state; that a state was released is only ever recorded. States are of a type that the
operator chooses (`CustomOp`) and the host does not know. The host sees a descriptor, whose states it can only
hand back (`CustomOp.descriptor`). A kernel is a descriptor with the state made for one node. The host never
hands a descriptor an interface newer than the one its signature asks for, and never creates a kernel of a
plugin newer than itself.
-/

namespace OpGraph

/-- The outcome of creating the state of a kernel. -/
structure Creation (State : Type) where
  /-- What was asked on the way, where the operator keeps a record. -/
  queries : List QueryReport := []
  result : Except OpError State

namespace Creation

variable {State State' : Type}

/-- The same with what is made of the state. -/
def map (f : State → State') (c : Creation State) : Creation State' := ⟨c.queries, c.result.map f⟩

/-- Whether a creation succeeded. -/
def succeeded (c : Creation State) : Bool := c.result.toOption.isSome

end Creation

/-- An operator: what it declares and what it does. -/
structure CustomOp (State : Type) where
  signature : Signature
  /-- Create the state of a kernel, given the interface version and the node. -/
  create : Nat → KernelInfo → Creation State
  compute : State → KernelM Unit
  /-- It sees the context only through its operations. -/
  composed : ∀ s, (compute s).Composed
  /-- Whether the operator keeps a record of its kernels' lives. -/
  traced : Bool := false

/-- The state of a kernel as the host holds it. Nothing can be done with it but to hand it back to its
    operator, so what there is to a state is the computation it stands for. -/
structure KernelState where
  compute : KernelM Unit
  composed : compute.Composed

/-- An operator as the host sees it. -/
structure Descriptor where
  signature : Signature
  create : Nat → KernelInfo → Creation KernelState
  traced : Bool := false

/-- Compute with what was handed over as a state; none if it is not of the operator's type. -/
def Descriptor.compute (d : Descriptor) : Option KernelState → KernelM Unit
  | some s => s.compute
  | none => KernelM.fail (.invalidArgument (.foreignState d.signature.name))

/-- What the host sees of an operator. -/
def CustomOp.descriptor {State : Type} (op : CustomOp State) : Descriptor :=
  { signature := op.signature
    create := fun version info => (op.create version info).map fun s => ⟨op.compute s, op.composed s⟩
    traced := op.traced }

/-- What happened to a kernel. -/
inductive LifeChange where
  /-- Its creation was attempted through an interface of this version. -/
  | created (interface : Nat) (queries : List QueryReport) (succeeded : Bool)
  /-- Its state was released. -/
  | destroyed

/-- An entry in the record of kernels' lives. -/
structure LifeEvent where
  op : String
  node : String
  /-- Whether the operator keeps a record. -/
  traced : Bool
  change : LifeChange

/-- A kernel, ready to compute for one node. -/
structure Kernel where
  descriptor : Descriptor
  state : KernelState
  node : String

namespace Kernel

/-- One computation. -/
def compute (k : Kernel) : KernelM Unit := k.descriptor.compute (some k.state)

theorem compute_composed (k : Kernel) : k.compute.Composed := k.state.composed

/-- The record of the kernel's release. -/
def release (k : Kernel) : LifeEvent :=
  ⟨k.descriptor.signature.name, k.node, k.descriptor.traced, .destroyed⟩

end Kernel

/-- Create a kernel for a node on a host of version `newest`, with the record of it. -/
def Descriptor.instantiate (d : Descriptor) (newest : Nat) (info : KernelInfo) :
    Except OpError Kernel × List LifeEvent :=
  if newest < d.signature.version then
    (.error (.unsupportedVersion d.signature.name d.signature.version newest), [])
  else
    let creation := d.create d.signature.version info
    let event : LifeEvent :=
      ⟨d.signature.name, info.node, d.traced,
        .created d.signature.version creation.queries creation.succeeded⟩
    (creation.result.map fun state => ⟨d, state, info.node⟩, [event])

end OpGraph
