import OpGraph.Operator.Descriptor
import OpGraph.Kernel.Table
import OpGraph.Session.Error
import OpGraph.Stream.Basic

/-!
# `Plan.Basic` — a graph with everything decided

In a plan every value has a number and a type, every node has its kernel and its place, and every edge
that leaves a device for another provider has a wait. Nodes stand in the order they are launched.
Streams are made one for each provider that makes streams and runs a node.
-/

namespace OpGraph

/-- A value of a graph. -/
structure Value where
  name : String
  /-- Its type; `undefined` while it is not known. -/
  type : DataType
  /-- The node that makes it, by its place in the plan. -/
  producer : Option Nat := none
  deriving DecidableEq

/-- A wait for the notification of a node. -/
structure PlannedWait where
  /-- The node that is waited for. -/
  producer : Nat
  f : WaitFunction
  deriving DecidableEq

/-- A node with everything decided. -/
structure PlannedNode where
  name : String
  op : String
  provider : ProviderId
  /-- The kernel definition that was selected. -/
  definition : KernelDefinition
  /-- What the kernel was told when it was created. -/
  info : KernelInfo
  kernel : Kernel
  /-- Numbers of the values it reads; none where one is left out. -/
  inputs : List (Option Nat)
  /-- Numbers of the values it makes; none where one is not wanted. -/
  outputs : List (Option Nat)
  /-- Planned types of its outputs. -/
  types : List DataType
  logger : Option Logger
  /-- The stream it runs on, by its number; none on the host. -/
  stream : Option Nat := none
  /-- Waits before it is launched. -/
  waits : List PlannedWait := []
  /-- Number of waits on its notification; without any, none is made. -/
  consumers : Nat := 0

/-- An output of the graph, and the wait before it is read. -/
structure PlannedOutput where
  value : Nat
  wait : Option PlannedWait
  deriving DecidableEq

/-- A graph with everything decided. -/
structure Plan where
  values : List Value
  /-- Numbers of the values fed in. -/
  feeds : List Nat
  initializers : List (Nat × Tensor)
  nodes : List PlannedNode
  outputs : List PlannedOutput
  streams : List Stream

namespace Plan

/-- The planned type of a value. -/
def typeOf? (p : Plan) (value : String) : Option DataType :=
  (p.values.find? fun v => v.name = value).map (·.type)

/-- Names of the nodes in the order they are launched. -/
def order (p : Plan) : List String := p.nodes.map (·.name)

/-- Number of waits before a node. -/
def waitCount (p : Plan) (node : String) : Nat :=
  ((p.nodes.find? fun n => n.name = node).map (·.waits.length)).getD 0

/-- The name of a value. -/
def valueName (p : Plan) (value : Nat) : String := ((p.values[value]?).map (·.name)).getD ""

/-- The stream of a node. -/
def streamOf (p : Plan) (n : PlannedNode) : Option Stream := n.stream.bind (p.streams[·]?)

/-- The record of giving all kernels up. -/
def release (p : Plan) : List LifeEvent := p.nodes.map (·.kernel.release)

end Plan

end OpGraph
