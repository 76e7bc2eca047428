import OpGraph.Assoc
import OpGraph.Kernel.Info

/-!
# `Graph.Basic` — nodes and the values between them

A graph is a list of nodes that read and make named values, together with the values fed into it, the
values it brings along, and the names of those it gives back. An empty name stands for an argument that
was left out.
-/

namespace OpGraph

/-- One use of an operator. -/
structure Node where
  name : String
  domain : String
  op : String
  /-- Names of the values it reads; empty where one is left out. -/
  inputs : List String := []
  /-- Names of the values it makes; empty where one is not wanted. -/
  outputs : List String := []
  attributes : List (String × AttributeValue) := []
  /-- The provider it is assigned to; the session's default when there is none. -/
  provider : Option ProviderId := none

namespace Node

/-- The values the node reads, as often as it does. -/
def reads (n : Node) : List String := n.inputs.filter (! ·.isEmpty)

/-- The values the node makes. -/
def makes (n : Node) : List String := n.outputs.filter (! ·.isEmpty)

end Node

/-- A graph of operators. -/
structure Graph where
  /-- Values fed into it and their types; `undefined` takes any. -/
  inputs : List (String × DataType) := []
  /-- Values it brings along. -/
  initializers : List (String × Tensor) := []
  nodes : List Node := []
  /-- Names of the values it gives back. -/
  outputs : List String := []

namespace Graph

/-- The value that is brought along under a name. -/
def initializer? (g : Graph) (name : String) : Option Tensor := Assoc.find? name g.initializers

/-- Every value a node makes, with the position of the node. -/
def products (g : Graph) : List (String × Nat) :=
  g.nodes.zipIdx.flatMap fun (n, i) => n.makes.map fun v => (v, i)

/-- The position of the first node that makes a value. -/
def producer? (g : Graph) (value : String) : Option Nat := Assoc.find? value g.products

/-- Positions of the nodes whose values a node reads, once for each reading. -/
def sources (g : Graph) (n : Node) : List Nat := n.reads.filterMap g.producer?

end Graph

end OpGraph
