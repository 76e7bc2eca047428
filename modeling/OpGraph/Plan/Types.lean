import OpGraph.Graph.Order
import OpGraph.Plan.Basic
import OpGraph.Session.Basic

/-!
# `Plan.Types` — values, their types and the kernels they select

Values are numbered: first those fed in, then those the graph brings along, then those the nodes make,
in the order the nodes come. Node by node, the types of the inputs select a kernel, and the schema gives
the types of the outputs; where it gives none they stay unknown. Creating the kernel comes last, so a
node that fails an earlier check leaves no trace.
-/

namespace OpGraph

namespace Plan

/-! ## Values -/

/-- The number of a value. -/
def number? (vs : List Value) (name : String) : Option Nat := vs.findIdx? fun v => v.name = name

/-- Give a new value the next number. -/
def define (vs : List Value) (name : String) (type : DataType) : Except SessionError (List Value) :=
  if (number? vs name).isSome then .error (.invalidGraph (.definedTwice name))
  else .ok (vs ++ [⟨name, type, none⟩])

/-- Give new values numbers in order. -/
def defineAll (vs : List Value) (new : List (String × DataType)) :
    Except SessionError (List Value) :=
  new.foldlM (fun vs v => define vs v.1 v.2) vs

/-- The first name that occurs a second time. -/
def firstRepeat? (seen : List String) : List String → Option String
  | [] => none
  | v :: rest => if v ∈ seen then some v else firstRepeat? (v :: seen) rest

/-- Values that are there before any node runs, by name and type. -/
def given (g : Graph) : List (String × DataType) :=
  g.inputs ++ g.initializers.map fun (name, t) => (name, t.dtype)

/-- Values that nodes make, in a given order of the nodes. -/
def made (g : Graph) (order : List Nat) : List (String × DataType) :=
  (order.filterMap (g.nodes[·]?)).flatMap fun n => n.makes.map fun v => (v, .undefined)

/-- All values of a graph, and its nodes in the order they come. -/
def layOut (g : Graph) : Except SessionError (List Value × List Node) := do
  let vs ← defineAll [] (given g)
  match firstRepeat? [] (g.products.map (·.1)) with
  | some v => throw (.invalidGraph (.producedTwice v))
  | none => pure ()
  match g.order with
  | .error stuck => throw (.cycle stuck)
  | .ok order =>
      let vs ← defineAll vs (made g order)
      pure (vs, order.filterMap (g.nodes[·]?))

/-- The number a name in a node stands for; none for an empty one. -/
def resolve (vs : List Value) (node name : String) : Except SessionError (Option Nat) :=
  if name.isEmpty then .ok none
  else
    match number? vs name with
    | some v => .ok (some v)
    | none => .error (.invalidGraph (.unknownValue node name))

/-- The type of an argument; unknown where one is left out. -/
def typeAt (vs : List Value) : Option Nat → DataType
  | none => .undefined
  | some v => ((vs[v]?).map (·.type)).getD .undefined

/-- Give a value its type and its producer. -/
def settleValue (position : Nat) (vs : List Value) : Option Nat × DataType → List Value
  | (none, _) => vs
  | (some v, type) => vs.modify v fun x => { x with type, producer := some position }

/-! ## Nodes -/

/-- Everything about a node but its kernel. -/
structure Choice where
  provider : Provider
  inputs : List (Option Nat)
  outputs : List (Option Nat)
  definition : KernelDefinition
  factory : Factory
  types : List DataType
  info : KernelInfo

/-- Inputs of a node whose value the graph brings along. -/
def constants (g : Graph) (n : Node) : List (Nat × Tensor) :=
  n.inputs.zipIdx.filterMap fun (name, i) => (g.initializer? name).map fun t => (i, t)

/-- Decide everything about a node but its kernel. -/
def choose (s : Session) (g : Graph) (vs : List Value) (n : Node) : Except SessionError Choice := do
  let id := n.provider.getD s.defaultProvider
  let provider ← s.provider id
  let inputs ← n.inputs.mapM (resolve vs n.name)
  let outputs ← n.outputs.mapM (resolve vs n.name)
  let inputTypes := inputs.map (typeAt vs)
  match s.catalog.kernels.lookup n.op n.domain inputTypes id with
  | .error e => throw (.op e)
  | .ok (definition, factory) =>
      let inferred := (s.catalog.schema? n.op n.domain).bind (·.inferNode inputTypes outputs.length)
      let types := inferred.getD (List.replicate outputs.length .undefined)
      pure
        { provider, inputs, outputs, definition, factory, types
          info :=
            { node := n.name
              inputs := n.inputs.zip inputTypes
              outputs := n.outputs.zip types
              attributes := n.attributes
              constants := constants g n
              provider := some id
              logger := provider.logger } }

/-- The node a choice and its kernel amount to. -/
def Choice.node (c : Choice) (n : Node) (kernel : Kernel) : PlannedNode :=
  { name := n.name, op := n.op, provider := c.provider.id, definition := c.definition
    info := c.info, kernel, inputs := c.inputs, outputs := c.outputs, types := c.types
    logger := c.provider.logger }

/-- What planning nodes has come to. -/
structure Typed where
  values : List Value
  nodes : List PlannedNode := []
  life : List LifeEvent := []

/-- Plan one more node. The record of lives grows even when its kernel is refused. -/
def planNode (s : Session) (g : Graph) (t : Typed) (n : Node) :
    Except SessionError Typed × List LifeEvent :=
  match choose s g t.values n with
  | .error e => (.error e, t.life)
  | .ok c =>
      match c.factory.instantiate c.info with
      | (.error e, life) => (.error (.op e), t.life ++ life)
      | (.ok kernel, life) =>
          (.ok
            { values := (c.outputs.zip c.types).foldl (settleValue t.nodes.length) t.values
              nodes := t.nodes ++ [c.node n kernel]
              life := t.life ++ life }, t.life ++ life)

/-- Plan nodes in order. When one fails, the kernels of those before it are given up. -/
def planNodes (s : Session) (g : Graph) : Typed → List Node → Except SessionError Typed × List LifeEvent
  | t, [] => (.ok t, t.life)
  | t, n :: rest =>
      match planNode s g t n with
      | (.error e, life) => (.error e, life ++ t.nodes.map (·.kernel.release))
      | (.ok t, _) => planNodes s g t rest

end Plan

end OpGraph
