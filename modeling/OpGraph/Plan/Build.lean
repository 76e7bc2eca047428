import OpGraph.Plan.Types
import OpGraph.Plan.Waits

/-!
# `Plan.Build` — from a graph to its plan

Values and kernels first, then streams, then waits, then outputs. Whatever fails, the kernels and streams
made by then are given up again, so that every kernel that was created is released once: here, or with
the plan.
-/

namespace OpGraph.Plan

variable {Job : Type}

/-- Give streams up. -/
def closeAll (streams : List Stream) (m : Machine Job) : Machine Job :=
  streams.foldl (fun m s => s.release m) m

/-- Waits of nodes that have their streams, and the plan they amount to. -/
def connect (h : StreamHandles) (g : Graph) (vs : List Value) (nodes : List PlannedNode)
    (streams : List Stream) : Except SessionError Plan := do
  let nodes ← (nodes.mapM (withWaits h vs nodes)).mapError .stream
  let outputs ← g.outputs.mapM (planOutput h vs nodes)
  pure
    { values := vs
      feeds := List.range g.inputs.length
      initializers :=
        g.initializers.zipIdx.map fun ((_, t), i) => (g.inputs.length + i, t)
      nodes := withConsumers nodes outputs
      outputs, streams }

/-- Streams for nodes, and the waits between them. -/
def wire (h : StreamHandles) (g : Graph) (t : Typed) (m : Machine Job) :
    Except SessionError Plan × Machine Job :=
  match (t.nodes.map (·.provider)).foldlM (openFor h) ([], m) with
  | .error e => (.error (.stream e), m)
  | .ok (table, m) =>
      let streams := table.map (·.2)
      match connect h g t.values (t.nodes.map (place table)) streams with
      | .ok plan => (.ok plan, m)
      | .error e => (.error e, closeAll streams m)

/-- Plan a graph, with the record of the kernels created for it. -/
def build (s : Session) (g : Graph) (m : Machine Job) :
    (Except SessionError Plan × List LifeEvent) × Machine Job :=
  match layOut g with
  | .error e => ((.error e, []), m)
  | .ok (vs, nodes) =>
      match planNodes s g { values := vs } nodes with
      | (.error e, life) => ((.error e, life), m)
      | (.ok t, life) =>
          match wire s.handles g t m with
          | (.ok plan, m) => ((.ok plan, life), m)
          | (.error e, m) => ((.error e, life ++ t.nodes.map (·.kernel.release)), m)

end OpGraph.Plan
