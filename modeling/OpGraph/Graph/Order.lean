import OpGraph.Graph.Basic

/-!
# `Graph.Order` — which node comes when

A node may come once every node it reads from has come. Nodes that may come wait in line: first those
that read from none, in graph order, then each as its last source comes. Nodes that never get in line
lie on a cycle or behind one.
-/

namespace OpGraph.Graph

/-- Nodes that read from a node, in graph order, once for each reading. -/
def readers (g : Graph) (source : Nat) : List Nat :=
  g.nodes.zipIdx.flatMap fun (n, i) => ((g.sources n).filter (· = source)).map fun _ => i

/-- The line of nodes that may come, and for each node the readings still open. -/
structure Line where
  ready : List Nat
  openReads : List Nat
  deriving DecidableEq

/-- The line before any node came. -/
def Line.start (g : Graph) : Line :=
  let openReads := g.nodes.map fun n => (g.sources n).length
  { ready := (List.range g.nodes.length).filter fun i => openReads.getD i 0 = 0, openReads }

/-- One reading of a node is settled; with the last one the node gets in line. -/
def Line.settle (l : Line) (reader : Nat) : Line :=
  let left := l.openReads.getD reader 0 - 1
  { ready := if left = 0 then l.ready ++ [reader] else l.ready
    openReads := l.openReads.set reader left }

/-- Let up to `fuel` nodes come: those that did, in order, and the line they left. -/
def Line.advance (g : Graph) : Nat → Line → List Nat × Line
  | 0, l => ([], l)
  | fuel + 1, l =>
      match l.ready with
      | [] => ([], l)
      | i :: rest =>
          let l := (g.readers i).foldl Line.settle { l with ready := rest }
          let (later, l) := Line.advance g fuel l
          (i :: later, l)

/-- Positions of the nodes in the order they come, or the names of those that never do. -/
def order (g : Graph) : Except (List String) (List Nat) :=
  let (order, l) := Line.advance g g.nodes.length (Line.start g)
  if order.length = g.nodes.length then .ok order
  else
    .error ((g.nodes.zipIdx.filter fun (_, i) => 0 < l.openReads.getD i 0).map fun (n, _) => n.name)

end OpGraph.Graph
