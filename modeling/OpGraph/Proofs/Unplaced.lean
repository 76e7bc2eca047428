import OpGraph.Proofs.Accepting

/-!
# `Proofs.Unplaced` — what a graph is apart from where its nodes run

Values, edges, and the order in which nodes come are the same wherever the nodes are placed: they go by what
nodes read and make. So two graphs that differ in the providers of their nodes alone are laid out alike, and
the same types go along their edges.
-/

namespace OpGraph

open Outcome Relation

/-- The node without the provider it is assigned to. -/
def Node.unplaced (n : Node) : Node := { n with provider := none }

theorem Node.reads_of_unplaced {a b : Node} (h : a.unplaced = b.unplaced) : a.reads = b.reads := by
  show a.unplaced.reads = b.unplaced.reads
  rw [h]

theorem Node.makes_of_unplaced {a b : Node} (h : a.unplaced = b.unplaced) : a.makes = b.makes := by
  show a.unplaced.makes = b.unplaced.makes
  rw [h]

/-- The graph with no node assigned to a provider. -/
def Graph.unplaced (g : Graph) : Graph := { g with nodes := g.nodes.map Node.unplaced }

namespace Graph

variable (g : Graph)

/-! ## Order -/

theorem zipIdx_unplaced : g.unplaced.nodes.zipIdx = g.nodes.zipIdx.map fun n => (n.1.unplaced, n.2) :=
  List.zipIdx_map ..

theorem products_unplaced : g.unplaced.products = g.products := by
  unfold products
  rw [zipIdx_unplaced, List.flatMap_map]
  rfl

theorem sources_unplaced (n : Node) : g.unplaced.sources n.unplaced = g.sources n := by
  unfold sources producer?
  rw [products_unplaced]
  rfl

theorem readers_unplaced : g.unplaced.readers = g.readers := by
  funext source
  unfold readers
  rw [zipIdx_unplaced, List.flatMap_map]
  simp only [sources_unplaced]

theorem start_unplaced : Line.start g.unplaced = Line.start g := by
  have hopen : (g.unplaced.nodes.map fun n => (g.unplaced.sources n).length) =
      g.nodes.map fun n => (g.sources n).length := by
    show ((g.nodes.map Node.unplaced).map _) = _
    rw [List.map_map]
    exact List.map_congr_left fun n _ => congrArg List.length (g.sources_unplaced n)
  have hlength : g.unplaced.nodes.length = g.nodes.length := List.length_map _
  unfold Line.start
  rw [hopen, hlength]

/-- Who comes next goes by who reads from whom. -/
theorem advance_unplaced (fuel : Nat) (l : Line) :
    Line.advance g.unplaced fuel l = Line.advance g fuel l := by
  induction fuel generalizing l with
  | zero => rfl
  | succ fuel ih =>
      unfold Line.advance
      rw [readers_unplaced]
      cases l.ready with
      | nil => rfl
      | cons i rest =>
          dsimp only
          rw [ih]

/-- **Nodes come in one order wherever they are placed.** -/
theorem order_unplaced : g.unplaced.order = g.order := by
  have hlength : g.unplaced.nodes.length = g.nodes.length := List.length_map _
  unfold order
  rw [hlength, start_unplaced, advance_unplaced, zipIdx_unplaced]
  -- What is told of nodes on a cycle is their names.
  simp only [List.filter_map, List.map_map]
  rfl

/-! ## Layout -/

theorem getElem?_unplaced (i : Nat) : g.unplaced.nodes[i]? = (g.nodes[i]?).map Node.unplaced :=
  List.getElem?_map ..

theorem filterMap_unplaced (order : List Nat) : order.filterMap (g.unplaced.nodes[·]?) =
    (order.filterMap (g.nodes[·]?)).map Node.unplaced := by
  rw [List.map_filterMap]
  exact List.filterMap_congr fun i _ => g.getElem?_unplaced i

/-- **A graph is laid out alike wherever its nodes are placed.** -/
theorem layOut_unplaced : Plan.layOut g.unplaced =
    (Plan.layOut g).map fun laid => (laid.1, laid.2.map Node.unplaced) := by
  have hgiven : Plan.given g.unplaced = Plan.given g := rfl
  have hmade : ∀ order, Plan.made g.unplaced order = Plan.made g order := by
    intro order
    unfold Plan.made
    rw [filterMap_unplaced, List.flatMap_map]
    rfl
  unfold Plan.layOut
  rw [hgiven, products_unplaced, order_unplaced]
  cases Plan.defineAll [] (Plan.given g) with
  | error e => rfl
  | ok vs =>
      cases Plan.firstRepeat? [] (g.products.map (·.1)) with
      | some v => rfl
      | none =>
          cases g.order with
          | error stuck => rfl
          | ok order =>
              show (Plan.defineAll vs (Plan.made g.unplaced order) >>= fun vs =>
                pure (vs, order.filterMap (g.unplaced.nodes[·]?))) =
                Except.map _ (Plan.defineAll vs (Plan.made g order) >>= fun vs =>
                  pure (vs, order.filterMap (g.nodes[·]?)))
              rw [hmade, filterMap_unplaced]
              cases Plan.defineAll vs (Plan.made g order) <;> rfl

/-! ## Names, cycles and types -/

theorem valueNames_unplaced : g.unplaced.valueNames = g.valueNames := by
  show _ ++ (g.nodes.map Node.unplaced).flatMap Node.makes = _
  rw [List.flatMap_map]
  rfl

theorem acyclic_unplaced : g.unplaced.Acyclic ↔ g.Acyclic := by
  have hfeeds : g.unplaced.Feeds = g.Feeds := by
    funext i j
    unfold Feeds
    simp only [getElem?_unplaced, Option.map_eq_some_iff]
    refine propext ⟨?_, ?_⟩
    · rintro ⟨_, _, v, ⟨a, ha, rfl⟩, ⟨b, hb, rfl⟩, hmade, hread⟩
      exact ⟨a, b, v, ha, hb, hmade, hread⟩
    · rintro ⟨a, b, v, ha, hb, hmade, hread⟩
      exact ⟨_, _, v, ⟨a, ha, rfl⟩, ⟨b, hb, rfl⟩, hmade, hread⟩
  unfold Acyclic
  rw [hfeeds]

theorem typing_unplaced {s : Session} {τ : String → DataType} : s.Typing g.unplaced τ ↔ s.Typing g τ := by
  constructor
  · intro h
    refine ⟨h.given, fun n hn v hv => ?_⟩
    exact h.made n.unplaced (List.mem_map_of_mem hn) v hv
  · intro h
    refine ⟨h.given, fun n hn v hv => ?_⟩
    obtain ⟨a, ha, rfl⟩ := List.mem_map.mp hn
    exact h.made a ha v hv

end Graph

end OpGraph
