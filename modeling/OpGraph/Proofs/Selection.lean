import OpGraph.Proofs.Inference
import OpGraph.Proofs.Starting
import OpGraph.Proofs.Wiring

/-!
# `Proofs.Selection` — the kernel of a node and the types of its outputs

The kernel of a node is looked up on the node's provider; the types of its outputs are inferred by the
schema, which knows the kernels of all providers. So the two searches need not stop at the same kernel:
the types are those of the first kernel of the operator that takes the inputs, whatever provider it runs
on, and they are the selected kernel's own whenever that first kernel runs where the node does.
-/

namespace OpGraph

open Outcome

/-! ## Sessions -/

namespace Session

/-- Registering domains one after the other leads to a catalog that can come about. -/
theorem register_reachable {ds : List (String × List Descriptor)} {c c' : Catalog}
    (hc : c.Reachable) (h : register c ds = .ok c') : c'.Reachable :=
  foldlM_induction (fun c _ => c.Reachable)
    (fun _ _ _ _ hc hd => by
      obtain ⟨⟨c', out⟩, hreg, rfl⟩ := map_eq_ok.mp hd
      exact hc.register hreg)
    ds c [] hc h

theorem start_reachable {Job : Type} {setup : Setup} {m m' : Machine Job} {s : Session}
    {events : List LogEvent} (h : start setup m = (.ok (s, m'), events)) : s.catalog.Reachable :=
  register_reachable (.empty _) (started h).catalog

theorem provider_eq_ok {s : Session} {id : ProviderId} {p : Provider} (h : s.provider id = .ok p) :
    p.id = id := by
  unfold provider find? at h
  split at h
  next q hq =>
    obtain rfl := Except.ok.inj h
    simpa using List.find?_some hq
  · cases h

end Session

/-! ## Nodes of a plan -/

namespace Plan

/-- The planned types of values a node reads or makes; unknown where one is left out. -/
def typesOf (p : Plan) (vs : List (Option Nat)) : List DataType := vs.map (typeAt p.values)

/-- Where a node of a plan comes from, given the plan's own types. -/
theorem build_node {Job : Type} {s : Session} {g : Graph} {m m' : Machine Job} {p : Plan}
    {life : List LifeEvent} (h : build s g m = ((.ok p, life), m')) {n : PlannedNode}
    (hn : n ∈ p.nodes) :
    ∃ node ∈ g.nodes, ∃ c kernel more stream waits consumers, Decided s g p.values node c ∧
      c.factory.instantiate c.info = (.ok kernel, more) ∧
      n = { c.node node kernel with stream, waits, consumers } := by
  obtain ⟨vs, nodes, t, table, hlaid, hplanned, -, hconn⟩ := build_eq_ok h
  obtain ⟨j, hj⟩ := List.mem_iff_getElem?.mp hn
  obtain ⟨a, waits, ha, -, rfl⟩ := hconn.nodes hj
  obtain ⟨node, c, kernel, more, hnode, hdec, hmake, rfl⟩ := hplanned.decided ha
  rw [hconn.values]
  exact ⟨node, hlaid.mem node (List.mem_of_getElem? hnode), c, kernel, more, _, _, _, hdec, hmake, rfl⟩

/-- **The planned types of a node's outputs are those of the first kernel that takes its inputs.** -/
theorem types_of_first_kernel {Job : Type} {setup : Setup} {s : Session} {g : Graph}
    {m₀ m₁ m m' : Machine Job} {events : List LogEvent} {p : Plan} {life : List LifeEvent}
    (hstart : Session.start setup m₀ = (.ok (s, m₁), events))
    (hbuild : build s g m = ((.ok p, life), m')) :
    ∀ n ∈ p.nodes, ∃ node ∈ g.nodes, n.name = node.name ∧ ∃ factory first,
      s.catalog.kernels.lookup node.op node.domain (p.typesOf n.inputs) n.provider =
        .ok (n.definition, factory) ∧
      s.catalog.kernels.firstTaking node.op node.domain (p.typesOf n.inputs) = some first ∧
      n.types = (first.1.binding.infer (p.typesOf n.inputs) n.outputs.length).getD
        (List.replicate n.outputs.length .undefined) ∧
      (first.1.provider = n.provider → first = (n.definition, factory)) := by
  intro n hn
  obtain ⟨node, hnode, c, kernel, more, stream, waits, consumers, hdec, -, rfl⟩ := build_node hbuild hn
  have hprovider : c.provider.id = node.provider.getD s.defaultProvider :=
    Session.provider_eq_ok hdec.provider
  have hlookup : s.catalog.kernels.lookup node.op node.domain (p.typesOf c.inputs) c.provider.id =
      .ok (c.definition, c.factory) := by
    rw [hprovider]
    exact hdec.lookup
  obtain ⟨first, hfirst⟩ := KernelTable.exists_firstTaking hlookup
  refine ⟨node, hnode, rfl, c.factory, first, hlookup, hfirst, ?_, fun hsame => ?_⟩
  · have hinfer := (Session.start_reachable hstart).lockstep.inferNode_eq node.op node.domain
      (p.typesOf c.inputs) c.outputs.length
    rw [hfirst, Option.bind_some] at hinfer
    show c.types = (first.1.binding.infer (p.typesOf c.inputs) c.outputs.length).getD _
    rw [← hinfer]
    exact hdec.types
  · have hown := KernelTable.lookup_firstTaking hfirst
    rw [hsame] at hown
    exact Except.ok.inj (hown.symm.trans hlookup)

/-! ## Where the two searches part -/

/-- An operator with one input and one output that does nothing. -/
def idle (provider : Option ProviderId) (input output : DataType) : Descriptor :=
  { signature :=
      { name := "Foo", version := Interface.newest, providerName := provider
        inputs := [input], outputs := [output], slots := {} }
    create := fun _ _ => { result := .ok ⟨pure (), .pure ()⟩ } }

/-- An operator for any type on the host, and after it one for floats on the simulated device. -/
def mixedSetup : Setup :=
  { config := { providers := [.sim] }
    domains := [("demo", [idle none .undefined .undefined, idle (some .sim) .float32 .int64])]
    builtins := false }

/-- One node on the simulated device, reading a float. -/
def mixedGraph : Graph :=
  { inputs := [("x", .float32)]
    nodes :=
      [{ name := "n", domain := "demo", op := "Foo", inputs := ["x"], outputs := ["y"]
         provider := some .sim }]
    outputs := ["y"] }

/-- Types go by the kernel on the host, which takes the float and came first. -/
theorem types_of_first_kernel_mixed :
    ∃ s m₁ events p life m₂,
      Session.start mixedSetup ({} : Machine Unit) = (.ok (s, m₁), events) ∧
      build s mixedGraph m₁ = ((.ok p, life), m₂) ∧ p.nodes.length = 1 ∧
      ∀ n ∈ p.nodes, ∃ node ∈ mixedGraph.nodes, n.name = node.name ∧ ∃ factory first,
        s.catalog.kernels.lookup node.op node.domain (p.typesOf n.inputs) n.provider =
          .ok (n.definition, factory) ∧
        s.catalog.kernels.firstTaking node.op node.domain (p.typesOf n.inputs) = some first ∧
        n.types = (first.1.binding.infer (p.typesOf n.inputs) n.outputs.length).getD
          (List.replicate n.outputs.length .undefined) ∧
        (first.1.provider = n.provider → first = (n.definition, factory)) := by
  have hstart : ∃ s m₁ events,
      Session.start mixedSetup ({} : Machine Unit) = (.ok (s, m₁), events) ∧
      ∃ p life m₂, build s mixedGraph m₁ = ((.ok p, life), m₂) ∧ p.nodes.length = 1 :=
    ⟨_, _, _, rfl, _, _, _, rfl, rfl⟩
  obtain ⟨s, m₁, events, hstart, p, life, m₂, hbuild, hlen⟩ := hstart
  exact ⟨s, m₁, events, p, life, m₂, hstart, hbuild, hlen, types_of_first_kernel hstart hbuild⟩

/-- **The selected kernel may infer other types than those planned.** -/
theorem types_not_of_selected_kernel :
    ∃ s m₁ events p life m₂,
      Session.start mixedSetup ({} : Machine Unit) = (.ok (s, m₁), events) ∧
      build s mixedGraph m₁ = ((.ok p, life), m₂) ∧
      ∃ n ∈ p.nodes, ∃ factory,
        s.catalog.kernels.lookup "Foo" "demo" (p.typesOf n.inputs) n.provider =
          .ok (n.definition, factory) ∧
        n.types = [.float32] ∧
        n.definition.binding.infer (p.typesOf n.inputs) n.outputs.length = some [.int64] :=
  ⟨_, _, _, _, _, _, rfl, rfl, _, List.mem_cons_self, _, rfl, rfl, rfl⟩

end Plan

end OpGraph
