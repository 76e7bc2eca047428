import OpGraph.Proofs.Accepting

/-!
# `Proofs.Creation` — the kernels that planning creates

Planning asks for kernels node by node, in the order in which nodes will be launched, and goes no further
once a node fails. So what it recorded is told by the nodes that got their kernels and, perhaps, one attempt
that failed (`Plan.Attempt`): one creation for each, in that order, and where there is no plan in the end,
one release for each kernel that was made (`Plan.build_record`).
-/

namespace OpGraph

open Outcome

/-! ## One kernel -/

/-- The record of asking an operator for the kernel of a node. -/
def Descriptor.creation (d : Descriptor) (info : KernelInfo) : LifeEvent :=
  let creation := d.create d.signature.version info
  ⟨d.signature.name, info.node, d.traced,
    .created d.signature.version creation.queries creation.succeeded⟩

/-- The record of how the kernel of a planned node was created. -/
def PlannedNode.creation (n : PlannedNode) : LifeEvent := n.kernel.descriptor.creation n.info

/-- A registered operator that is not newer than the host is asked for the kernel of a node. -/
structure Session.Asks (s : Session) (a : Node) (d : Descriptor) (info : KernelInfo) : Prop where
  registered : ∃ e ∈ s.catalog.kernels.entries, e.2.descriptor = d
  version : d.signature.version ≤ s.catalog.newest
  node : info.node = a.name

/-- The kernel of a planned node is what its operator made when it was asked for it. -/
structure PlannedNode.MadeFor (n : PlannedNode) (s : Session) (a : Node) : Prop where
  asked : s.Asks a n.kernel.descriptor n.info
  state : (n.kernel.descriptor.create n.kernel.descriptor.signature.version n.info).result =
    .ok n.kernel.state
  node : n.kernel.node = a.name
  name : n.name = a.name

/-- A node with the kernel and the information of another has its kernel for the same node. -/
theorem PlannedNode.MadeFor.congr {n n' : PlannedNode} {s : Session} {a : Node} (h : n.MadeFor s a)
    (hkernel : n'.kernel = n.kernel) (hinfo : n'.info = n.info) (hname : n'.name = n.name) :
    n'.MadeFor s a := by
  obtain ⟨hasked, hstate, hnode, hname'⟩ := h
  constructor
  · rwa [hkernel, hinfo]
  · rwa [hkernel, hinfo]
  · rwa [hkernel]
  · rwa [hname]

/-- What a factory makes and records. An operator that is too new is not even asked. -/
theorem Factory.instantiate_cases {f : Factory} {info : KernelInfo} {result : Except OpError Kernel}
    {life : List LifeEvent} (h : f.instantiate info = (result, life)) :
    f.newest < f.descriptor.signature.version ∧ life = [] ∧ (∃ e, result = .error e) ∨
      f.descriptor.signature.version ≤ f.newest ∧ life = [f.descriptor.creation info] ∧
        result = (f.descriptor.create f.descriptor.signature.version info).result.map
          fun state => ⟨f.descriptor, state, info.node⟩ := by
  unfold Factory.instantiate Descriptor.instantiate at h
  split at h
  next hnew =>
    obtain ⟨rfl, rfl⟩ := Prod.mk.inj h
    exact .inl ⟨hnew, rfl, _, rfl⟩
  next hold =>
    obtain ⟨rfl, rfl⟩ := Prod.mk.inj h
    exact .inr ⟨Nat.le_of_not_lt hold, rfl, rfl⟩

namespace Plan

/-! ## One node after the other -/

/-- How far the creation of kernels came, for nodes in the order they are launched: the first ones have
    theirs, and an operator may have been asked for the next one in vain. -/
structure Attempt (s : Session) (order : List Node) (made : List PlannedNode) (failed : Option LifeEvent) :
    Prop where
  within : made.length ≤ order.length
  each : ∀ {j : Nat} {n : PlannedNode}, made[j]? = some n → ∃ a, order[j]? = some a ∧ n.MadeFor s a
  last : ∀ e, failed = some e → ∃ a d info, order[made.length]? = some a ∧ s.Asks a d info ∧
    (d.create d.signature.version info).succeeded = false ∧ e = d.creation info

variable {s : Session} {g : Graph} {order seen : List Node} {made : List PlannedNode}
  {failed : Option LifeEvent}

/-- Nobody was asked for any kernel. -/
theorem Attempt.nothing : Attempt s order [] none :=
  ⟨Nat.zero_le _, nofun, nofun⟩

/-- Nodes that come later do not matter. -/
theorem Attempt.append (h : Attempt s seen made failed) (rest : List Node) :
    Attempt s (seen ++ rest) made failed := by
  obtain ⟨hlength, hmade, hfailed⟩ := h
  constructor
  · rw [List.length_append]
    omega
  · intro j n hj
    obtain ⟨a, ha, hfor⟩ := hmade hj
    have hlt := (List.getElem?_eq_some_iff.mp ha).1
    exact ⟨a, by rw [List.getElem?_append_left hlt, ha], hfor⟩
  · intro e he
    obtain ⟨a, d, info, ha, hasks⟩ := hfailed e he
    have hlt := (List.getElem?_eq_some_iff.mp ha).1
    exact ⟨a, d, info, by rw [List.getElem?_append_left hlt, ha], hasks⟩

/-- The next node got its kernel as well. -/
theorem Attempt.snoc (h : Attempt s seen made none) (hlength : made.length = seen.length) {a : Node}
    {n : PlannedNode} (hn : n.MadeFor s a) : Attempt s (seen ++ [a]) (made ++ [n]) none := by
  constructor
  · simp [hlength]
  · intro j n' hj
    rcases getElem?_concat_eq_some hj with ⟨-, hj⟩ | ⟨rfl, rfl⟩
    · exact (h.append [a]).each hj
    · exact ⟨a, by simp [hlength], hn⟩
  · nofun

/-- What planning one more node creates. -/
theorem planNode_record (hnewest : ∀ e ∈ s.catalog.kernels.entries, e.2.newest = s.catalog.newest)
    {t : Typed} {a : Node} {result : Except SessionError Typed} {life : List LifeEvent}
    (h : planNode s g t a = (result, life)) :
    (∃ t' n, result = .ok t' ∧ t'.nodes = t.nodes ++ [n] ∧ t'.life = t.life ++ [n.creation] ∧
      n.MadeFor s a) ∨
    ∃ e failed, result = .error e ∧ life = t.life ++ Option.toList failed ∧
      ∀ e, failed = some e → ∃ d info, s.Asks a d info ∧
        (d.create d.signature.version info).succeeded = false ∧ e = d.creation info := by
  unfold planNode at h
  cases hc : choose s g t.values a with
  | error e =>
      rw [hc] at h
      obtain ⟨rfl, rfl⟩ := Prod.mk.inj h
      exact .inr ⟨e, none, rfl, by simp, nofun⟩
  | ok c =>
      rw [hc] at h
      dsimp only at h
      obtain ⟨-, -, -, hinfo, hlookup, -⟩ := (choose_eq_ok hc).describes
      have hentry := (KernelTable.serves_of_lookup hlookup).1
      have hnode : c.info.node = a.name := by rw [hinfo]; rfl
      have hasks : c.factory.descriptor.signature.version ≤ c.factory.newest →
          s.Asks a c.factory.descriptor c.info := by
        intro hversion
        rw [hnewest _ hentry] at hversion
        exact ⟨⟨_, hentry, rfl⟩, hversion, hnode⟩
      rcases hmake : c.factory.instantiate c.info with ⟨made, more⟩
      rw [hmake] at h
      rcases Factory.instantiate_cases hmake with ⟨-, rfl, e, rfl⟩ | ⟨hversion, rfl, rfl⟩
      · obtain ⟨rfl, rfl⟩ := Prod.mk.inj h
        exact .inr ⟨_, none, rfl, by simp, nofun⟩
      · cases hstate : (c.factory.descriptor.create c.factory.descriptor.signature.version c.info).result with
        | error e =>
            rw [hstate] at h
            obtain ⟨rfl, rfl⟩ := Prod.mk.inj h
            refine .inr ⟨_, some (c.factory.descriptor.creation c.info), rfl, rfl, fun e' he' => ?_⟩
            refine ⟨_, _, hasks hversion, ?_, (Option.some.inj he').symm⟩
            unfold Creation.succeeded
            rw [hstate]
            rfl
        | ok state =>
            rw [hstate] at h
            obtain ⟨rfl, -⟩ := Prod.mk.inj h
            exact .inl ⟨_, c.node a ⟨c.factory.descriptor, state, c.info.node⟩, rfl, rfl, rfl,
              hasks hversion, hstate, hnode, rfl⟩

/-- **What planning nodes in order creates and releases.** -/
theorem planNodes_record (hnewest : ∀ e ∈ s.catalog.kernels.entries, e.2.newest = s.catalog.newest)
    {rest : List Node} {t : Typed} {result : Except SessionError Typed} {life : List LifeEvent}
    (hlife : t.life = t.nodes.map (·.creation)) (hlength : t.nodes.length = seen.length)
    (hattempt : Attempt s seen t.nodes none) (h : planNodes s g t rest = (result, life)) :
    (∃ t', result = .ok t' ∧ life = t'.nodes.map (·.creation) ∧
      t'.nodes.length = (seen ++ rest).length ∧ Attempt s (seen ++ rest) t'.nodes none) ∨
    ∃ e made failed, result = .error e ∧ Attempt s (seen ++ rest) made failed ∧
      life = made.map (·.creation) ++ failed.toList ++ made.map (·.kernel.release) := by
  induction rest generalizing seen t with
  | nil =>
      obtain ⟨rfl, rfl⟩ := Prod.mk.inj h
      rw [List.append_nil]
      exact .inl ⟨t, rfl, hlife, hlength, hattempt⟩
  | cons a rest ih =>
      unfold planNodes at h
      rcases hnode : planNode s g t a with ⟨result₁, life₁⟩
      rw [hnode] at h
      rcases planNode_record hnewest hnode with ⟨t₁, n, rfl, hnodes, hlife₁, hn⟩ |
        ⟨e, failed, rfl, rfl, hfailed⟩
      · rw [List.append_cons]
        refine ih ?_ ?_ ?_ h
        · rw [hlife₁, hlife, hnodes, List.map_append]
          rfl
        · simp [hnodes, hlength]
        · rw [hnodes]
          exact hattempt.snoc hlength hn
      · -- The node fails, and the kernels of those before it are given up.
        obtain ⟨rfl, rfl⟩ := Prod.mk.inj h
        refine .inr ⟨e, t.nodes, failed, rfl, ⟨?_, (hattempt.append _).each, fun e' he' => ?_⟩, ?_⟩
        · rw [List.length_append]
          omega
        · obtain ⟨d, info, hasks⟩ := hfailed e' he'
          exact ⟨a, d, info, by simp [hlength], hasks⟩
        · rw [hlife]

/-! ## The whole plan -/

/-- The nodes of a graph in the order they come; none if the graph cannot be laid out. -/
def inOrder (g : Graph) : List Node :=
  match layOut g with
  | .ok (_, order) => order
  | .error _ => []

/-- Each node comes once, if any does. -/
theorem inOrder_perm (g : Graph) : inOrder g = [] ∨ (inOrder g).Perm g.nodes := by
  unfold inOrder
  split
  next vs order hlay => exact .inr (layOut_spec hlay).1
  · exact .inl rfl

/-- What planning a graph creates and releases. -/
inductive Recorded (s : Session) (g : Graph) : Except SessionError Plan → List LifeEvent → Prop
  /-- Every node got its kernel, and the plan has them. -/
  | planned {p : Plan} : p.nodes.length = (inOrder g).length → Attempt s (inOrder g) p.nodes none →
      Recorded s g (.ok p) (p.nodes.map (·.creation))
  /-- There is no plan, and the kernels that were made are given up. -/
  | refused {e : SessionError} {made : List PlannedNode} {failed : Option LifeEvent} :
      Attempt s (inOrder g) made failed →
      Recorded s g (.error e) (made.map (·.creation) ++ failed.toList ++ made.map (·.kernel.release))

/-- Wiring leaves kernels as they are. -/
theorem Connected.record {h : StreamHandles} {t : Typed} {table : StreamTable} {p : Plan}
    (hc : Connected h g t table p) (hattempt : Attempt s order t.nodes none) :
    Attempt s order p.nodes none ∧ p.nodes.map (·.creation) = t.nodes.map (·.creation) := by
  have hsame : ∀ {j : Nat} {n : PlannedNode}, p.nodes[j]? = some n → ∃ a, t.nodes[j]? = some a ∧
      n.kernel = a.kernel ∧ n.info = a.info ∧ n.name = a.name := by
    intro j n hn
    obtain ⟨a, waits, ha, -, rfl⟩ := hc.nodes hn
    exact ⟨a, ha, rfl, rfl, rfl⟩
  refine ⟨⟨?_, fun hj => ?_, nofun⟩, List.ext_getElem? fun j => ?_⟩
  · rw [hc.length]
    exact hattempt.within
  · obtain ⟨n, hn, hkernel, hinfo, hname⟩ := hsame hj
    obtain ⟨a, ha, hfor⟩ := hattempt.each hn
    exact ⟨a, ha, hfor.congr hkernel hinfo hname⟩
  · rw [List.getElem?_map, List.getElem?_map]
    cases hj : p.nodes[j]? with
    | none => rw [List.getElem?_eq_none (hc.length ▸ List.getElem?_eq_none_iff.mp hj)]
    | some n =>
        obtain ⟨a, ha, hkernel, hinfo, -⟩ := hsame hj
        rw [ha, Option.map_some, Option.map_some, PlannedNode.creation, PlannedNode.creation, hkernel, hinfo]

/-- What planning the nodes of a graph that was laid out creates and releases. -/
theorem planNodes_inOrder (hcatalog : s.catalog.Reachable) {vs : List Value} (hlay : layOut g = .ok (vs, order))
    {result : Except SessionError Typed} {life : List LifeEvent}
    (h : planNodes s g { values := vs } order = (result, life)) :
    (∃ t, result = .ok t ∧ life = t.nodes.map (·.creation) ∧
      t.nodes.length = (inOrder g).length ∧ Attempt s (inOrder g) t.nodes none) ∨
    ∃ e made failed, result = .error e ∧ Attempt s (inOrder g) made failed ∧
      life = made.map (·.creation) ++ failed.toList ++ made.map (·.kernel.release) := by
  have hnothing : Attempt s [] [] none := .nothing
  have hrecord := planNodes_record hcatalog.newest rfl rfl hnothing h
  have horder : inOrder g = order := by
    unfold inOrder
    rw [hlay]
  rwa [List.nil_append, ← horder] at hrecord

/-- **What planning a graph creates and releases.** With a plan, the record is the creations of its kernels
    in order. Without one, it is the creations of those that were made, perhaps one that failed, and the
    releases of those that were made. -/
theorem build_record {Job : Type} (hcatalog : s.catalog.Reachable) {m m' : Machine Job}
    {result : Except SessionError Plan} {life : List LifeEvent} (h : build s g m = ((result, life), m')) :
    Recorded s g result life := by
  cases result with
  | ok p =>
      obtain ⟨vs, order, t, table, hlay, hplan, -, hconnect⟩ := build_iff.mp h
      rcases planNodes_inOrder hcatalog hlay hplan with ⟨t', heq, rfl, hlength, hattempt⟩ | ⟨_, _, _, heq, -⟩
      · obtain rfl := Except.ok.inj heq
        have hc := connect_eq_ok hconnect
        obtain ⟨hattempt', hsame⟩ := hc.record hattempt
        rw [← hsame]
        exact .planned (hc.length.trans hlength) hattempt'
      · cases heq
  | error e =>
      unfold build at h
      split at h
      next e' hlay =>
        -- The graph is not laid out, and nobody is asked for a kernel.
        obtain ⟨hpair, -⟩ := Prod.mk.inj h
        obtain ⟨-, rfl⟩ := Prod.mk.inj hpair
        exact .refused .nothing
      next vs order hlay =>
      split at h
      next e' life' hplan =>
        -- Some node is not planned.
        obtain ⟨hpair, -⟩ := Prod.mk.inj h
        obtain ⟨-, rfl⟩ := Prod.mk.inj hpair
        rcases planNodes_inOrder hcatalog hlay hplan with ⟨_, heq, -⟩ | ⟨_, made, failed, -, hattempt, rfl⟩
        · cases heq
        · exact .refused hattempt
      next t life' hplan =>
      split at h
      · cases (Prod.mk.inj (Prod.mk.inj h).1).1
      next e' m₁ hwire =>
        -- All kernels were made, and the wiring failed.
        obtain ⟨hpair, -⟩ := Prod.mk.inj h
        obtain ⟨-, rfl⟩ := Prod.mk.inj hpair
        rcases planNodes_inOrder hcatalog hlay hplan with ⟨t', heq, rfl, -, hattempt⟩ | ⟨_, _, _, heq, -⟩
        · obtain rfl := Except.ok.inj heq
          have hrefused := Recorded.refused (e := e) hattempt
          rwa [Option.toList_none, List.append_nil] at hrefused
        · cases heq

end Plan

end OpGraph
