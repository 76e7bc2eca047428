import OpGraph.Proofs.Planning
import OpGraph.Plan.Build

/-!
# `Proofs.Wiring` — waits for exactly the producers on other streams

A node waits once for each node it reads from whose stream is another provider's, however much it reads of
it. Wiring changes nothing else about the nodes that were planned.
-/

namespace OpGraph.Plan

open Outcome

/-! ## Waits of a node -/

section Waits

variable {h : StreamHandles} {nodes : List PlannedNode} {consumer : PlannedNode}

theorem edgeWait_producer {u : Nat} {w : PlannedWait}
    (hw : edgeWait h nodes consumer u = .ok (some w)) : w.producer = u := by
  unfold edgeWait at hw
  split at hw
  · cases hw
  · split at hw
    · cases hw
    · obtain ⟨f, -, hf⟩ := map_eq_ok.mp hw
      obtain rfl := Option.some.inj hf
      rfl

/-- Waits planned for producers so far: one for each that has to be waited for, and no others. -/
structure WaitsFor (h : StreamHandles) (nodes : List PlannedNode) (consumer : PlannedNode)
    (producers : List Nat) (waits : List PlannedWait) : Prop where
  sound : ∀ w ∈ waits, w.producer ∈ producers ∧ edgeWait h nodes consumer w.producer = .ok (some w)
  complete : ∀ u ∈ producers, ∃ o, edgeWait h nodes consumer u = .ok o ∧ ∀ w, o = some w → w ∈ waits
  once : (waits.map (·.producer)).Nodup

theorem addWait_eq_ok {seen : List Nat} {waits waits' : List PlannedWait} {u : Nat}
    (hs : WaitsFor h nodes consumer seen waits) (hu : addWait h nodes consumer waits u = .ok waits') :
    WaitsFor h nodes consumer (seen ++ [u]) waits' := by
  have hsound : ∀ w ∈ waits, w.producer ∈ seen ++ [u] ∧
      edgeWait h nodes consumer w.producer = .ok (some w) := fun w hw =>
    ⟨List.mem_append_left _ (hs.sound w hw).1, (hs.sound w hw).2⟩
  unfold addWait at hu
  by_cases hany : waits.any (·.producer = u) = true
  · rw [if_pos hany] at hu
    obtain rfl := Except.ok.inj hu
    refine ⟨hsound, fun v hv => ?_, hs.once⟩
    rcases List.mem_append.mp hv with hv | hv
    · exact hs.complete v hv
    · obtain rfl := List.mem_singleton.mp hv
      obtain ⟨w, hw, hwv⟩ := List.any_eq_true.mp hany
      obtain rfl : w.producer = v := by simpa using hwv
      refine ⟨some w, (hs.sound w hw).2, fun w' hw' => ?_⟩
      obtain rfl := Option.some.inj hw'
      exact hw
  · rw [if_neg hany] at hu
    obtain ⟨o, ho, rfl⟩ := map_eq_ok.mp hu
    have hnew : ∀ w ∈ waits, w.producer ≠ u := fun w hw heq =>
      hany (List.any_eq_true.mpr ⟨w, hw, by simpa using heq⟩)
    refine ⟨fun w hw => ?_, fun v hv => ?_, ?_⟩
    · rcases List.mem_append.mp hw with hw | hw
      · exact hsound w hw
      · obtain rfl : o = some w := by simpa using hw
        obtain rfl := edgeWait_producer ho
        exact ⟨by simp, ho⟩
    · rcases List.mem_append.mp hv with hv | hv
      · obtain ⟨o', ho', hmem⟩ := hs.complete v hv
        exact ⟨o', ho', fun w hw => List.mem_append_left _ (hmem w hw)⟩
      · obtain rfl := List.mem_singleton.mp hv
        exact ⟨o, ho, fun w hw => List.mem_append_right _ (by simp [hw])⟩
    · rw [List.map_append]
      refine List.nodup_append.mpr ⟨hs.once, by cases o <;> simp, fun a ha b hb heq => ?_⟩
      obtain ⟨w, hw, rfl⟩ := List.mem_map.mp ha
      obtain ⟨w', hw', rfl⟩ := List.mem_map.mp hb
      obtain rfl : o = some w' := by simpa using hw'
      exact hnew w hw (heq.trans (edgeWait_producer ho))

/-- **A node waits once for each producer it has to wait for, and for no other.** -/
theorem waits_eq_ok {producers : List Nat} {waits : List PlannedWait}
    (hw : producers.foldlM (addWait h nodes consumer) [] = .ok waits) :
    WaitsFor h nodes consumer producers waits := by
  have := foldlM_induction (fun waits seen => WaitsFor h nodes consumer seen waits)
    (fun _ _ _ _ hs hu => addWait_eq_ok hs hu) producers [] [] ⟨by simp, by simp, by simp⟩ hw
  simpa using this

end Waits

/-! ## From planned nodes to the plan -/

/-- How a plan comes from planned nodes, given the table of streams. -/
structure Connected (h : StreamHandles) (g : Graph) (t : Typed) (table : StreamTable) (p : Plan) :
    Prop where
  values : p.values = t.values
  feeds : p.feeds = List.range g.inputs.length
  initializers : p.initializers =
    g.initializers.zipIdx.map fun ((_, t), i) => (g.inputs.length + i, t)
  streams : p.streams = table.map (·.2)
  length : p.nodes.length = t.nodes.length
  /-- Each node gets its stream, its waits, and the number of those who wait for it. -/
  nodes : ∀ {j : Nat} {n : PlannedNode}, p.nodes[j]? = some n → ∃ a waits, t.nodes[j]? = some a ∧
    WaitsFor h (t.nodes.map (place table)) (place table a) (producersOf t.values a) waits ∧
    n = { place table a with waits, consumers := consumersOf p.nodes p.outputs j }
  outputs : ∃ wired : List PlannedNode, wired.map (fun n => (n.provider, n.stream)) =
      p.nodes.map (fun n => (n.provider, n.stream)) ∧
    g.outputs.mapM (planOutput h t.values wired) = .ok p.outputs

theorem consumersOf_congr {nodes nodes' : List PlannedNode} (outputs : List PlannedOutput)
    (h : nodes.map (·.waits) = nodes'.map (·.waits)) (j : Nat) :
    consumersOf nodes outputs j = consumersOf nodes' outputs j := by
  have hwaits : nodes.flatMap (·.waits) = nodes'.flatMap (·.waits) := by
    rw [List.flatMap_def, List.flatMap_def, h]
  simp [consumersOf, hwaits]

theorem connect_eq_ok {h : StreamHandles} {g : Graph} {t : Typed} {table : StreamTable} {p : Plan}
    (hc : connect h g t.values (t.nodes.map (place table)) (table.map (·.2)) = .ok p) :
    Connected h g t table p := by
  unfold connect at hc
  simp only [bind_eq_ok, mapError_eq_ok] at hc
  obtain ⟨wired, hwired, outputs, houtputs, hp⟩ := hc
  obtain rfl := pure_eq_ok.mp hp
  have hlen : wired.length = t.nodes.length := by
    simpa using length_of_mapM_eq_ok hwired
  -- What a node looks like once it has its waits.
  have hnode : ∀ {j : Nat} {w : PlannedNode}, wired[j]? = some w → ∃ a waits, t.nodes[j]? = some a ∧
      WaitsFor h (t.nodes.map (place table)) (place table a) (producersOf t.values a) waits ∧
      w = { place table a with waits } := by
    intro j w hj
    have hjmap := getElem?_of_mapM_eq_ok hwired j
    rw [hj, List.getElem?_map] at hjmap
    obtain ⟨a, ha, hok⟩ := Option.map_eq_some_iff.mp hjmap
    obtain ⟨a', ha', rfl⟩ := Option.map_eq_some_iff.mp ha
    unfold withWaits at hok
    obtain ⟨waits, hwaits, rfl⟩ := map_eq_ok.mp hok
    exact ⟨a', waits, ha', waits_eq_ok hwaits, rfl⟩
  have hwaits : (withConsumers wired outputs).map (·.waits) = wired.map (·.waits) := by
    apply List.ext_getElem?
    intro j
    simp only [withConsumers, List.getElem?_map, List.getElem?_mapIdx, Option.map_map]
    rfl
  refine ⟨rfl, rfl, rfl, rfl, ?_, ?_, ⟨wired, ?_, houtputs⟩⟩
  · simp [withConsumers, hlen]
  · intro j n hj
    simp only [withConsumers, List.getElem?_mapIdx] at hj
    obtain ⟨w, hw, rfl⟩ := Option.map_eq_some_iff.mp hj
    obtain ⟨a, waits, ha, hfor, rfl⟩ := hnode hw
    exact ⟨a, waits, ha, hfor, by simp [consumersOf_congr outputs hwaits]⟩
  · apply List.ext_getElem?
    intro j
    simp only [withConsumers, List.getElem?_map, List.getElem?_mapIdx, Option.map_map]
    rfl

/-- The phases of building a plan, each of which ends well. -/
theorem build_iff {Job : Type} {s : Session} {g : Graph} {m m' : Machine Job} {p : Plan}
    {life : List LifeEvent} :
    build s g m = ((.ok p, life), m') ↔ ∃ vs nodes t table, layOut g = .ok (vs, nodes) ∧
      planNodes s g { values := vs } nodes = (.ok t, life) ∧
      (t.nodes.map (·.provider)).foldlM (openFor s.handles) ([], m) = .ok (table, m') ∧
      connect s.handles g t.values (t.nodes.map (place table)) (table.map (·.2)) = .ok p := by
  constructor
  · intro h
    unfold build at h
    split at h
    · cases h
    next vs nodes hlay =>
    split at h
    · cases h
    next t life' hplan =>
    split at h
    next p' m'' hwire =>
      obtain ⟨hpair, rfl⟩ := Prod.mk.inj h
      obtain ⟨hok, rfl⟩ := Prod.mk.inj hpair
      obtain rfl := Except.ok.inj hok
      unfold wire at hwire
      split at hwire
      · cases hwire
      next table m₁ hopen =>
      simp only at hwire
      split at hwire
      · next plan hconnect =>
          obtain ⟨hplan', rfl⟩ := Prod.mk.inj hwire
          obtain rfl := Except.ok.inj hplan'
          exact ⟨vs, nodes, t, table, hlay, hplan, hopen, hconnect⟩
      · cases hwire
    · cases h
  · rintro ⟨vs, nodes, t, table, hlay, hplan, hopen, hconnect⟩
    simp only [build, hlay, hplan, wire, hopen, hconnect]

/-- **How a plan is built.** Values and nodes in order, kernels, streams, and what connects them. -/
theorem build_eq_ok {Job : Type} {s : Session} {g : Graph} {m m' : Machine Job} {p : Plan}
    {life : List LifeEvent} (h : build s g m = ((.ok p, life), m')) :
    ∃ vs nodes t table, LaidOut g vs nodes ∧ Planned s g vs nodes t ∧
      (t.nodes.map (·.provider)).foldlM (openFor s.handles) ([], m) = .ok (table, m') ∧
      Connected s.handles g t table p := by
  obtain ⟨vs, nodes, t, table, hlay, hplan, hopen, hconnect⟩ := build_iff.mp h
  exact ⟨vs, nodes, t, table, layOut_eq_ok hlay, planned_of_layOut hlay hplan, hopen,
    connect_eq_ok hconnect⟩

end OpGraph.Plan
