import OpGraph.Proofs.Selection

/-!
# `Proofs.Sound` — what every plan that was built is like

A run relies on its plan: values are given or made by one node, nodes read only what is there before
them, types agree with the nodes they come from, and whoever reads from a stream of another provider
waits. `Plan.Sound` says all of it about a plan alone, so nothing about runs has to look at how plans are
built.
-/

namespace OpGraph

open Outcome

namespace Plan

/-! ## Where values come from -/

/-- The value is there before any node runs. -/
def IsGiven (p : Plan) (v : Nat) : Prop := v ∈ p.feeds ∨ v ∈ p.initializers.map (·.1)

/-- The node at a place makes the value. -/
def Makes (p : Plan) (u v : Nat) : Prop := ∃ n, p.nodes[u]? = some n ∧ some v ∈ n.outputs

/-- What every plan that was built is like. -/
structure Sound (p : Plan) : Prop where
  given_lt : ∀ {v}, p.IsGiven v → v < p.values.length
  makes_lt : ∀ {u v}, p.Makes u v → v < p.values.length
  makes_new : ∀ {u v}, p.Makes u v → ¬p.IsGiven v
  makes_once : ∀ {u w v}, p.Makes u v → p.Makes w v → u = w
  outputs_nodup : ∀ n ∈ p.nodes, (n.outputs.filterMap id).Nodup
  types_length : ∀ n ∈ p.nodes, n.types.length = n.outputs.length
  /-- Nodes read what was given or what nodes before them make. -/
  reads : ∀ {j : Nat} {n : PlannedNode} {v : Nat}, p.nodes[j]? = some n → some v ∈ n.inputs →
    p.IsGiven v ∨ ∃ u < j, p.Makes u v
  output : ∀ o ∈ p.outputs, p.IsGiven o.value ∨ ∃ u, p.Makes u o.value
  /-- The type of a value that a node makes is the node's. -/
  made_type : ∀ n ∈ p.nodes, ∀ {v : Nat} {type : DataType}, (some v, type) ∈ n.outputs.zip n.types →
    typeAt p.values (some v) = type
  initializer_type : ∀ {v : Nat} {t : Tensor}, (v, t) ∈ p.initializers →
    typeAt p.values (some v) = t.dtype
  /-- The kernel of a node takes the node's inputs. -/
  matched : ∀ n ∈ p.nodes, (n.definition.binding.matchInputs (p.typesOf n.inputs)).isSome
  stream_lt : ∀ n ∈ p.nodes, ∀ {k}, n.stream = some k → k < p.streams.length
  /-- Who reads from a stream of another provider waits for the producer. -/
  waits : ∀ {j u : Nat} {n m : PlannedNode} {v : Nat}, p.nodes[j]? = some n → some v ∈ n.inputs →
    p.nodes[u]? = some m → some v ∈ m.outputs →
    m.stream = none ∨ m.stream = n.stream ∨ ∃ w ∈ n.waits, w.producer = u
  wait_back : ∀ {j : Nat} {n : PlannedNode} {w : PlannedWait}, p.nodes[j]? = some n → w ∈ n.waits →
    w.producer < j ∧ ∃ m, p.nodes[w.producer]? = some m ∧ m.stream.isSome
  output_wait : ∀ o ∈ p.outputs, ∀ w, o.wait = some w →
    ∃ m, p.nodes[w.producer]? = some m ∧ m.stream.isSome
  consumers : ∀ {j : Nat} {n : PlannedNode}, p.nodes[j]? = some n →
    n.consumers = consumersOf p.nodes p.outputs j

/-! ## Built plans are sound -/

section Build

variable {h : StreamHandles} {s : Session} {g : Graph} {vs : List Value} {nodes : List Node}
  {t : Typed} {table : StreamTable} {p : Plan}

theorem Connected.makes (hc : Connected h g t table p) {u v : Nat} (hm : p.Makes u v) :
    ∃ a, t.nodes[u]? = some a ∧ some v ∈ a.outputs := by
  obtain ⟨n, hn, hv⟩ := hm
  obtain ⟨a, waits, ha, -, rfl⟩ := hc.nodes hn
  exact ⟨a, ha, hv⟩

theorem Connected.isGiven_iff (hc : Connected h g t table p) {v : Nat} :
    p.IsGiven v ↔ v < (given g).length := by
  unfold IsGiven
  rw [hc.feeds, hc.initializers]
  simp only [List.mem_range, List.map_map, List.mem_map, given, List.length_append, List.length_map]
  constructor
  · rintro (hlt | ⟨⟨x, i⟩, hi, rfl⟩)
    · omega
    · have := List.snd_lt_add_of_mem_zipIdx hi
      simp
      omega
  · intro hlt
    by_cases hin : v < g.inputs.length
    · exact Or.inl hin
    · have hi : v - g.inputs.length < g.initializers.length := by omega
      refine Or.inr ⟨(g.initializers[v - g.inputs.length], v - g.inputs.length), ?_, ?_⟩
      · exact List.mem_zipIdx_iff_getElem?.mpr (by simp [hi])
      · simp
        omega

theorem names_given (hl : LaidOut g vs nodes) {v : Nat} (hv : v < (given g).length) :
    (names vs)[v]? = ((given g)[v]?).map (·.1) := by
  rw [hl.names_eq, List.getElem?_append_left (by simpa using hv), List.getElem?_map]

/-- A name that nodes make has a number behind those given. -/
theorem LaidOut.not_given (hl : LaidOut g vs nodes) {name : String} {v : Nat}
    (hv : (names vs)[v]? = some name) (hname : name ∈ nodes.flatMap Node.makes) :
    ¬v < (given g).length := by
  intro hlt
  rw [names_given hl hlt] at hv
  obtain ⟨x, hx, rfl⟩ := Option.map_eq_some_iff.mp hv
  have hdistinct := hl.distinct
  rw [hl.names_eq, List.nodup_append] at hdistinct
  exact hdistinct.2.2 x.1 (List.mem_map_of_mem (List.mem_of_getElem? hx)) x.1 hname rfl

/-- A number behind those given belongs to a name that some node makes. -/
theorem LaidOut.made_of_not_given (hl : LaidOut g vs nodes) {name : String} {v : Nat}
    (hv : (names vs)[v]? = some name) (hnot : ¬v < (given g).length) :
    name ∈ nodes.flatMap Node.makes := by
  rw [hl.names_eq, List.getElem?_append_right (by simpa using hnot)] at hv
  exact List.mem_of_getElem? hv

/-- The planned node of a node that makes a name makes the name's number. -/
theorem Planned.makes_of_mem (hl : LaidOut g vs nodes) (hp : Planned s g vs nodes t) {u : Nat}
    {m : Node} {name : String} {v : Nat} (hu : nodes[u]? = some m) (hname : name ∈ m.makes)
    (hv : (names vs)[v]? = some name) : ∃ a, t.nodes[u]? = some a ∧ some v ∈ a.outputs := by
  obtain ⟨hlt, -⟩ := List.getElem?_eq_some_iff.mp hu
  have hlen : u < t.nodes.length := by
    rw [hp.length]
    exact hlt
  have ha : t.nodes[u]? = some t.nodes[u] := List.getElem?_eq_getElem hlen
  refine ⟨_, ha, ?_⟩
  obtain ⟨m', c, kernel, more, hm', hdec, -, heq⟩ := hp.decided ha
  obtain rfl : m = m' := Option.some.inj (hu.symm.trans hm')
  obtain ⟨w, hw, hwname⟩ := resolved_mem hdec.outputs hname
  rw [hp.named] at hwname
  obtain ⟨hvlt, hvn⟩ := List.getElem?_eq_some_iff.mp hv
  obtain ⟨hwlt, hwn⟩ := List.getElem?_eq_some_iff.mp hwname
  obtain rfl := (List.getElem_inj hl.distinct).mp (hvn.trans hwn.symm)
  rw [heq]
  exact hw

theorem length_values (hp : Planned s g vs nodes t) (hc : Connected h g t table p) :
    p.values.length = (names vs).length := by
  rw [hc.values, ← hp.named]
  simp [names]

/-- A value that is given keeps the type it was given with, and has no producer. -/
theorem value_given (hl : LaidOut g vs nodes) (hp : Planned s g vs nodes t)
    (hc : Connected h g t table p) {v : Nat} (hv : v < (given g).length) :
    p.values[v]? = ((given g)[v]?).map blank := by
  rw [hc.values, hp.rest]
  · rw [hl.values, List.getElem?_map, List.getElem?_append_left hv]
  · intro n hn hout
    obtain ⟨j, hj⟩ := List.mem_iff_getElem?.mp hn
    obtain ⟨m, name, hm, hname, hnum⟩ := hp.makes hj hout
    exact hl.not_given hnum (List.mem_flatMap.mpr ⟨m, List.mem_of_getElem? hm, hname⟩) hv

/-- A value that a node makes names the node as its producer. -/
theorem value_made (hp : Planned s g vs nodes t) (hc : Connected h g t table p) {u v : Nat}
    (hm : p.Makes u v) : ∃ x, p.values[v]? = some x ∧ x.producer = some u := by
  obtain ⟨a, ha, hv⟩ := hc.makes hm
  obtain ⟨m, c, kernel, more, -, hdec, -, rfl⟩ := hp.decided ha
  obtain ⟨i, hi⟩ := List.mem_iff_getElem?.mp hv
  have hlen : i < c.types.length := by
    rw [hdec.types_length]
    exact (List.getElem?_eq_some_iff.mp hi).1
  have hzip : (some v, c.types[i]) ∈ c.outputs.zip c.types := by
    refine List.mem_iff_getElem?.mpr ⟨i, ?_⟩
    rw [List.getElem?_zip_eq_some]
    exact ⟨hi, List.getElem?_eq_getElem hlen⟩
  obtain ⟨name, hval⟩ := hp.made ha hzip
  exact ⟨_, by rw [hc.values]; exact hval, rfl⟩

/-- What a planned wait tells about its producer. -/
theorem edgeWait_eq_some {ps : List PlannedNode} {consumer : PlannedNode} {u : Nat} {w : PlannedWait}
    (hw : edgeWait h ps consumer u = .ok (some w)) :
    w.producer = u ∧ ∃ m, ps[u]? = some m ∧ m.stream.isSome ∧ m.provider ≠ consumer.provider := by
  refine ⟨edgeWait_producer hw, ?_⟩
  unfold edgeWait at hw
  split at hw
  · cases hw
  next m hm =>
    split at hw
    · cases hw
    next hcond =>
      simp only [Bool.or_eq_true, Option.isNone_iff_eq_none, decide_eq_true_eq, not_or] at hcond
      exact ⟨m, hm, Option.isSome_iff_ne_none.mpr hcond.1, hcond.2⟩

/-- Where no wait is planned there is no stream, or the provider is the same. -/
theorem edgeWait_eq_none {ps : List PlannedNode} {consumer m : PlannedNode} {u : Nat}
    (hm : ps[u]? = some m) (hw : edgeWait h ps consumer u = .ok none) :
    m.stream = none ∨ m.provider = consumer.provider := by
  unfold edgeWait at hw
  rw [hm] at hw
  simp only at hw
  split at hw
  next hcond => simpa using hcond
  · obtain ⟨f, -, hf⟩ := map_eq_ok.mp hw
    cases hf

theorem planOutput_eq_ok {ps : List PlannedNode} {name : String} {o : PlannedOutput}
    (ho : planOutput h vs ps name = .ok o) :
    ∃ x, vs[o.value]? = some x ∧ x.name = name ∧ outputWait h ps x = .ok o.wait := by
  unfold planOutput at ho
  split at ho
  · cases ho
  next x i hfind =>
    have hname : x.name = name := by simpa using List.find?_some hfind
    have hx := List.mem_zipIdx_iff_getElem?.mp (List.mem_of_find?_eq_some hfind)
    split at ho
    next wait hwait =>
      obtain rfl := Except.ok.inj ho
      exact ⟨x, hx, hname, hwait⟩
    · cases ho

theorem outputWait_eq_some {ps : List PlannedNode} {x : Value} {w : PlannedWait}
    (hw : outputWait h ps x = .ok (some w)) :
    x.producer = some w.producer ∧ ∃ m, ps[w.producer]? = some m ∧ m.stream.isSome := by
  unfold outputWait at hw
  split at hw
  · cases hw
  next u hu =>
    split at hw
    · cases hw
    next m hm =>
      split at hw
      · cases hw
      next hstream =>
        obtain ⟨f, -, hf⟩ := map_eq_ok.mp hw
        obtain rfl := Option.some.inj hf
        exact ⟨hu, m, hm, by simpa [Option.isSome_iff_ne_none] using hstream⟩

/-- A node that was planned is there with its waits. -/
theorem Connected.waiting (hc : Connected h g t table p) {u : Nat} {a : PlannedNode}
    (ha : t.nodes[u]? = some a) : ∃ waits,
      p.nodes[u]? = some { place table a with waits, consumers := consumersOf p.nodes p.outputs u } := by
  have hlt : u < p.nodes.length := by
    rw [hc.length]
    exact (List.getElem?_eq_some_iff.mp ha).1
  have hn : p.nodes[u]? = some p.nodes[u] := List.getElem?_eq_getElem hlt
  obtain ⟨a', waits, ha', -, heq⟩ := hc.nodes hn
  obtain rfl : a = a' := Option.some.inj (ha.symm.trans ha')
  exact ⟨waits, hn.trans (congrArg some heq)⟩

/-- The planned node at a place, before waits were planned. -/
theorem Connected.node (hc : Connected h g t table p) {u : Nat} {a : PlannedNode}
    (ha : t.nodes[u]? = some a) :
    ∃ n, p.nodes[u]? = some n ∧ n.stream = streamNumber? table a.provider ∧ n.provider = a.provider := by
  obtain ⟨waits, hn⟩ := hc.waiting ha
  exact ⟨_, hn, rfl, rfl⟩

/-! ### Nodes of the plan and nodes of the graph -/

/-- Whatever a planned node makes has a name that a node of the graph makes. -/
theorem Connected.makes_named (hc : Connected h g t table p) (hp : Planned s g vs nodes t) {u v : Nat}
    (hm : p.Makes u v) : ∃ name, (names vs)[v]? = some name ∧ name ∈ nodes.flatMap Node.makes := by
  obtain ⟨a, ha, hv⟩ := hc.makes hm
  obtain ⟨m, name, hm, hname, hnum⟩ := hp.makes ha hv
  exact ⟨name, hnum, List.mem_flatMap.mpr ⟨m, List.mem_of_getElem? hm, hname⟩⟩

theorem Connected.makes_of_mem (hc : Connected h g t table p) (hl : LaidOut g vs nodes)
    (hp : Planned s g vs nodes t) {u : Nat} {m : Node} {name : String} {v : Nat} (hu : nodes[u]? = some m)
    (hname : name ∈ m.makes) (hv : (names vs)[v]? = some name) : p.Makes u v := by
  obtain ⟨a, ha, hout⟩ := hp.makes_of_mem hl hu hname hv
  obtain ⟨waits, hn⟩ := hc.waiting ha
  exact ⟨_, hn, hout⟩

/-- Every number of a name is that of a value given, or of one that a node makes. -/
theorem Connected.given_or_made (hc : Connected h g t table p) (hl : LaidOut g vs nodes)
    (hp : Planned s g vs nodes t) {v : Nat} (hv : v < (names vs).length) :
    p.IsGiven v ∨ ∃ u, p.Makes u v := by
  by_cases hgiven : v < (given g).length
  · exact Or.inl (hc.isGiven_iff.mpr hgiven)
  · have hname : (names vs)[v]? = some (names vs)[v] := List.getElem?_eq_getElem hv
    obtain ⟨m, hm, hmem⟩ := List.mem_flatMap.mp (hl.made_of_not_given hname hgiven)
    obtain ⟨u, hu⟩ := List.mem_iff_getElem?.mp hm
    exact Or.inr ⟨u, hc.makes_of_mem hl hp hu hmem hname⟩

/-- What was decided for a node of the plan, and the waits it was given. -/
theorem Connected.decided (hc : Connected h g t table p) (hp : Planned s g vs nodes t) {j : Nat}
    {n : PlannedNode} (hj : p.nodes[j]? = some n) :
    ∃ gn c kernel more waits, nodes[j]? = some gn ∧ Decided s g p.values gn c ∧
      c.factory.instantiate c.info = (.ok kernel, more) ∧
      WaitsFor h (t.nodes.map (place table)) (place table (c.node gn kernel))
        (producersOf p.values (c.node gn kernel)) waits ∧
      n = { place table (c.node gn kernel) with
        waits, consumers := consumersOf p.nodes p.outputs j } := by
  obtain ⟨a, waits, ha, hwaits, heq⟩ := hc.nodes hj
  obtain ⟨gn, c, kernel, more, hgn, hdec, hmake, rfl⟩ := hp.decided ha
  rw [← hc.values] at hwaits hdec
  exact ⟨gn, c, kernel, more, waits, hgn, hdec, hmake, hwaits, heq⟩

/-! ### Reading -/

/-- A node reads what was given or what a node before it makes. -/
theorem Connected.reads (hc : Connected h g t table p) (hl : LaidOut g vs nodes)
    (hp : Planned s g vs nodes t) {j : Nat} {n : PlannedNode} {v : Nat} (hj : p.nodes[j]? = some n)
    (hv : some v ∈ n.inputs) : p.IsGiven v ∨ ∃ u < j, p.Makes u v := by
  obtain ⟨gn, c, kernel, more, waits, hgn, hdec, -, -, rfl⟩ := hc.decided hp hj
  obtain ⟨name, hread, hname⟩ := mem_of_resolved hdec.inputs hv
  rw [hc.values, hp.named] at hname
  by_cases hgiven : v < (given g).length
  · exact Or.inl (hc.isGiven_iff.mpr hgiven)
  · obtain ⟨u, hu, m, hm, hmem⟩ := hl.earlier hgn hread (hl.made_of_not_given hname hgiven)
    exact Or.inr ⟨u, hu, hc.makes_of_mem hl hp hm hmem hname⟩

/-- The output of a plan was planned after its nodes were wired. -/
theorem Connected.planned_output (hc : Connected h g t table p) {o : PlannedOutput} (ho : o ∈ p.outputs) :
    ∃ (wired : List PlannedNode) (name : String),
      p.nodes.map (fun n => (n.provider, n.stream)) = wired.map (fun n => (n.provider, n.stream)) ∧
      planOutput h t.values wired name = .ok o := by
  obtain ⟨wired, hwired, houtputs⟩ := hc.outputs
  have hmem : Except.ok o ∈ g.outputs.map (planOutput h t.values wired) := by
    rw [mapM_eq_ok.mp houtputs]
    exact List.mem_map_of_mem ho
  obtain ⟨name, -, hname⟩ := List.mem_map.mp hmem
  exact ⟨wired, name, hwired.symm, hname⟩

theorem Connected.initializer_type (hc : Connected h g t table p) (hl : LaidOut g vs nodes)
    (hp : Planned s g vs nodes t) {v : Nat} {i : Tensor} (hmem : (v, i) ∈ p.initializers) :
    typeAt p.values (some v) = i.dtype := by
  rw [hc.initializers] at hmem
  obtain ⟨⟨⟨name, i'⟩, k⟩, hk, heq⟩ := List.mem_map.mp hmem
  obtain ⟨rfl, rfl⟩ := Prod.mk.inj heq
  have hk' := List.mem_zipIdx_iff_getElem?.mp hk
  have hklt : k < g.initializers.length := (List.getElem?_eq_some_iff.mp hk').1
  have hgiven : g.inputs.length + k < (given g).length := by simp [given]; omega
  have hval := value_given hl hp hc hgiven
  have hget : (given g)[g.inputs.length + k]? = some (name, i'.dtype) := by
    have hinit : g.initializers[k]? = some (name, i') := by simpa using hk'
    rw [given, List.getElem?_append_right (by omega), Nat.add_sub_cancel_left, List.getElem?_map, hinit]
    rfl
  rw [hget] at hval
  simp [typeAt, hval, blank]

/-! ### Waiting -/

/-- Who reads from a stream of another provider waits for the producer. -/
theorem Connected.waits_for (hc : Connected h g t table p) (hp : Planned s g vs nodes t) {j u : Nat}
    {n m : PlannedNode} {v : Nat} (hj : p.nodes[j]? = some n) (hv : some v ∈ n.inputs)
    (hu : p.nodes[u]? = some m) (hvm : some v ∈ m.outputs) :
    m.stream = none ∨ m.stream = n.stream ∨ ∃ w ∈ n.waits, w.producer = u := by
  obtain ⟨gn, c, kernel, more, waits, hgn, hdec, -, hwaits, rfl⟩ := hc.decided hp hj
  obtain ⟨x, hx, hprod⟩ := value_made hp hc ⟨m, hu, hvm⟩
  have hmem : u ∈ producersOf p.values (c.node gn kernel) :=
    List.mem_filterMap.mpr ⟨some v, hv, by simp [hx, hprod]⟩
  obtain ⟨o, ho, hcomplete⟩ := hwaits.complete u hmem
  cases o with
  | some w => exact Or.inr (Or.inr ⟨w, hcomplete w rfl, edgeWait_producer ho⟩)
  | none =>
      obtain ⟨a, waits', ha, -, rfl⟩ := hc.nodes hu
      have hplace : (t.nodes.map (place table))[u]? = some (place table a) := by simp [ha]
      rcases edgeWait_eq_none hplace ho with hnone | hsame
      · exact Or.inl hnone
      · refine Or.inr (Or.inl ?_)
        show streamNumber? table a.provider = streamNumber? table c.provider.id
        rw [show a.provider = c.provider.id from hsame]

/-- The producer of a value that is read is a node before that makes it. -/
theorem Connected.producer_back (hc : Connected h g t table p) (hl : LaidOut g vs nodes)
    (hp : Planned s g vs nodes t) {j u : Nat} {gn : Node} {c : Choice} {kernel : Kernel}
    (hgn : nodes[j]? = some gn) (hdec : Decided s g p.values gn c)
    (hmem : u ∈ producersOf p.values (c.node gn kernel)) : u < j := by
  obtain ⟨o, ho, hprod⟩ := List.mem_filterMap.mp hmem
  obtain ⟨v, rfl, hval⟩ := Option.bind_eq_some_iff.mp hprod
  obtain ⟨x, hx, hxp⟩ := Option.bind_eq_some_iff.mp hval
  obtain ⟨name, hread, hname⟩ := mem_of_resolved hdec.inputs ho
  rw [hc.values, hp.named] at hname
  by_cases hgiven : v < (given g).length
  · have hblank := value_given hl hp hc hgiven
    rw [hx] at hblank
    obtain ⟨y, -, rfl⟩ := Option.map_eq_some_iff.mp hblank.symm
    cases hxp
  · obtain ⟨u', hu', m', hm', hmem'⟩ := hl.earlier hgn hread (hl.made_of_not_given hname hgiven)
    obtain ⟨y, hy, hyp⟩ := value_made hp hc (hc.makes_of_mem hl hp hm' hmem' hname)
    obtain rfl : x = y := Option.some.inj (hx.symm.trans hy)
    obtain rfl : u' = u := Option.some.inj (hyp.symm.trans hxp)
    exact hu'

theorem Connected.wait_back (hc : Connected h g t table p) (hl : LaidOut g vs nodes)
    (hp : Planned s g vs nodes t) {j : Nat} {n : PlannedNode} {w : PlannedWait} (hj : p.nodes[j]? = some n)
    (hw : w ∈ n.waits) : w.producer < j ∧ ∃ m, p.nodes[w.producer]? = some m ∧ m.stream.isSome := by
  obtain ⟨gn, c, kernel, more, waits, hgn, hdec, -, hwaits, rfl⟩ := hc.decided hp hj
  obtain ⟨hmem, hedge⟩ := hwaits.sound w hw
  obtain ⟨-, m, hm, hstream, -⟩ := edgeWait_eq_some hedge
  rw [List.getElem?_map] at hm
  obtain ⟨a, ha, rfl⟩ := Option.map_eq_some_iff.mp hm
  obtain ⟨n', hn', hs', -⟩ := hc.node ha
  exact ⟨hc.producer_back hl hp hgn hdec hmem, n', hn', by rw [hs']; exact hstream⟩

theorem Connected.output_wait (hc : Connected h g t table p) {o : PlannedOutput} (ho : o ∈ p.outputs)
    {w : PlannedWait} (hw : o.wait = some w) : ∃ m, p.nodes[w.producer]? = some m ∧ m.stream.isSome := by
  obtain ⟨wired, name, hwired, hname⟩ := hc.planned_output ho
  obtain ⟨x, -, -, hwait⟩ := planOutput_eq_ok hname
  rw [hw] at hwait
  obtain ⟨-, m, hm, hstream⟩ := outputWait_eq_some hwait
  have hget := congrArg (·[w.producer]?) hwired
  simp only [List.getElem?_map, hm, Option.map_some] at hget
  obtain ⟨n, hn, heq⟩ := Option.map_eq_some_iff.mp hget
  exact ⟨n, hn, by rw [(Prod.mk.inj heq).2]; exact hstream⟩

end Build

/-- **Every plan that was built is sound.** -/
theorem build_sound {Job : Type} {s : Session} {g : Graph} {m m' : Machine Job} {p : Plan}
    {life : List LifeEvent} (hb : build s g m = ((.ok p, life), m')) : p.Sound := by
  obtain ⟨vs, nodes, t, table, hl, hp, -, hc⟩ := build_eq_ok hb
  constructor
  case given_lt =>
    intro v hv
    have hlt := hc.isGiven_iff.mp hv
    rw [length_values hp hc, hl.names_eq]
    simp
    omega
  case makes_lt =>
    intro u v hm
    obtain ⟨name, hname, -⟩ := hc.makes_named hp hm
    rw [length_values hp hc]
    exact (List.getElem?_eq_some_iff.mp hname).1
  case makes_new =>
    intro u v hm hgiven
    obtain ⟨name, hname, hmem⟩ := hc.makes_named hp hm
    exact hl.not_given hname hmem (hc.isGiven_iff.mp hgiven)
  case makes_once =>
    intro u w v hu hw
    obtain ⟨a, ha, hva⟩ := hc.makes hu
    obtain ⟨b, hb, hvb⟩ := hc.makes hw
    exact Planned.makes_once (by rw [List.append_nil]; exact hl) hp ha hb hva hvb
  case outputs_nodup =>
    intro n hn
    obtain ⟨j, hj⟩ := List.mem_iff_getElem?.mp hn
    obtain ⟨gn, c, kernel, more, waits, hgn, hdec, -, -, rfl⟩ := hc.decided hp hj
    exact hdec.outputs_nodup ((List.pairwise_flatMap.mp hl.makes_nodup).1 gn (List.mem_of_getElem? hgn))
  case types_length =>
    intro n hn
    obtain ⟨j, hj⟩ := List.mem_iff_getElem?.mp hn
    obtain ⟨gn, c, kernel, more, waits, hgn, hdec, -, -, rfl⟩ := hc.decided hp hj
    exact hdec.types_length
  case reads => exact fun hj hv => hc.reads hl hp hj hv
  case output =>
    intro o ho
    obtain ⟨wired, name, -, hname⟩ := hc.planned_output ho
    obtain ⟨x, hx, -, -⟩ := planOutput_eq_ok hname
    apply hc.given_or_made hl hp
    rw [← length_values hp hc, hc.values]
    exact (List.getElem?_eq_some_iff.mp hx).1
  case made_type =>
    intro n hn v type hmem
    obtain ⟨j, hj⟩ := List.mem_iff_getElem?.mp hn
    obtain ⟨a, waits, ha, -, rfl⟩ := hc.nodes hj
    obtain ⟨name, hval⟩ := hp.made ha hmem
    simp [typeAt, hc.values, hval]
  case initializer_type => exact fun hmem => hc.initializer_type hl hp hmem
  case matched =>
    intro n hn
    obtain ⟨j, hj⟩ := List.mem_iff_getElem?.mp hn
    obtain ⟨gn, c, kernel, more, waits, hgn, hdec, -, -, rfl⟩ := hc.decided hp hj
    exact (KernelTable.serves_of_lookup hdec.lookup).2.2.2.2
  case stream_lt =>
    intro n hn k hk
    obtain ⟨j, hj⟩ := List.mem_iff_getElem?.mp hn
    obtain ⟨gn, c, kernel, more, waits, hgn, hdec, -, -, rfl⟩ := hc.decided hp hj
    rw [hc.streams, List.length_map]
    exact (List.findIdx?_eq_some_iff_getElem.mp hk).1
  case waits => exact fun hj hv hu hvm => hc.waits_for hp hj hv hu hvm
  case wait_back => exact fun hj hw => hc.wait_back hl hp hj hw
  case output_wait => exact fun o ho w hw => hc.output_wait ho hw
  case consumers =>
    intro j n hj
    obtain ⟨a, waits, -, -, rfl⟩ := hc.nodes hj
    rfl

end Plan

end OpGraph
