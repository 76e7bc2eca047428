import OpGraph.Proofs.Layout

/-!
# `Proofs.Planning` — nodes decided one after the other

While nodes are planned the types of values become known one node at a time. Nothing a node reads is made
by it or by a node behind it, so what was decided about a node when its turn came is what would be decided
about it in the end: every statement about planned nodes below is about the final types (`Planned`).
-/

namespace OpGraph.Plan

open Outcome

/-! ## Resolving names -/

theorem resolve_eq_ok {vs : List Value} {node name : String} {o : Option Nat}
    (h : resolve vs node name = .ok o) :
    (name.isEmpty = true ∧ o = none) ∨ (name.isEmpty = false ∧ ∃ v, o = some v ∧ number? vs name = some v) := by
  unfold resolve at h
  cases hname : name.isEmpty with
  | true => exact Or.inl ⟨rfl, by simpa [hname] using h.symm⟩
  | false =>
      refine Or.inr ⟨rfl, ?_⟩
      cases hv : number? vs name with
      | none => simp [hname, hv] at h
      | some v => exact ⟨v, by simpa [hname, hv] using h.symm, rfl⟩

/-- Numbers that stand for names are those of the names that are not empty, in order. -/
theorem names_of_resolved {vs : List Value} {node : String} :
    ∀ {xs : List String} {os : List (Option Nat)}, xs.mapM (resolve vs node) = .ok os →
      (os.filterMap id).map (fun v => (names vs)[v]?) = (xs.filter (! ·.isEmpty)).map some := by
  intro xs
  induction xs with
  | nil =>
      intro os h
      obtain rfl : os = [] := by simpa using mapM_eq_ok.mp h
      rfl
  | cons x rest ih =>
      intro os h
      have hmap := mapM_eq_ok.mp h
      cases os with
      | nil => simp at hmap
      | cons o os =>
          simp only [List.map_cons, List.cons.injEq] at hmap
          have hrest := ih (mapM_eq_ok.mpr hmap.2)
          rcases resolve_eq_ok hmap.1 with ⟨hx, rfl⟩ | ⟨hx, v, rfl, hv⟩
          · simpa [hx] using hrest
          · simpa [hx, names_of_number? hv] using hrest

theorem mem_of_resolved {vs : List Value} {node : String} {xs : List String} {os : List (Option Nat)}
    (h : xs.mapM (resolve vs node) = .ok os) {v : Nat} (hv : some v ∈ os) :
    ∃ name ∈ xs.filter (! ·.isEmpty), (names vs)[v]? = some name := by
  have hmem : v ∈ os.filterMap id := List.mem_filterMap.mpr ⟨some v, hv, rfl⟩
  have hname : (names vs)[v]? ∈ (xs.filter (! ·.isEmpty)).map some := by
    rw [← names_of_resolved h]
    exact List.mem_map_of_mem hmem
  obtain ⟨name, hname, heq⟩ := List.mem_map.mp hname
  exact ⟨name, hname, heq.symm⟩

theorem resolved_mem {vs : List Value} {node : String} {xs : List String} {os : List (Option Nat)}
    (h : xs.mapM (resolve vs node) = .ok os) {name : String} (hname : name ∈ xs.filter (! ·.isEmpty)) :
    ∃ v, some v ∈ os ∧ (names vs)[v]? = some name := by
  have hmem : some name ∈ (os.filterMap id).map fun v => (names vs)[v]? := by
    rw [names_of_resolved h]
    exact List.mem_map_of_mem hname
  obtain ⟨v, hv, heq⟩ := List.mem_map.mp hmem
  obtain ⟨o, ho, rfl⟩ := List.mem_filterMap.mp hv
  exact ⟨v, ho, heq⟩

/-- Resolving depends on the names of values alone. -/
theorem resolve_congr {vs vs' : List Value} (h : names vs' = names vs) (node name : String) :
    resolve vs' node name = resolve vs node name := by
  have hnumber : number? vs' name = number? vs name := by
    have hfind : ∀ ws : List Value, number? ws name = (names ws).findIdx? fun x => x = name := by
      intro ws
      unfold number? names
      rw [List.findIdx?_map]
      rfl
    rw [hfind, hfind, h]
  unfold resolve
  rw [hnumber]

/-! ## What is decided about a node -/

/-- What was decided about a node, given the types of values. -/
structure Decided (s : Session) (g : Graph) (vs : List Value) (n : Node) (c : Choice) : Prop where
  provider : s.provider (n.provider.getD s.defaultProvider) = .ok c.provider
  inputs : n.inputs.mapM (resolve vs n.name) = .ok c.inputs
  outputs : n.outputs.mapM (resolve vs n.name) = .ok c.outputs
  lookup : s.catalog.kernels.lookup n.op n.domain (c.inputs.map (typeAt vs))
    (n.provider.getD s.defaultProvider) = .ok (c.definition, c.factory)
  types : c.types =
    ((s.catalog.schema? n.op n.domain).bind fun sch =>
      sch.inferNode (c.inputs.map (typeAt vs)) c.outputs.length).getD
        (List.replicate c.outputs.length .undefined)
  info : c.info =
    { node := n.name
      inputs := n.inputs.zip (c.inputs.map (typeAt vs))
      outputs := n.outputs.zip c.types
      attributes := n.attributes
      constants := constants g n
      provider := some (n.provider.getD s.defaultProvider)
      logger := c.provider.logger }

theorem choose_eq_ok {s : Session} {g : Graph} {vs : List Value} {n : Node} {c : Choice}
    (h : choose s g vs n = .ok c) : Decided s g vs n c := by
  unfold choose at h
  simp only [bind_eq_ok] at h
  obtain ⟨provider, hprovider, inputs, hinputs, outputs, houtputs, h⟩ := h
  cases hlookup : s.catalog.kernels.lookup n.op n.domain (inputs.map (typeAt vs))
      (n.provider.getD s.defaultProvider) with
  | error e =>
      simp only [hlookup] at h
      cases h
  | ok k =>
      simp only [hlookup] at h
      obtain rfl := pure_eq_ok.mp h
      exact ⟨hprovider, hinputs, houtputs, hlookup, rfl, rfl⟩

/-- What is decided depends on the names of values and on the types of the inputs alone. -/
theorem Decided.congr {s : Session} {g : Graph} {vs vs' : List Value} {n : Node} {c : Choice}
    (h : Decided s g vs n c) (hnames : names vs' = names vs)
    (htypes : ∀ v, some v ∈ c.inputs → vs'[v]? = vs[v]?) : Decided s g vs' n c := by
  have hresolve : resolve vs' n.name = resolve vs n.name := funext (resolve_congr hnames n.name)
  have hinputs : c.inputs.map (typeAt vs') = c.inputs.map (typeAt vs) := by
    refine List.map_congr_left fun o ho => ?_
    cases o with
    | none => rfl
    | some v => simp [typeAt, htypes v ho]
  obtain ⟨hprovider, hin, hout, hlookup, hty, hinfo⟩ := h
  exact ⟨hprovider, hresolve ▸ hin, hresolve ▸ hout, hinputs ▸ hlookup, hinputs ▸ hty, hinputs ▸ hinfo⟩

theorem inferNode_length {sch : OpSchema} {inputs : List DataType} {count : Nat} {ts : List DataType}
    (h : sch.inferNode inputs count = some ts) : ts.length = count := by
  obtain ⟨b, -, hb⟩ := List.exists_of_findSome?_eq_some h
  obtain ⟨w, -, hw⟩ := Option.bind_eq_some_iff.mp hb
  unfold TypeBinding.resolveOutputs at hw
  split at hw
  · obtain rfl := Option.some.inj hw
    simp
  · cases hw

/-- There is one planned type for each output. -/
theorem Decided.types_length {s : Session} {g : Graph} {vs : List Value} {n : Node} {c : Choice}
    (h : Decided s g vs n c) : c.types.length = c.outputs.length := by
  rw [h.types]
  cases hsch : s.catalog.schema? n.op n.domain with
  | none => simp
  | some sch =>
      cases hinf : sch.inferNode (c.inputs.map (typeAt vs)) c.outputs.length with
      | none => simp [hinf]
      | some ts => simpa [hinf] using inferNode_length hinf

/-- Outputs that are wanted have different numbers. -/
theorem Decided.outputs_nodup {s : Session} {g : Graph} {vs : List Value} {n : Node} {c : Choice}
    (h : Decided s g vs n c) (hmakes : n.makes.Nodup) : (c.outputs.filterMap id).Nodup := by
  have hnames : ((c.outputs.filterMap id).map fun v => (names vs)[v]?).Nodup := by
    rw [names_of_resolved h.outputs]
    exact List.pairwise_map.mpr (hmakes.imp fun hne heq => hne (Option.some.inj heq))
  have hpair := List.pairwise_map.mp hnames
  exact hpair.imp fun {v w} hne (heq : v = w) => hne (congrArg (fun v => (names vs)[v]?) heq)

theorem filterMap_fst_zip {os : List (Option Nat)} : ∀ {ts : List DataType}, ts.length = os.length →
    (os.zip ts).filterMap (·.1) = os.filterMap id := by
  induction os with
  | nil => simp
  | cons o os ih =>
      intro ts h
      cases ts with
      | nil => simp at h
      | cons t ts =>
          have hlen : ts.length = os.length := by simpa using h
          cases o <;> simp [ih hlen]

/-! ## Types that become known -/

theorem names_settleValue (k : Nat) (vs : List Value) (p : Option Nat × DataType) :
    names (settleValue k vs p) = names vs := by
  obtain ⟨_ | v, type⟩ := p
  · rfl
  · apply List.ext_getElem?
    intro i
    simp only [settleValue, names, List.getElem?_map, List.getElem?_modify]
    by_cases h : v = i
    · cases vs[i]? <;> simp [h]
    · cases vs[i]? <;> simp [h]

theorem getElem?_settleValue (k : Nat) (vs : List Value) (p : Option Nat × DataType) {v : Nat}
    (h : p.1 ≠ some v) : (settleValue k vs p)[v]? = vs[v]? := by
  obtain ⟨_ | w, type⟩ := p
  · rfl
  · have hne : w ≠ v := fun heq => h (by rw [heq])
    simp [settleValue, hne]

/-- Settling the outputs of a node keeps the names. -/
theorem names_settle (k : Nat) : ∀ (ps : List (Option Nat × DataType)) (vs : List Value),
    names (ps.foldl (settleValue k) vs) = names vs := by
  intro ps
  induction ps with
  | nil => intro vs; rfl
  | cons p rest ih => intro vs; rw [List.foldl_cons, ih, names_settleValue]

/-- Settling the outputs of a node changes nothing else. -/
theorem getElem?_settle (k : Nat) {v : Nat} : ∀ (ps : List (Option Nat × DataType)) (vs : List Value),
    (∀ p ∈ ps, p.1 ≠ some v) → (ps.foldl (settleValue k) vs)[v]? = vs[v]? := by
  intro ps
  induction ps with
  | nil => intro vs _; rfl
  | cons p rest ih =>
      intro vs h
      rw [List.foldl_cons, ih _ fun q hq => h q (List.mem_cons_of_mem _ hq)]
      exact getElem?_settleValue k vs p (h p List.mem_cons_self)

/-- Settling the outputs of a node gives each its type and its producer. -/
theorem getElem?_settle_mem (k : Nat) {v : Nat} {type : DataType} :
    ∀ (ps : List (Option Nat × DataType)) (vs : List Value), (ps.filterMap (·.1)).Nodup →
      (some v, type) ∈ ps →
      (ps.foldl (settleValue k) vs)[v]? = (vs[v]?).map fun x => { x with type, producer := some k } := by
  intro ps
  induction ps with
  | nil => intro vs _ h; simp at h
  | cons p rest ih =>
      intro vs hnodup h
      rw [List.foldl_cons]
      by_cases hp : p = (some v, type)
      · subst hp
        have hrest : ∀ q ∈ rest, q.1 ≠ some v := by
          intro q hq heq
          rw [List.filterMap_cons, List.nodup_cons] at hnodup
          exact hnodup.1 (List.mem_filterMap.mpr ⟨q, hq, heq⟩)
        rw [getElem?_settle k rest _ hrest]
        simp [settleValue]
      · have hmem : (some v, type) ∈ rest := by
          rcases List.mem_cons.mp h with heq | hmem
          · exact absurd heq.symm hp
          · exact hmem
        obtain ⟨o, type'⟩ := p
        cases o with
        | none => exact ih _ (by simpa using hnodup) hmem
        | some w =>
            rw [List.filterMap_cons, List.nodup_cons] at hnodup
            have hne : w ≠ v := fun heq =>
              hnodup.1 (List.mem_filterMap.mpr ⟨_, hmem, by rw [heq]⟩)
            rw [ih _ hnodup.2 hmem, getElem?_settleValue]
            simpa using hne

/-! ## Planning in order -/

/-- The state of planning when some nodes were planned. -/
structure Planned (s : Session) (g : Graph) (vs : List Value) (seen : List Node) (t : Typed) : Prop where
  length : t.nodes.length = seen.length
  named : names t.values = names vs
  decided : ∀ {j : Nat} {n : PlannedNode}, t.nodes[j]? = some n →
    ∃ gn c kernel life, seen[j]? = some gn ∧ Decided s g t.values gn c ∧
      c.factory.instantiate c.info = (.ok kernel, life) ∧ n = c.node gn kernel
  made : ∀ {j : Nat} {n : PlannedNode} {v : Nat} {type : DataType}, t.nodes[j]? = some n →
    (some v, type) ∈ n.outputs.zip n.types → ∃ name, t.values[v]? = some ⟨name, type, some j⟩
  rest : ∀ {v : Nat}, (∀ n ∈ t.nodes, some v ∉ n.outputs) → t.values[v]? = vs[v]?

theorem Planned.start (s : Session) (g : Graph) (vs : List Value) :
    Planned s g vs [] { values := vs } := by
  constructor <;> simp

/-- Every node that was seen was decided about and planned. -/
theorem Planned.decided_at {s : Session} {g : Graph} {vs : List Value} {seen : List Node} {t : Typed}
    (h : Planned s g vs seen t) {j : Nat} {gn : Node} (hj : seen[j]? = some gn) :
    ∃ c kernel life, t.nodes[j]? = some (c.node gn kernel) ∧ Decided s g t.values gn c ∧
      c.factory.instantiate c.info = (.ok kernel, life) := by
  have hlt : j < t.nodes.length := by
    rw [h.length]
    exact (List.getElem?_eq_some_iff.mp hj).1
  have hn : t.nodes[j]? = some t.nodes[j] := List.getElem?_eq_getElem hlt
  obtain ⟨gn', c, kernel, life, hgn', hdec, hmake, heq⟩ := h.decided hn
  obtain rfl : gn = gn' := Option.some.inj (hj.symm.trans hgn')
  exact ⟨c, kernel, life, hn.trans (congrArg some heq), hdec, hmake⟩

theorem planNode_eq_ok {s : Session} {g : Graph} {t t' : Typed} {n : Node} {life : List LifeEvent}
    (h : planNode s g t n = (.ok t', life)) :
    ∃ c kernel more, Decided s g t.values n c ∧ c.factory.instantiate c.info = (.ok kernel, more) ∧
      t'.values = (c.outputs.zip c.types).foldl (settleValue t.nodes.length) t.values ∧
      t'.nodes = t.nodes ++ [c.node n kernel] := by
  unfold planNode at h
  cases hc : choose s g t.values n with
  | error e =>
      simp only [hc] at h
      cases h
  | ok c =>
      simp only [hc] at h
      split at h
      · cases h
      next kernel more hmake =>
        obtain rfl := Except.ok.inj (Prod.mk.inj h).1
        exact ⟨c, kernel, more, choose_eq_ok hc, hmake, rfl, rfl⟩

/-- A value that a planned node makes is made by its node in the graph. -/
theorem Planned.makes {s : Session} {g : Graph} {vs : List Value} {seen : List Node} {t : Typed}
    (h : Planned s g vs seen t) {j : Nat} {n : PlannedNode} {v : Nat} (hj : t.nodes[j]? = some n)
    (hv : some v ∈ n.outputs) :
    ∃ gn name, seen[j]? = some gn ∧ name ∈ gn.makes ∧ (names vs)[v]? = some name := by
  obtain ⟨gn, c, kernel, life, hgn, hc, -, rfl⟩ := h.decided hj
  obtain ⟨name, hname, hnum⟩ := mem_of_resolved hc.outputs hv
  exact ⟨gn, name, hgn, hname, h.named ▸ hnum⟩

/-- Two planned nodes never make one value. -/
theorem Planned.makes_once {s : Session} {g : Graph} {vs : List Value} {seen rest : List Node}
    {t : Typed} (hl : LaidOut g vs (seen ++ rest)) (h : Planned s g vs seen t) {i j : Nat}
    {a b : PlannedNode} {v : Nat} (hi : t.nodes[i]? = some a) (hj : t.nodes[j]? = some b)
    (ha : some v ∈ a.outputs) (hb : some v ∈ b.outputs) : i = j := by
  obtain ⟨m, name, hm, hname, hnum⟩ := h.makes hi ha
  obtain ⟨m', name', hm', hname', hnum'⟩ := h.makes hj hb
  obtain rfl : name = name' := Option.some.inj (hnum.symm.trans hnum')
  have hleft : ∀ {k : Nat} {m : Node}, seen[k]? = some m → (seen ++ rest)[k]? = some m := by
    intro k m hk
    rw [List.getElem?_append_left (List.getElem?_eq_some_iff.mp hk).1]
    exact hk
  exact hl.makes_once (hleft hm) (hleft hm') hname hname'

section Step

variable {s : Session} {g : Graph} {vs : List Value} {seen rest : List Node} {gn : Node} {t : Typed}

/-- What a node reads is no output of the node planned now, unless the latter stands before it. -/
theorem Planned.reads_kept (hl : LaidOut g vs (seen ++ gn :: rest)) {c : Choice}
    (hc : Decided s g t.values gn c) {j : Nat} {m : Node} {c' : Choice}
    (hm : (seen ++ [gn])[j]? = some m) (hc' : Decided s g t.values m c') {v : Nat}
    (hv : some v ∈ c'.inputs) : some v ∉ c.outputs := by
  intro hout
  obtain ⟨name, hread, hname⟩ := mem_of_resolved hc'.inputs hv
  obtain ⟨name', hmade, hname'⟩ := mem_of_resolved hc.outputs hout
  obtain rfl : name = name' := Option.some.inj (hname.symm.trans hname')
  have hlt : j < (seen ++ [gn]).length := (List.getElem?_eq_some_iff.mp hm).1
  have hj : (seen ++ gn :: rest)[j]? = some m := by
    have hsplit : seen ++ gn :: rest = (seen ++ [gn]) ++ rest := by simp
    rw [hsplit, List.getElem?_append_left hlt]
    exact hm
  have hk : (seen ++ gn :: rest)[seen.length]? = some gn := by simp
  exact hl.not_made_later hj hk (by simpa using Nat.lt_succ_iff.mp (by simpa using hlt)) hread hmade

/-- Planning one more node. -/
theorem Planned.step (hl : LaidOut g vs (seen ++ gn :: rest)) (h : Planned s g vs seen t) {t' : Typed}
    {life : List LifeEvent} (hstep : planNode s g t gn = (.ok t', life)) :
    Planned s g vs (seen ++ [gn]) t' := by
  obtain ⟨c, kernel, more, hc, hmake, hvalues, hnodes⟩ := planNode_eq_ok hstep
  have hnames : names t'.values = names t.values := by rw [hvalues, names_settle]
  -- A value that is no output of the new node keeps its type.
  have hkeep : ∀ {v : Nat}, some v ∉ c.outputs → t'.values[v]? = t.values[v]? := by
    intro v hv
    rw [hvalues]
    refine getElem?_settle _ _ _ fun p hp heq => hv ?_
    rw [← heq]
    exact (List.of_mem_zip hp).1
  have hdecided : ∀ {j : Nat} {m : Node} {c' : Choice}, (seen ++ [gn])[j]? = some m →
      Decided s g t.values m c' → Decided s g t'.values m c' := fun hj hdec =>
    hdec.congr hnames fun v hv => hkeep (Planned.reads_kept hl hc hj hdec hv)
  have hnew : ∀ {j : Nat} {n : PlannedNode} {v : Nat}, t.nodes[j]? = some n → some v ∈ n.outputs →
      some v ∉ c.outputs := by
    intro j n v hj hv hmem
    obtain ⟨m, w, hm, hw, hwnum⟩ := h.makes hj hv
    obtain ⟨w', hw', hwnum'⟩ := mem_of_resolved hc.outputs hmem
    rw [h.named] at hwnum'
    obtain rfl : w = w' := Option.some.inj (hwnum.symm.trans hwnum')
    have hjlt := (List.getElem?_eq_some_iff.mp hm).1
    have hm' : (seen ++ gn :: rest)[j]? = some m := by rwa [List.getElem?_append_left hjlt]
    have hk : (seen ++ gn :: rest)[seen.length]? = some gn := by simp
    have := hl.makes_once hm' hk hw hw'
    omega
  constructor
  · simp [hnodes, h.length]
  · rw [hnames, h.named]
  · intro j n hj
    rw [hnodes] at hj
    rcases getElem?_concat_eq_some hj with ⟨-, hj⟩ | ⟨rfl, rfl⟩
    · obtain ⟨m, c', k', l', hm, hdec, hmake', rfl⟩ := h.decided hj
      have hm' : (seen ++ [gn])[j]? = some m := by
        rw [List.getElem?_append_left (List.getElem?_eq_some_iff.mp hm).1]
        exact hm
      exact ⟨m, c', k', l', hm', hdecided hm' hdec, hmake', rfl⟩
    · have hgn : (seen ++ [gn])[t.nodes.length]? = some gn := by simp [h.length]
      exact ⟨gn, c, kernel, more, hgn, hdecided hgn hc, hmake, rfl⟩
  · intro j n v type hj hout
    rw [hnodes] at hj
    rcases getElem?_concat_eq_some hj with ⟨-, hj⟩ | ⟨rfl, rfl⟩
    · obtain ⟨name, hval⟩ := h.made hj hout
      exact ⟨name, by rw [hkeep (hnew hj (List.of_mem_zip hout).1), hval]⟩
    · have hmakes : gn.makes.Nodup := (List.pairwise_flatMap.mp hl.makes_nodup).1 gn (by simp)
      have hnodup : ((c.outputs.zip c.types).filterMap (·.1)).Nodup := by
        rw [filterMap_fst_zip hc.types_length]
        exact hc.outputs_nodup hmakes
      obtain ⟨name, -, hname⟩ := mem_of_resolved hc.outputs (List.of_mem_zip hout).1
      obtain ⟨x, hx, -⟩ : ∃ x, t.values[v]? = some x ∧ x.name = name := by
        simpa [names] using hname
      refine ⟨x.name, ?_⟩
      rw [hvalues, getElem?_settle_mem _ _ _ hnodup hout, hx]
      rfl
  · intro v hv
    rw [hnodes] at hv
    rw [hkeep, h.rest]
    · exact fun n hn => hv n (List.mem_append_left _ hn)
    · exact hv (c.node gn kernel) (by simp)

end Step

/-- **Planning all nodes of a graph in order.** -/
theorem planNodes_eq_ok {s : Session} {g : Graph} {vs : List Value} :
    ∀ {rest seen : List Node} {t t' : Typed} {life : List LifeEvent}, LaidOut g vs (seen ++ rest) →
      Planned s g vs seen t → planNodes s g t rest = (.ok t', life) →
      Planned s g vs (seen ++ rest) t' := by
  intro rest
  induction rest with
  | nil =>
      intro seen t t' life _ h hplan
      obtain ⟨heq, -⟩ := Prod.mk.inj hplan
      obtain rfl : t = t' := Except.ok.inj heq
      simpa using h
  | cons gn rest ih =>
      intro seen t t' life hl h hplan
      unfold planNodes at hplan
      split at hplan
      · cases hplan
      next t₁ life₁ hstep =>
        have := ih (by simpa using hl) (h.step hl hstep) hplan
        simpa using this

/-- Planning the nodes of a graph that was laid out. -/
theorem planned_of_layOut {s : Session} {g : Graph} {vs : List Value} {nodes : List Node} {t : Typed}
    {life : List LifeEvent} (hlay : layOut g = .ok (vs, nodes))
    (hplan : planNodes s g { values := vs } nodes = (.ok t, life)) : Planned s g vs nodes t := by
  have hl : LaidOut g vs ([] ++ nodes) := by
    rw [List.nil_append]
    exact layOut_eq_ok hlay
  have hp := planNodes_eq_ok hl (Planned.start s g vs) hplan
  rwa [List.nil_append] at hp

end OpGraph.Plan
