import OpGraph.Proofs.Accepting
import OpGraph.Proofs.Outputs
import OpGraph.Proofs.Refinement
import OpGraph.Proofs.Selection

/-!
# `Proofs.Constants` — what a kernel is told about its inputs and what it is given

A kernel that is created may ask for inputs whose value the graph brings along, and these are found by name.
A kernel that runs finds its inputs in the slots of values, and a name leads to a slot by its number. The two
agree: the slot is filled with the value at the start, nobody changes it, and the kernel is called on what the
inputs of its node read (`Run.Supplied`). They part at the empty name: it stands for an input that is left out,
and yet a value that is brought along under it is found (`constant_left_out`).
-/

namespace OpGraph

open Outcome

/-! ## Calls -/

namespace Run

variable {i j : Nat} {r r' : Run} {m m' : Machine NodeJob} {n : PlannedNode} {fed : List (String × Tensor)}
  {args : List (Option Tensor)}

/-- Every kernel was called on what the inputs of its node read. -/
def Supplied (r : Run) : Prop :=
  ∀ (j : Nat) n args, r.plan.nodes[j]? = some n → (j, args) ∈ r.calls →
    n.Taken r.slots args ∧ n.inputs.length ≤ args.length

theorem mem_callsOf : args ∈ r.callsOf j ↔ (j, args) ∈ r.calls := by
  unfold callsOf
  simp only [List.mem_filterMap, Prod.exists, Option.ite_none_right_eq_some, Option.some.injEq]
  constructor
  · rintro ⟨_, _, hmem, rfl, rfl⟩
    exact hmem
  · exact fun hmem => ⟨j, args, hmem, rfl, rfl⟩

theorem Supplied.saw (h : r.Supplied) (hl : r.Lawful fed i m) (hs : r.Saw i m r' m') : r'.Supplied := by
  intro j n args hn hmem
  rw [hs.plan] at hn
  have hgrows := hs.slots.2
  have hkept : (j, args) ∈ r.calls → n.Taken r'.slots args ∧ n.inputs.length ≤ args.length := fun hold =>
    (h j n args hn hold).imp_left (·.mono hgrows)
  rw [← mem_callsOf] at hmem hkept
  cases hs.moved hl.placed hl.stands hn with
  | still _ _ hcalls => exact hkept (hcalls ▸ hmem)
  | launched _ _ _ _ hcalls => exact hkept (hcalls ▸ hmem)
  | @worked job others w _ _ hstages hadv _ _ hcalls =>
      rw [hcalls] at hmem
      rcases List.mem_append.mp hmem with hold | hnew
      · exact hkept hold
      · -- The kernel is called by work that took all arguments.
        have hworking := hl.stands.working hn (hstages ▸ List.mem_cons_self)
        generalize job.stage = stage at hadv hworking
        cases hworking with
        | taking _ htaken =>
            cases hadv with
            | ran hall =>
                obtain rfl := List.mem_singleton.mp hnew
                exact ⟨htaken.mono hgrows, hall⟩
            | broke hall =>
                obtain rfl := List.mem_singleton.mp hnew
                exact ⟨htaken.mono hgrows, hall⟩
            | _ => cases hnew
        | _ => cases hadv <;> cases hnew

theorem Supplied.start {p : Plan} (hr : start p fed = .ok r) : r.Supplied := by
  obtain ⟨slots, -, rfl⟩ := map_eq_ok.mp hr
  intro j n args _ hmem
  cases hmem

/-- What a kernel is given for an input is what the input reads. -/
theorem Supplied.input {types : List DataType} {stream : Option Stream} {logger : Option Logger} {k : Nat}
    {o : Option Nat} (h : r.Supplied) (hn : r.plan.nodes[j]? = some n) (hcall : (j, args) ∈ r.calls)
    (ho : n.inputs[k]? = some o) :
    ∃ a, (KernelContext.start args types stream logger).input k = .ok a ∧ r.slots.Reads o a := by
  obtain ⟨htaken, hall⟩ := h j n args hn hcall
  have hlt : k < args.length := (List.getElem?_eq_some_iff.mp ho).1.trans_le hall
  have ha : args[k]? = some args[k] := List.getElem?_eq_getElem hlt
  refine ⟨args[k], ?_, htaken.reads k o _ ho ha⟩
  unfold KernelContext.input KernelContext.start
  rw [ha]

end Run

/-- **Every kernel of every run is called on what the inputs of its node read.** -/
theorem System.Reached.supplied {σ : System} (h : σ.Reached) {i : Nat} {r : Run} (hr : σ.runs[i]? = some r) :
    r.Supplied := by
  obtain ⟨-, -, -, hsupplied⟩ := h.kept_lawful (P := fun _ _ r _ => r.Supplied)
    (fun hstart _ _ => .start hstart) (fun hl _ hsupplied hsaw => hsupplied.saw hl hsaw) hr
  exact hsupplied

/-! ## What a kernel is told -/

namespace Plan

variable {g : Graph} {s : Session} {vs : List Value} {node : Node} {c : Choice} {i : Nat} {name : String}

theorem mem_constants {t : Tensor} : (i, t) ∈ constants g node ↔
    ∃ name, node.inputs[i]? = some name ∧ g.initializer? name = some t := by
  simp only [constants, List.mem_filterMap, Prod.exists, List.mem_zipIdx_iff_getElem?, Option.map_eq_some_iff,
    Prod.mk.injEq]
  constructor
  · rintro ⟨name, _, hname, _, ht, rfl, rfl⟩
    exact ⟨name, hname, ht⟩
  · rintro ⟨name, hname, ht⟩
    exact ⟨name, i, hname, t, ht, rfl, rfl⟩

/-- An input is recorded once. -/
theorem constants_nodup (g : Graph) (node : Node) : ((constants g node).map (·.1)).Nodup := by
  refine List.pairwise_map.mpr (List.pairwise_filterMap.mpr ((Graph.pairwise_zipIdx node.inputs).imp ?_))
  intro a a' hlt b hb b' hb'
  obtain ⟨t, -, rfl⟩ := Option.map_eq_some_iff.mp hb
  obtain ⟨t', -, rfl⟩ := Option.map_eq_some_iff.mp hb'
  exact Nat.ne_of_lt hlt

/-- There is a number for every input. -/
theorem Decided.inputs_length (h : Decided s g vs node c) : c.inputs.length = node.inputs.length :=
  length_of_mapM_eq_ok h.inputs

/-- The number of an input is that of its name. -/
theorem Decided.input (h : Decided s g vs node c) (hname : node.inputs[i]? = some name) :
    ∃ o, c.inputs[i]? = some o ∧ resolve vs node.name name = .ok o := by
  have hget := getElem?_of_mapM_eq_ok h.inputs i
  rw [hname, Option.map_some] at hget
  obtain ⟨o, ho, hok⟩ := Option.map_eq_some_iff.mp hget.symm
  exact ⟨o, ho, hok.symm⟩

/-- **A kernel is told the value that is brought along under the name of an input.** -/
theorem Decided.constant (h : Decided s g vs node c) (hname : node.inputs[i]? = some name) :
    c.info.constant i = .ok (g.initializer? name) := by
  have hlt : i < node.inputs.length := (List.getElem?_eq_some_iff.mp hname).1
  have hinputs : i < c.info.inputs.length := by
    simp [h.info, h.inputs_length, hlt]
  have hlast : lastValue? i (constants g node) = g.initializer? name := by
    refine Option.ext fun t => (lastValue?_eq_some (constants_nodup g node)).trans (mem_constants.trans ?_)
    constructor
    · rintro ⟨name', hname', ht⟩
      obtain rfl := Option.some.inj (hname.symm.trans hname')
      exact ht
    · exact fun ht => ⟨name, hname, ht⟩
  rw [KernelInfo.constant, if_pos hinputs, ← hlast, h.info]

/-! ## What a kernel is given -/

/-- A slot holds what it was filled with last. -/
theorem get?_fill {es : List (Nat × Tensor)} {slots : ValueStore} (hroom : ∀ e ∈ es, e.1 < slots.length)
    (v : Nat) : (fill slots es).get? v = (lastValue? v es).or (slots.get? v) := by
  induction es generalizing slots with
  | nil => rfl
  | cons e rest ih =>
      have he := hroom e List.mem_cons_self
      show (fill (slots.set e.1 (some e.2)) rest).get? v = _
      rw [ih fun e' he' => by simpa using hroom e' (List.mem_cons_of_mem _ he'), lastValue?_cons, Option.or_assoc,
        ValueStore.get?_set]
      by_cases hv : e.1 = v
      · subst hv
        simp [he]
      · simp [hv]

/-- Values that are brought along have different numbers. -/
theorem Connected.initializers_nodup {h : StreamHandles} {t : Typed} {table : StreamTable} {p : Plan}
    (hc : Connected h g t table p) : (p.initializers.map (·.1)).Nodup := by
  rw [hc.initializers, List.map_map]
  refine List.pairwise_map.mpr ((Graph.pairwise_zipIdx g.initializers).imp fun {a b} hlt => ?_)
  show g.inputs.length + a.2 ≠ g.inputs.length + b.2
  omega

/-- A run starts with the values that its plan brings along. -/
theorem initialSlots_initializer {p : Plan} {fed : List (String × Tensor)} {slots : ValueStore} {v : Nat}
    {t : Tensor} (hs : p.Sound) (hn : (p.initializers.map (·.1)).Nodup)
    (hslots : Run.initialSlots p fed = .ok slots) (hmem : (v, t) ∈ p.initializers) : slots.get? v = some t := by
  obtain ⟨slots₁, hfeeds, hinit⟩ := bind_eq_ok.mp hslots
  obtain ⟨es, hes, rfl⟩ := feeds_eq_ok (fun v hv => hs.given_lt (Or.inl hv)) hfeeds
  have hroom : ∀ e ∈ es, e.1 < (List.replicate p.values.length (none : Option Tensor)).length := fun e he => by
    rw [List.length_replicate]
    exact hs.given_lt (Or.inl (hes ▸ List.mem_map_of_mem he))
  have hlen := (fill_spec es _ hroom).1.trans List.length_replicate
  have hfill : slots = fill (fill (List.replicate p.values.length none) es) p.initializers :=
    (pure_eq_ok.mp hinit).symm
  -- They are put last, so it does not matter what was fed.
  rw [hfill, get?_fill fun e he => ?_, (lastValue?_eq_some hn).mpr hmem]
  · rfl
  · rw [hlen]
    exact hs.given_lt (Or.inr (List.mem_map_of_mem he))

/-- **The number of an input that is brought along leads to its value.** -/
theorem Connected.number_of_initializer {h : StreamHandles} {nodes : List Node} {t : Typed} {table : StreamTable}
    {p : Plan} (hc : Connected h g t table p) (hl : LaidOut g vs nodes) (hp : Planned s g vs nodes t)
    {value : Tensor} (hvalue : g.initializer? name = some value) :
    ∃ v, number? p.values name = some v ∧ (v, value) ∈ p.initializers := by
  obtain ⟨k, hk⟩ := List.mem_iff_getElem?.mp (Assoc.mem_of_find? hvalue)
  have hlt : k < g.initializers.length := (List.getElem?_eq_some_iff.mp hk).1
  -- The values that are brought along are numbered behind the inputs of the graph.
  have hgiven : g.inputs.length + k < (given g).length := by
    simp only [given, List.length_append, List.length_map]
    omega
  have hnames : names p.values = names vs := by rw [hc.values, hp.named]
  refine ⟨g.inputs.length + k, (number?_eq_some (hnames ▸ hl.distinct)).mpr ?_, ?_⟩
  · rw [hnames, names_given hl hgiven, given, List.getElem?_append_right (Nat.le_add_right _ _),
      Nat.add_sub_cancel_left, List.getElem?_map, hk]
    rfl
  · rw [hc.initializers]
    exact List.mem_map.mpr ⟨((name, value), k), List.mem_zipIdx_iff_getElem?.mpr hk, rfl⟩

/-- What an input with a name reads in a run: the value that is brought along under the name, and nothing where
    the name is empty. -/
theorem Connected.reads_given {h : StreamHandles} {nodes : List Node} {t : Typed} {table : StreamTable} {p : Plan}
    {σ : System} {k : Nat} {r : Run} {o : Option Nat} {a : Option Tensor} {label : String}
    (hc : Connected h g t table p) (hl : LaidOut g vs nodes) (hp : Planned s g vs nodes t) (hs : p.Sound)
    (hresolve : resolve p.values label name = .ok o) (hreached : σ.Reached) (hr : σ.runs[k]? = some r)
    (hplan : r.plan = p) (hreads : r.slots.Reads o a) :
    (name = "" → a = none) ∧ (name ≠ "" → ∀ t, g.initializer? name = some t → a = some t) := by
  rcases resolve_eq_ok hresolve with ⟨hempty, rfl⟩ | ⟨hnonempty, v, rfl, hv⟩
  · refine ⟨fun _ => ?_, fun hne => absurd (String.isEmpty_iff.mp hempty) hne⟩
    cases a with
    | none => rfl
    | some t => exact hreads.elim
  · refine ⟨fun heq => ?_, fun _ value hvalue => ?_⟩
    · rw [heq] at hnonempty
      cases hnonempty
    · obtain ⟨v', hv', hmem⟩ := hc.number_of_initializer hl hp hvalue
      obtain rfl := Option.some.inj (hv.symm.trans hv')
      -- The slot was filled when the run started, and what stands in a slot stays.
      obtain ⟨fed, hlawful⟩ := hreached.exists_lawful hr
      obtain ⟨slots, hslots, hgrows⟩ := hlawful.given
      have hstart := initialSlots_initializer hs hc.initializers_nodup (hplan ▸ hslots) hmem
      exact hreads.unique (hgrows v value hstart)

/-- Nodes in order are all nodes of the graph. -/
theorem nodes_perm {nodes : List Node} (hlay : layOut g = .ok (vs, nodes)) : nodes.Perm g.nodes := by
  obtain ⟨vs₀, order, -, -, horder, -, rfl⟩ := layOut_iff.mp hlay
  obtain ⟨hlegal, hlen⟩ := Graph.order_legal horder
  have hall : (List.range g.nodes.length).filterMap (g.nodes[·]?) = g.nodes := by
    refine List.ext_getElem? fun k => ?_
    rw [getElem?_filterMap_of_isSome (by simp)]
    by_cases hk : k < g.nodes.length
    · simp [hk]
    · simp [hk]
  have hperm := (hlegal.perm hlen).filterMap (g.nodes[·]?)
  rwa [hall] at hperm

/-- **A kernel is told of its inputs what it is given in every run.** The nodes of the plan are those of the
    graph, in order. The kernel of each is created with a record that gives for an input the value that is
    brought along under its name, and none exactly where there is none. In every run it gets that value for the
    input, unless the name is empty: then it gets none. -/
theorem constants_given {Job : Type} {m m' : Machine Job} {p : Plan} {life : List LifeEvent}
    (h : build s g m = ((.ok p, life), m')) :
    ∃ nodes : List Node, nodes.Perm g.nodes ∧ p.nodes.length = nodes.length ∧
      ∀ (j : Nat) n node, p.nodes[j]? = some n → nodes[j]? = some node →
        (∃ factory more, s.catalog.kernels.lookup node.op node.domain (p.typesOf n.inputs) n.provider =
            .ok (n.definition, factory) ∧ factory.instantiate n.info = (.ok n.kernel, more)) ∧
        ∀ (i : Nat) name, node.inputs[i]? = some name →
          n.info.constant i = .ok (g.initializer? name) ∧
          (g.initializer? name = none ↔ name ∉ g.initializers.map (·.1)) ∧
          ∀ σ : System, σ.Reached → ∀ (k : Nat) r, σ.runs[k]? = some r → r.plan = p →
            ∀ args, (j, args) ∈ r.calls → ∃ a,
              (KernelContext.start args n.types (p.streamOf n) n.logger).input i = .ok a ∧
              (name = "" → a = none) ∧ (name ≠ "" → ∀ t, g.initializer? name = some t → a = some t) := by
  obtain ⟨vs, nodes, t, table, hlay, hplan, -, hconnect⟩ := build_iff.mp h
  have hl := layOut_eq_ok hlay
  have hp := planned_of_layOut hlay hplan
  have hc := connect_eq_ok hconnect
  refine ⟨nodes, nodes_perm hlay, hc.length.trans hp.length, fun j n node hj hnode => ?_⟩
  obtain ⟨node', c, kernel, more, waits, hnode', hdec, hmake, -, hn⟩ := hc.decided hp hj
  obtain rfl := Option.some.inj (hnode.symm.trans hnode')
  have hprovider : c.provider.id = node.provider.getD s.defaultProvider := Session.provider_eq_ok hdec.provider
  have hlookup : s.catalog.kernels.lookup node.op node.domain (p.typesOf c.inputs) c.provider.id =
      .ok (c.definition, c.factory) := by
    rw [hprovider]
    exact hdec.lookup
  refine ⟨⟨c.factory, more, ?_, ?_⟩, fun i name hname => ⟨?_, ?_, fun σ hσ k r hr hplan args hcall => ?_⟩⟩
  · rw [hn]
    exact hlookup
  · rw [hn]
    exact hmake
  · rw [hn]
    exact hdec.constant hname
  · exact Assoc.find?_eq_none
  · obtain ⟨o, ho, hresolve⟩ := hdec.input hname
    have ho' : n.inputs[i]? = some o := by rw [hn]; exact ho
    obtain ⟨a, ha, hreads⟩ := (hσ.supplied hr).input (hplan ▸ hj) hcall ho'
    exact ⟨a, ha, hc.reads_given hl hp (build_sound h) hresolve hσ hr hplan hreads⟩

/-! ## An empty name -/

/-- An operator that does nothing. -/
def idleSetup : Setup := { domains := [("demo", [idle none .undefined .undefined])], builtins := false }

/-- A graph that brings a value along under a name, and a node with an input of that name. -/
def bringing (name : String) : Graph :=
  { initializers := [(name, System.relayed)]
    nodes := [{ name := "n", domain := "demo", op := "Foo", inputs := [name], outputs := [""] }] }

/-- The kernel of the node is told of the value. -/
theorem constants_given_named : ∃ (s : Session) (m₁ m₂ : Machine NodeJob) (p : Plan) (life : List LifeEvent)
    (n : PlannedNode), build s (bringing "w") m₁ = ((.ok p, life), m₂) ∧ p.nodes[0]? = some n ∧
      n.info.constant 0 = .ok (some System.relayed) := by
  have hbuilt : ∃ s m₁ events p life m₂ n,
      Session.start idleSetup ({} : Machine NodeJob) = (.ok (s, m₁), events) ∧
      build s (bringing "w") m₁ = ((.ok p, life), m₂) ∧ p.nodes[0]? = some n :=
    ⟨_, _, _, _, _, _, _, rfl, rfl, rfl⟩
  obtain ⟨s, m₁, events, p, life, m₂, n, -, hbuild, hn⟩ := hbuilt
  obtain ⟨nodes, hperm, -, hnodes⟩ := constants_given hbuild
  obtain rfl : nodes = (bringing "w").nodes := List.perm_singleton.mp hperm
  obtain ⟨-, hinputs⟩ := hnodes 0 n _ hn rfl
  exact ⟨s, m₁, m₂, p, life, n, hbuild, hn, (hinputs 0 "w" rfl).1⟩

/-- **A kernel may be told of a value and not get it.** The name of the input is empty, so it is left out; and
    the graph brings a value along under the empty name. -/
theorem constant_left_out : ∃ (σ : System) (r : Run) (n : PlannedNode), σ.Reached ∧ σ.runs[0]? = some r ∧
    r.plan.nodes[0]? = some n ∧ n.info.inputs.map (·.1) = [""] ∧
    n.info.constant 0 = .ok (some System.relayed) ∧ r.calls = [(0, [none])] ∧
    (KernelContext.start [none] n.types (r.plan.streamOf n) n.logger).input 0 = .ok none := by
  have hwhole : ∃ s m₁ events p life m₂ r₀ r' n,
      Session.start idleSetup ({} : Machine NodeJob) = (.ok (s, m₁), events) ∧
      build s (bringing "") m₁ = ((.ok p, life), m₂) ∧ Run.start p [] = .ok r₀ ∧
      ((Execution.mk m₂ [r₀]).finish 0).runs[0]? = some r' ∧ r'.plan.nodes[0]? = some n ∧
      n.info.inputs.map (·.1) = [""] ∧ n.info.constant 0 = .ok (some System.relayed) ∧
      r'.calls = [(0, [none])] :=
    ⟨_, _, _, _, _, _, _, _, _, rfl, rfl, rfl, rfl, rfl, rfl, rfl, rfl⟩
  obtain ⟨s, m₁, events, p, life, m₂, r₀, r, n, hstart, hbuild, hr₀, hr, hn, hinputs, hconstant, hcalls⟩ := hwhole
  exact ⟨_, r, n, System.Reached.first rfl hstart hbuild hr₀, hr, hn, hinputs, hconstant, hcalls, rfl⟩

end Plan

end OpGraph
