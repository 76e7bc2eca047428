import OpGraph.Proofs.Crossing

/-!
# `Proofs.Permuted` — planning does not depend on the order of nodes

Planning goes through the nodes in an order that depends on how they were listed, and fills in a table as
it goes. What it comes to does not: whether there is a plan is a matter of the graph's nodes alone
(`Session.WellFormed` and `StreamHandles.Owns`), types are the only ones that go along the edges, and a
kernel, what it is told and whom its node waits for are read off these types and the node. So two graphs
with the same nodes in different orders are planned alike (`Plan.Alike`).
-/

namespace OpGraph

open Outcome Relation

/-! ## Cycles, by nodes -/

namespace Graph

/-- One node of the graph makes a value that another reads. -/
def Supplies (g : Graph) (a b : Node) : Prop := a ∈ g.nodes ∧ b ∈ g.nodes ∧ b.ReadsFrom a

/-- A path over places is a path over the nodes there. -/
theorem supplies_of_feeds {g : Graph} {i j : Nat} (hpath : TransGen g.Feeds i j) :
    ∃ a b, g.nodes[i]? = some a ∧ g.nodes[j]? = some b ∧ TransGen g.Supplies a b := by
  induction hpath with
  | single hfeeds =>
      obtain ⟨a, b, v, ha, hb, hmade, hread⟩ := hfeeds
      have hstep : g.Supplies a b := ⟨List.mem_of_getElem? ha, List.mem_of_getElem? hb, v, hmade, hread⟩
      exact ⟨a, b, ha, hb, .single hstep⟩
  | tail _ hfeeds ih =>
      obtain ⟨a, b, ha, hb, hpath⟩ := ih
      obtain ⟨b', c, v, hb', hc, hmade, hread⟩ := hfeeds
      obtain rfl : b = b' := Option.some.inj (hb.symm.trans hb')
      have hstep : g.Supplies b c := ⟨List.mem_of_getElem? hb, List.mem_of_getElem? hc, v, hmade, hread⟩
      exact ⟨a, c, ha, hc, hpath.tail hstep⟩

/-- A graph has no cycle exactly if no node supplies, over however many others, itself. -/
theorem acyclic_iff {g : Graph} : g.Acyclic ↔ ∀ a, ¬TransGen g.Supplies a a := by
  constructor
  · intro h a hcycle
    -- Each node has a place, and a path over nodes is one over their places.
    have hplace : ∀ b, ∃ i : Nat, b ∈ g.nodes → g.nodes[i]? = some b := by
      intro b
      by_cases hb : b ∈ g.nodes
      · obtain ⟨i, hi⟩ := List.mem_iff_getElem?.mp hb
        exact ⟨i, fun _ => hi⟩
      · exact ⟨0, fun hmem => absurd hmem hb⟩
    choose place hplace using hplace
    refine h (place a) (hcycle.lift place ?_)
    rintro b c ⟨hb, hc, v, hmade, hread⟩
    exact ⟨b, c, v, hplace b hb, hplace c hc, hmade, hread⟩
  · intro h i hcycle
    obtain ⟨a, b, ha, hb, hpath⟩ := supplies_of_feeds hcycle
    obtain rfl : a = b := Option.some.inj (ha.symm.trans hb)
    exact h a hpath

variable {g : Graph} {ns : List Node}

theorem Acyclic.perm (hns : ns.Perm g.nodes) (h : g.Acyclic) : { g with nodes := ns }.Acyclic := by
  rw [acyclic_iff] at h ⊢
  intro a hcycle
  refine h a (hcycle.lift id ?_)
  rintro b c ⟨hb, hc, hreads⟩
  exact ⟨hns.mem_iff.mp hb, hns.mem_iff.mp hc, hreads⟩

theorem valueNames_perm (hns : ns.Perm g.nodes) : { g with nodes := ns }.valueNames.Perm g.valueNames := by
  show (g.inputs.map (·.1) ++ g.initializers.map (·.1) ++ ns.flatMap Node.makes).Perm _
  exact (hns.flatMap_right _).append_left _

end Graph

/-! ## Well-formed graphs -/

section WellFormed

variable {s : Session} {g : Graph} {ns : List Node}

theorem Session.Typing.perm {τ : String → DataType} (hns : ns.Perm g.nodes) (h : s.Typing g τ) :
    s.Typing { g with nodes := ns } τ where
  given := h.given
  made n hn := h.made n (hns.mem_iff.mp hn)

/-- What a session needs of a graph it needs of its nodes in any order. -/
theorem Session.WellFormed.perm (hns : ns.Perm g.nodes) (h : s.WellFormed g (s.Kernelled g)) :
    s.WellFormed { g with nodes := ns } (s.Kernelled { g with nodes := ns }) := by
  have hnames : ∀ v, v ∈ { g with nodes := ns }.valueNames ↔ v ∈ g.valueNames :=
    fun v => (Graph.valueNames_perm hns).mem_iff
  obtain ⟨τ, hτ, hkernels⟩ := h.kernels
  exact
    { distinct := (Graph.valueNames_perm hns).nodup_iff.mpr h.distinct
      acyclic := h.acyclic.perm hns
      providers := fun n hn => h.providers n (hns.mem_iff.mp hn)
      reads := fun n hn v hv => (hnames v).mpr (h.reads n (hns.mem_iff.mp hn) v hv)
      outputs := fun v hv => (hnames v).mpr (h.outputs v hv)
      kernels := ⟨τ, hτ.perm hns, fun n hn => hkernels n (hns.mem_iff.mp hn)⟩
      edges := fun a ha b hb => h.edges a (hns.mem_iff.mp ha) b (hns.mem_iff.mp hb)
      results := fun a ha => h.results a (hns.mem_iff.mp ha) }

end WellFormed

/-- The nodes a node waits for, and how, given the nodes in the order they are launched. -/
def PlannedNode.awaits (n : PlannedNode) (order : List Node) : List (Node × WaitFunction) :=
  n.waits.filterMap fun w => (order[w.producer]?).map fun a => (a, w.f)

/-- A node has to wait for another, in a certain way. -/
def Session.Awaits (s : Session) (b a : Node) (f : WaitFunction) : Prop :=
  b.ReadsFrom a ∧ s.handles.hasFactory (s.providerOf a) = true ∧ s.providerOf a ≠ s.providerOf b ∧
    s.handles.lookupWait (s.providerOf a) (s.providerOf b) = .ok f

namespace Plan

/-! ## Which graphs are planned, on any machine -/

section Accepted

variable {Job : Type} {s : Session} {g : Graph} {m m' : Machine Job}

/-- Providers that were gone through have devices of their own. -/
theorem owns_of_openAll {h : StreamHandles} {ids : List ProviderId} {table : StreamTable}
    (hf : ids.foldlM (openFor h) ([], m) = .ok (table, m')) : ∀ id ∈ ids, h.Owns id := by
  -- What has a stream was gone through before, so nothing needs to be said of it.
  let motive := fun (acc : StreamTable × Machine Job) (seen : List ProviderId) =>
    (∀ id ∈ acc.1.map (·.1), id ∈ seen) ∧ ∀ id ∈ seen, h.Owns id
  suffices hall : motive (table, m') ([] ++ ids) from hall.2
  refine foldlM_induction motive (fun acc seen id acc' hacc hid => ?_) ids ([], m) []
    ⟨by simp, by simp⟩ hf
  obtain ⟨htable, hseen⟩ := hacc
  unfold openFor at hid
  split at hid
  next hopen =>
    have hfactory := (Bool.and_eq_true_iff.mp hopen).2
    obtain ⟨⟨st, m₁⟩, hcreate, rfl⟩ := map_eq_ok.mp hid
    have hown : h.Owns id := (exists_createStream hfactory acc.2).mp ⟨_, hcreate⟩
    constructor
    · intro x hx
      rw [List.map_append] at hx
      rcases List.mem_append.mp hx with hold | hlast
      · exact List.mem_append_left _ (htable x hold)
      · exact List.mem_append_right _ hlast
    · intro x hx
      rcases List.mem_append.mp hx with hold | hlast
      · exact hseen x hold
      · exact List.mem_singleton.mp hlast ▸ hown
  next hskip =>
    obtain rfl := Except.ok.inj hid
    refine ⟨fun x hx => List.mem_append_left _ (htable x hx), fun x hx => ?_⟩
    rcases List.mem_append.mp hx with hold | hlast
    · exact hseen x hold
    · obtain rfl := List.mem_singleton.mp hlast
      cases hn : streamNumber? acc.1 x with
      | some k => exact hseen x (htable x (streamNumber?_isSome.mp (by simp [hn])))
      | none =>
          intro d hd
          have hfactory : h.hasFactory x := hasFactory_iff.mpr ⟨d, hd⟩
          simp [hn, hfactory] at hskip

/-- **Which graphs are planned does not depend on the machine**: those that are well-formed, with nodes
    that can be given streams. -/
theorem exists_build_iff (hnewest : ∀ e ∈ s.catalog.kernels.entries, e.2.newest = s.config.newest)
    (m : Machine Job) : (∃ p life m', build s g m = ((.ok p, life), m')) ↔
      s.WellFormed g (s.Kernelled g) ∧ ∀ n ∈ g.nodes, s.handles.Owns (s.providerOf n) := by
  constructor
  · rintro ⟨p, life, m', hbuild⟩
    refine ⟨wellFormed_of_newest hnewest hbuild, fun n hn => ?_⟩
    obtain ⟨vs, order, t, table, hlay, hplan, hopen, -⟩ := build_iff.mp hbuild
    have hl := layOut_eq_ok hlay
    have hp := planned_of_layOut hlay hplan
    obtain ⟨j, hj⟩ := List.mem_iff_getElem?.mp ((layOut_spec hlay).1.mem_iff.mpr hn)
    obtain ⟨c, kernel, hpn, -, hprovider⟩ := hp.node hj
    rw [← hprovider]
    exact owns_of_openAll hopen _ (List.mem_map_of_mem (List.mem_of_getElem? hpn))
  · rintro ⟨hwell, hown⟩
    exact exists_build_of_owns hnewest hown hwell m

end Accepted

/-! ## Types are the only ones -/

section Types

variable {s : Session} {g : Graph} {vs : List Value} {order : List Node} {t : Typed}

/-- What nodes read is known. -/
theorem Planned.reads_known (hp : Planned s g vs order t) (hperm : order.Perm g.nodes) :
    ∀ n ∈ g.nodes, ∀ x ∈ n.reads, x ∈ names vs := by
  intro n hn x hx
  obtain ⟨j, hj⟩ := List.mem_iff_getElem?.mp (hperm.mem_iff.mpr hn)
  obtain ⟨c, kernel, -, hdec, -⟩ := hp.node hj
  exact hp.named ▸ (resolveAll_iff.mp hdec.inputs).1 x hx

/-- Nodes read values of the types that any other types along the edges give them. -/
theorem Planned.inputTypes_unique (hl : LaidOut g vs order) (hp : Planned s g vs order t)
    (hperm : order.Perm g.nodes) {τ : String → DataType} (hτ : s.Typing g τ) :
    ∀ n ∈ g.nodes, Session.inputTypes (Plan.typing t.values) n = Session.inputTypes τ n := by
  intro n hn
  obtain ⟨j, hj⟩ := List.mem_iff_getElem?.mp (hperm.mem_iff.mpr hn)
  have hl' : LaidOut g vs (order ++ []) := by simpa using hl
  apply hp.inputTypes_eq hl' hτ (hp.reads_known hperm) j n
  · simpa using hj
  · exact Nat.le_of_lt (List.getElem?_eq_some_iff.mp hj).1

/-- **No other types go along the edges**: they agree with those planned on every value. -/
theorem Planned.typing_unique (hl : LaidOut g vs order) (hp : Planned s g vs order t)
    (hperm : order.Perm g.nodes) {τ : String → DataType} (hτ : s.Typing g τ) :
    ∀ v ∈ g.valueNames, Plan.typing t.values v = τ v := by
  have hplanned := hp.typing hl fun n hn => hperm.mem_iff.mpr hn
  intro v hv
  rw [g.valueNames_eq] at hv
  rcases List.mem_append.mp hv with hgiven | hmade
  · obtain ⟨x, hx, rfl⟩ := List.mem_map.mp hgiven
    rw [hplanned.given x hx, hτ.given x hx]
  · -- The node that makes it reads values of the same types, so it infers the same.
    obtain ⟨n, hn, hv⟩ := List.mem_flatMap.mp hmade
    obtain ⟨hout, hempty⟩ := List.mem_filter.mp hv
    have houtputs := Session.outputTypes_congr (s := s) (hp.inputTypes_unique hl hperm hτ n hn)
    obtain ⟨i, hi⟩ := List.mem_iff_getElem?.mp hout
    have hlen : i < (s.outputTypes τ n).length := by
      rw [Session.length_outputTypes]
      exact (List.getElem?_eq_some_iff.mp hi).1
    have hzip : (v, (s.outputTypes τ n)[i]) ∈ n.outputs.zip (s.outputTypes τ n) :=
      List.mem_iff_getElem?.mpr ⟨i, List.getElem?_zip_eq_some.mpr ⟨hi, List.getElem?_eq_getElem hlen⟩⟩
    have hname : v.isEmpty = false := by simpa using hempty
    have htype := hplanned.made n hn _ (by rw [houtputs]; exact hzip) hname
    exact htype.trans (hτ.made n hn _ hzip hname).symm

/-- The planned type of a name, if it names a value. -/
theorem typeOf?_eq (p : Plan) (v : String) :
    p.typeOf? v = if v ∈ names p.values then some (typing p.values v) else none := by
  unfold typeOf? typing
  cases hnumber : number? p.values v with
  | none =>
      have hunknown : v ∉ names p.values := number?_isNone.mp (by simp [hnumber])
      rw [if_neg hunknown, Option.map_eq_none_iff, List.find?_eq_none]
      intro x hx heq
      exact hunknown (List.mem_map.mpr ⟨x, hx, by simpa using heq⟩)
  | some i =>
      have hknown : v ∈ names p.values := List.mem_of_getElem? (names_of_number? hnumber)
      obtain ⟨hlt, hfound, hfirst⟩ := List.findIdx?_eq_some_iff_getElem.mp hnumber
      have hfind : p.values.find? (fun x => x.name = v) = some p.values[i] := by
        rw [List.find?_eq_some_iff_getElem]
        exact ⟨hfound, i, hlt, rfl, fun j hj => by simpa using hfirst j hj⟩
      rw [if_pos hknown, hfind]
      simp [typeAt, hlt]

end Types

/-! ## What a node is allotted -/

section Allotted

variable {Job : Type} {s : Session} {g : Graph} {vs : List Value} {order : List Node} {t : Typed}
  {table : StreamTable} {p : Plan} {m m' : Machine Job} {c : Nat} {b : Node} {n : PlannedNode}

/-- A node waits for exactly the nodes it has to wait for. -/
theorem Connected.mem_awaits (hc : Connected s.handles g t table p) (hl : LaidOut g vs order)
    (hp : Planned s g vs order t)
    (ho : (t.nodes.map (·.provider)).foldlM (openFor s.handles) ([], m) = .ok (table, m'))
    (hb : order[c]? = some b) (hn : p.nodes[c]? = some n) {a : Node} {f : WaitFunction} :
    (a, f) ∈ n.awaits order ↔ a ∈ order ∧ s.Awaits b a f := by
  -- For each place, the waits for it are known from the graph.
  have hplace : ∀ {u : Nat}, order[u]? = some a → (⟨u, f⟩ ∈ n.waits ↔ s.Awaits b a f) := by
    intro u hu
    have hlt : u < p.nodes.length := by
      rw [hc.length, hp.length]
      exact (List.getElem?_eq_some_iff.mp hu).1
    have hm : p.nodes[u]? = some p.nodes[u] := List.getElem?_eq_getElem hlt
    obtain ⟨a', -, ha', -, -, hproviderA, -⟩ := hc.stands hp hm
    obtain rfl : a = a' := Option.some.inj (hu.symm.trans ha')
    obtain ⟨b', -, hb', -, -, hproviderB, -⟩ := hc.stands hp hn
    obtain rfl : b = b' := Option.some.inj (hb.symm.trans hb')
    have hstream := (hc.placed hp ho hm).1
    obtain ⟨hcrossing, hstaying⟩ := hc.waits_filter hl hp hu hb hm hn
    rw [hproviderA, hproviderB, hstream, hproviderA] at hcrossing hstaying
    have hfilter : (⟨u, f⟩ : PlannedWait) ∈ n.waits ↔ ⟨u, f⟩ ∈ n.waits.filter (·.producer = u) := by
      rw [List.mem_filter]
      simp
    rw [hfilter]
    by_cases hneeds : b.ReadsFrom a ∧ s.handles.hasFactory (s.providerOf a) = true ∧
        s.providerOf a ≠ s.providerOf b
    · obtain ⟨f', hf', hone⟩ := hcrossing hneeds.1 hneeds.2.1 hneeds.2.2
      rw [hone, List.mem_singleton]
      constructor
      · intro heq
        obtain rfl : f = f' := (PlannedWait.mk.inj heq).2
        exact ⟨hneeds.1, hneeds.2.1, hneeds.2.2, hf'⟩
      · rintro ⟨-, -, -, hf⟩
        obtain rfl : f = f' := Except.ok.inj (hf.symm.trans hf')
        rfl
    · rw [hstaying hneeds]
      refine ⟨nofun, fun haw => absurd ⟨haw.1, haw.2.1, haw.2.2.1⟩ hneeds⟩
  unfold PlannedNode.awaits
  rw [List.mem_filterMap]
  constructor
  · rintro ⟨w, hw, hat⟩
    obtain ⟨a', ha', heq⟩ := Option.map_eq_some_iff.mp hat
    obtain ⟨rfl, rfl⟩ := Prod.mk.inj heq
    exact ⟨List.mem_of_getElem? ha', (hplace ha').mp hw⟩
  · rintro ⟨ha, haw⟩
    obtain ⟨u, hu⟩ := List.mem_iff_getElem?.mp ha
    exact ⟨⟨u, f⟩, (hplace hu).mpr haw, by rw [hu]; rfl⟩

/-- A node waits for no node twice. -/
theorem Connected.awaits_nodup (hc : Connected s.handles g t table p) (hl : LaidOut g vs order)
    (hp : Planned s g vs order t)
    (ho : (t.nodes.map (·.provider)).foldlM (openFor s.handles) ([], m) = .ok (table, m'))
    (hb : order[c]? = some b) (hn : p.nodes[c]? = some n) : (n.awaits order).Nodup := by
  obtain ⟨_, _, -, -, -, -, -, -, -, hwaits⟩ := hc.stands hp hn
  have honce : n.waits.Pairwise fun w w' => w.producer ≠ w'.producer := List.pairwise_map.mp hwaits.once
  unfold PlannedNode.awaits
  refine List.pairwise_filterMap.mpr (honce.imp_of_mem ?_)
  intro w w' hw hw' hne x hx x' hx' heq
  obtain ⟨a, ha, rfl⟩ := Option.map_eq_some_iff.mp hx
  obtain ⟨a', ha', rfl⟩ := Option.map_eq_some_iff.mp hx'
  obtain rfl : a = a' := (Prod.mk.inj heq).1
  -- A node that is waited for makes something, so it has one place.
  have hmem : (a, w.f) ∈ n.awaits order := List.mem_filterMap.mpr ⟨w, hw, by rw [ha]; rfl⟩
  obtain ⟨-, ⟨v, hmade, -⟩, -⟩ := (hc.mem_awaits hl hp ho hb hn).mp hmem
  exact hne (hl.makes_once ha ha' hmade hmade)

/-- What a planned node is: its kernel is looked up by the types of its inputs and told about them. -/
theorem Connected.allotted (hc : Connected s.handles g t table p) (hp : Planned s g vs order t)
    (hb : order[c]? = some b) (hn : p.nodes[c]? = some n) :
    ∃ q f kernel more, s.provider (s.providerOf b) = .ok q ∧
      s.catalog.kernels.lookup b.op b.domain (Session.inputTypes (typing t.values) b) (s.providerOf b) =
        .ok (n.definition, f) ∧
      f.instantiate (s.told g (typing t.values) b q) = (.ok kernel, more) ∧
      n.name = b.name ∧ n.provider = s.providerOf b ∧ n.info = s.told g (typing t.values) b q ∧
      n.kernel = kernel := by
  obtain ⟨b', choice, kernel, more, waits, hb', hdec, hmake, -, rfl⟩ := hc.decided hp hn
  obtain rfl : b = b' := Option.some.inj (hb.symm.trans hb')
  rw [hc.values] at hdec
  obtain ⟨-, -, -, hinfo, hlookup, hprovider⟩ := hdec.describes
  exact ⟨choice.provider, choice.factory, kernel, more, hdec.provider, hlookup, hinfo ▸ hmake, rfl,
    hprovider, hinfo, rfl⟩

/-- Planned nodes are where the graph has them placed. -/
theorem Connected.providers_eq (hc : Connected s.handles g t table p)
    (hp : Planned s g vs order t) : p.nodes.map (·.provider) = order.map s.providerOf := by
  have hpairs := congrArg (List.map (·.2)) (hc.nodes_eq hp)
  simpa [Function.comp_def] using hpairs

/-- Kernels are told the same of a node in whatever order its graph lists nodes. -/
theorem told_perm {ns : List Node} (hns : ns.Perm g.nodes) (hl : LaidOut g vs order)
    (hp : Planned s g vs order t) (hperm : order.Perm g.nodes) {vs' : List Value} {order' : List Node}
    {t' : Typed} (hl' : LaidOut { g with nodes := ns } vs' order')
    (hp' : Planned s { g with nodes := ns } vs' order' t') (hperm' : order'.Perm ns) {a : Node}
    (ha : a ∈ order') : Session.inputTypes (typing t'.values) a = Session.inputTypes (typing t.values) a ∧
      ∀ q, s.told { g with nodes := ns } (typing t'.values) a q = s.told g (typing t.values) a q := by
  have htyped := (hp.typing hl fun n hn => hperm.mem_iff.mpr hn).perm hns
  have hinputs := hp'.inputTypes_unique hl' hperm' htyped a (hperm'.mem_iff.mp ha)
  refine ⟨hinputs, fun q => ?_⟩
  unfold Session.told
  rw [hinputs, Session.outputTypes_congr hinputs]
  rfl

end Allotted

/-! ## Planned alike -/

/-- Two plans that come to the same, given the nodes of each in the order they are launched. -/
structure Alike (order order' : List Node) (p p' : Plan) : Prop where
  types : ∀ v, p'.typeOf? v = p.typeOf? v
  perm : order'.Perm order
  length : p.nodes.length = order.length
  length' : p'.nodes.length = order'.length
  /-- A node gets the same kernel, is told the same and waits for the same nodes, each once. -/
  nodes : ∀ {i j : Nat} {a : Node} {n n' : PlannedNode}, order[i]? = some a → p.nodes[i]? = some n →
    order'[j]? = some a → p'.nodes[j]? = some n' →
    n.name = a.name ∧ n'.name = a.name ∧ n'.definition = n.definition ∧ n'.info = n.info ∧
      n'.kernel = n.kernel ∧ n'.provider = n.provider ∧ (n'.awaits order').Perm (n.awaits order)
  streams : p'.streams.length = p.streams.length

section Main

variable {Job : Type} {s : Session} {g : Graph} {m m' : Machine Job} {p p' : Plan}
  {life life' : List LifeEvent}

/-- The planned types are the only ones that go along the edges of the graph. -/
theorem typing_of_build (hb : build s g m = ((.ok p, life), m')) :
    s.Typing g (fun v => (p.typeOf? v).getD .undefined) ∧
      ∀ τ, s.Typing g τ → ∀ v, p.typeOf? v = if v ∈ g.valueNames then some (τ v) else none := by
  obtain ⟨vs, order, t, table, hlay, hplan, -, hconnect⟩ := build_iff.mp hb
  have hl := layOut_eq_ok hlay
  have hperm := (layOut_spec hlay).1
  have hp := planned_of_layOut hlay hplan
  have hc := connect_eq_ok hconnect
  have hknown : ∀ v, v ∈ names p.values ↔ v ∈ g.valueNames := by
    intro v
    rw [hc.values, hp.named, hl.names_eq, g.valueNames_eq]
    exact ((hperm.flatMap_right _).append_left _).mem_iff
  constructor
  · have htypes : (fun v => (p.typeOf? v).getD .undefined) = typing t.values := by
      funext v
      rw [typeOf?_eq, hc.values]
      split
      · rfl
      next hunknown =>
        have hnone : number? t.values v = none := by simpa using number?_isNone.mpr hunknown
        simp [typing, hnone, typeAt]
    rw [htypes]
    exact hp.typing hl fun n hn => hperm.mem_iff.mpr hn
  · intro τ hτ v
    rw [typeOf?_eq]
    by_cases hv : v ∈ g.valueNames
    · rw [if_pos ((hknown v).mpr hv), if_pos hv, hc.values, hp.typing_unique hl hperm hτ v hv]
    · rw [if_neg fun hin => hv ((hknown v).mp hin), if_neg hv]

/-- Plans of one graph whose nodes are listed in two orders come to the same. -/
theorem alike_of_build {ns : List Node} (hns : ns.Perm g.nodes) {mc mc' : Machine Job}
    (hb : build s g m = ((.ok p, life), m'))
    (hb' : build s { g with nodes := ns } mc = ((.ok p', life'), mc')) :
    ∃ vs order vs' order', layOut g = .ok (vs, order) ∧
      layOut { g with nodes := ns } = .ok (vs', order') ∧ order.Perm g.nodes ∧
      Alike order order' p p' := by
  obtain ⟨htyping, honly⟩ := typing_of_build hb
  obtain ⟨-, honly'⟩ := typing_of_build hb'
  obtain ⟨vs, order, t, table, hlay, hplan, hopen, hconnect⟩ := build_iff.mp hb
  obtain ⟨vs', order', t', table', hlay', hplan', hopen', hconnect'⟩ := build_iff.mp hb'
  have hl := layOut_eq_ok hlay
  have hl' := layOut_eq_ok hlay'
  have hp := planned_of_layOut hlay hplan
  have hp' := planned_of_layOut hlay' hplan'
  have hc := connect_eq_ok hconnect
  have hc' := connect_eq_ok hconnect'
  have hperm : order.Perm g.nodes := (layOut_spec hlay).1
  have hlisted : order'.Perm ns := (layOut_spec hlay').1
  have hperm' : order'.Perm order := (hlisted.trans hns).trans hperm.symm
  refine ⟨vs, order, vs', order', hlay, hlay', hperm, ?_⟩
  constructor
  case types =>
    intro v
    rw [honly _ htyping v, honly' _ (htyping.perm hns) v]
    simp only [(Graph.valueNames_perm hns).mem_iff]
  case perm => exact hperm'
  case length => exact hc.length.trans hp.length
  case length' => exact hc'.length.trans hp'.length
  case nodes =>
    intro i j a n n' ha hn ha' hn'
    obtain ⟨q, f, kernel, more, hq, hlookup, hmake, hname, hprovider, hinfo, hkernel⟩ :=
      hc.allotted hp ha hn
    obtain ⟨q', f', kernel', more', hq', hlookup', hmake', hname', hprovider', hinfo', hkernel'⟩ :=
      hc'.allotted hp' ha' hn'
    -- The provider, the kernel and what it is told are the same.
    obtain ⟨hinputs, htold⟩ := told_perm hns hl hp hperm hl' hp' hlisted (List.mem_of_getElem? ha')
    obtain rfl : q = q' := Except.ok.inj (hq.symm.trans hq')
    have hsame := Prod.mk.inj (Except.ok.inj ((hinputs ▸ hlookup').symm.trans hlookup))
    rw [htold, hsame.2, hmake] at hmake'
    refine ⟨hname, hname', hsame.1, by rw [hinfo, hinfo', htold], ?_, by rw [hprovider, hprovider'], ?_⟩
    · rw [hkernel, hkernel']
      exact (Except.ok.inj (Prod.mk.inj hmake').1).symm
    · refine (List.perm_ext_iff_of_nodup (hc'.awaits_nodup hl' hp' hopen' ha' hn')
        (hc.awaits_nodup hl hp hopen ha hn)).mpr ?_
      rintro ⟨b, f⟩
      rw [hc.mem_awaits hl hp hopen ha hn, hc'.mem_awaits hl' hp' hopen' ha' hn', hperm'.mem_iff]
  case streams =>
    rw [hc.streams_length hp hopen, hc'.streams_length hp' hopen', hc.providers_eq hp, hc'.providers_eq hp']
    exact (((hperm'.map _).filter _).dedup).length_eq

/-- **Planning does not depend on the order in which nodes are listed.** Whatever machines they are
    planned on, a graph and the one with its nodes in another order are both planned or both refused. The
    plans come to the same: types, kernels and what these are told, whom a node waits for, and how many
    streams there are. The types are the only ones that go along the edges. -/
theorem build_ignores_order {setup : Setup} {m₀ m₁ : Machine Job} {events : List LogEvent}
    (hstart : Session.start setup m₀ = (.ok (s, m₁), events)) {ns : List Node} (hns : ns.Perm g.nodes)
    (m m' : Machine Job) :
    ((∃ p life m₂, build s g m = ((.ok p, life), m₂)) ↔
        ∃ p life m₂, build s { g with nodes := ns } m' = ((.ok p, life), m₂)) ∧
      ∀ {p p' : Plan} {life life' : List LifeEvent} {m₂ m₂' : Machine Job},
        build s g m = ((.ok p, life), m₂) → build s { g with nodes := ns } m' = ((.ok p', life'), m₂') →
        (∃ vs order vs' order', layOut g = .ok (vs, order) ∧
          layOut { g with nodes := ns } = .ok (vs', order') ∧ order.Perm g.nodes ∧
          Alike order order' p p') ∧
        s.Typing g (fun v => (p.typeOf? v).getD .undefined) ∧
        ∀ τ, s.Typing g τ → ∀ v, p.typeOf? v = if v ∈ g.valueNames then some (τ v) else none := by
  have hnewest := Session.start_newest hstart
  constructor
  · rw [exists_build_iff hnewest, exists_build_iff hnewest]
    constructor
    · rintro ⟨hwell, hown⟩
      exact ⟨hwell.perm hns, fun n hn => hown n (hns.mem_iff.mp hn)⟩
    · rintro ⟨hwell, hown⟩
      have hback : s.WellFormed { { g with nodes := ns } with nodes := g.nodes } _ := hwell.perm hns.symm
      exact ⟨hback, fun n hn => hown n (hns.mem_iff.mpr hn)⟩
  · intro p p' life life' m₂ m₂' hb hb'
    exact ⟨alike_of_build hns hb hb', typing_of_build hb⟩

/-- The nodes of `peersGraph`, listed from the last to the first. -/
def peersReversed : Graph := { peersGraph with nodes := peersGraph.nodes.reverse }

/-- The peers are launched in one order, however they are listed. -/
theorem build_ignores_order_peers :
    ∃ s m₁ events p life m₂ p' life' m₂',
      Session.start peersSetup ({} : Machine Unit).addTimeline.2 = (.ok (s, m₁), events) ∧
      build s peersGraph m₁ = ((.ok p, life), m₂) ∧
      build s peersReversed m₁ = ((.ok p', life'), m₂') ∧
      peersGraph.nodes.reverse.Perm peersGraph.nodes ∧
      (∃ vs order vs' order', layOut peersGraph = .ok (vs, order) ∧
        layOut peersReversed = .ok (vs', order') ∧ order.Perm peersGraph.nodes ∧
        Alike order order' p p') ∧
      s.Typing peersGraph (fun v => (p.typeOf? v).getD .undefined) := by
  have hbuilt : ∃ s m₁ events p life m₂ p' life' m₂',
      Session.start peersSetup ({} : Machine Unit).addTimeline.2 = (.ok (s, m₁), events) ∧
      build s peersGraph m₁ = ((.ok p, life), m₂) ∧
      build s peersReversed m₁ = ((.ok p', life'), m₂') :=
    ⟨_, _, _, _, _, _, _, _, _, rfl, rfl, rfl⟩
  obtain ⟨s, m₁, events, p, life, m₂, p', life', m₂', hstart, hb, hb'⟩ := hbuilt
  have hns : peersGraph.nodes.reverse.Perm peersGraph.nodes := List.reverse_perm _
  obtain ⟨halike, htyping, -⟩ := (build_ignores_order hstart hns m₁ m₁).2 hb hb'
  exact ⟨s, m₁, events, p, life, m₂, p', life', m₂', hstart, hb, hb', hns, halike, htyping⟩

end Main

end Plan

end OpGraph
