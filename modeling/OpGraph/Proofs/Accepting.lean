import OpGraph.Proofs.Opening
import OpGraph.Proofs.Propagation
import OpGraph.Proofs.Registration

/-!
# `Proofs.Accepting` — which graphs can be planned

A session plans exactly the well-formed graphs (`Session.WellFormed`). Each phase of planning is said by
what it needs of the graph: laying out needs distinct names and no cycle, nodes need providers, known
names and kernels, and wiring needs a wait function where a value leaves a provider that makes streams.
Streams themselves never fail, since a provider's device is its own (`Session.Standard`).
-/

namespace OpGraph

open Outcome

/-! ## Well-formed graphs -/

namespace Graph

/-- Names of the values of a graph, as often as they are defined: fed in, brought along, made. -/
def valueNames (g : Graph) : List String :=
  g.inputs.map (·.1) ++ g.initializers.map (·.1) ++ g.nodes.flatMap Node.makes

theorem valueNames_eq (g : Graph) :
    g.valueNames = (Plan.given g).map (·.1) ++ g.nodes.flatMap Node.makes := by
  simp [valueNames, Plan.given, Function.comp_def]

theorem products_names (g : Graph) : g.products.map (·.1) = g.nodes.flatMap Node.makes := by
  have hzip : ∀ (ns : List Node) (k : Nat),
      ((ns.zipIdx k).flatMap fun n => n.1.makes.map fun v => (v, n.2)).map (·.1) =
        ns.flatMap Node.makes := by
    intro ns
    induction ns with
    | nil => exact fun _ => rfl
    | cons n rest ih =>
        intro k
        rw [List.zipIdx_cons, List.flatMap_cons, List.map_append, ih, List.flatMap_cons, List.map_map]
        congr 1
        exact List.map_id _
  exact hzip g.nodes 0

end Graph

/-- What a session needs of a graph, where `K` says what it takes for a node to get a kernel when values
    have types. -/
structure Session.WellFormed (s : Session) (g : Graph) (K : (String → DataType) → Node → Prop) : Prop where
  /-- No name is defined twice. -/
  distinct : g.valueNames.Nodup
  /-- No node reads from itself, over however many others. -/
  acyclic : g.Acyclic
  /-- Every node has a provider that is there. -/
  providers : ∀ n ∈ g.nodes, ∃ p ∈ s.providers, p.id = s.providerOf n
  /-- What nodes read and the graph gives back is defined. -/
  reads : ∀ n ∈ g.nodes, ∀ v ∈ n.reads, v ∈ g.valueNames
  outputs : ∀ v ∈ g.outputs, v ∈ g.valueNames
  /-- With types going along the edges, every node gets a kernel. -/
  kernels : ∃ τ, s.Typing g τ ∧ ∀ n ∈ g.nodes, K τ n
  /-- A node can wait for what it reads from another provider that makes streams. -/
  edges : ∀ a ∈ g.nodes, ∀ b ∈ g.nodes, ∀ v ∈ a.makes, v ∈ b.reads →
    s.handles.hasFactory (s.providerOf a) → s.providerOf a ≠ s.providerOf b →
    ∃ f, s.handles.lookupWait (s.providerOf a) (s.providerOf b) = .ok f
  /-- The host can wait for what the graph gives back. -/
  results : ∀ a ∈ g.nodes, ∀ v ∈ a.makes, v ∈ g.outputs → s.handles.hasFactory (s.providerOf a) →
    ∃ f, s.handles.lookupWait (s.providerOf a) .cpu = .ok f

/-! ## Sessions -/

/-- The providers there are: the host, simulated devices with or without waits, graphics hardware, and
    providers that compute on the host. -/
inductive Provider.Usual : Provider → Prop
  | host : Usual Provider.host
  | simulated (timeline : Nat) (id : ProviderId) (peers : List ProviderId) :
      Usual (Provider.simulated timeline id peers)
  | unwired (timeline : Nat) (id : ProviderId) : Usual (Provider.unwired timeline id)
  | graphics (context : GraphicsContext) : Usual (Provider.graphics context)
  | plain (id : ProviderId) (threshold : Option Severity) : Usual (Provider.plain id threshold)

/-- Their devices are their own. -/
theorem Provider.Usual.own {p : Provider} (h : p.Usual) {d : Device} (hd : p.device = some d) :
    d.provider = p.id := by
  cases h <;> cases hd <;> rfl

/-- The device of a provider, if it makes streams, is its own. -/
def StreamHandles.Owns (h : StreamHandles) (id : ProviderId) : Prop :=
  ∀ d, Assoc.find? id h.factories = some d → d.provider = id

namespace Session

/-- The node has some kernel that takes its inputs, is not too new and can be created. -/
def SomeKernel (s : Session) (g : Graph) (τ : String → DataType) (n : Node) : Prop :=
  ∃ p, s.provider (s.providerOf n) = .ok p ∧ ∃ e ∈ s.catalog.kernels.entries,
    e.1.serves n.op n.domain (inputTypes τ n) (s.providerOf n) ∧
    e.2.descriptor.signature.version ≤ s.config.newest ∧
    (e.2.descriptor.create e.2.descriptor.signature.version (s.told g τ n p)).succeeded

/-- What holds of a session with the usual providers: devices are their providers' own, and factories
    go by the session's version. -/
structure Standard (s : Session) : Prop where
  devices : ∀ e ∈ s.handles.factories, e.2.provider = e.1
  newest : ∀ e ∈ s.catalog.kernels.entries, e.2.newest = s.config.newest

theorem find?_eq_some {ps : List Provider} {id : ProviderId} :
    (∃ p, find? ps id = some p) ↔ ∃ p ∈ ps, p.id = id := by
  unfold find?
  rw [← Option.isSome_iff_exists, List.find?_isSome]
  simp

theorem exists_provider {s : Session} {id : ProviderId} :
    (∃ p, s.provider id = .ok p) ↔ ∃ p ∈ s.providers, p.id = id := by
  rw [← find?_eq_some]
  unfold provider
  cases find? s.providers id <;> simp

end Session

/-- Registering a domain keeps the version. -/
theorem Catalog.enroll_newest (c : Catalog) (domain : String) (ops : List Descriptor) :
    (c.enroll domain ops).2.newest = c.newest := by
  unfold Catalog.enroll
  cases c.stageAll domain ops <;> rfl

/-- Factories in a catalog that comes about go by the catalog's version. -/
theorem Catalog.Reachable.newest {c : Catalog} (h : c.Reachable) :
    ∀ e ∈ c.kernels.entries, e.2.newest = c.newest := by
  induction h with
  | empty newest => simp
  | @register c c' domain ops out hc hreg ih =>
      have hcat : (c.enroll domain ops).2 = c' := by
        obtain ⟨_, -, hpair⟩ := map_eq_ok.mp hreg
        exact (Prod.mk.inj hpair).1
      obtain ⟨e, -, heq⟩ | ⟨st, hst, heq⟩ := hc.lockstep.enroll_cases domain ops
      · rw [← hcat, heq]
        exact ih
      · obtain ⟨bs, -, hkernels⟩ := (Gathered.stageAll hst).kernels
        rw [← hcat, heq]
        intro e he
        rcases List.mem_append.mp he with hold | hnew
        · exact ih e hold
        · rw [hkernels] at hnew
          obtain ⟨op, -, rfl⟩ := List.mem_map.mp hnew
          rfl

namespace Session

variable {Job : Type}

/-- Providers that are brought up are usual. -/
theorem bringUp_usual {adapter : Except String GraphicsContext} {m m' : Machine Job} {k : ProviderKind}
    {p : Provider} (h : bringUp adapter m k = .ok (p, m')) : p.Usual := by
  unfold bringUp at h
  cases k with
  | cpu =>
      obtain ⟨rfl, -⟩ := Prod.mk.inj (Except.ok.inj h)
      exact .host
  | sim =>
      obtain ⟨rfl, -⟩ := Prod.mk.inj (Except.ok.inj h)
      exact .simulated _ _ _
  | gpu =>
      cases adapter with
      | ok context =>
          obtain ⟨rfl, -⟩ := Prod.mk.inj (Except.ok.inj h)
          exact .graphics context
      | error detail => cases h

/-- A session brings up usual providers only, so what holds of these and of those it is given holds of all. -/
theorem gather_forall {P : Provider → Prop} {setup : Setup} {m m' : Machine Job} {ps : List Provider}
    (husual : ∀ p, p.Usual → P p) (hgiven : ∀ p ∈ setup.providers, P p)
    (h : gather setup m = .ok (ps, m')) : ∀ p ∈ ps, P p := by
  have hone : ∀ {ps : List Provider} {p : Provider}, (∀ q ∈ ps, P q) → P p → ∀ q ∈ ps ++ [p], P q := by
    intro ps p hps hp q hq
    rcases List.mem_append.mp hq with hq | hq
    · exact hps q hq
    · exact List.mem_singleton.mp hq ▸ hp
  refine gather_induction (P := fun ps _ => ∀ p ∈ ps, P p) nofun
    (fun ps p hps hp _ => hone hps (hgiven p hp)) (fun ps m₁ k p m₂ hps hup _ => hone hps (husual p ?_))
    (fun ps m₁ hps _ => hone hps (husual _ .host)) h
  exact bringUp_usual hup

/-- A session that is given usual providers has no others. -/
theorem gather_usual {setup : Setup} {m m' : Machine Job} {ps : List Provider}
    (hgiven : ∀ p ∈ setup.providers, p.Usual) (h : gather setup m = .ok (ps, m')) : ∀ p ∈ ps, p.Usual :=
  gather_forall (fun _ => id) hgiven h

/-- Registering domains keeps the version. -/
theorem register_newest {ds : List (String × List Descriptor)} {c c' : Catalog}
    (h : register c ds = .ok c') : c'.newest = c.newest :=
  foldlM_induction (fun (c' : Catalog) _ => c'.newest = c.newest)
    (fun c₁ _ d c₂ hc hd => by
      obtain ⟨⟨c₃, out⟩, hreg, rfl⟩ := map_eq_ok.mp hd
      obtain ⟨_, -, hpair⟩ := map_eq_ok.mp hreg
      obtain ⟨rfl, -⟩ := Prod.mk.inj hpair
      exact (c₁.enroll_newest d.1 d.2).trans hc)
    ds c [] rfl h

/-- Factories of a session go by the session's version. -/
theorem start_newest {setup : Setup} {m m' : Machine Job} {s : Session} {events : List LogEvent}
    (h : start setup m = (.ok (s, m'), events)) :
    ∀ e ∈ s.catalog.kernels.entries, e.2.newest = s.config.newest := by
  have hs := started h
  intro e he
  rw [(start_reachable h).newest e he, register_newest hs.catalog, hs.config]

/-- **A session with the usual providers is standard.** -/
theorem start_standard {setup : Setup} {m m' : Machine Job} {s : Session} {events : List LogEvent}
    (hgiven : ∀ p ∈ setup.providers, p.Usual) (h : start setup m = (.ok (s, m'), events)) :
    s.Standard := by
  have hs := started h
  refine ⟨fun e he => ?_, start_newest h⟩
  rw [hs.handles] at he
  obtain ⟨p, hp, hid, hdevice⟩ := wire_factories he
  rw [← hid]
  exact (gather_usual hgiven hs.providers p hp).own hdevice

end Session

namespace Plan

variable {Job : Type} {s : Session} {g : Graph}

/-! ## Laying out -/

theorem exists_defineAll {vs : List Value} {new : List (String × DataType)}
    (h : (names vs ++ new.map (·.1)).Nodup) : ∃ vs', defineAll vs new = .ok vs' := by
  induction new generalizing vs with
  | nil => exact ⟨vs, rfl⟩
  | cons v rest ih =>
      rw [List.map_cons, List.append_cons] at h
      have hfresh : v.1 ∉ names vs := fun hmem =>
        (List.nodup_append.mp (List.nodup_append.mp h).1).2.2 v.1 hmem v.1 (by simp) rfl
      have hdefine : define vs v.1 v.2 = .ok (vs ++ [blank v]) := by
        simp [define, number?_isNone.mpr hfresh, blank]
      have hnames : names (vs ++ [blank v]) = names vs ++ [v.1] := by simp [names, blank]
      obtain ⟨vs', hrest⟩ := ih (hnames ▸ h)
      refine ⟨vs', ?_⟩
      unfold defineAll at hrest ⊢
      rw [List.foldlM_cons, bind_eq_ok]
      exact ⟨_, hdefine, hrest⟩

theorem firstRepeat?_eq_none {xs : List String} : ∀ {seen : List String},
    firstRepeat? seen xs = none ↔ xs.Nodup ∧ ∀ x ∈ xs, x ∉ seen := by
  induction xs with
  | nil => simp [firstRepeat?]
  | cons x rest ih =>
      intro seen
      unfold firstRepeat?
      by_cases hx : x ∈ seen
      · simp [hx]
      · rw [if_neg hx, ih]
        simp only [List.nodup_cons, List.mem_cons, not_or, forall_eq_or_imp]
        constructor
        · rintro ⟨hn, hrest⟩
          exact ⟨⟨fun hmem => (hrest x hmem).1 rfl, hn⟩, hx, fun y hy => (hrest y hy).2⟩
        · rintro ⟨⟨hnew, hn⟩, -, hrest⟩
          exact ⟨hn, fun y hy => ⟨fun heq => hnew (heq ▸ hy), hrest y hy⟩⟩

/-- Nodes in order are the nodes of the graph. -/
theorem perm_nodes {order : List Nat} (h : Graph.Legal g [] order)
    (hlen : order.length = g.nodes.length) : (order.filterMap (g.nodes[·]?)).Perm g.nodes := by
  refine ((h.perm hlen).filterMap _).trans (List.Perm.of_eq ?_)
  apply List.ext_getElem?
  intro i
  rw [getElem?_filterMap_of_isSome fun a ha => by simpa using ha]
  by_cases hi : i < g.nodes.length
  · simp [hi]
  · simp [Nat.le_of_not_lt hi]

theorem made_names (order : List Nat) :
    (made g order).map (·.1) = (order.filterMap (g.nodes[·]?)).flatMap Node.makes := by
  simp [made, List.map_flatMap, Function.comp_def]

theorem names_blank (new : List (String × DataType)) : names (new.map blank) = new.map (·.1) := by
  simp [names, blank]

/-- The order a layout goes by, and what it needs. -/
theorem layOut_spec {vs : List Value} {nodes : List Node} (h : layOut g = .ok (vs, nodes)) :
    nodes.Perm g.nodes ∧ g.valueNames.Nodup ∧ g.Acyclic := by
  have hl := layOut_eq_ok h
  obtain ⟨vs₀, order, -, hrepeat, horder, -, rfl⟩ := layOut_iff.mp h
  obtain ⟨hlegal, hlen⟩ := Graph.order_legal horder
  have hperm := perm_nodes hlegal hlen
  refine ⟨hperm, ?_, hlegal.acyclic (firstRepeat?_eq_none.mp hrepeat).1 hlen⟩
  rw [g.valueNames_eq]
  exact (((hperm.flatMap_right _).append_left _).nodup_iff).mp (hl.names_eq ▸ hl.distinct)

/-- **A graph can be laid out exactly if its names are distinct and it has no cycle.** -/
theorem exists_layOut (hdistinct : g.valueNames.Nodup) (hacyclic : g.Acyclic) :
    ∃ vs nodes, layOut g = .ok (vs, nodes) := by
  rw [g.valueNames_eq] at hdistinct
  have hproducts : (g.products.map (·.1)).Nodup := by
    rw [g.products_names]
    exact (List.nodup_append.mp hdistinct).2.1
  obtain ⟨order, horder⟩ := hacyclic.exists_order hproducts
  obtain ⟨hlegal, hlen⟩ := Graph.order_legal horder
  have hfirst : (names [] ++ (given g).map (·.1)).Nodup := by
    simpa [names] using (List.nodup_append.mp hdistinct).1
  obtain ⟨vs₀, hgiven⟩ := exists_defineAll hfirst
  obtain ⟨hvs₀, -⟩ := defineAll_eq_ok hgiven (by simp [names])
  have hmade : (names vs₀ ++ (made g order).map (·.1)).Nodup := by
    rw [hvs₀, List.nil_append, names_blank, made_names]
    exact ((((perm_nodes hlegal hlen).flatMap_right _).append_left _).nodup_iff).mpr hdistinct
  obtain ⟨vs₁, hmade⟩ := exists_defineAll hmade
  have hrepeat : firstRepeat? [] (g.products.map (·.1)) = none :=
    firstRepeat?_eq_none.mpr ⟨hproducts, by simp⟩
  exact ⟨vs₁, _, layOut_iff.mpr ⟨vs₀, order, hgiven, hrepeat, horder, hmade, rfl⟩⟩

/-! ## Streams -/

theorem streamNumber?_isSome {table : StreamTable} {id : ProviderId} :
    (streamNumber? table id).isSome ↔ id ∈ table.map (·.1) := by
  unfold streamNumber?
  rw [List.findIdx?_isSome, List.any_eq_true]
  simp

theorem hasFactory_iff {h : StreamHandles} {id : ProviderId} :
    h.hasFactory id ↔ ∃ d, Assoc.find? id h.factories = some d := by
  unfold StreamHandles.hasFactory Assoc.has Assoc.find?
  rw [← Option.isSome_iff_exists, Option.isSome_map, List.find?_isSome, List.any_eq_true]

/-- A stream can be made exactly for a provider whose device is its own. -/
theorem exists_createStream {h : StreamHandles} {id : ProviderId} (hfactory : h.hasFactory id)
    (m : Machine Job) : (∃ st, h.createStream id m = .ok st) ↔ h.Owns id := by
  obtain ⟨d, hd⟩ := hasFactory_iff.mp hfactory
  unfold StreamHandles.createStream StreamHandles.Owns Device.openStream
  simp only [hd, Option.some.injEq, forall_eq']
  by_cases hown : id = d.provider
  · rw [if_neg (not_not.mpr hown)]
    cases d <;> exact ⟨fun _ => hown.symm, fun _ => ⟨_, rfl⟩⟩
  · rw [if_pos hown]
    constructor
    · rintro ⟨st, hst⟩
      cases hst
    · exact fun heq => absurd heq.symm hown

/-- A provider whose device is its own can be given a stream. -/
theorem exists_openFor {h : StreamHandles} {id : ProviderId} (hown : h.Owns id)
    (acc : StreamTable × Machine Job) : ∃ acc', openFor h acc id = .ok acc' := by
  unfold openFor
  by_cases hopen : ((streamNumber? acc.1 id).isNone && h.hasFactory id) = true
  · rw [if_pos hopen]
    obtain ⟨st, hst⟩ := (exists_createStream (Bool.and_eq_true_iff.mp hopen).2 acc.2).mpr hown
    exact ⟨_, map_eq_ok.mpr ⟨st, hst, rfl⟩⟩
  · rw [if_neg hopen]
    exact ⟨acc, rfl⟩

/-- Exactly the providers that make streams have got one. -/
theorem streams_opened {h : StreamHandles} {ids : List ProviderId} {m m' : Machine Job}
    {table : StreamTable} (hf : ids.foldlM (openFor h) ([], m) = .ok (table, m')) {id : ProviderId} :
    (streamNumber? table id).isSome ↔ id ∈ ids ∧ h.hasFactory id := by
  rw [streamNumber?_isSome]
  refine foldlM_induction
    (fun (acc : StreamTable × Machine Job) (seen : List ProviderId) =>
      id ∈ acc.1.map (·.1) ↔ id ∈ seen ∧ h.hasFactory id)
    (fun acc seen next acc' hacc hnext => ?_) ids ([], m) [] (by simp) hf
  unfold openFor at hnext
  rw [List.mem_append, List.mem_singleton]
  by_cases hopen : ((streamNumber? acc.1 next).isNone && h.hasFactory next) = true
  · rw [if_pos hopen] at hnext
    obtain ⟨⟨stream, m₁⟩, -, rfl⟩ := map_eq_ok.mp hnext
    have hfactory := (Bool.and_eq_true_iff.mp hopen).2
    simp only [List.map_append, List.mem_append, hacc, List.map_cons, List.map_nil, List.mem_singleton]
    constructor
    · rintro (⟨hin, hhas⟩ | rfl)
      · exact ⟨.inl hin, hhas⟩
      · exact ⟨.inr rfl, hfactory⟩
    · rintro ⟨hin | rfl, hhas⟩
      · exact .inl ⟨hin, hhas⟩
      · exact .inr rfl
  · rw [if_neg hopen] at hnext
    obtain rfl := Except.ok.inj hnext
    rw [hacc]
    constructor
    · exact fun ⟨hin, hhas⟩ => ⟨.inl hin, hhas⟩
    · rintro ⟨hin | rfl, hhas⟩
      · exact ⟨hin, hhas⟩
      · -- It makes streams, so it has one already.
        have hsome : (streamNumber? acc.1 id).isSome := by
          cases hn : streamNumber? acc.1 id <;> simp [hn, hhas] at hopen ⊢
        exact hacc.mp (streamNumber?_isSome.mp hsome)

/-! ## Waits -/

section Waits

variable {h : StreamHandles} {nodes : List PlannedNode} {consumer producer : PlannedNode} {u : Nat}

theorem exists_edgeWait (hu : nodes[u]? = some producer) :
    (∃ o, edgeWait h nodes consumer u = .ok o) ↔
      (producer.stream.isSome → producer.provider ≠ consumer.provider →
        ∃ f, h.lookupWait producer.provider consumer.provider = .ok f) := by
  unfold edgeWait
  simp only [hu]
  by_cases hskip : (producer.stream.isNone || decide (producer.provider = consumer.provider)) = true
  · rw [if_pos hskip]
    refine ⟨fun _ hstream hne => ?_, fun _ => ⟨none, rfl⟩⟩
    cases hs : producer.stream <;> simp [hs, hne] at hskip hstream
  · rw [if_neg hskip]
    have hneeded : producer.stream.isSome ∧ producer.provider ≠ consumer.provider := by
      rw [Bool.or_eq_true, not_or] at hskip
      exact ⟨by simpa [Option.isSome_iff_ne_none] using hskip.1, by simpa using hskip.2⟩
    constructor
    · rintro ⟨o, ho⟩ - -
      obtain ⟨f, hf, -⟩ := map_eq_ok.mp ho
      exact ⟨f, hf⟩
    · intro hwait
      obtain ⟨f, hf⟩ := hwait hneeded.1 hneeded.2
      exact ⟨_, map_eq_ok.mpr ⟨f, hf, rfl⟩⟩

/-- A node that can wait for each producer gets its waits. -/
theorem exists_withWaits {vs : List Value}
    (hw : ∀ u ∈ producersOf vs consumer, ∃ o, edgeWait h nodes consumer u = .ok o) :
    ∃ n, withWaits h vs nodes consumer = .ok n := by
  have hadd : ∀ waits, ∀ u ∈ producersOf vs consumer,
      ∃ waits', addWait h nodes consumer waits u = .ok waits' := by
    intro waits u hu
    unfold addWait
    split
    · exact ⟨waits, rfl⟩
    · obtain ⟨o, ho⟩ := hw u hu
      exact ⟨_, map_eq_ok.mpr ⟨o, ho, rfl⟩⟩
  obtain ⟨waits, hwaits⟩ := exists_foldlM_eq_ok hadd []
  exact ⟨_, map_eq_ok.mpr ⟨waits, hwaits, rfl⟩⟩

theorem exists_outputWait {x : Value} (hx : x.producer = some u) (hu : nodes[u]? = some producer) :
    (∃ o, outputWait h nodes x = .ok o) ↔
      (producer.stream.isSome → ∃ f, h.lookupWait producer.provider .cpu = .ok f) := by
  unfold outputWait
  simp only [hx, hu]
  cases hs : producer.stream with
  | none => exact ⟨fun _ => nofun, fun _ => ⟨none, rfl⟩⟩
  | some k =>
      rw [if_neg (by simp)]
      constructor
      · rintro ⟨o, ho⟩ -
        obtain ⟨f, hf, -⟩ := map_eq_ok.mp ho
        exact ⟨f, hf⟩
      · intro hwait
        obtain ⟨f, hf⟩ := hwait rfl
        exact ⟨_, map_eq_ok.mpr ⟨f, hf, rfl⟩⟩

end Waits

/-! ## What planned nodes are to each other -/

section Wired

variable {vs : List Value} {nodes : List Node} {t : Typed} {table : StreamTable} {m m' : Machine Job}

/-- The planned node of a node. -/
theorem Planned.node (hp : Planned s g vs nodes t) {j : Nat} {n : Node} (hj : nodes[j]? = some n) :
    ∃ c kernel, t.nodes[j]? = some (c.node n kernel) ∧ Decided s g t.values n c ∧
      (c.node n kernel).provider = s.providerOf n := by
  obtain ⟨c, kernel, -, hplanned, hdec, -⟩ := hp.decided_at hj
  obtain ⟨-, -, -, -, -, hprovider⟩ := hdec.describes
  exact ⟨c, kernel, hplanned, hdec, hprovider⟩

/-- The node of a planned node. -/
theorem Planned.origin (hp : Planned s g vs nodes t) {j : Nat} {a : PlannedNode}
    (ha : t.nodes[j]? = some a) :
    ∃ n, nodes[j]? = some n ∧ a.provider = s.providerOf n ∧
      n.inputs.mapM (resolve t.values n.name) = .ok a.inputs := by
  obtain ⟨n, c, kernel, life, hn, hdec, -, rfl⟩ := hp.decided ha
  obtain ⟨-, -, -, -, -, hprovider⟩ := hdec.describes
  exact ⟨n, hn, hprovider, hdec.inputs⟩

/-- A value names the planned node that makes it, and none if nobody does. -/
theorem Planned.producer_iff (hl : LaidOut g vs nodes) (hp : Planned s g vs nodes t) {v u : Nat} :
    ((t.values[v]?).bind fun x => x.producer) = some u ↔
      ∃ a, t.nodes[u]? = some a ∧ some v ∈ a.outputs := by
  have hmakes : ∀ {u a}, t.nodes[u]? = some a → some v ∈ a.outputs →
      ((t.values[v]?).bind fun x => x.producer) = some u := by
    intro u a ha hv
    obtain ⟨n, c, kernel, life, -, hdec, -, rfl⟩ := hp.decided ha
    obtain ⟨i, hi⟩ := List.mem_iff_getElem?.mp hv
    have hlen : i < c.types.length := by
      rw [hdec.types_length]
      exact (List.getElem?_eq_some_iff.mp hi).1
    have hzip : (some v, c.types[i]) ∈ c.outputs.zip c.types :=
      List.mem_iff_getElem?.mpr ⟨i, List.getElem?_zip_eq_some.mpr ⟨hi, List.getElem?_eq_getElem hlen⟩⟩
    obtain ⟨name, hval⟩ := hp.made ha hzip
    rw [hval]
    rfl
  constructor
  · intro h
    by_cases hany : ∃ a ∈ t.nodes, some v ∈ a.outputs
    · obtain ⟨a, ha, hv⟩ := hany
      obtain ⟨k, hk⟩ := List.mem_iff_getElem?.mp ha
      obtain rfl : k = u := Option.some.inj ((hmakes hk hv).symm.trans h)
      exact ⟨a, hk, hv⟩
    · -- A value nobody makes is as it was laid out.
      rw [hp.rest fun n hn hv => hany ⟨n, hn, hv⟩, hl.values, List.getElem?_map] at h
      cases hx : (given g ++ nodes.flatMap fun (n : Node) => n.makes.map fun v =>
        (v, DataType.undefined))[v]? <;> simp [hx, blank] at h
  · rintro ⟨a, ha, hv⟩
    exact hmakes ha hv

/-- The producers of a planned node are the places of nodes that make what its node reads. -/
theorem Planned.mem_producersOf (hl : LaidOut g vs nodes) (hp : Planned s g vs nodes t) {j u : Nat}
    {b : Node} {pb : PlannedNode} (hj : nodes[j]? = some b) (hb : t.nodes[j]? = some pb) :
    u ∈ producersOf t.values pb ↔ ∃ a, nodes[u]? = some a ∧ ∃ v ∈ a.makes, v ∈ b.reads := by
  obtain ⟨b', hj', -, hinputs⟩ := hp.origin hb
  obtain rfl : b = b' := Option.some.inj (hj.symm.trans hj')
  unfold producersOf
  simp only [List.mem_filterMap, Option.bind_eq_some_iff]
  constructor
  · rintro ⟨_, hin, v, rfl, hproducer⟩
    obtain ⟨pa, hpa, hout⟩ := (hp.producer_iff hl).mp (Option.bind_eq_some_iff.mpr hproducer)
    obtain ⟨a, name, ha, hmade, hnum⟩ := hp.makes hpa hout
    obtain ⟨name', hread, hnum'⟩ := mem_of_resolved hinputs hin
    rw [hp.named] at hnum'
    obtain rfl : name = name' := Option.some.inj (hnum.symm.trans hnum')
    exact ⟨a, ha, name, hmade, hread⟩
  · rintro ⟨a, ha, name, hmade, hread⟩
    obtain ⟨v, hin, hnum⟩ := resolved_mem hinputs hread
    rw [hp.named] at hnum
    have hout := hp.makes_of_mem hl ha hmade hnum
    exact ⟨some v, hin, v, rfl, Option.bind_eq_some_iff.mp ((hp.producer_iff hl).mpr hout)⟩

/-- A planned node has a stream exactly if its provider makes streams. -/
theorem placed_isSome
    (ho : (t.nodes.map (·.provider)).foldlM (openFor s.handles) ([], m) = .ok (table, m'))
    {a : PlannedNode} (ha : a ∈ t.nodes) :
    (place table a).stream.isSome ↔ s.handles.hasFactory a.provider := by
  show (streamNumber? table a.provider).isSome ↔ _
  rw [streams_opened ho]
  exact and_iff_right (List.mem_map_of_mem ha)

/-- Waits between nodes can be planned exactly if there is a way to wait on every edge that needs it. -/
theorem edges_iff (hl : LaidOut g vs nodes) (hp : Planned s g vs nodes t)
    (ho : (t.nodes.map (·.provider)).foldlM (openFor s.handles) ([], m) = .ok (table, m')) :
    (∀ pb ∈ t.nodes, ∀ u ∈ producersOf t.values pb,
        ∃ o, edgeWait s.handles (t.nodes.map (place table)) (place table pb) u = .ok o) ↔
      ∀ a ∈ nodes, ∀ b ∈ nodes, ∀ v ∈ a.makes, v ∈ b.reads →
        s.handles.hasFactory (s.providerOf a) → s.providerOf a ≠ s.providerOf b →
        ∃ f, s.handles.lookupWait (s.providerOf a) (s.providerOf b) = .ok f := by
  have hplaced : ∀ {u : Nat} {pa : PlannedNode}, t.nodes[u]? = some pa →
      (t.nodes.map (place table))[u]? = some (place table pa) := by
    intro u pa hpa
    rw [List.getElem?_map, hpa, Option.map_some]
  constructor
  · intro hall a ha b hb v hmade hread hfactory hne
    obtain ⟨u, hu⟩ := List.mem_iff_getElem?.mp ha
    obtain ⟨j, hj⟩ := List.mem_iff_getElem?.mp hb
    obtain ⟨ca, ka, hpa, -, hproviderA⟩ := hp.node hu
    obtain ⟨cb, kb, hpb, -, hproviderB⟩ := hp.node hj
    have hproducer := (hp.mem_producersOf hl hj hpb).mpr ⟨a, hu, v, hmade, hread⟩
    have hwait := (exists_edgeWait (hplaced hpa)).mp (hall _ (List.mem_of_getElem? hpb) u hproducer)
    have hstream := (placed_isSome ho (List.mem_of_getElem? hpa)).mpr (hproviderA ▸ hfactory)
    rw [← hproviderA, ← hproviderB] at hne ⊢
    exact hwait hstream hne
  · intro hall pb hpb u hu
    obtain ⟨j, hj⟩ := List.mem_iff_getElem?.mp hpb
    obtain ⟨b, hb, hproviderB, -⟩ := hp.origin hj
    obtain ⟨a, ha, v, hmade, hread⟩ := (hp.mem_producersOf hl hb hj).mp hu
    obtain ⟨ca, ka, hpa, -, hproviderA⟩ := hp.node ha
    refine (exists_edgeWait (hplaced hpa)).mpr fun hstream hne => ?_
    have hfactory := (placed_isSome ho (List.mem_of_getElem? hpa)).mp hstream
    rw [hproviderA] at hfactory
    show ∃ f, s.handles.lookupWait (ca.node a ka).provider pb.provider = .ok f
    rw [hproviderA, hproviderB]
    refine hall a (List.mem_of_getElem? ha) b (List.mem_of_getElem? hb) v hmade hread hfactory ?_
    rwa [← hproviderA, ← hproviderB]

/-- The wired node of a node has its provider, and a stream if that makes streams. -/
theorem exists_wired (hp : Planned s g vs nodes t)
    (ho : (t.nodes.map (·.provider)).foldlM (openFor s.handles) ([], m) = .ok (table, m'))
    {wired : List PlannedNode}
    (hw : wired.map (fun n => (n.provider, n.stream)) =
      (t.nodes.map (place table)).map fun n => (n.provider, n.stream)) {u : Nat} {a : Node}
    (ha : nodes[u]? = some a) : ∃ n, wired[u]? = some n ∧ n.provider = s.providerOf a ∧
      (n.stream.isSome ↔ s.handles.hasFactory (s.providerOf a)) := by
  obtain ⟨c, k, hpa, -, hprovider⟩ := hp.node ha
  have hu := congrArg (·[u]?) hw
  simp only [List.getElem?_map, hpa, Option.map_some] at hu
  obtain ⟨n, hn, hpair⟩ := Option.map_eq_some_iff.mp hu
  obtain ⟨hnp, hns⟩ := Prod.mk.inj hpair
  refine ⟨n, hn, hnp.trans hprovider, ?_⟩
  rw [hns, ← hprovider]
  exact placed_isSome ho (List.mem_of_getElem? hpa)

/-- The wait for a value can be planned exactly if the host can wait for who makes it. -/
theorem exists_outputWait_iff (hl : LaidOut g vs nodes) (hp : Planned s g vs nodes t)
    (ho : (t.nodes.map (·.provider)).foldlM (openFor s.handles) ([], m) = .ok (table, m'))
    {wired : List PlannedNode}
    (hw : wired.map (fun n => (n.provider, n.stream)) =
      (t.nodes.map (place table)).map fun n => (n.provider, n.stream)) {name : String} {i : Nat} {x : Value}
    (hx : t.values[i]? = some x) (hnum : (names vs)[i]? = some name) :
    (∃ wait, outputWait s.handles wired x = .ok wait) ↔
      ∀ a ∈ nodes, name ∈ a.makes → s.handles.hasFactory (s.providerOf a) →
        ∃ f, s.handles.lookupWait (s.providerOf a) .cpu = .ok f := by
  cases hproducer : x.producer with
  | none =>
      -- Nobody makes it.
      have hnobody : ∀ a ∈ nodes, name ∉ a.makes := by
        intro a ha hmade
        obtain ⟨u, hu⟩ := List.mem_iff_getElem?.mp ha
        have hmakes := (hp.producer_iff hl).mpr (hp.makes_of_mem hl hu hmade hnum)
        rw [hx, Option.bind_some, hproducer] at hmakes
        cases hmakes
      refine ⟨fun _ a ha hmade => absurd hmade (hnobody a ha), fun _ => ⟨none, ?_⟩⟩
      simp [outputWait, hproducer]
  | some u =>
      obtain ⟨pa, hpa, hout⟩ := (hp.producer_iff hl).mp (by rw [hx]; exact hproducer)
      obtain ⟨a, name', ha, hmade, hnum'⟩ := hp.makes hpa hout
      obtain rfl : name = name' := Option.some.inj (hnum.symm.trans hnum')
      obtain ⟨n, hn, hprovider, hstream⟩ := exists_wired hp ho hw ha
      rw [exists_outputWait hproducer hn, hstream, hprovider]
      constructor
      · intro hwait b hb hmade'
        obtain ⟨k, hk⟩ := List.mem_iff_getElem?.mp hb
        obtain rfl := hl.makes_once ha hk hmade hmade'
        obtain rfl : a = b := Option.some.inj (ha.symm.trans hk)
        exact hwait
      · intro hall
        exact hall a (List.mem_of_getElem? ha) hmade

/-- An output can be planned exactly if it is defined and the host can wait for who makes it. -/
theorem exists_planOutput (hl : LaidOut g vs nodes) (hp : Planned s g vs nodes t)
    (ho : (t.nodes.map (·.provider)).foldlM (openFor s.handles) ([], m) = .ok (table, m'))
    {wired : List PlannedNode}
    (hw : wired.map (fun n => (n.provider, n.stream)) =
      (t.nodes.map (place table)).map fun n => (n.provider, n.stream)) {name : String} :
    (∃ o, planOutput s.handles t.values wired name = .ok o) ↔
      name ∈ names vs ∧ ∀ a ∈ nodes, name ∈ a.makes → s.handles.hasFactory (s.providerOf a) →
        ∃ f, s.handles.lookupWait (s.providerOf a) .cpu = .ok f := by
  unfold planOutput
  cases hfind : t.values.zipIdx.find? fun e => e.1.name = name with
  | none =>
      have hunknown : name ∉ names vs := by
        rw [← hp.named]
        intro hmem
        obtain ⟨x, hx, hname⟩ := List.mem_map.mp hmem
        obtain ⟨i, hi⟩ := List.mem_iff_getElem?.mp hx
        have hin := List.find?_eq_none.mp hfind (x, i) (List.mem_zipIdx_iff_getElem?.mpr hi)
        simp [hname] at hin
      simp [hunknown]
  | some e =>
      obtain ⟨x, i⟩ := e
      have hname : x.name = name := by simpa using List.find?_some hfind
      have hx : t.values[i]? = some x := List.mem_zipIdx_iff_getElem?.mp (List.mem_of_find?_eq_some hfind)
      have hnum : (names vs)[i]? = some name := by
        rw [← hp.named, names, List.getElem?_map, hx, Option.map_some, hname]
      -- Planning the output comes down to its wait.
      rw [and_iff_right (List.mem_of_getElem? hnum), ← exists_outputWait_iff hl hp ho hw hx hnum]
      dsimp only
      cases outputWait s.handles wired x <;> simp

end Wired

/-! ## Accepting a graph -/

/-- Waits change neither the provider of a node nor its stream. -/
theorem withWaits_keeps {h : StreamHandles} {vs : List Value} {nodes : List PlannedNode} :
    ∀ {ns wired : List PlannedNode}, ns.mapM (withWaits h vs nodes) = .ok wired →
      wired.map (fun n => (n.provider, n.stream)) = ns.map fun n => (n.provider, n.stream) := by
  intro ns
  induction ns with
  | nil =>
      intro wired hw
      obtain rfl : wired = [] := by simpa using mapM_eq_ok.mp hw
      rfl
  | cons n rest ih =>
      intro wired hw
      have hmap := mapM_eq_ok.mp hw
      cases wired with
      | nil => simp at hmap
      | cons n' wired =>
          simp only [List.map_cons, List.cons.injEq] at hmap
          obtain ⟨waits, -, rfl⟩ := map_eq_ok.mp hmap.1
          rw [List.map_cons, List.map_cons, ih (mapM_eq_ok.mpr hmap.2)]

/-- Planned nodes can be connected exactly if every output can be planned and every edge can be waited
    for. -/
theorem connect_iff {h : StreamHandles} {vs : List Value} {ns : List PlannedNode}
    {streams : List Stream} :
    (∃ p, connect h g vs ns streams = .ok p) ↔
      ∃ wired, ns.mapM (withWaits h vs ns) = .ok wired ∧
        ∀ v ∈ g.outputs, ∃ o, planOutput h vs wired v = .ok o := by
  unfold connect
  simp only [bind_eq_ok, mapError_eq_ok]
  constructor
  · rintro ⟨p, wired, hwired, outputs, houtputs, -⟩
    exact ⟨wired, hwired, exists_of_mapM_eq_ok houtputs⟩
  · rintro ⟨wired, hwired, hall⟩
    obtain ⟨outputs, houtputs⟩ := exists_mapM_eq_ok hall
    exact ⟨_, wired, hwired, outputs, houtputs, rfl⟩

theorem exists_edgeWait_of_withWaits {h : StreamHandles} {vs : List Value} {nodes : List PlannedNode}
    {consumer n : PlannedNode} (hw : withWaits h vs nodes consumer = .ok n) :
    ∀ u ∈ producersOf vs consumer, ∃ o, edgeWait h nodes consumer u = .ok o := by
  obtain ⟨waits, hwaits, -⟩ := map_eq_ok.mp hw
  intro u hu
  obtain ⟨o, ho, -⟩ := (waits_eq_ok hwaits).complete u hu
  exact ⟨o, ho⟩

/-- A graph that is planned is well-formed. -/
theorem wellFormed_of_newest (hnewest : ∀ e ∈ s.catalog.kernels.entries, e.2.newest = s.config.newest)
    {m m' : Machine Job} {p : Plan} {life : List LifeEvent}
    (hbuild : build s g m = ((.ok p, life), m')) : s.WellFormed g (s.Kernelled g) := by
  obtain ⟨vs, nodes, t, table, hlay, hplan, hopen, hconnect⟩ := build_iff.mp hbuild
  have hl := layOut_eq_ok hlay
  obtain ⟨hperm, hdistinct, hacyclic⟩ := layOut_spec hlay
  have hp := planned_of_layOut hlay hplan
  obtain ⟨wired, hwired, houtputs⟩ := connect_iff.mp ⟨p, hconnect⟩
  have hall : ∀ n ∈ g.nodes, n ∈ nodes := fun n hn => hperm.mem_iff.mpr hn
  have hnames : ∀ v, v ∈ names vs ↔ v ∈ g.valueNames := by
    intro v
    rw [hl.names_eq, g.valueNames_eq]
    exact ((hperm.flatMap_right _).append_left _).mem_iff
  have hedges := (edges_iff hl hp hopen).mp fun pb hpb => by
    obtain ⟨n, hn⟩ := exists_of_mapM_eq_ok hwired _ (List.mem_map_of_mem hpb)
    have hwaits := exists_edgeWait_of_withWaits hn
    exact hwaits
  have hplanned : ∀ v ∈ g.outputs, _ := fun v hv =>
    (exists_planOutput hl hp hopen (withWaits_keeps hwired)).mp (houtputs v hv)
  refine ⟨hdistinct, hacyclic, fun n hn => ?_, fun n hn v hv => ?_, fun v hv => ?_,
    ⟨typing t.values, hp.typing hl hall, fun n hn => ?_⟩, fun a ha b hb => ?_, fun a ha v hmade hv => ?_⟩
  · obtain ⟨j, hj⟩ := List.mem_iff_getElem?.mp (hall n hn)
    obtain ⟨c, kernel, -, hdec, -⟩ := hp.node hj
    exact Session.exists_provider.mp ⟨c.provider, hdec.provider⟩
  · obtain ⟨j, hj⟩ := List.mem_iff_getElem?.mp (hall n hn)
    obtain ⟨c, kernel, -, hdec, -⟩ := hp.node hj
    exact (hnames v).mp (hp.named ▸ (resolveAll_iff.mp hdec.inputs).1 v hv)
  · exact (hnames v).mp (hplanned v hv).1
  · obtain ⟨j, hj⟩ := List.mem_iff_getElem?.mp (hall n hn)
    obtain ⟨c, kernel, more, -, hdec, hmake⟩ := hp.decided_at hj
    obtain ⟨-, -, -, hinfo, hlookup, -⟩ := hdec.describes
    obtain ⟨hversion, hcreate⟩ := Factory.instantiate_eq_ok.mp ⟨kernel, more, hmake⟩
    have hfactory : c.factory.newest = s.config.newest :=
      hnewest _ (KernelTable.serves_of_lookup hlookup).1
    exact ⟨c.provider, c.definition, c.factory, hdec.provider, hlookup, hfactory ▸ hversion,
      hinfo ▸ hcreate⟩
  · exact hedges a (hall a ha) b (hall b hb)
  · exact (hplanned v hv).2 a (hall a ha) hmade

theorem wellFormed_of_build (hstd : s.Standard) {m m' : Machine Job} {p : Plan} {life : List LifeEvent}
    (hbuild : build s g m = ((.ok p, life), m')) : s.WellFormed g (s.Kernelled g) :=
  wellFormed_of_newest hstd.newest hbuild

/-- A well-formed graph is planned, where its nodes can be given streams. -/
theorem exists_build_of_owns (hnewest : ∀ e ∈ s.catalog.kernels.entries, e.2.newest = s.config.newest)
    (hown : ∀ n ∈ g.nodes, s.handles.Owns (s.providerOf n)) (h : s.WellFormed g (s.Kernelled g))
    (m : Machine Job) : ∃ p life m', build s g m = ((.ok p, life), m') := by
  obtain ⟨vs, nodes, hlay⟩ := exists_layOut h.distinct h.acyclic
  have hl := layOut_eq_ok hlay
  obtain ⟨hperm, -, -⟩ := layOut_spec hlay
  have hnames : ∀ v, v ∈ names vs ↔ v ∈ g.valueNames := by
    intro v
    rw [hl.names_eq, g.valueNames_eq]
    exact ((hperm.flatMap_right _).append_left _).mem_iff
  obtain ⟨τ, hτ, hkernels⟩ := h.kernels
  obtain ⟨t, life, hplan⟩ := exists_planNodes hτ hnewest
    (fun n hn v hv => (hnames v).mpr (h.reads n hn v hv)) hkernels (by simpa using hl)
    (Planned.start s g vs)
  have hp := planned_of_layOut hlay hplan
  have hstreams : ∀ acc : StreamTable × Machine Job, ∀ id ∈ t.nodes.map (·.provider),
      ∃ acc', openFor s.handles acc id = .ok acc' := by
    intro acc id hid
    obtain ⟨pa, hpa, rfl⟩ := List.mem_map.mp hid
    obtain ⟨j, hj⟩ := List.mem_iff_getElem?.mp hpa
    obtain ⟨n, hn, hprovider, -⟩ := hp.origin hj
    rw [hprovider]
    exact exists_openFor (hown n (hperm.mem_iff.mp (List.mem_of_getElem? hn))) acc
  obtain ⟨⟨table, m'⟩, hopen⟩ := exists_foldlM_eq_ok hstreams ([], m)
  have hedges := (edges_iff hl hp hopen).mpr fun a ha b hb =>
    h.edges a (hperm.mem_iff.mp ha) b (hperm.mem_iff.mp hb)
  have hwaits : ∀ n ∈ t.nodes.map (place table),
      ∃ n', withWaits s.handles t.values (t.nodes.map (place table)) n = .ok n' := by
    intro n hn
    obtain ⟨pb, hpb, rfl⟩ := List.mem_map.mp hn
    exact exists_withWaits (hedges pb hpb)
  obtain ⟨wired, hwired⟩ := exists_mapM_eq_ok hwaits
  obtain ⟨p, hconnect⟩ := connect_iff.mpr ⟨wired, hwired, fun v hv =>
    (exists_planOutput hl hp hopen (withWaits_keeps hwired)).mpr
      ⟨(hnames v).mpr (h.outputs v hv), fun a ha hmade => h.results a (hperm.mem_iff.mp ha) v hmade hv⟩⟩
  exact ⟨p, life, m', build_iff.mpr ⟨vs, nodes, t, table, hlay, hplan, hopen, hconnect⟩⟩

theorem exists_build (hstd : s.Standard) (h : s.WellFormed g (s.Kernelled g))
    (m : Machine Job) : ∃ p life m', build s g m = ((.ok p, life), m') :=
  exists_build_of_owns hstd.newest (fun _ _ _ hd => hstd.devices _ (Assoc.mem_of_find? hd)) h m

/-- **A session plans exactly the well-formed graphs.** -/
theorem planned_iff_wellFormed {setup : Setup} {m₀ m₁ : Machine Job} {events : List LogEvent}
    (hgiven : ∀ p ∈ setup.providers, p.Usual)
    (hstart : Session.start setup m₀ = (.ok (s, m₁), events)) (g : Graph) (m : Machine Job) :
    (∃ p life m', build s g m = ((.ok p, life), m')) ↔ s.WellFormed g (s.Kernelled g) := by
  have hstd := Session.start_standard hgiven hstart
  constructor
  · rintro ⟨p, life, m', hbuild⟩
    exact wellFormed_of_build hstd hbuild
  · exact fun h => exists_build hstd h m

/-- A session with one simulated device plans the graph with one node on it. -/
theorem planned_iff_wellFormed_mixed :
    ∃ s m₁ events, Session.start mixedSetup ({} : Machine Unit) = (.ok (s, m₁), events) ∧
      (∀ p ∈ mixedSetup.providers, p.Usual) ∧
      (∃ p life m', build s mixedGraph m₁ = ((.ok p, life), m')) ∧
      ((∃ p life m', build s mixedGraph m₁ = ((.ok p, life), m')) ↔
        s.WellFormed mixedGraph (s.Kernelled mixedGraph)) := by
  have hstart : ∃ s m₁ events,
      Session.start mixedSetup ({} : Machine Unit) = (.ok (s, m₁), events) ∧
      ∃ p life m₂, build s mixedGraph m₁ = ((.ok p, life), m₂) :=
    ⟨_, _, _, rfl, _, _, _, rfl⟩
  obtain ⟨s, m₁, events, hstart, hbuild⟩ := hstart
  have hgiven : ∀ p ∈ mixedSetup.providers, p.Usual := nofun
  exact ⟨s, m₁, events, hstart, hgiven, hbuild, planned_iff_wellFormed hgiven hstart mixedGraph m₁⟩

/-! ## What is not enough -/

/-- An operator for any type that refuses to make kernels, and after it one for floats that does not. -/
def refusingSetup : Setup :=
  { domains := [("demo",
      [{ idle none .undefined .undefined with
          create := fun _ _ => { result := .error (.kernelFailed "Foo" "create refused") } },
        idle none .float32 .float32])]
    builtins := false }

/-- One node on the host, reading a float. -/
def hostGraph (made : String) : Graph :=
  { inputs := [("x", .float32)]
    nodes := [{ name := "n", domain := "demo", op := "Foo", inputs := ["x"], outputs := [made] }]
    outputs := [made] }

theorem hostGraph_acyclic : (hostGraph "y").Acyclic := by
  intro i hcycle
  obtain ⟨_, ⟨a, b, v, ha, hb, hmade, hread⟩, -⟩ := Relation.TransGen.head'_iff.mp hcycle
  have ha' := List.mem_singleton.mp (List.mem_of_getElem? ha)
  have hb' := List.mem_singleton.mp (List.mem_of_getElem? hb)
  subst ha' hb'
  have hmade' : v = "y" := by simpa [Node.makes] using hmade
  have hread' : v = "x" := by simpa [Node.reads] using hread
  exact absurd (hmade'.symm.trans hread') (by decide)

/-- **Some kernel is not enough, and an empty name names no value.** The first kernel that takes a node's
    inputs is the one that is made, and refuses the node where the next one would not; an output of the
    graph is not defined by a node that leaves it out. -/
theorem refused_with_a_later_kernel :
    (∃ s m₁ events, Session.start refusingSetup ({} : Machine Unit) = (.ok (s, m₁), events) ∧
      s.WellFormed (hostGraph "y") (s.SomeKernel (hostGraph "y")) ∧
      ∃ e life m', build s (hostGraph "y") m₁ = ((.error e, life), m')) ∧
    ∃ s m₁ events, Session.start mixedSetup ({} : Machine Unit) = (.ok (s, m₁), events) ∧
      s.WellFormed { hostGraph "" with outputs := [] } (s.Kernelled (hostGraph "")) ∧
      (∀ v ∈ (hostGraph "").outputs, ∃ n ∈ (hostGraph "").nodes, v ∈ n.outputs) ∧
      ∃ e life m', build s (hostGraph "") m₁ = ((.error e, life), m') := by
  constructor
  · refine ⟨_, _, _, rfl, ⟨by decide, hostGraph_acyclic, ?_, by decide, by decide, ?_, ?_, ?_⟩, _, _, _,
      rfl⟩
    · intro n hn
      obtain rfl := List.mem_singleton.mp hn
      exact ⟨Provider.host, List.mem_cons_self, rfl⟩
    · refine ⟨fun _ => .float32, ⟨by decide, ?_⟩, ?_⟩
      · intro n hn v hv _
        obtain rfl := List.mem_singleton.mp hn
        obtain rfl := List.mem_singleton.mp hv
        rfl
      · intro n hn
        obtain rfl := List.mem_singleton.mp hn
        exact ⟨_, rfl, _, List.mem_cons_of_mem _ List.mem_cons_self, rfl, by decide, rfl⟩
    · intro a ha b hb v hmade hread hfactory
      cases hfactory
    · intro a ha v hmade hv hfactory
      cases hfactory
  · have hstart : ∃ s m₁ events,
        Session.start mixedSetup ({} : Machine Unit) = (.ok (s, m₁), events) ∧
        (∃ p life m₂, build s { hostGraph "" with outputs := [] } m₁ = ((.ok p, life), m₂)) ∧
        ∃ e life m', build s (hostGraph "") m₁ = ((.error e, life), m') :=
      ⟨_, _, _, rfl, ⟨_, _, _, rfl⟩, _, _, _, rfl⟩
    obtain ⟨s, m₁, events, hstart, ⟨p, life, m₂, hbuild⟩, hrefused⟩ := hstart
    have hgiven : ∀ p ∈ mixedSetup.providers, p.Usual := nofun
    have hstd := Session.start_standard hgiven hstart
    exact ⟨s, m₁, events, hstart, wellFormed_of_build hstd hbuild, by decide, hrefused⟩

end Plan

end OpGraph
