import OpGraph.Proofs.Builtins
import OpGraph.Proofs.Mirrored
import OpGraph.Proofs.Permuted
import OpGraph.Proofs.Progress
import OpGraph.Proofs.Unplaced

/-!
# `Proofs.Placement` — the built-in operators do the same wherever their nodes are placed

A graph of built-in operators is moved by assigning its nodes to other providers, each to one that has its
operator (`Session.Moved`). In a session with the host and a simulated device (`Session.Furnished`) moving
changes which kernels are looked up, which streams there are and who waits for whom. It changes neither
whether the graph is planned, nor types, nor what runs come to: the plans mirror each other, and the host
is admitted to every wait there is (`System.placement_transparent`).
-/

namespace OpGraph

open Outcome

/-! ## Sessions with the host and a simulated device -/

namespace Session

/-- The host makes no streams, the simulated device does, and the host can wait for it. -/
structure Furnished (s : Session) : Prop where
  builtins : s.HoldsBuiltins
  newest : ∀ e ∈ s.catalog.kernels.entries, e.2.newest = s.config.newest
  host : ∃ p, s.provider .cpu = .ok p
  sim : ∃ p, s.provider .sim = .ok p
  hosted : Assoc.find? .cpu s.handles.factories = none
  streams : ∃ timeline, Assoc.find? .sim s.handles.factories = some (.sim timeline .sim)
  fetch : s.handles.lookupWait .sim .cpu = .ok ⟨.host, .sim⟩

section Started

variable {Job : Type} {setup : Setup} {m m' : Machine Job} {s : Session} {events : List LogEvent}

theorem mem_of_provider {id : ProviderId} {p : Provider} (h : s.provider id = .ok p) :
    p ∈ s.providers := by
  unfold provider find? at h
  split at h
  next q hq =>
    obtain rfl := Except.ok.inj h
    exact List.mem_of_find?_eq_some hq
  · cases h

/-- A session is furnished if it was brought up with the built-in operators, a host that makes no streams,
    and a simulated device under its usual id. -/
theorem start_furnished (hstart : start setup m = (.ok (s, m'), events)) (hsetup : setup.HoldsBuiltins)
    {host : Provider} (hhost : s.provider .cpu = .ok host) (hnone : host.device = none) {timeline : Nat}
    {peers : List ProviderId} (hsim : s.provider .sim = .ok (Provider.simulated timeline .sim peers)) :
    s.Furnished := by
  have hs := started hstart
  have hids := gather_nodup hs.providers
  obtain ⟨-, hhosted⟩ := wire_own hids (mem_of_provider hhost)
  obtain ⟨hwaits, hstreams⟩ := wire_own hids (mem_of_provider hsim)
  rw [provider_eq_ok hhost, ← hs.handles, hnone] at hhosted
  rw [← hs.handles] at hwaits hstreams
  refine ⟨hs.holdsBuiltins hsetup, start_newest hstart, ⟨_, hhost⟩, ⟨_, hsim⟩, hhosted, ⟨timeline, hstreams⟩, ?_⟩
  -- The wait of the host is the last one the device offers.
  have hlast : Assoc.find? (ProviderId.sim, ProviderId.cpu) s.handles.waits = some ⟨.host, .sim⟩ := by
    refine (hwaits .cpu).trans ?_
    unfold lastValue? Provider.simulated
    rw [List.reverse_append, List.reverse_singleton, List.singleton_append, List.find?_cons]
    simp
  unfold StreamHandles.lookupWait
  rw [hlast]

end Started

namespace Furnished

variable {s : Session} {id id' : ProviderId}

theorem exists_provider (h : s.Furnished) (hid : id = .cpu ∨ id = .sim) : ∃ p, s.provider id = .ok p := by
  rcases hid with rfl | rfl
  · exact h.host
  · exact h.sim

/-- Devices are their providers' own. -/
theorem owns (h : s.Furnished) (hid : id = .cpu ∨ id = .sim) : s.handles.Owns id := by
  intro d hd
  rcases hid with rfl | rfl
  · rw [h.hosted] at hd
    cases hd
  · obtain ⟨timeline, hstreams⟩ := h.streams
    obtain rfl := Option.some.inj (hstreams.symm.trans hd)
    rfl

/-- Only the simulated device makes streams. -/
theorem eq_sim (h : s.Furnished) (hid : id = .cpu ∨ id = .sim) (hfactory : s.handles.hasFactory id = true) :
    id = .sim := by
  refine hid.resolve_left fun hcpu => ?_
  obtain ⟨d, hd⟩ := Plan.hasFactory_iff.mp hfactory
  rw [hcpu, h.hosted] at hd
  cases hd

/-- Who leaves the device is waited for by the host. -/
theorem lookupWait (h : s.Furnished) (hid : id = .cpu ∨ id = .sim) (hid' : id' = .cpu ∨ id' = .sim)
    (hfactory : s.handles.hasFactory id = true) (hne : id ≠ id') :
    s.handles.lookupWait id id' = .ok ⟨.host, .sim⟩ := by
  obtain rfl := h.eq_sim hid hfactory
  obtain rfl : id' = .cpu := hid'.resolve_right fun hsim => hne hsim.symm
  exact h.fetch

end Furnished

/-! ## Moving nodes -/

/-- A graph of built-in operators, with its nodes in other places. -/
structure Moved (s : Session) (g g' : Graph) : Prop where
  same : g'.unplaced = g.unplaced
  places : ∀ n ∈ g.nodes, s.Places n
  places' : ∀ n ∈ g'.nodes, s.Places n

namespace Moved

variable {s : Session} {g g' : Graph} {τ : String → DataType}

theorem symm (h : s.Moved g g') : s.Moved g' g := ⟨h.same.symm, h.places', h.places⟩

/-- The node before it was moved. -/
theorem exists_node (h : s.Moved g g') {n' : Node} (hn' : n' ∈ g'.nodes) :
    ∃ n ∈ g.nodes, n.unplaced = n'.unplaced := by
  have hnodes : g'.nodes.map Node.unplaced = g.nodes.map Node.unplaced := congrArg Graph.nodes h.same
  have hmem : n'.unplaced ∈ g.nodes.map Node.unplaced := hnodes ▸ List.mem_map_of_mem hn'
  exact List.mem_map.mp hmem

theorem inputs (h : s.Moved g g') : g'.inputs = g.inputs := by
  show g'.unplaced.inputs = g.unplaced.inputs
  rw [h.same]

theorem initializers (h : s.Moved g g') : g'.initializers = g.initializers := by
  show g'.unplaced.initializers = g.unplaced.initializers
  rw [h.same]

theorem outputs (h : s.Moved g g') : g'.outputs = g.outputs := by
  show g'.unplaced.outputs = g.unplaced.outputs
  rw [h.same]

theorem valueNames (h : s.Moved g g') : g'.valueNames = g.valueNames := by
  rw [← g'.valueNames_unplaced, h.same, g.valueNames_unplaced]

/-- The same types go along the edges. -/
theorem typing (h : s.Moved g g') (hτ : s.Typing g τ) : s.Typing g' τ := by
  rw [← g'.typing_unplaced, h.same, g.typing_unplaced]
  exact hτ

/-- A node that is moved gets a kernel if it did before. -/
theorem kernelled (h : s.Moved g g') (hs : s.Furnished) {n n' : Node} (hn : n ∈ g.nodes)
    (hn' : n' ∈ g'.nodes) (hsame : n.unplaced = n'.unplaced) (hkernel : s.Kernelled g τ n) :
    s.Kernelled g' τ n' := by
  obtain ⟨p, d, f, -, hlookup, hversion, hcreate⟩ := hkernel
  obtain ⟨p', hp'⟩ := hs.exists_provider (h.places' n' hn').provider
  have hop : n'.op = n.op := (congrArg Node.op hsame).symm
  have hinputs : inputTypes τ n' = inputTypes τ n := by
    unfold inputTypes
    rw [show n'.inputs = n.inputs from (congrArg Node.inputs hsame).symm]
  have hattributes : (s.told g' τ n' p').attributes = (s.told g τ n p).attributes :=
    (congrArg Node.attributes hsame).symm
  obtain ⟨d', f', hlookup', hmem, htwins, -⟩ :=
    hs.builtins.lookup_twins (h.places n hn) (h.places' n' hn') hop hlookup
  refine ⟨p', d', f', hp', hinputs ▸ hlookup', ?_, ?_⟩
  · rw [htwins.version]
    exact hversion
  · rw [htwins.version, htwins.create, Builtin.create_congr hattributes _ _ hmem]
    exact hcreate

/-- **What a session needs of a graph it needs of it wherever its nodes are placed.** -/
theorem wellFormed (h : s.Moved g g') (hs : s.Furnished) (hwell : s.WellFormed g (s.Kernelled g)) :
    s.WellFormed g' (s.Kernelled g') := by
  obtain ⟨τ, hτ, hkernels⟩ := hwell.kernels
  constructor
  case distinct => exact h.valueNames ▸ hwell.distinct
  case acyclic =>
    rw [← g'.acyclic_unplaced, h.same, g.acyclic_unplaced]
    exact hwell.acyclic
  case providers =>
    intro n' hn'
    exact Session.exists_provider.mp (hs.exists_provider (h.places' n' hn').provider)
  case reads =>
    intro n' hn' v hv
    obtain ⟨n, hn, hsame⟩ := h.exists_node hn'
    rw [h.valueNames]
    exact hwell.reads n hn v (Node.reads_of_unplaced hsame ▸ hv)
  case outputs =>
    rw [h.valueNames, h.outputs]
    exact hwell.outputs
  case kernels =>
    refine ⟨τ, h.typing hτ, fun n' hn' => ?_⟩
    obtain ⟨n, hn, hsame⟩ := h.exists_node hn'
    exact h.kernelled hs hn hn' hsame (hkernels n hn)
  case edges =>
    intro a ha b hb v _ _ hfactory hne
    exact ⟨_, hs.lookupWait (h.places' a ha).provider (h.places' b hb).provider hfactory hne⟩
  case results =>
    intro a ha v _ _ hfactory
    rw [hs.eq_sim (h.places' a ha).provider hfactory]
    exact ⟨_, hs.fetch⟩

end Moved

end Session

/-! ## Plans of moved graphs -/

theorem Session.inputTypes_of_unplaced {τ : String → DataType} {a b : Node} (h : a.unplaced = b.unplaced) :
    Session.inputTypes τ a = Session.inputTypes τ b := by
  show Session.inputTypes τ a.unplaced = Session.inputTypes τ b.unplaced
  rw [h]

theorem Session.outputTypes_of_unplaced {s : Session} {τ : String → DataType} {a b : Node}
    (h : a.unplaced = b.unplaced) : s.outputTypes τ a = s.outputTypes τ b := by
  show s.outputTypes τ a.unplaced = s.outputTypes τ b.unplaced
  rw [h]

namespace Plan

variable {Job : Type} {s : Session} {g g' : Graph} {p p' : Plan} {m m' mc mc' : Machine Job}
  {life life' : List LifeEvent}

/-- A graph that is planned is planned wherever its nodes are moved. -/
theorem exists_build_moved (hs : s.Furnished) (h : s.Moved g g') (m m' : Machine Job)
    (hbuild : ∃ p life m₂, build s g m = ((.ok p, life), m₂)) :
    ∃ p life m₂, build s g' m' = ((.ok p, life), m₂) := by
  rw [exists_build_iff hs.newest] at hbuild ⊢
  exact ⟨h.wellFormed hs hbuild.1, fun n hn => hs.owns (h.places' n hn).provider⟩

/-- A value has the type of its name. -/
theorem typing_name {vs : List Value} {v : Nat} {x : Value} (hdistinct : (names vs).Nodup)
    (hx : vs[v]? = some x) : typing vs x.name = x.type := by
  have hname : (names vs)[v]? = some x.name := by rw [names, List.getElem?_map, hx, Option.map_some]
  rw [typing, (number?_eq_some hdistinct).mpr hname]
  simp [typeAt, hx]

section Moved

variable {vs : List Value} {order order' : List Node} {t t' : Typed} {table table' : StreamTable}

/-- Graphs whose nodes are in different places are laid out alike. -/
theorem layOut_moved (h : s.Moved g g') (hlay : layOut g = .ok (vs, order)) {vs' : List Value}
    (hlay' : layOut g' = .ok (vs', order')) :
    vs' = vs ∧ order'.map Node.unplaced = order.map Node.unplaced := by
  have hsame := g'.layOut_unplaced
  rw [h.same, g.layOut_unplaced, hlay, hlay'] at hsame
  obtain ⟨hvs, horder⟩ := Prod.mk.inj (Except.ok.inj hsame)
  exact ⟨hvs.symm, horder.symm⟩

/-- The node that stands in the same place. -/
theorem node_of_order (horder : order'.map Node.unplaced = order.map Node.unplaced) {u : Nat} {a' : Node}
    (ha' : order'[u]? = some a') : ∃ a, order[u]? = some a ∧ a.unplaced = a'.unplaced := by
  have hu := congrArg (·[u]?) horder
  simp only [List.getElem?_map] at hu
  rw [ha', Option.map_some, eq_comm, Option.map_eq_some_iff] at hu
  exact hu

/-- Who makes a value stands in the same place. -/
theorem Planned.producer_moved (hl : LaidOut g vs order) (hl' : LaidOut g' vs order')
    (horder : order'.map Node.unplaced = order.map Node.unplaced) (hp : Planned s g vs order t)
    (hp' : Planned s g' vs order' t') {v : Nat} {x x' : Value} (hx : t.values[v]? = some x)
    (hx' : t'.values[v]? = some x') (hname : x'.name = x.name) : x'.producer = x.producer := by
  refine Option.ext fun u => ?_
  rw [hp'.maker_iff hl' hx', hp.maker_iff hl hx, hname]
  constructor
  · rintro ⟨a', ha', hmade⟩
    obtain ⟨a, ha, hsame⟩ := node_of_order horder ha'
    exact ⟨a, ha, Node.makes_of_unplaced hsame ▸ hmade⟩
  · rintro ⟨a, ha, hmade⟩
    obtain ⟨a', ha', hsame⟩ := node_of_order horder.symm ha
    exact ⟨a', ha', Node.makes_of_unplaced hsame ▸ hmade⟩

/-- **Values come out alike**: their names are laid out, their types are the only ones, and who makes them
    stands in the same place. -/
theorem Planned.values_moved (h : s.Moved g g') (hl : LaidOut g vs order) (hl' : LaidOut g' vs order')
    (hperm : order.Perm g.nodes) (hperm' : order'.Perm g'.nodes)
    (horder : order'.map Node.unplaced = order.map Node.unplaced) (hp : Planned s g vs order t)
    (hp' : Planned s g' vs order' t') : t'.values = t.values := by
  have htyping := h.typing (hp.typing hl fun n hn => hperm.mem_iff.mpr hn)
  have hunique := hp'.typing_unique hl' hperm' htyping
  have hnames : names t'.values = names t.values := hp'.named.trans hp.named.symm
  refine List.ext_getElem? fun v => ?_
  have hv := congrArg (·[v]?) hnames
  simp only [names, List.getElem?_map] at hv
  cases hx : t.values[v]? with
  | none => simpa [hx] using hv
  | some x =>
      rw [hx, Option.map_some, Option.map_eq_some_iff] at hv
      obtain ⟨x', hx', hname⟩ := hv
      have hproducer := hp.producer_moved hl hl' horder hp' hx hx' hname
      have hknown : x.name ∈ g'.valueNames := by
        have hmem : x.name ∈ names t.values := List.mem_map_of_mem (List.mem_of_getElem? hx)
        rw [hp.named, hl.names_eq] at hmem
        rw [h.valueNames, g.valueNames_eq]
        exact ((hperm.flatMap_right _).append_left _).mem_iff.mp hmem
      have htype : x'.type = x.type := by
        rw [← typing_name (hp'.named ▸ hl'.distinct) hx', ← typing_name (hp.named ▸ hl.distinct) hx, hname]
        exact hunique x.name hknown
      rw [hx']
      cases x'
      cases x
      simp_all

/-- **Nodes in the same place do the same work**: they read and make the same values, by kernels of
    operators that are twins. -/
theorem Connected.nodes_moved (hs : s.Furnished) (h : s.Moved g g') (hl : LaidOut g vs order)
    (hl' : LaidOut g' vs order') (horder : order'.map Node.unplaced = order.map Node.unplaced)
    (hp : Planned s g vs order t) (hp' : Planned s g' vs order' t') (hvalues : t'.values = t.values)
    (hc : Connected s.handles g t table p) (hc' : Connected s.handles g' t' table' p') {j : Nat}
    {n n' : PlannedNode} (hn : p.nodes[j]? = some n) (hn' : p'.nodes[j]? = some n') : n.Mirrors n' := by
  obtain ⟨a, c, kernel, more, waits, ha, hdec, hmake, -, rfl⟩ := hc.decided hp hn
  obtain ⟨a', c', kernel', more', waits', ha', hdec', hmake', -, rfl⟩ := hc'.decided hp' hn'
  rw [hc.values] at hdec
  rw [hc'.values, hvalues] at hdec'
  obtain ⟨hinputs, houtputs, htypes, hinfo, hlookup, -⟩ := hdec.describes
  obtain ⟨hinputs', houtputs', htypes', hinfo', hlookup', -⟩ := hdec'.describes
  obtain ⟨b, hb, hsame⟩ := node_of_order horder ha'
  obtain rfl : a = b := Option.some.inj (ha.symm.trans hb)
  -- The two kernels are looked up by the same types, so they are of twins.
  have hop : a'.op = a.op := (congrArg Node.op hsame).symm
  have hattributes : c'.info.attributes = c.info.attributes := by
    rw [hinfo, hinfo']
    exact (congrArg Node.attributes hsame).symm
  obtain ⟨d, f, hfound, hmem, htwins, hnewest⟩ := hs.builtins.lookup_twins
    (h.places a (hl.mem a (List.mem_of_getElem? ha))) (h.places' a' (hl'.mem a' (List.mem_of_getElem? ha')))
    hop hlookup
  rw [← Session.inputTypes_of_unplaced hsame.symm, hlookup'] at hfound
  obtain ⟨rfl, rfl⟩ := Prod.mk.inj (Except.ok.inj hfound)
  obtain ⟨hcompute, hblind⟩ := Builtin.instantiate_twins hmem htwins hnewest hattributes hmake hmake'
  constructor
  case inputs =>
    have hreads : a'.inputs = a.inputs := (congrArg Node.inputs hsame).symm
    show c'.inputs = c.inputs
    rw [hinputs, hinputs', hreads]
  case outputs =>
    have hmakes : a'.outputs = a.outputs := (congrArg Node.outputs hsame).symm
    show c'.outputs = c.outputs
    rw [houtputs, houtputs', hmakes]
  case types =>
    show c'.types = c.types
    rw [htypes, htypes', Session.outputTypes_of_unplaced hsame]
  case compute => exact hcompute
  case blind => exact hblind

/-- The outputs of a plan are the values that have the names. -/
theorem Connected.output_numbers (hl : LaidOut g vs order) (hp : Planned s g vs order t)
    (hc : Connected s.handles g t table p) :
    (p.outputs.map (·.value)).map some = g.outputs.map (number? t.values) := by
  rw [← hc.output_names, List.map_map, List.map_map]
  refine List.map_congr_left fun o ho => ?_
  obtain ⟨x, hx, hname, -⟩ := hc.output_value ho
  have hat : (names t.values)[o.value]? = some x.name := by
    rw [names, List.getElem?_map, hx, Option.map_some]
  show some o.value = number? t.values (p.valueName o.value)
  rw [hname, (number?_eq_some (hp.named ▸ hl.distinct)).mpr hat]

/-- Nodes of a plan are where those of the graph are. -/
theorem Connected.provider_places (hc : Connected s.handles g t table p) (hl : LaidOut g vs order)
    (hp : Planned s g vs order t) (hplaces : ∀ n ∈ g.nodes, s.Places n) {u : Nat} {n : PlannedNode}
    (hn : p.nodes[u]? = some n) : n.provider = .cpu ∨ n.provider = .sim := by
  obtain ⟨a, -, ha, -, -, hplaced, -⟩ := hc.stands hp hn
  rw [hplaced]
  exact (hplaces a (hl.mem a (List.mem_of_getElem? ha))).provider

end Moved

/-- **Plans of a graph whose nodes were moved mirror each other.** -/
theorem mirrors_of_build (hs : s.Furnished) (h : s.Moved g g') (hb : build s g m = ((.ok p, life), m'))
    (hb' : build s g' mc = ((.ok p', life'), mc')) : p.Mirrors p' := by
  obtain ⟨vs, order, t, table, hlay, hplan, -, hconnect⟩ := build_iff.mp hb
  obtain ⟨vs', order', t', table', hlay', hplan', -, hconnect'⟩ := build_iff.mp hb'
  obtain ⟨rfl, horder⟩ := layOut_moved h hlay hlay'
  have hl := layOut_eq_ok hlay
  have hl' := layOut_eq_ok hlay'
  have hp := planned_of_layOut hlay hplan
  have hp' := planned_of_layOut hlay' hplan'
  have hc := connect_eq_ok hconnect
  have hc' := connect_eq_ok hconnect'
  have hvalues := hp.values_moved h hl hl' (layOut_spec hlay).1 (layOut_spec hlay').1 horder hp'
  constructor
  case values => rw [hc.values, hc'.values, hvalues]
  case feeds => rw [hc.feeds, hc'.feeds, h.inputs]
  case initializers => rw [hc.initializers, hc'.initializers, h.inputs, h.initializers]
  case length =>
    have hlength := congrArg List.length horder
    rw [List.length_map, List.length_map] at hlength
    rw [hc'.length, hp'.length, hlength, hc.length, hp.length]
  case nodes => exact fun hn hn' => hc.nodes_moved hs h hl hl' horder hp hp' hvalues hc' hn hn'
  case outputs =>
    have hnumbers := hc'.output_numbers hl' hp'
    rw [hvalues, h.outputs, ← hc.output_numbers hl hp] at hnumbers
    exact List.map_injective_iff.mpr (Option.some_injective _) hnumbers

/-- No device of a plan has anything to report whose nodes are on the host or on the simulated device. -/
theorem responsive_of_build (hplaces : ∀ n ∈ g.nodes, s.Places n)
    (hb : build s g m = ((.ok p, life), m')) : p.Responsive := by
  intro st hst
  obtain ⟨vs, order, t, table, hlay, hplan, hopen, hconnect⟩ := build_iff.mp hb
  have hp := planned_of_layOut hlay hplan
  have hc := connect_eq_ok hconnect
  -- A stream was made for a node, and no node is on a graphics device.
  obtain ⟨-, n, hmem, hprovider⟩ := (hc.mem_streams hp hopen st.provider).mp (List.mem_map_of_mem hst)
  obtain ⟨u, hn⟩ := List.mem_iff_getElem?.mp hmem
  apply Stream.poll_of_provider
  rcases hc.provider_places (layOut_eq_ok hlay) hp hplaces hn with hcpu | hsim
  · rw [← hprovider, hcpu]
    decide
  · rw [← hprovider, hsim]
    decide

/-- **The host is admitted to every wait of a plan** whose nodes are on the host or on the device. -/
theorem admits_of_build (hs : s.Furnished) (hplaces : ∀ n ∈ g.nodes, s.Places n)
    (hb : build s g m = ((.ok p, life), m')) {w : PlannedWait} {who : Waiter}
    (hw : .wait w who ∈ p.launching) : p.Admits w who := by
  have hsound := build_sound hb
  obtain ⟨vs, order, t, table, hlay, hplan, hopen, hconnect⟩ := build_iff.mp hb
  have hl := layOut_eq_ok hlay
  have hp := planned_of_layOut hlay hplan
  have hc := connect_eq_ok hconnect
  have hprovider : ∀ {u : Nat} {n : PlannedNode}, p.nodes[u]? = some n →
      n.provider = .cpu ∨ n.provider = .sim := hc.provider_places hl hp hplaces
  -- The node that is waited for is on the device, and it is the host that waits.
  suffices hhost : ∃ n, p.nodes[w.producer]? = some n ∧ n.stream.isSome = true ∧ w.f = ⟨.host, .sim⟩ by
    obtain ⟨n, hn, hstream, hf⟩ := hhost
    obtain ⟨hfactory, hplaced⟩ := hc.placed hp hopen hn
    obtain ⟨k, hk⟩ := Option.isSome_iff_exists.mp hstream
    obtain ⟨st, hst, -, hdevice⟩ := hplaced k hk
    obtain ⟨timeline, hsim⟩ := hs.streams
    rw [hs.eq_sim (hprovider hn) (hfactory ▸ hstream), hsim] at hdevice
    refine ⟨n, st, hn, hst, ?_⟩
    unfold WaitFunction.admits
    rw [← Option.some.inj hdevice, hf]
    rfl
  cases who with
  | node c =>
      obtain ⟨b, hb, hwait⟩ := node_of_wait hw
      obtain ⟨-, n, hn, hstream⟩ := hsound.wait_back hb hwait
      obtain ⟨a, -, ha, -⟩ := hc.stands hp hn
      obtain ⟨b', -, hb', -⟩ := hc.stands hp hb
      obtain ⟨hcrossing, hstaying⟩ := hc.waits_filter hl hp ha hb' hn hb
      have hmem : w ∈ b.waits.filter (·.producer = w.producer) := by simp [List.mem_filter, hwait]
      by_cases hneeds : b'.ReadsFrom a ∧ n.stream.isSome = true ∧ n.provider ≠ b.provider
      · obtain ⟨f, hf, hone⟩ := hcrossing hneeds.1 hneeds.2.1 hneeds.2.2
        rw [hone, List.mem_singleton] at hmem
        have hfactory := (hc.placed hp hopen hn).1 ▸ hstream
        rw [hs.lookupWait (hprovider hn) (hprovider hb) hfactory hneeds.2.2] at hf
        exact ⟨n, hn, hstream, by rw [hmem, Except.ok.inj hf]⟩
      · rw [hstaying hneeds] at hmem
        cases hmem
  | output v =>
      obtain ⟨o, ho, hwait⟩ := output_of_wait hw
      obtain ⟨a, n, ha, hn, hmade, hstream⟩ := hc.output_maker hl hp ho hwait
      obtain ⟨f, hf, hone⟩ := hc.output_fetched hl hp ho ha hn hmade hstream
      have hfactory := (hc.placed hp hopen hn).1 ▸ hstream
      rw [hs.eq_sim (hprovider hn) hfactory, hs.fetch] at hf
      rw [hwait] at hone
      exact ⟨n, hn, hstream, by rw [Option.some.inj hone, Except.ok.inj hf]⟩

end Plan

/-! ## Runs of moved graphs -/

namespace System

/-- The run goes no further: it is over, or nobody can take a step for it. -/
def Rests (σ : System) (i : Nat) (r : Run) : Prop := r.isOver = true ∨ σ.Stuck i r

theorem Reached.over_of_rests {σ : System} (h : σ.Reached) {i : Nat} {r : Run} (hr : σ.runs[i]? = some r)
    (hrests : σ.Rests i r) : r.isOver = true :=
  hrests.elim id (h.over_of_stuck hr)

/-- **It does not matter where the nodes of built-in operators are placed.** In a session with the built-in
    operators, the host and a simulated device, a graph of such operators and the one with its nodes moved
    are both planned or both refused, on any machines. Their plans have the same types and take the same
    feeds. Runs of the two that were fed the same and go no further have both returned, and come to the same
    outputs if they come to any. -/
theorem placement_transparent {setup : Setup} {m₀ m₁ : Machine NodeJob} {s : Session}
    {events : List LogEvent} (hstart : Session.start setup m₀ = (.ok (s, m₁), events))
    (hsetup : setup.HoldsBuiltins) {host : Provider} (hhost : s.provider .cpu = .ok host)
    (hnone : host.device = none) {timeline : Nat} {peers : List ProviderId}
    (hsim : s.provider .sim = .ok (Provider.simulated timeline .sim peers)) {g g' : Graph}
    (hmoved : s.Moved g g') (m m' : Machine NodeJob) :
    ((∃ p life m₂, Plan.build s g m = ((.ok p, life), m₂)) ↔
        ∃ p life m₂, Plan.build s g' m' = ((.ok p, life), m₂)) ∧
      ∀ {p p' : Plan} {life life' : List LifeEvent} {m₂ m₂' : Machine NodeJob},
        Plan.build s g m = ((.ok p, life), m₂) → Plan.build s g' m' = ((.ok p', life'), m₂') →
        (∀ v, p'.typeOf? v = p.typeOf? v) ∧
        (∀ fed e, Run.start p' fed = .error e ↔ Run.start p fed = .error e) ∧
        ∀ {σ σ' : System} {i i' : Nat} {r r' : Run} {fed : List (String × Tensor)},
          σ.Reached → σ.runs[i]? = some r → σ.feeds[i]? = some fed → r.plan = p → σ.Rests i r →
          σ'.Reached → σ'.runs[i']? = some r' → σ'.feeds[i']? = some fed → r'.plan = p' → σ'.Rests i' r' →
          r.isOver = true ∧ r'.isOver = true ∧ ∀ outs, r.result = .ok outs ↔ r'.result = .ok outs := by
  have hs := Session.start_furnished hstart hsetup hhost hnone hsim
  refine ⟨⟨Plan.exists_build_moved hs hmoved m m', Plan.exists_build_moved hs hmoved.symm m' m⟩, ?_⟩
  intro p p' life life' m₂ m₂' hb hb'
  have hmirrors := Plan.mirrors_of_build hs hmoved hb hb'
  refine ⟨hmirrors.typeOf?_eq, hmirrors.start_eq_error_iff, ?_⟩
  rintro σ σ' i i' r r' fed h hr hfed rfl hrests h' hr' hfed' rfl hrests'
  have hover := h.over_of_rests hr hrests
  have hover' := h'.over_of_rests hr' hrests'
  refine ⟨hover, hover', fun outs => ⟨fun houts => ?_, fun houts => ?_⟩⟩
  · exact h.mirrored h' hr hfed hover hr' hfed' hover' hmirrors
      (fun w who => Plan.admits_of_build hs hmoved.places' hb')
      (Plan.responsive_of_build hmoved.places' hb') houts
  · exact h'.mirrored h hr' hfed' hover' hr hfed hover hmirrors.symm
      (fun w who => Plan.admits_of_build hs hmoved.places hb)
      (Plan.responsive_of_build hmoved.places hb) houts

/-- A float is handed on over the device as it is on the host alone. -/
theorem placement_transparent_relay : ∃ (σ σ' : System) (r r' : Run), σ.Reached ∧ σ'.Reached ∧
    σ.runs[0]? = some r ∧ σ'.runs[0]? = some r' ∧ r.plan.streams.length = 1 ∧ r'.plan.streams.length = 0 ∧
    r.result = .ok [relayed] ∧ r'.result = .ok [relayed] := by
  have hwhole : ∃ s m₁ events p life m₂ r₀ r p' life' m₂' r₀' r',
      Session.start relaySetup ({} : Machine NodeJob) = (.ok (s, m₁), events) ∧
      s.provider .cpu = .ok Provider.host ∧ s.provider .sim = .ok (Provider.simulated 0 .sim []) ∧
      s.defaultProvider = .cpu ∧
      Plan.build s relayGraph m₁ = ((.ok p, life), m₂) ∧ Run.start p [("x", relayed)] = .ok r₀ ∧
      ((Execution.mk m₂ [r₀]).finish 0).runs[0]? = some r ∧ r.plan = p ∧ r.isOver = true ∧
      r.plan.streams.length = 1 ∧ r.result = .ok [relayed] ∧
      Plan.build s relayGraph.unplaced m₁ = ((.ok p', life'), m₂') ∧
      Run.start p' [("x", relayed)] = .ok r₀' ∧
      ((Execution.mk m₂' [r₀']).finish 0).runs[0]? = some r' ∧ r'.plan = p' ∧ r'.isOver = true ∧
      r'.plan.streams.length = 0 :=
    ⟨_, _, _, _, _, _, _, _, _, _, _, _, _, rfl, rfl, rfl, rfl, rfl, rfl, rfl, rfl, rfl, rfl, rfl, rfl, rfl,
      rfl, rfl, rfl, rfl⟩
  obtain ⟨s, m₁, events, p, life, m₂, r₀, r, p', life', m₂', r₀', r', hstart, hhost, hsim, hdefault, hbuild,
    hr₀, hr, hplan, hover, hstreams, hresult, hbuild', hr₀', hr', hplan', hover', hstreams'⟩ := hwhole
  have hsetup : relaySetup.HoldsBuiltins := Setup.holdsBuiltins rfl nofun
  have hplaces : ∀ n : Node, n.domain = Builtin.domain → n.op = "Identity" →
      n.provider = none ∨ n.provider = some .sim → s.Places n := by
    intro n hdomain hop hprovider
    refine ⟨hdomain, .inl ⟨.inr hop, ?_⟩⟩
    unfold Session.providerOf
    rcases hprovider with hprovider | hprovider
    · exact .inl (by rw [hprovider, Option.getD_none, hdefault])
    · exact .inr (by rw [hprovider, Option.getD_some])
  have hmoved : s.Moved relayGraph relayGraph.unplaced := by
    refine ⟨rfl, fun n hn => ?_, fun n hn => ?_⟩
    · simp only [relayGraph, List.mem_cons, List.not_mem_nil, or_false] at hn
      rcases hn with rfl | rfl
      · exact hplaces _ rfl rfl (.inl rfl)
      · exact hplaces _ rfl rfl (.inr rfl)
    · obtain ⟨a, ha, rfl⟩ := List.mem_map.mp hn
      simp only [relayGraph, List.mem_cons, List.not_mem_nil, or_false] at ha
      rcases ha with rfl | rfl
      · exact hplaces _ rfl rfl (.inl rfl)
      · exact hplaces _ rfl rfl (.inl rfl)
  have hreached := Reached.first rfl hstart hbuild hr₀
  have hreached' := Reached.first rfl hstart hbuild' hr₀'
  obtain ⟨-, hplanned⟩ := placement_transparent hstart hsetup hhost rfl hsim hmoved m₁ m₁
  obtain ⟨-, -, hsame⟩ := hplanned hbuild hbuild'
  obtain ⟨-, -, hresults⟩ :=
    hsame hreached hr rfl hplan (.inl hover) hreached' hr' rfl hplan' (.inl hover')
  exact ⟨_, _, r, r', hreached, hreached', hr, hr', hstreams, hstreams', hresult, (hresults _).mp hresult⟩

end System

end OpGraph
