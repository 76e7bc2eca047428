import OpGraph.Proofs.Accepting

/-!
# `Proofs.Crossing` — a plan waits for exactly what crosses between streams

Waits are collected value by value, but they are for nodes: a node waits once for each node that it reads
from across providers, whatever it reads of it, and an output of the graph waits for its maker on the host.
The notification of a node is made for exactly these waits. `Plan.Crosses` says so of a plan in terms of
the graph it was built from.
-/

namespace OpGraph

open Outcome

/-- One node reads something that another makes. -/
def Node.ReadsFrom (b a : Node) : Prop := ∃ v ∈ a.makes, v ∈ b.reads

namespace Plan

section Streams

variable {Job : Type} {h : StreamHandles} {m m' : Machine Job}

theorem openStream_device {d : Device} {provider : ProviderId} {st : Stream}
    (ho : d.openStream provider m = .ok (st, m')) : st.device = d ∧ st.provider = provider := by
  unfold Device.openStream at ho
  split at ho
  · cases ho
  next hown =>
    have hprovider : provider = d.provider := not_not.mp hown
    cases d <;> obtain ⟨rfl, -⟩ := Prod.mk.inj (Except.ok.inj ho) <;> exact ⟨rfl, hprovider.symm⟩

/-- Each provider has one stream, on its own device. -/
structure Tabled (h : StreamHandles) (table : StreamTable) : Prop where
  once : (table.map (·.1)).Nodup
  device : ∀ e ∈ table, Assoc.find? e.1 h.factories = some e.2.device ∧ e.2.provider = e.1

theorem openFor_tabled {acc acc' : StreamTable × Machine Job} {provider : ProviderId}
    (ht : Tabled h acc.1) (hf : openFor h acc provider = .ok acc') : Tabled h acc'.1 := by
  unfold openFor at hf
  split at hf
  next hopen =>
    obtain ⟨⟨st, m₁⟩, hcreate, rfl⟩ := map_eq_ok.mp hf
    have hnew : provider ∉ acc.1.map (·.1) := by
      rw [← streamNumber?_isSome]
      have hnone := (Bool.and_eq_true_iff.mp hopen).1
      cases hn : streamNumber? acc.1 provider <;> simp [hn] at hnone ⊢
    unfold StreamHandles.createStream at hcreate
    split at hcreate
    next d hd =>
      obtain ⟨rfl, hprovider⟩ := openStream_device hcreate
      refine ⟨?_, fun e he => ?_⟩
      · rw [List.map_append]
        refine List.nodup_append.mpr ⟨ht.once, by simp, fun a ha b hb heq => hnew ?_⟩
        obtain rfl : b = provider := by simpa using hb
        exact heq ▸ ha
      · rcases List.mem_append.mp he with hold | hlast
        · exact ht.device e hold
        · obtain rfl := List.mem_singleton.mp hlast
          exact ⟨hd, hprovider⟩
    · cases hcreate
  · obtain rfl := Except.ok.inj hf
    exact ht

theorem tabled {ids : List ProviderId} {table : StreamTable}
    (hf : ids.foldlM (openFor h) ([], m) = .ok (table, m')) : Tabled h table :=
  foldlM_induction (fun (acc : StreamTable × Machine Job) _ => Tabled h acc.1)
    (fun _ _ _ _ ht hs => openFor_tabled ht hs) ids ([], m) [] ⟨by simp, by simp⟩ hf

theorem streamNumber?_eq_some {table : StreamTable} {id : ProviderId} {k : Nat}
    (hk : streamNumber? table id = some k) : ∃ st, table[k]? = some (id, st) := by
  obtain ⟨hlt, hid, -⟩ := List.findIdx?_eq_some_iff_getElem.mp hk
  have hid : table[k].1 = id := by simpa using hid
  exact ⟨table[k].2, by rw [List.getElem?_eq_getElem hlt, ← hid]⟩

end Streams

/-! ## Waits of a node -/

section Waits

variable {h : StreamHandles} {nodes : List PlannedNode} {consumer m : PlannedNode}
  {producers : List Nat} {waits : List PlannedWait} {u : Nat}

theorem edgeWait_eq (h : StreamHandles) (consumer : PlannedNode) (hu : nodes[u]? = some m) :
    edgeWait h nodes consumer u =
    if m.stream.isNone || m.provider = consumer.provider then .ok none
    else (h.lookupWait m.provider consumer.provider).map fun f => some ⟨u, f⟩ := by
  simp [edgeWait, hu]

/-- Of elements with different keys, only one has a given key. -/
theorem filter_key {α β : Type} [DecidableEq β] {key : α → β} :
    ∀ {xs : List α} {x : α}, (xs.map key).Nodup → x ∈ xs → xs.filter (key · = key x) = [x] := by
  intro xs
  induction xs with
  | nil => exact fun _ hx => nomatch hx
  | cons y rest ih =>
      intro x hnodup hx
      obtain ⟨hy, hrest⟩ := List.nodup_cons.mp (List.map_cons ▸ hnodup)
      rcases List.mem_cons.mp hx with rfl | hmem
      · rw [List.filter_cons_of_pos (by simp), List.filter_eq_nil_iff.mpr]
        intro z hz heq
        exact hy (List.mem_map.mpr ⟨z, hz, by simpa using heq⟩)
      · rw [List.filter_cons_of_neg, ih hrest hmem]
        intro heq
        exact hy (List.mem_map.mpr ⟨x, hmem, by simpa using (of_decide_eq_true heq).symm⟩)

/-- The waits for a producer are the one that was planned, if any was. -/
theorem WaitsFor.filter_eq (hw : WaitsFor h nodes consumer producers waits) (hu : u ∈ producers)
    {o : Option PlannedWait} (ho : edgeWait h nodes consumer u = .ok o) :
    waits.filter (·.producer = u) = o.toList := by
  obtain ⟨o', ho', hmem⟩ := hw.complete u hu
  obtain rfl : o' = o := Except.ok.inj (ho'.symm.trans ho)
  cases o' with
  | some w =>
      obtain rfl := edgeWait_producer ho
      exact filter_key hw.once (hmem w rfl)
  | none =>
      refine List.filter_eq_nil_iff.mpr fun w hin heq => ?_
      obtain rfl : w.producer = u := of_decide_eq_true heq
      cases ho.symm.trans (hw.sound w hin).2

theorem WaitsFor.filter_eq_nil (hw : WaitsFor h nodes consumer producers waits) (hu : u ∉ producers) :
    waits.filter (·.producer = u) = [] := by
  refine List.filter_eq_nil_iff.mpr fun w hin heq => hu ?_
  obtain rfl : w.producer = u := of_decide_eq_true heq
  exact (hw.sound w hin).1

end Waits

/-! ## Outputs of the graph -/

section Outputs

variable {h : StreamHandles} {nodes nodes' : List PlannedNode} {m : PlannedNode} {x : Value} {u : Nat}

theorem outputWait_eq (hx : x.producer = some u) (hu : nodes[u]? = some m) : outputWait h nodes x =
    if m.stream.isNone then .ok none else (h.lookupWait m.provider .cpu).map fun f => some ⟨u, f⟩ := by
  simp [outputWait, hx, hu]

/-- The wait of an output depends on where nodes are and on nothing else about them. -/
theorem outputWait_congr (hsame : nodes.map (fun n => (n.provider, n.stream)) =
    nodes'.map fun n => (n.provider, n.stream)) : outputWait h nodes x = outputWait h nodes' x := by
  unfold outputWait
  cases x.producer with
  | none => rfl
  | some u =>
      have hu := congrArg (·[u]?) hsame
      simp only [List.getElem?_map] at hu
      cases hm : nodes[u]? with
      | none =>
          rw [hm, Option.map_none, eq_comm, Option.map_eq_none_iff] at hu
          simp only [hm, hu]
      | some m =>
          rw [hm, Option.map_some, eq_comm] at hu
          obtain ⟨m', hm', hpair⟩ := Option.map_eq_some_iff.mp hu
          obtain ⟨hprovider, hstream⟩ := Prod.mk.inj hpair
          simp only [hm, hm', hprovider, hstream]

end Outputs

/-! ## Nodes of the plan and nodes of the graph -/

section Wired

variable {Job : Type} {s : Session} {g : Graph} {vs : List Value} {order : List Node} {t : Typed}
  {table : StreamTable} {p : Plan} {u c : Nat} {a b : Node} {m n : PlannedNode} {o : PlannedOutput}

/-- What a node of the plan has of the node of the graph in its place. -/
theorem Connected.stands (hc : Connected s.handles g t table p) (hp : Planned s g vs order t)
    (hm : p.nodes[u]? = some m) : ∃ a pa, order[u]? = some a ∧ t.nodes[u]? = some pa ∧
      m.name = a.name ∧ m.provider = s.providerOf a ∧ (place table pa).provider = m.provider ∧
      (place table pa).stream = m.stream ∧ m.stream = streamNumber? table m.provider ∧
      WaitsFor s.handles (t.nodes.map (place table)) (place table pa) (producersOf t.values pa) m.waits := by
  obtain ⟨pa, waits, hpa, hwaits, rfl⟩ := hc.nodes hm
  obtain ⟨a, choice, kernel, more, ha, hdec, -, rfl⟩ := hp.decided hpa
  obtain ⟨-, -, -, -, -, hprovider⟩ := hdec.describes
  exact ⟨a, _, ha, hpa, rfl, hprovider, rfl, rfl, rfl, hwaits⟩

theorem Connected.nodes_eq (hc : Connected s.handles g t table p) (hp : Planned s g vs order t) :
    p.nodes.map (fun n => (n.name, n.provider)) = order.map fun a => (a.name, s.providerOf a) := by
  have hlen : p.nodes.length = order.length := hc.length.trans hp.length
  refine List.ext_getElem? fun u => ?_
  simp only [List.getElem?_map]
  cases hm : p.nodes[u]? with
  | none =>
      rw [List.getElem?_eq_none (hlen ▸ List.getElem?_eq_none_iff.mp hm)]
      rfl
  | some m =>
      obtain ⟨a, -, ha, -, hname, hprovider, -⟩ := hc.stands hp hm
      rw [ha, Option.map_some, Option.map_some, hname, hprovider]

theorem LaidOut.climbs (hl : LaidOut g vs order) (ha : order[u]? = some a) (hb : order[c]? = some b)
    (hreads : b.ReadsFrom a) : u < c := by
  obtain ⟨v, hmade, hread⟩ := hreads
  exact Nat.lt_of_not_le fun hle => hl.not_made_later hb ha hle hread hmade

/-- The value of a number is made by the node that makes its name. -/
theorem Planned.maker_iff (hl : LaidOut g vs order) (hp : Planned s g vs order t) {v : Nat} {x : Value}
    (hx : t.values[v]? = some x) :
    x.producer = some u ↔ ∃ a, order[u]? = some a ∧ x.name ∈ a.makes := by
  have hproducer : ((t.values[v]?).bind fun y => y.producer) = x.producer := by rw [hx]; rfl
  have hname : (names vs)[v]? = some x.name := by
    rw [← hp.named, names, List.getElem?_map, hx]
    rfl
  rw [← hproducer, hp.producer_iff hl]
  constructor
  · rintro ⟨pa, hpa, hout⟩
    obtain ⟨a, name, ha, hmade, hnum⟩ := hp.makes hpa hout
    exact ⟨a, ha, Option.some.inj (hnum.symm.trans hname) ▸ hmade⟩
  · rintro ⟨a, ha, hmade⟩
    exact hp.makes_of_mem hl ha hmade hname

/-! ### Streams -/

variable {mc mc' : Machine Job}

theorem Connected.streams_eq (hc : Connected s.handles g t table p) (ht : Tabled s.handles table) :
    p.streams.map (·.provider) = table.map (·.1) := by
  rw [hc.streams, List.map_map]
  exact List.map_congr_left fun e he => (ht.device e he).2

theorem Connected.mem_streams (hc : Connected s.handles g t table p) (hp : Planned s g vs order t)
    (ho : (t.nodes.map (·.provider)).foldlM (openFor s.handles) ([], mc) = .ok (table, mc'))
    (id : ProviderId) : id ∈ p.streams.map (·.provider) ↔
      s.handles.hasFactory id = true ∧ ∃ n ∈ p.nodes, n.provider = id := by
  have hproviders : p.nodes.map (·.provider) = t.nodes.map (·.provider) := by
    refine List.ext_getElem? fun u => ?_
    simp only [List.getElem?_map]
    cases hm : p.nodes[u]? with
    | none => rw [List.getElem?_eq_none (hc.length ▸ List.getElem?_eq_none_iff.mp hm)]
    | some m =>
        obtain ⟨-, pa, -, hpa, -, -, hprovider, -⟩ := hc.stands hp hm
        rw [hpa, Option.map_some, Option.map_some, ← hprovider]
        rfl
  rw [hc.streams_eq (tabled ho), ← streamNumber?_isSome, streams_opened ho, ← hproviders, and_comm,
    List.mem_map]

/-- A node is on the stream of its provider. -/
theorem Connected.placed (hc : Connected s.handles g t table p) (hp : Planned s g vs order t)
    (ho : (t.nodes.map (·.provider)).foldlM (openFor s.handles) ([], mc) = .ok (table, mc'))
    (hm : p.nodes[u]? = some m) : m.stream.isSome = s.handles.hasFactory m.provider ∧
      ∀ k, m.stream = some k → ∃ st, p.streamOf m = some st ∧ st.provider = m.provider ∧
        Assoc.find? m.provider s.handles.factories = some st.device := by
  obtain ⟨-, pa, -, hpa, -, -, hprovider, hstream, hnumber, -⟩ := hc.stands hp hm
  refine ⟨Bool.eq_iff_iff.mpr ?_, fun k hk => ?_⟩
  · rw [← hstream, placed_isSome ho (List.mem_of_getElem? hpa), ← hprovider]
    rfl
  · obtain ⟨st, hst⟩ := streamNumber?_eq_some (hnumber ▸ hk)
    obtain ⟨hdevice, hown⟩ := (tabled ho).device _ (List.mem_of_getElem? hst)
    exact ⟨st, by rw [streamOf, hk, hc.streams, Option.bind_some, List.getElem?_map, hst,
      Option.map_some], hown, hdevice⟩

/-! ### Waits -/

/-- Whether a node waits for another goes by what it reads and where both are. -/
theorem Connected.waits_filter (hc : Connected s.handles g t table p) (hl : LaidOut g vs order)
    (hp : Planned s g vs order t) (ha : order[u]? = some a) (hb : order[c]? = some b)
    (hm : p.nodes[u]? = some m) (hn : p.nodes[c]? = some n) :
    (b.ReadsFrom a → m.stream.isSome = true → m.provider ≠ n.provider →
      ∃ f, s.handles.lookupWait m.provider n.provider = .ok f ∧
        n.waits.filter (·.producer = u) = [⟨u, f⟩]) ∧
    (¬(b.ReadsFrom a ∧ m.stream.isSome = true ∧ m.provider ≠ n.provider) →
      n.waits.filter (·.producer = u) = []) := by
  obtain ⟨-, pm, -, hpm, -, -, hproviderM, hstreamM, -⟩ := hc.stands hp hm
  obtain ⟨b', pn, hb', hpn, -, -, hproviderN, -, -, hwaits⟩ := hc.stands hp hn
  obtain rfl : b = b' := Option.some.inj (hb.symm.trans hb')
  have hreads : u ∈ producersOf t.values pn ↔ b.ReadsFrom a := by
    rw [hp.mem_producersOf hl hb hpn]
    constructor
    · rintro ⟨a', ha', hreads⟩
      obtain rfl : a = a' := Option.some.inj (ha.symm.trans ha')
      exact hreads
    · exact fun hreads => ⟨a, ha, hreads⟩
  have hplaced : (t.nodes.map (place table))[u]? = some (place table pm) := by
    rw [List.getElem?_map, hpm, Option.map_some]
  have hedge := edgeWait_eq s.handles (place table pn) hplaced
  rw [hproviderM, hstreamM, hproviderN] at hedge
  constructor
  · intro hread hstream hne
    rw [if_neg (by simp [hne, Option.isSome_iff_ne_none.mp hstream])] at hedge
    obtain ⟨o, ho, -⟩ := hwaits.complete u (hreads.mpr hread)
    obtain ⟨f, hf, rfl⟩ := map_eq_ok.mp (hedge.symm.trans ho)
    exact ⟨f, hf, hwaits.filter_eq (hreads.mpr hread) ho⟩
  · intro hnot
    by_cases hread : b.ReadsFrom a
    · have hskip : (m.stream.isNone || decide (m.provider = n.provider)) = true := by
        by_cases hstream : m.stream.isSome = true
        · simp [not_not.mp fun hne => hnot ⟨hread, hstream, hne⟩]
        · simp [Option.not_isSome_iff_eq_none.mp hstream]
      rw [if_pos hskip] at hedge
      exact hwaits.filter_eq (hreads.mpr hread) hedge
    · exact hwaits.filter_eq_nil fun hmem => hread (hreads.mp hmem)

/-! ### Outputs -/

/-- Outputs are planned as if all nodes had been finished before. -/
theorem Connected.outputs_planned (hc : Connected s.handles g t table p) :
    g.outputs.mapM (planOutput s.handles p.values p.nodes) = .ok p.outputs := by
  obtain ⟨wired, hwired, houtputs⟩ := hc.outputs
  have hsame : planOutput s.handles p.values p.nodes = planOutput s.handles t.values wired := by
    funext name
    unfold planOutput
    rw [hc.values]
    cases t.values.zipIdx.find? fun e => e.1.name = name with
    | none => rfl
    | some e => simp only [outputWait_congr hwired]
  rw [hsame, houtputs]

/-- An output is a value of the plan, and waits as its value has to. -/
theorem Connected.output_value (hc : Connected s.handles g t table p) (ho : o ∈ p.outputs) :
    ∃ x, t.values[o.value]? = some x ∧ p.valueName o.value = x.name ∧
      outputWait s.handles p.nodes x = .ok o.wait := by
  have hmem : Except.ok o ∈ g.outputs.map (planOutput s.handles p.values p.nodes) := by
    rw [mapM_eq_ok.mp hc.outputs_planned]
    exact List.mem_map_of_mem ho
  obtain ⟨name, -, hname⟩ := List.mem_map.mp hmem
  obtain ⟨x, hx, -, hwait⟩ := planOutput_eq_ok hname
  exact ⟨x, hc.values ▸ hx, by simp [valueName, hx], hwait⟩

theorem Connected.output_names (hc : Connected s.handles g t table p) :
    p.outputs.map (fun o => p.valueName o.value) = g.outputs := by
  refine map_of_mapM_eq_ok hc.outputs_planned fun name o ho => ?_
  obtain ⟨x, hx, rfl, -⟩ := planOutput_eq_ok ho
  simp [valueName, hx]

/-- An output waits for the node that makes it, if that is on a stream. -/
theorem Connected.output_fetched (hc : Connected s.handles g t table p) (hl : LaidOut g vs order)
    (hp : Planned s g vs order t) (ho : o ∈ p.outputs) (ha : order[u]? = some a)
    (hm : p.nodes[u]? = some m) (hmade : p.valueName o.value ∈ a.makes) (hstream : m.stream.isSome = true) :
    ∃ f, s.handles.lookupWait m.provider .cpu = .ok f ∧ o.wait = some ⟨u, f⟩ := by
  obtain ⟨x, hx, hname, hwait⟩ := hc.output_value ho
  have hproducer := (hp.maker_iff hl hx).mpr ⟨a, ha, hname ▸ hmade⟩
  rw [outputWait_eq hproducer hm, if_neg (by simp [Option.isSome_iff_ne_none.mp hstream])] at hwait
  obtain ⟨f, hf, hw⟩ := map_eq_ok.mp hwait
  exact ⟨f, hf, hw.symm⟩

/-- Whom an output waits for makes it, on a stream. -/
theorem Connected.output_maker (hc : Connected s.handles g t table p) (hl : LaidOut g vs order)
    (hp : Planned s g vs order t) (ho : o ∈ p.outputs) {w : PlannedWait} (hw : o.wait = some w) :
    ∃ a m, order[w.producer]? = some a ∧ p.nodes[w.producer]? = some m ∧
      p.valueName o.value ∈ a.makes ∧ m.stream.isSome = true := by
  obtain ⟨x, hx, hname, hwait⟩ := hc.output_value ho
  obtain ⟨hproducer, m, hm, hstream⟩ := outputWait_eq_some (hw ▸ hwait)
  obtain ⟨a, ha, hmade⟩ := (hp.maker_iff hl hx).mp hproducer
  exact ⟨a, m, ha, hm, hname ▸ hmade, hstream⟩

/-- There are as many streams as there are providers that make streams and run a node. -/
theorem Connected.streams_length (hc : Connected s.handles g t table p) (hp : Planned s g vs order t)
    (ho : (t.nodes.map (·.provider)).foldlM (openFor s.handles) ([], mc) = .ok (table, mc')) :
    p.streams.length = ((p.nodes.map (·.provider)).filter s.handles.hasFactory).dedup.length := by
  have honce : (p.streams.map (·.provider)).Nodup := hc.streams_eq (tabled ho) ▸ (tabled ho).once
  have hperm : (p.streams.map (·.provider)).Perm
      ((p.nodes.map (·.provider)).filter s.handles.hasFactory).dedup := by
    refine (List.perm_ext_iff_of_nodup honce (List.nodup_dedup _)).mpr fun id => ?_
    rw [hc.mem_streams hp ho, List.mem_dedup, List.mem_filter, List.mem_map, and_comm]
  rw [← hperm.length_eq, List.length_map]

end Wired

/-- A second provider on the timeline of the first. -/
def peer : ProviderId := ⟨"PeerExecutionProvider"⟩

/-- An operator with two inputs and two outputs that does nothing. -/
def pairing (provider : Option ProviderId) : Descriptor :=
  let one := idle provider .undefined .undefined
  { one with
    signature := { one.signature with
      inputs := [.undefined, .undefined], outputs := [.undefined, .undefined] } }

/-- Two providers on one timeline that wait for each other, and the host. -/
def peersSetup : Setup :=
  { providers := [Provider.simulated 0 .sim [peer], Provider.simulated 0 peer [.sim]]
    domains := [("demo", [pairing none, pairing (some .sim), pairing (some peer)])]
    builtins := false }

/-- A node whose outputs are both read by its peer, one of them on the host as well, and given back twice. -/
def peersGraph : Graph :=
  { inputs := [("x", .float32)]
    nodes :=
      [{ name := "c", domain := "demo", op := "Foo", inputs := ["q", "r"], outputs := ["z", ""] },
        { name := "a", domain := "demo", op := "Foo", inputs := ["x", "x"], outputs := ["p", "q"]
          provider := some .sim },
        { name := "b", domain := "demo", op := "Foo", inputs := ["p", "q"], outputs := ["r", ""]
          provider := some peer }]
    outputs := ["q", "z", "q"] }

end Plan

end OpGraph
