import OpGraph.Proofs.Order
import OpGraph.Proofs.Outcome
import OpGraph.Plan.Types

/-!
# `Proofs.Layout` — values, their numbers, and the nodes in order

A graph that can be laid out gives each of its values one number, and puts its nodes in an order in which
everything a node reads was given or is made by a node before it.
-/

namespace OpGraph.Plan

open Outcome

/-! ## Numbers of values -/

/-- The names of values, by number. -/
def names (vs : List Value) : List String := vs.map (·.name)

/-- A value nobody makes yet. -/
def blank (v : String × DataType) : Value := ⟨v.1, v.2, none⟩

theorem names_of_number? {vs : List Value} {name : String} {v : Nat} (h : number? vs name = some v) :
    (names vs)[v]? = some name := by
  unfold number? at h
  obtain ⟨hlt, hname, -⟩ := List.findIdx?_eq_some_iff_getElem.mp h
  simpa [names, List.getElem?_eq_getElem hlt] using hname

theorem number?_eq_some {vs : List Value} (hn : (names vs).Nodup) {name : String} {v : Nat} :
    number? vs name = some v ↔ (names vs)[v]? = some name := by
  refine ⟨names_of_number?, fun h => ?_⟩
  cases hv : number? vs name with
  | none =>
      unfold number? at hv
      rw [List.findIdx?_eq_none_iff] at hv
      obtain ⟨x, hx, hname⟩ := List.mem_map.mp (List.mem_of_getElem? h)
      simpa [hname] using hv x hx
  | some w =>
      have hw := names_of_number? hv
      obtain ⟨hvlt, hv'⟩ := List.getElem?_eq_some_iff.mp h
      obtain ⟨hwlt, hw'⟩ := List.getElem?_eq_some_iff.mp hw
      rw [(List.getElem_inj hn).mp (hw'.trans hv'.symm)]

theorem number?_isNone {vs : List Value} {name : String} :
    number? vs name = none ↔ name ∉ names vs := by
  unfold number? names
  rw [List.findIdx?_eq_none_iff]
  simp

theorem define_eq_ok {vs vs' : List Value} {name : String} {type : DataType}
    (h : define vs name type = .ok vs') : name ∉ names vs ∧ vs' = vs ++ [blank (name, type)] := by
  unfold define at h
  cases hv : number? vs name with
  | some v => simp [hv] at h
  | none =>
      refine ⟨number?_isNone.mp hv, ?_⟩
      simpa [hv, blank] using h.symm

/-- Values that are defined come behind those there were, and no name comes twice. -/
theorem defineAll_eq_ok {vs vs' : List Value} {new : List (String × DataType)}
    (h : defineAll vs new = .ok vs') (hn : (names vs).Nodup) :
    vs' = vs ++ new.map blank ∧ (names vs').Nodup := by
  have hinv := foldlM_induction
    (fun acc seen => acc = vs ++ seen.map blank ∧ (names acc).Nodup)
    (fun acc seen v acc' hacc hdef => by
      obtain ⟨hfresh, rfl⟩ := define_eq_ok hdef
      obtain ⟨rfl, hnodup⟩ := hacc
      refine ⟨by simp, ?_⟩
      unfold names at hfresh hnodup ⊢
      rw [List.map_append]
      refine List.nodup_append.mpr ⟨hnodup, by simp, fun a ha b hb => ?_⟩
      obtain rfl : b = v.1 := by simpa [blank] using hb
      exact fun heq => hfresh (heq ▸ ha))
    new vs [] ⟨by simp, hn⟩ h
  simpa using hinv

/-! ## Nodes in order -/

/-- How the values of a graph and its nodes in order hang together. -/
structure LaidOut (g : Graph) (vs : List Value) (nodes : List Node) : Prop where
  values : vs =
    (given g ++ nodes.flatMap fun (n : Node) => n.makes.map fun v => (v, DataType.undefined)).map blank
  distinct : (names vs).Nodup
  mem : ∀ n ∈ nodes, n ∈ g.nodes
  /-- What a node reads of other nodes was made before it. -/
  earlier : ∀ {j : Nat} {n : Node} {name : String}, nodes[j]? = some n → name ∈ n.reads →
    name ∈ nodes.flatMap Node.makes → ∃ u < j, ∃ m, nodes[u]? = some m ∧ name ∈ m.makes

theorem getElem?_concat_eq_some {α : Type} {xs : List α} {a b : α} {j : Nat}
    (h : (xs ++ [a])[j]? = some b) :
    (j < xs.length ∧ xs[j]? = some b) ∨ (j = xs.length ∧ a = b) := by
  rcases Nat.lt_or_ge j xs.length with hlt | hge
  · exact Or.inl ⟨hlt, by rwa [List.getElem?_append_left hlt] at h⟩
  · rw [List.getElem?_append_right hge] at h
    obtain ⟨hj, hab⟩ := List.getElem?_eq_some_iff.mp h
    have hlen : j - xs.length < 1 := by simpa using hj
    exact Or.inr ⟨by omega, by simpa using hab⟩

theorem getElem?_filterMap_of_isSome {α β : Type} {f : α → Option β} :
    ∀ {xs : List α}, (∀ a ∈ xs, (f a).isSome) → ∀ k : Nat, (xs.filterMap f)[k]? = (xs[k]?).bind f := by
  intro xs
  induction xs with
  | nil => simp
  | cons a rest ih =>
      intro h k
      obtain ⟨b, hb⟩ := Option.isSome_iff_exists.mp (h a List.mem_cons_self)
      rw [List.filterMap_cons_some hb]
      cases k with
      | zero => simp [hb]
      | succ k => simpa using ih (fun a ha => h a (List.mem_cons_of_mem _ ha)) k

/-- A value that some node makes has a producer, and the producer makes it. -/
theorem exists_producer {g : Graph} {n : Node} {name : String} (hn : n ∈ g.nodes)
    (hname : name ∈ n.makes) :
    ∃ i m, g.producer? name = some i ∧ g.nodes[i]? = some m ∧ name ∈ m.makes := by
  obtain ⟨k, hk⟩ := List.mem_iff_getElem?.mp hn
  have hmem : (name, k) ∈ g.products := by
    simp only [Graph.products, List.mem_flatMap, Prod.exists, List.mem_map]
    exact ⟨n, k, List.mem_zipIdx_iff_getElem?.mpr hk, name, hname, rfl⟩
  have hfound : (g.products.find? fun e => e.1 = name).isSome :=
    List.find?_isSome.mpr ⟨(name, k), hmem, by simp⟩
  obtain ⟨⟨name', i⟩, hi⟩ := Option.isSome_iff_exists.mp hfound
  obtain rfl : name' = name := by simpa using List.find?_some hi
  have hprod := List.mem_of_find?_eq_some hi
  simp only [Graph.products, List.mem_flatMap, Prod.exists, List.mem_map] at hprod
  obtain ⟨m, i', hi', w, hw, hpair⟩ := hprod
  obtain ⟨rfl, rfl⟩ := Prod.mk.inj hpair
  refine ⟨i', m, ?_, List.mem_zipIdx_iff_getElem?.mp hi', hw⟩
  simp [Graph.producer?, Assoc.find?, hi]

/-- What laying out a graph goes through. -/
theorem layOut_iff {g : Graph} {vs : List Value} {nodes : List Node} :
    layOut g = .ok (vs, nodes) ↔ ∃ vs₀ order, defineAll [] (given g) = .ok vs₀ ∧
      firstRepeat? [] (g.products.map (·.1)) = none ∧ g.order = .ok order ∧
      defineAll vs₀ (made g order) = .ok vs ∧ order.filterMap (g.nodes[·]?) = nodes := by
  unfold layOut
  rw [bind_eq_ok]
  refine exists_congr fun vs₀ => ?_
  cases hrepeat : firstRepeat? [] (g.products.map (·.1)) with
  | some v => simp [bind_eq_ok, throw, throwThe, MonadExceptOf.throw]
  | none =>
      cases horder : g.order with
      | error stuck => simp [throw, throwThe, MonadExceptOf.throw]
      | ok order =>
          simp only [bind_eq_ok, pure_eq_ok, Prod.mk.injEq, true_and, Except.ok.injEq]
          constructor
          · rintro ⟨hgiven, vs₁, hmade, rfl, rfl⟩
            exact ⟨order, hgiven, rfl, hmade, rfl⟩
          · rintro ⟨_, hgiven, rfl, hmade, rfl⟩
            exact ⟨hgiven, vs, hmade, rfl, rfl⟩

/-- **A graph that can be laid out has one number for each value, and its nodes in order.** -/
theorem layOut_eq_ok {g : Graph} {vs : List Value} {nodes : List Node}
    (h : layOut g = .ok (vs, nodes)) : LaidOut g vs nodes := by
  obtain ⟨vs₀, order, hgiven, -, horder, hmade, rfl⟩ := layOut_iff.mp h
  obtain ⟨rfl, hnames⟩ := defineAll_eq_ok hgiven (by simp [names])
  obtain ⟨rfl, hnames⟩ := defineAll_eq_ok hmade hnames
  obtain ⟨hlegal, -⟩ := Graph.order_legal horder
  have hsome : ∀ i ∈ order, (g.nodes[i]?).isSome := by
    intro i hi
    obtain ⟨k, hk⟩ := List.mem_iff_getElem?.mp hi
    simpa using (hlegal.earlier hk).1
  have hnodes := getElem?_filterMap_of_isSome hsome
  refine ⟨by simp [made], hnames, ?_, ?_⟩
  · intro n hn
    obtain ⟨i, -, hi⟩ := List.mem_filterMap.mp hn
    exact List.mem_of_getElem? hi
  · intro j n name hj hread hmade
    obtain ⟨w, hw, hname⟩ := List.mem_flatMap.mp hmade
    obtain ⟨i', -, hi'⟩ := List.mem_filterMap.mp hw
    obtain ⟨i, m, hprod, hm, hmakes⟩ := exists_producer (List.mem_of_getElem? hi') hname
    rw [hnodes, Option.bind_eq_some_iff] at hj
    obtain ⟨p, hp, hn⟩ := hj
    have hsource : i ∈ g.sourcesAt p := by
      simp only [Graph.sourcesAt, hn, Option.map_some, Option.getD_some, Graph.sources,
        List.mem_filterMap]
      exact ⟨name, hread, hprod⟩
    rcases (hlegal.earlier hp).2 i hsource with hnone | ⟨u, hu, hi⟩
    · simp at hnone
    · exact ⟨u, hu, m, by rw [hnodes, hi]; exact hm, hmakes⟩

/-- The names of a graph's values: those given, then those made. -/
theorem LaidOut.names_eq {g : Graph} {vs : List Value} {nodes : List Node} (h : LaidOut g vs nodes) :
    names vs = (given g).map (·.1) ++ nodes.flatMap Node.makes := by
  rw [h.values]
  simp [names, blank, List.map_flatMap, Function.comp_def]

theorem LaidOut.makes_nodup {g : Graph} {vs : List Value} {nodes : List Node} (h : LaidOut g vs nodes) :
    (nodes.flatMap Node.makes).Nodup := by
  have hnames := h.distinct
  rw [h.names_eq] at hnames
  exact (List.nodup_append.mp hnames).2.1

/-- Two nodes in order never make one value. -/
theorem LaidOut.makes_once {g : Graph} {vs : List Value} {nodes : List Node} (h : LaidOut g vs nodes)
    {i j : Nat} {a b : Node} {name : String} (hi : nodes[i]? = some a) (hj : nodes[j]? = some b)
    (ha : name ∈ a.makes) (hb : name ∈ b.makes) : i = j := by
  have hpair := (List.pairwise_flatMap.mp h.makes_nodup).2
  rw [List.pairwise_iff_getElem] at hpair
  obtain ⟨hilt, rfl⟩ := List.getElem?_eq_some_iff.mp hi
  obtain ⟨hjlt, rfl⟩ := List.getElem?_eq_some_iff.mp hj
  rcases Nat.lt_trichotomy i j with hlt | heq | hgt
  · exact absurd rfl (hpair i j hilt hjlt hlt name ha name hb)
  · exact heq
  · exact absurd rfl (hpair j i hjlt hilt hgt name hb name ha)

/-- What a node reads is not made by it, nor behind it. -/
theorem LaidOut.not_made_later {g : Graph} {vs : List Value} {nodes : List Node}
    (h : LaidOut g vs nodes) {j k : Nat} {n m : Node} {name : String} (hj : nodes[j]? = some n)
    (hk : nodes[k]? = some m) (hjk : j ≤ k) (hread : name ∈ n.reads) : name ∉ m.makes := by
  intro hmade
  have hin : name ∈ nodes.flatMap Node.makes :=
    List.mem_flatMap.mpr ⟨m, List.mem_of_getElem? hk, hmade⟩
  obtain ⟨u, hu, a, ha, hname⟩ := h.earlier hj hread hin
  have := h.makes_once ha hk hname hmade
  omega

end OpGraph.Plan
