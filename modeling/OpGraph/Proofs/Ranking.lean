import Mathlib.Data.List.Sort
import Mathlib.Order.Lattice.Nat
import OpGraph.Proofs.Acyclic
import OpGraph.Proofs.Turns

/-!
# `Proofs.Ranking` — the order of a graph, exactly

Nodes come in their turns, that is by the place of their last source (`Line.Counts.inTurn_advance`). The turn
settles the length of the longest chain of producers as well: of two nodes the later one has a last source that
does not come before the last one of the other, so by induction none of its chains falls short of the other's
(`Legal.depth_le`). Hence the order is sorted by that length, by the place of the last source and by the
position in the graph. Where there is none, the nodes with open readings are reported, and these are the ones on
a cycle or behind one (`order_stuck`).
-/

namespace OpGraph.Graph

open Relation

/-- So many steps lead from producer to reader up to a node. -/
inductive ChainTo (g : Graph) : Nat → Nat → Prop
  | here (j : Nat) : ChainTo g 0 j
  | next {k i j : Nat} : ChainTo g k i → g.Feeds i j → ChainTo g (k + 1) j

/-- Length of the longest chain of producers that ends at a node. -/
noncomputable def depth (g : Graph) (j : Nat) : Nat := sSup {k | g.ChainTo k j}

/-- What an order is sorted by. -/
noncomputable def rank (g : Graph) (order : List Nat) (j : Nat) : Nat ×ₗ WithBot Nat ×ₗ Nat :=
  toLex (g.depth j, g.turn order j)

variable {g : Graph} {order : List Nat} {i j k a b : Nat}

/-! ## Places in an order -/

/-- Producers come first. -/
theorem Legal.idxOf_lt (hlegal : Legal g [] order) (hn : (g.products.map (·.1)).Nodup) (hj : j ∈ order)
    (h : g.Feeds i j) : i ∈ order ∧ order.idxOf i < order.idxOf j := by
  obtain ⟨k, hlt, hk⟩ := hlegal.climbs hn (TransGen.single h) (List.getElem?_idxOf hj)
  obtain ⟨hlen, rfl⟩ := List.getElem?_eq_some_iff.mp hk
  rw [hlegal.distinct.idxOf_getElem]
  exact ⟨List.getElem_mem hlen, hlt⟩

theorem Legal.chain_le (hlegal : Legal g [] order) (hn : (g.products.map (·.1)).Nodup)
    (hchain : g.ChainTo k j) (hj : j ∈ order) : k ≤ order.idxOf j := by
  induction hchain with
  | here => exact Nat.zero_le _
  | next _ hfeeds ih =>
      obtain ⟨hi, hlt⟩ := hlegal.idxOf_lt hn hj hfeeds
      exact (ih hi).trans_lt hlt

/-- **A node that comes has a longest chain of producers.** -/
theorem Legal.depth_greatest (hlegal : Legal g [] order) (hn : (g.products.map (·.1)).Nodup) (hj : j ∈ order) :
    IsGreatest {k | g.ChainTo k j} (g.depth j) := by
  have hbounded : BddAbove {k | g.ChainTo k j} := ⟨order.idxOf j, fun _ hk => hlegal.chain_le hn hk hj⟩
  exact ⟨Nat.sSup_mem ⟨0, .here j⟩ hbounded, fun _ hk => le_csSup hbounded hk⟩

theorem Legal.depth_succ_le (hlegal : Legal g [] order) (hn : (g.products.map (·.1)).Nodup) (hj : j ∈ order)
    (h : g.Feeds i j) : g.depth i + 1 ≤ g.depth j := by
  have hi := (hlegal.idxOf_lt hn hj h).1
  exact (hlegal.depth_greatest hn hj).2 (.next (hlegal.depth_greatest hn hi).1 h)

/-- A longest chain that has a last step is a longest one up to there. -/
theorem Legal.depth_eq (hlegal : Legal g [] order) (hn : (g.products.map (·.1)).Nodup) (hj : j ∈ order) :
    g.depth j = 0 ∨ ∃ i, g.Feeds i j ∧ g.depth j = g.depth i + 1 := by
  have hchain : g.ChainTo (g.depth j) j := (hlegal.depth_greatest hn hj).1
  generalize hd : g.depth j = d at hchain
  cases hchain with
  | here => exact Or.inl rfl
  | @next k i _ hchain hfeeds =>
      have hle : k ≤ g.depth i := (hlegal.depth_greatest hn (hlegal.idxOf_lt hn hj hfeeds).1).2 hchain
      have hge := hlegal.depth_succ_le hn hj hfeeds
      exact Or.inr ⟨i, hfeeds, by omega⟩

/-! ## The longest chains grow along the order -/

/-- Of two nodes in turn, the later one has the longer chain of producers, or one as long. -/
theorem Legal.depth_le (hlegal : Legal g [] order) (hn : (g.products.map (·.1)).Nodup)
    (hturn : ∀ a ∈ order, ∀ b ∈ order, order.idxOf a < order.idxOf b → g.turn order a < g.turn order b)
    (ha : a ∈ order) (hb : b ∈ order) (hlt : order.idxOf a < order.idxOf b) : g.depth a ≤ g.depth b := by
  induction hplace : order.idxOf b using Nat.strong_induction_on generalizing a b with
  | _ place ih =>
      subst hplace
      obtain hzero | ⟨i, hfeeds, hdepth⟩ := hlegal.depth_eq hn ha
      · exact hzero ▸ Nat.zero_le _
      · -- The last source of `b` is `i` or comes after it.
        have hle : g.lastSource order a ≤ g.lastSource order b :=
          (Prod.Lex.toLex_lt_toLex.mp (hturn a ha b hb hlt)).elim le_of_lt fun h => h.1.le
        have hi : WithBot.some (order.idxOf i) ≤ g.lastSource order b :=
          (idxOf_le_lastSource ((mem_sourcesAt hn).mpr hfeeds)).trans hle
        obtain ⟨c, hc, hic⟩ := exists_lastSource hi
        have hcb : g.Feeds c b := (mem_sourcesAt hn).mp hc
        obtain ⟨hmem, hcplace⟩ := hlegal.idxOf_lt hn hb hcb
        have hstep := hlegal.depth_succ_le hn hb hcb
        have himem := (hlegal.idxOf_lt hn ha hfeeds).1
        have hchains : g.depth i ≤ g.depth c := by
          rcases Nat.lt_or_eq_of_le hic with hbefore | hsame
          · exact ih _ hcplace himem hmem hbefore rfl
          · exact (List.idxOf_inj himem).mp hsame ▸ le_rfl
        omega

/-! ## Nodes that do not come -/

namespace Line

variable {came : List Nat} {l : Line}

/-- The nodes with open readings are those that have not come. -/
theorem open_iff (hcounts : Counts g came [] l) (hcomplete : Complete g came l) (hready : l.ready = [])
    (hj : j < g.nodes.length) : 0 < l.openReads.getD j 0 ↔ j ∉ came := by
  constructor
  · intro hopen hcame
    have := (hcounts.closed j (List.mem_append_left _ hcame)).2
    omega
  · intro hnot
    by_contra hclosed
    have hmem := hcomplete.waiting j hj (Nat.eq_zero_of_not_pos hclosed)
    rw [hready, List.append_nil] at hmem
    exact hnot hmem

/-- With fuel for all nodes, the line is empty in the end. -/
theorem ready_advance (g : Graph) : (Line.advance g g.nodes.length (Line.start g)).2.ready = [] := by
  obtain ⟨-, hcounts⟩ := Counts.advance g.nodes.length (counts_start g)
  rcases Complete.advance g.nodes.length (complete_start g) with hlen | ⟨hready, -⟩
  · -- All came, so nobody else can be in line.
    rw [List.nil_append] at hcounts
    have hsub : (Line.advance g g.nodes.length (Line.start g)).1 ++
        (Line.advance g g.nodes.length (Line.start g)).2.ready ⊆ List.range g.nodes.length :=
      fun j hj => List.mem_range.mpr (hcounts.closed j hj).1
    have hle := (List.subperm_of_subset hcounts.distinct hsub).length_le
    rw [List.length_append, List.length_range, hlen] at hle
    exact List.length_eq_zero_iff.mp (by omega)
  · exact hready

end Line

/-! ## The order of a graph -/

theorem pairwise_iff_idxOf {R : Nat → Nat → Prop} (hnodup : order.Nodup) :
    order.Pairwise R ↔ ∀ a ∈ order, ∀ b ∈ order, order.idxOf a < order.idxOf b → R a b := by
  rw [List.pairwise_iff_getElem]
  constructor
  · intro h a ha b hb hlt
    simpa using h _ _ (List.idxOf_lt_length_iff.mpr ha) (List.idxOf_lt_length_iff.mpr hb) hlt
  · intro h p q hp hq hlt
    refine h _ (List.getElem_mem hp) _ (List.getElem_mem hq) ?_
    rwa [hnodup.idxOf_getElem, hnodup.idxOf_getElem]

/-- Nodes stand in their turns. -/
theorem order_turn (h : g.order = .ok order) : order.Pairwise fun a b => g.turn order a < g.turn order b := by
  have hturn := Line.Counts.inTurn_advance g.nodes.length (Line.counts_start g) (Line.inTurn_start g)
  unfold Graph.order at h
  generalize Line.advance g g.nodes.length (Line.start g) = result at h hturn
  obtain ⟨came, l⟩ := result
  by_cases hlen : came.length = g.nodes.length
  · obtain rfl : came = order := by simpa [hlen] using h
    exact (List.pairwise_append.mp hturn).1
  · simp [hlen] at h

/-- **The order of a graph is sorted** by the longest chains, the last sources and the positions. -/
theorem order_rank (hn : (g.products.map (·.1)).Nodup) (h : g.order = .ok order) :
    order.Pairwise fun a b => g.rank order a < g.rank order b := by
  obtain ⟨hlegal, -⟩ := order_legal h
  have hturn := (pairwise_iff_idxOf hlegal.distinct).mp (order_turn h)
  refine (pairwise_iff_idxOf hlegal.distinct).mpr fun a ha b hb hlt => Prod.Lex.toLex_lt_toLex.mpr ?_
  rcases Nat.lt_or_eq_of_le (hlegal.depth_le hn hturn ha hb hlt) with hdepth | hdepth
  · exact Or.inl hdepth
  · exact Or.inr ⟨hdepth, hturn a ha b hb hlt⟩

/-- Nodes without producers stand in graph order. -/
theorem order_roots (hn : (g.products.map (·.1)).Nodup) (h : g.order = .ok order) :
    order.Pairwise fun a b => (∀ i, ¬g.Feeds i a) → (∀ i, ¬g.Feeds i b) → a < b := by
  have hnone : ∀ {j}, (∀ i, ¬g.Feeds i j) → g.sourcesAt j = [] := fun {j} hj =>
    List.eq_nil_iff_forall_not_mem.mpr fun i hi => hj i ((mem_sourcesAt hn).mp hi)
  refine (order_turn h).imp fun {a b} hlt ha hb => ?_
  have hsame : g.lastSource order a = g.lastSource order b := by simp only [lastSource, hnone ha, hnone hb]
  exact (Prod.Lex.toLex_lt_toLex.mp hlt).elim (fun h => absurd hsame h.ne) fun h => h.2

open scoped Classical in
/-- **Without an order, the nodes on the cycles and behind them are named**, in graph order. -/
theorem order_stuck {names : List String} (hn : (g.products.map (·.1)).Nodup) (h : g.order = .error names) :
    names = (g.nodes.zipIdx.filter fun (_, i) => g.Stuck i).map fun (n, _) => n.name := by
  have hcomplete := Line.Complete.advance g.nodes.length (Line.complete_start g)
  obtain ⟨hlegal, hcounts⟩ := Line.Counts.advance g.nodes.length (Line.counts_start g)
  unfold Graph.order at h
  rw [List.nil_append] at hcounts hcomplete
  generalize Line.advance g g.nodes.length (Line.start g) = result at hcomplete hlegal hcounts h
  obtain ⟨came, l⟩ := result
  rcases hcomplete with hlen | ⟨hready, hcomplete⟩
  · simp [hlen] at h
  · by_cases hlen : came.length = g.nodes.length
    · simp [hlen] at h
    · obtain rfl := Except.error.inj ((if_neg hlen).symm.trans h)
      congr 1
      refine List.filter_congr fun a ha => decide_eq_decide.mpr ?_
      have hlt : a.2 < g.nodes.length := by
        have := List.snd_lt_add_of_mem_zipIdx ha
        omega
      exact (Line.open_iff hcounts hcomplete hready hlt).trans
        (Line.stuck_iff hn hlegal hcounts hcomplete hready hlt)

open scoped Classical in
/-- **The topological sort, exactly.** Nodes come until nobody is in line, and no settlement is without an
    open reading. There is an order exactly if there is no cycle. It lists every node once, behind all that
    feed it, and is sorted by the longest chain of producers, by the place of the last producer and by the
    position in the graph; those without producers are in graph order. Otherwise the nodes on a cycle and
    behind one are named, in graph order. -/
theorem order_exact (hn : (g.products.map (·.1)).Nodup) :
    (Line.advance? g g.nodes.length (Line.start g) = some (Line.advance g g.nodes.length (Line.start g)) ∧
      (Line.advance g g.nodes.length (Line.start g)).2.ready = []) ∧
    ((∃ order, g.order = .ok order) ↔ g.Acyclic) ∧
    (∀ order, g.order = .ok order →
      order.Perm (List.range g.nodes.length) ∧
      (∀ i j, g.Feeds i j → order.idxOf i < order.idxOf j) ∧
      (∀ j < g.nodes.length, IsGreatest {k | g.ChainTo k j} (g.depth j)) ∧
      (order.Pairwise fun a b => g.rank order a < g.rank order b) ∧
      order.Pairwise fun a b => (∀ i, ¬g.Feeds i a) → (∀ i, ¬g.Feeds i b) → a < b) ∧
    ∀ names, g.order = .error names →
      names = (g.nodes.zipIdx.filter fun (_, i) => g.Stuck i).map fun (n, _) => n.name := by
  have hacyclic : (∃ order, g.order = .ok order) ↔ g.Acyclic :=
    ⟨fun ⟨_, h⟩ => (order_legal h).1.acyclic hn (order_legal h).2, fun h => h.exists_order hn⟩
  refine ⟨⟨(Line.counts_start g).advance?_eq _, Line.ready_advance g⟩, hacyclic, fun order h => ?_,
    fun _ => order_stuck hn⟩
  obtain ⟨hlegal, hlen⟩ := order_legal h
  have hperm := hlegal.perm hlen
  have hmem : ∀ {j}, j < g.nodes.length → j ∈ order := fun hj =>
    hperm.mem_iff.mpr (List.mem_range.mpr hj)
  refine ⟨hperm, fun i j hfeeds => ?_, fun j hj => hlegal.depth_greatest hn (hmem hj), order_rank hn h,
    order_roots hn h⟩
  have ⟨_, b, _, _, hb, _⟩ := hfeeds
  exact (hlegal.idxOf_lt hn (hmem (List.getElem?_eq_some_iff.mp hb).1) hfeeds).2

/-- One node feeds two that feed a fourth; they are listed from the end, and one of the two reads twice. -/
def diamondGraph : Graph :=
  { inputs := [("in", .float32)]
    nodes :=
      [{ name := "sum", domain := "demo", op := "Foo", inputs := ["left", "right"], outputs := ["out"] },
        { name := "right", domain := "demo", op := "Foo", inputs := ["x", "x"], outputs := ["right"] },
        { name := "left", domain := "demo", op := "Foo", inputs := ["x"], outputs := ["left"] },
        { name := "first", domain := "demo", op := "Foo", inputs := ["in", ""], outputs := ["x"] }]
    outputs := ["out"] }

theorem order_exact_diamond : (diamondGraph.products.map (·.1)).Nodup ∧ diamondGraph.order = .ok [3, 1, 2, 0] ∧
    diamondGraph.Acyclic ∧
    [3, 1, 2, 0].Pairwise fun a b => diamondGraph.rank [3, 1, 2, 0] a < diamondGraph.rank [3, 1, 2, 0] b := by
  have hn : (diamondGraph.products.map (·.1)).Nodup := by decide
  have horder : diamondGraph.order = .ok [3, 1, 2, 0] := rfl
  obtain ⟨-, hacyclic, hsorted, -⟩ := order_exact hn
  exact ⟨hn, horder, hacyclic.mp ⟨_, horder⟩, (hsorted _ horder).2.2.2.1⟩

end OpGraph.Graph
