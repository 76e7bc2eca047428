import Mathlib.Data.Fintype.EquivFin
import Mathlib.Order.WellFounded
import OpGraph.Proofs.Layout

/-!
# `Proofs.Acyclic` — a graph has an order exactly if it has no cycle

An order puts every node behind those it reads from, so it climbs along every path and no path closes. For
the other direction, nodes without open readings are in line or have come (`Line.Complete`), so when the
line is empty every node that has not come reads from another that has not. Off the cycles reading is well
founded on the finitely many nodes, so what does not come lies on a cycle or behind one (`Line.stuck_iff`):
without a cycle nothing is left.
-/

namespace OpGraph.Graph

open Relation

/-- The node at `i` makes a value that the node at `j` reads. -/
def Feeds (g : Graph) (i j : Nat) : Prop :=
  ∃ a b v, g.nodes[i]? = some a ∧ g.nodes[j]? = some b ∧ v ∈ a.makes ∧ v ∈ b.reads

/-- No node reads, over however many others, from itself. -/
def Acyclic (g : Graph) : Prop := ∀ i, ¬TransGen g.Feeds i i

/-- The node lies on a cycle, or behind one. -/
def Stuck (g : Graph) (i : Nat) : Prop := ∃ c, TransGen g.Feeds c c ∧ ReflTransGen g.Feeds c i

/-! ## Sources of a node -/

theorem mem_products {g : Graph} {v : String} {i : Nat} :
    (v, i) ∈ g.products ↔ ∃ a, g.nodes[i]? = some a ∧ v ∈ a.makes := by
  simp only [products, List.mem_flatMap, Prod.exists, List.mem_map, Prod.mk.injEq]
  constructor
  · rintro ⟨a, k, hk, w, hw, rfl, rfl⟩
    exact ⟨a, List.mem_zipIdx_iff_getElem?.mp hk, hw⟩
  · rintro ⟨a, ha, hv⟩
    exact ⟨a, i, List.mem_zipIdx_iff_getElem?.mpr ha, v, hv, rfl, rfl⟩

/-- Where every value is made once, its producer is the node that makes it. -/
theorem producer?_eq_some {g : Graph} (hn : (g.products.map (·.1)).Nodup) {v : String} {i : Nat} :
    g.producer? v = some i ↔ (v, i) ∈ g.products :=
  Assoc.find?_eq_some hn

/-- The sources of a node are the nodes that feed it. -/
theorem mem_sourcesAt {g : Graph} (hn : (g.products.map (·.1)).Nodup) {i j : Nat} :
    i ∈ g.sourcesAt j ↔ g.Feeds i j := by
  unfold sourcesAt sources Feeds
  cases hj : g.nodes[j]? with
  | none => simp
  | some b =>
      simp only [Option.map_some, Option.getD_some, List.mem_filterMap, producer?_eq_some hn, mem_products]
      constructor
      · rintro ⟨v, hread, a, ha, hmake⟩
        exact ⟨a, b, v, ha, rfl, hmake, hread⟩
      · rintro ⟨a, b', v, ha, hb, hmake, hread⟩
        obtain rfl := Option.some.inj hb
        exact ⟨v, hread, a, ha, hmake⟩

/-! ## An order excludes cycles -/

/-- An order climbs along every path. -/
theorem Legal.climbs {g : Graph} {order : List Nat} (hlegal : Legal g [] order)
    (hn : (g.products.map (·.1)).Nodup) {i j : Nat} (hpath : TransGen g.Feeds i j) {k : Nat}
    (hk : order[k]? = some j) : ∃ k' < k, order[k']? = some i := by
  -- Along the path, from its end back: the order has each node behind those it reads from.
  induction hpath generalizing k with
  | single hfeeds =>
      rcases (hlegal.earlier hk).2 i ((mem_sourcesAt hn).mpr hfeeds) with hnone | hearlier
      · simp at hnone
      · exact hearlier
  | @tail b c _ hfeeds ih =>
      rcases (hlegal.earlier hk).2 b ((mem_sourcesAt hn).mpr hfeeds) with hnone | ⟨k₁, hlt, hk₁⟩
      · simp at hnone
      · obtain ⟨k₂, hlt', hk₂⟩ := ih hk₁
        exact ⟨k₂, hlt'.trans hlt, hk₂⟩

/-- A legal order of all nodes lists each of them. -/
theorem Legal.perm {g : Graph} {order : List Nat} (hlegal : Legal g [] order)
    (hlen : order.length = g.nodes.length) : order.Perm (List.range g.nodes.length) := by
  have hsub : order ⊆ List.range g.nodes.length := by
    intro i hi
    obtain ⟨k, hk⟩ := List.mem_iff_getElem?.mp hi
    exact List.mem_range.mpr (hlegal.earlier hk).1
  exact (List.subperm_of_subset hlegal.distinct hsub).perm_of_length_le (by simp [hlen])

/-- The first node of a path is there. -/
theorem lt_of_path {g : Graph} {i j : Nat} (h : TransGen g.Feeds i j) : i < g.nodes.length := by
  obtain ⟨_, ⟨a, -, -, ha, -⟩, -⟩ := TransGen.head'_iff.mp h
  exact (List.getElem?_eq_some_iff.mp ha).1

/-- No node on a cycle comes. -/
theorem Legal.off_cycle {g : Graph} {order : List Nat} (hlegal : Legal g [] order)
    (hn : (g.products.map (·.1)).Nodup) {i : Nat} (hcycle : TransGen g.Feeds i i) : i ∉ order := by
  intro hmem
  obtain ⟨k, hk⟩ := List.mem_iff_getElem?.mp hmem
  obtain ⟨k', hlt, hk'⟩ := hlegal.climbs hn hcycle hk
  -- The node would be at two places of an order without repetition.
  have hsame := (List.getElem?_inj (List.getElem?_eq_some_iff.mp hk').1 hlegal.distinct).mp (hk'.trans hk.symm)
  omega

/-- **A graph with an order has no cycle.** -/
theorem Legal.acyclic {g : Graph} {order : List Nat} (hlegal : Legal g [] order)
    (hn : (g.products.map (·.1)).Nodup) (hlen : order.length = g.nodes.length) : g.Acyclic :=
  fun _ hcycle => hlegal.off_cycle hn hcycle
    ((hlegal.perm hlen).mem_iff.mpr (List.mem_range.mpr (lt_of_path hcycle)))

/-! ## Without cycles there is an order -/

namespace Line

/-- Every node without open readings came or is in line. -/
structure Complete (g : Graph) (came : List Nat) (l : Line) : Prop where
  length : l.openReads.length = g.nodes.length
  waiting : ∀ j < g.nodes.length, l.openReads.getD j 0 = 0 → j ∈ came ++ l.ready

theorem complete_start (g : Graph) : Complete g [] (Line.start g) where
  length := by simp [start]
  waiting j hj hopen := by
    rw [List.nil_append]
    exact List.mem_filter.mpr ⟨List.mem_range.mpr hj, decide_eq_true hopen⟩

theorem Complete.settle {g : Graph} {came : List Nat} {l : Line} (h : Complete g came l) (i : Nat) :
    Complete g came (l.settle i) := by
  refine ⟨by simpa [Line.settle] using h.length, fun j hj hopen => ?_⟩
  -- A node that is settled loses an open reading, and comes in line with the last one.
  by_cases hji : j = i
  · subst hji
    have hleft : l.openReads.getD j 0 - 1 = 0 := by
      simpa [Line.settle, h.length, hj] using hopen
    refine List.mem_append_right _ ?_
    show j ∈ if l.openReads.getD j 0 - 1 = 0 then l.ready ++ [j] else l.ready
    rw [if_pos hleft]
    exact List.mem_append_right _ (List.mem_singleton.mpr rfl)
  · have hold : l.openReads.getD j 0 = 0 := by
      simpa [Line.settle, List.getD_eq_getElem?_getD, List.getElem?_set_ne (Ne.symm hji)] using hopen
    rcases List.mem_append.mp (h.waiting j hj hold) with hcame | hready
    · exact List.mem_append_left _ hcame
    · refine List.mem_append_right _ ?_
      show j ∈ if l.openReads.getD i 0 - 1 = 0 then l.ready ++ [i] else l.ready
      split
      · exact List.mem_append_left _ hready
      · exact hready

theorem Complete.come {g : Graph} {came : List Nat} {i : Nat} {rest openReads : List Nat}
    (h : Complete g came ⟨i :: rest, openReads⟩) :
    Complete g (came ++ [i]) ((g.readers i).foldl Line.settle ⟨rest, openReads⟩) := by
  have hstart : Complete g (came ++ [i]) ⟨rest, openReads⟩ :=
    ⟨h.length, fun j hj hopen => by simpa using h.waiting j hj hopen⟩
  have hfold : ∀ (todo : List Nat) (l : Line), Complete g (came ++ [i]) l →
      Complete g (came ++ [i]) (todo.foldl Line.settle l) := by
    intro todo
    induction todo with
    | nil => exact fun l hl => hl
    | cons k rest ih => exact fun l hl => ih _ (hl.settle k)
  exact hfold _ _ hstart

/-- Nodes come as long as the fuel lasts, or until nobody is in line. -/
theorem Complete.advance {g : Graph} : ∀ (fuel : Nat) {came : List Nat} {l : Line}, Complete g came l →
    (Line.advance g fuel l).1.length = fuel ∨
      (Line.advance g fuel l).2.ready = [] ∧
        Complete g (came ++ (Line.advance g fuel l).1) (Line.advance g fuel l).2 := by
  intro fuel
  induction fuel with
  | zero => exact fun _ => .inl rfl
  | succ fuel ih =>
      intro came l h
      obtain ⟨ready, openReads⟩ := l
      cases ready with
      | nil => exact .inr ⟨rfl, by simpa [Line.advance] using h⟩
      | cons i rest =>
          rcases ih h.come with hlen | ⟨hready, hcomplete⟩
          · exact .inl (by simpa [Line.advance] using hlen)
          · exact .inr ⟨hready, by simpa [Line.advance] using hcomplete⟩

/-- When nobody is in line, whoever has not come reads from one that has not. -/
theorem exists_missing {g : Graph} {came : List Nat} {l : Line} (hcounts : Counts g came [] l)
    (hcomplete : Complete g came l) (hready : l.ready = []) {j : Nat} (hj : j < g.nodes.length)
    (hnot : j ∉ came) : ∃ i ∈ g.sourcesAt j, i ∉ came := by
  have hopen : missing g came j ≠ 0 := by
    intro hzero
    have hclosed : l.openReads.getD j 0 = 0 := by rw [hcounts.opens j hj, hzero, List.count_nil]
    have hmem := hcomplete.waiting j hj hclosed
    rw [hready, List.append_nil] at hmem
    exact hnot hmem
  obtain ⟨i, hi⟩ := List.exists_mem_of_ne_nil _ fun hnil => hopen (List.length_eq_zero_iff.mpr hnil)
  obtain ⟨hsource, hmissing⟩ := List.mem_filter.mp hi
  exact ⟨i, hsource, by simpa using hmissing⟩

end Line

/-- Nodes that lie on no cycle cannot all read from each other: one of them comes first. -/
theorem exists_first {g : Graph} {left : Set (Fin g.nodes.length)} (hne : left.Nonempty)
    (hleft : ∀ i ∈ left, ¬TransGen g.Feeds i i) : ∃ j ∈ left, ∀ i ∈ left, ¬g.Feeds i j := by
  let r : Fin g.nodes.length → Fin g.nodes.length → Prop := fun i j => j ∈ left ∧ TransGen g.Feeds i j
  have : IsTrans _ r := ⟨fun _ _ _ hij hjk => ⟨hjk.1, hij.2.trans hjk.2⟩⟩
  have : Std.Irrefl r := ⟨fun i hi => hleft i hi.1 hi.2⟩
  obtain ⟨j, hj, hfirst⟩ := (Finite.wellFounded_of_trans_of_irrefl r).has_min left hne
  exact ⟨j, hj, fun i hi hfeeds => hfirst i hi ⟨hj, TransGen.single hfeeds⟩⟩

/-- **When nobody is in line, those that have not come are those on a cycle and behind one.** -/
theorem Line.stuck_iff {g : Graph} {came : List Nat} {l : Line} (hn : (g.products.map (·.1)).Nodup)
    (hlegal : Legal g [] came) (hcounts : Counts g came [] l) (hcomplete : Complete g came l)
    (hready : l.ready = []) {j : Nat} (hj : j < g.nodes.length) : j ∉ came ↔ g.Stuck j := by
  constructor
  · intro hnot
    by_contra hfree
    -- Were none of those that lead here on a cycle, one that has not come would be the first of them.
    have hne : Set.Nonempty {i : Fin g.nodes.length | i.val ∉ came ∧ ReflTransGen g.Feeds i j} :=
      ⟨⟨j, hj⟩, hnot, ReflTransGen.refl⟩
    obtain ⟨k, ⟨hk, hpath⟩, hfirst⟩ := exists_first hne fun i hi hcycle => hfree ⟨i, hcycle, hi.2⟩
    obtain ⟨i, hsource, hi⟩ := exists_missing hcounts hcomplete hready k.isLt hk
    have hfeeds : g.Feeds i k := (mem_sourcesAt hn).mp hsource
    exact hfirst ⟨i, lt_of_path (TransGen.single hfeeds)⟩ ⟨hi, ReflTransGen.head hfeeds hpath⟩ hfeeds
  · rintro ⟨c, hcycle, hpath⟩ hcame
    rcases reflTransGen_iff_eq_or_transGen.mp hpath with rfl | hbehind
    · exact hlegal.off_cycle hn hcycle hcame
    · obtain ⟨p, hp⟩ := List.mem_iff_getElem?.mp hcame
      obtain ⟨q, -, hq⟩ := hlegal.climbs hn hbehind hp
      exact hlegal.off_cycle hn hcycle (List.mem_of_getElem? hq)

/-- **A graph without cycles has an order.** -/
theorem Acyclic.exists_order {g : Graph} (h : g.Acyclic) (hn : (g.products.map (·.1)).Nodup) :
    ∃ order, g.order = .ok order := by
  have hcomplete := Line.Complete.advance g.nodes.length (Line.complete_start g)
  obtain ⟨hlegal, hcounts⟩ := Line.Counts.advance g.nodes.length (Line.counts_start g)
  unfold order
  rw [List.nil_append] at hcounts hcomplete
  generalize Line.advance g g.nodes.length (Line.start g) = result at hcomplete hlegal hcounts
  obtain ⟨came, l⟩ := result
  have hlen : came.length = g.nodes.length := by
    refine hcomplete.elim id fun ⟨hready, hcomplete⟩ => ?_
    have hall : ∀ j, j ∈ came ↔ j ∈ List.range g.nodes.length := fun j => by
      rw [List.mem_range]
      refine ⟨fun hj => (hcounts.closed j (List.mem_append_left _ hj)).1, fun hj => ?_⟩
      by_contra hnot
      obtain ⟨c, hcycle, -⟩ := (Line.stuck_iff hn hlegal hcounts hcomplete hready hj).mp hnot
      exact h c hcycle
    simpa using ((List.perm_ext_iff_of_nodup hlegal.distinct List.nodup_range).mpr hall).length_eq
  exact ⟨came, by simp [hlen]⟩

end OpGraph.Graph
