import Mathlib.Data.List.Dedup
import Mathlib.Data.List.MinMax
import Mathlib.Data.Prod.Lex
import Mathlib.Order.Nat
import OpGraph.Proofs.Order

/-!
# `Proofs.Turns` — who gets in line, and when

When a node comes, those get in line that read from it and from nothing that has not come, in graph order,
however often they read from it (`Line.Counts.ready_settleAll`). So all along, the nodes that came and those
in line stand by the place of their last source, and with one last source in graph order
(`Line.Counts.inTurn_advance`). No settlement ever finds a node without open readings
(`Line.Counts.advance?_eq`).
-/

namespace OpGraph.Graph

variable {g : Graph} {came todo : List Nat} {l : Line} {i j : Nat}

/-! ## Settlements that have to find an open reading -/

namespace Line

/-- One reading of a node is settled; none where the node has no reading open. -/
def settle? (l : Line) (reader : Nat) : Option Line :=
  if 0 < l.openReads.getD reader 0 then some (l.settle reader) else none

/-- Let up to `fuel` nodes come; none where a settlement finds no open reading. -/
def advance? (g : Graph) : Nat → Line → Option (List Nat × Line)
  | 0, l => some ([], l)
  | fuel + 1, l =>
      match l.ready with
      | [] => some ([], l)
      | i :: rest => do
          let l ← (g.readers i).foldlM Line.settle? { l with ready := rest }
          let (later, l) ← advance? g fuel l
          pure (i :: later, l)

theorem Counts.settle?_eq (h : Counts g came (j :: todo) l) (hj : j < g.nodes.length) :
    l.settle? j = some (l.settle j) := by
  have hopen := h.opens j hj
  rw [List.count_cons_self] at hopen
  exact if_pos (by omega)

theorem Counts.settleAll?_eq (h : Counts g came todo l) (htodo : ∀ j ∈ todo, j < g.nodes.length) :
    todo.foldlM Line.settle? l = some (todo.foldl Line.settle l) := by
  induction todo generalizing l with
  | nil => rfl
  | cons j rest ih =>
      have hj := htodo j List.mem_cons_self
      rw [List.foldlM_cons, h.settle?_eq hj]
      exact ih (h.settle hj) fun k hk => htodo k (List.mem_cons_of_mem _ hk)

/-- **Every settlement finds an open reading.** -/
theorem Counts.advance?_eq (fuel : Nat) (h : Counts g came [] l) :
    Line.advance? g fuel l = some (Line.advance g fuel l) := by
  induction fuel generalizing came l with
  | zero => rfl
  | succ fuel ih =>
      obtain ⟨ready, openReads⟩ := l
      cases ready with
      | nil => rfl
      | cons i rest =>
          have hsettled := h.called.settleAll?_eq fun _ hj => mem_readers hj
          simp only [advance?, hsettled, ih h.come, Option.bind_eq_bind, Option.bind_some]
          rfl

/-! ## Who gets in line -/

/-- **Those get in line whose last sources come**, each once and in the order in which they are settled for
    the last time. -/
theorem Counts.ready_settleAll (h : Counts g came todo l) (htodo : ∀ j ∈ todo, j < g.nodes.length) :
    (todo.foldl Line.settle l).ready =
      l.ready ++ todo.dedup.filter fun j => missing g came j = 0 := by
  induction todo generalizing l with
  | nil => simp
  | cons j rest ih =>
      have hj := htodo j List.mem_cons_self
      have hopen := h.opens j hj
      rw [List.count_cons_self] at hopen
      rw [List.foldl_cons, ih (h.settle hj) fun k hk => htodo k (List.mem_cons_of_mem _ hk)]
      by_cases hagain : j ∈ rest
      · -- The node is settled again later, so it has a reading open.
        have hcount := List.count_pos_iff.mpr hagain
        have hleft : l.openReads.getD j 0 - 1 ≠ 0 := by omega
        rw [List.dedup_cons_of_mem hagain, Line.settle, if_neg hleft]
      · have hcount : rest.count j = 0 := List.count_eq_zero.mpr hagain
        have hleft : l.openReads.getD j 0 - 1 = missing g came j := by omega
        rw [List.dedup_cons_of_notMem hagain, Line.settle, hleft]
        by_cases hnone : missing g came j = 0
        · simp [hnone]
        · simp [hnone]

end Line

/-! ## Turns -/

/-- The place of the last of a node's sources in an order; `⊥` for a node that reads from none. -/
def lastSource (g : Graph) (order : List Nat) (j : Nat) : WithBot Nat :=
  ((g.sourcesAt j).map fun i => order.idxOf i).maximum

/-- Nodes are told apart by the place of their last source, then by their position in the graph. -/
def turn (g : Graph) (order : List Nat) (j : Nat) : WithBot Nat ×ₗ Nat := toLex (g.lastSource order j, j)

theorem idxOf_le_lastSource {order : List Nat} (h : i ∈ g.sourcesAt j) :
    WithBot.some (order.idxOf i) ≤ g.lastSource order j :=
  List.le_maximum_of_mem' (List.mem_map_of_mem h)

theorem exists_lastSource {order : List Nat} {k : Nat} (h : WithBot.some k ≤ g.lastSource order j) :
    ∃ i ∈ g.sourcesAt j, k ≤ order.idxOf i := by
  cases hmax : g.lastSource order j with
  | bot => simp [hmax] at h
  | coe p =>
      obtain ⟨i, hi, rfl⟩ := List.mem_map.mp (List.maximum_mem hmax)
      exact ⟨i, hi, WithBot.coe_le_coe.mp (hmax ▸ h)⟩

/-- Nodes that come later change nothing for a node whose sources came. -/
theorem lastSource_append {more : List Nat} (h : ∀ i ∈ g.sourcesAt j, i ∈ came) :
    g.lastSource (came ++ more) j = g.lastSource came j := by
  have hplaces : (g.sourcesAt j).map (fun i => (came ++ more).idxOf i) =
      (g.sourcesAt j).map fun i => came.idxOf i :=
    List.map_congr_left fun i hi => List.idxOf_append_of_mem (h i hi)
  simp only [lastSource, hplaces]

theorem lastSource_lt (h : ∀ i ∈ g.sourcesAt j, i ∈ came) : g.lastSource came j < WithBot.some came.length := by
  unfold lastSource
  cases hmax : ((g.sourcesAt j).map fun i => came.idxOf i).maximum with
  | bot => exact WithBot.bot_lt_coe _
  | coe k =>
      obtain ⟨i, hi, rfl⟩ := List.mem_map.mp (List.maximum_mem hmax)
      exact WithBot.coe_lt_coe.mpr (List.idxOf_lt_length_iff.mpr (h i hi))

/-- The last source of a node that reads from the one that comes last, and from none that has not come. -/
theorem lastSource_concat (hi : i ∈ g.sourcesAt j) (hnew : i ∉ came)
    (h : ∀ s ∈ g.sourcesAt j, s ∈ came ++ [i]) : g.lastSource (came ++ [i]) j = WithBot.some came.length := by
  have hplace : (came ++ [i]).idxOf i = came.length := by
    simp [List.idxOf_append_of_notMem hnew]
  refine List.maximum_eq_coe_iff.mpr ⟨List.mem_map.mpr ⟨i, hi, hplace⟩, fun k hk => ?_⟩
  obtain ⟨s, hs, rfl⟩ := List.mem_map.mp hk
  have hlt : (came ++ [i]).idxOf s < came.length + 1 := by
    simpa using List.idxOf_lt_length_iff.mpr (h s hs)
  exact Nat.lt_succ_iff.mp hlt

/-- Readers of a node are listed in graph order. -/
theorem readers_sorted (g : Graph) (i : Nat) : (g.readers i).Pairwise (· ≤ ·) := by
  refine List.pairwise_flatMap.mpr ⟨fun a _ => ?_, ?_⟩
  · obtain ⟨n, k⟩ := a
    simp only [List.map_const', List.pairwise_replicate]
    exact Or.inr (Nat.le_refl k)
  · refine (pairwise_zipIdx g.nodes).imp fun hlt a ha b hb => ?_
    obtain ⟨_, -, rfl⟩ := List.mem_map.mp ha
    obtain ⟨_, -, rfl⟩ := List.mem_map.mp hb
    exact Nat.le_of_lt hlt

namespace Line

/-- Nodes stand in their turns. -/
def InTurn (g : Graph) (came : List Nat) (l : Line) : Prop :=
  (came ++ l.ready).Pairwise fun a b => g.turn came a < g.turn came b

theorem inTurn_start (g : Graph) : InTurn g [] (Line.start g) := by
  have hroots : (Line.start g).ready.Pairwise (· < ·) := List.pairwise_lt_range.filter _
  refine hroots.imp_of_mem fun {a b} ha hb hlt => ?_
  -- Nodes in line at the start have no sources.
  have hnone : ∀ {a}, a ∈ (Line.start g).ready → g.sourcesAt a = [] := fun {a} ha =>
    List.eq_nil_iff_forall_not_mem.mpr fun s hs =>
      List.not_mem_nil ((counts_start g).sources_came (List.mem_append_right _ ha) s hs)
  refine Prod.Lex.toLex_lt_toLex.mpr (Or.inr ⟨?_, hlt⟩)
  simp [lastSource, hnone ha, hnone hb]

/-- Whoever gets in line has its turn after all who were there. -/
theorem Counts.inTurn_come {rest openReads : List Nat} (h : Counts g came [] ⟨i :: rest, openReads⟩)
    (hturn : InTurn g came ⟨i :: rest, openReads⟩) :
    InTurn g (came ++ [i]) ((g.readers i).foldl Line.settle ⟨rest, openReads⟩) := by
  have hnew : i ∉ came := h.new List.mem_cons_self
  have hold : ∀ a ∈ came ++ [i] ++ rest, ∀ s ∈ g.sourcesAt a, s ∈ came :=
    fun a ha => h.sources_came (by simpa using ha)
  have hreleased : ∀ b ∈ (g.readers i).dedup.filter fun j => missing g (came ++ [i]) j = 0,
      g.lastSource (came ++ [i]) b = came.length := by
    intro b hb
    obtain ⟨hreader, hnone⟩ := List.mem_filter.mp hb
    have hsource : i ∈ g.sourcesAt b := by
      rw [← List.count_pos_iff, ← count_readers, List.count_pos_iff]
      exact List.mem_dedup.mp hreader
    exact lastSource_concat hsource hnew (missing_eq_zero.mp (of_decide_eq_true hnone))
  unfold InTurn
  rw [h.called.ready_settleAll fun _ hj => mem_readers hj, ← List.append_assoc]
  -- Those who were there keep their turns; those who get in line are told apart by position and follow them.
  refine List.pairwise_append.mpr ⟨?_, ?_, fun a ha b hb => ?_⟩
  · have hbefore : (came ++ [i] ++ rest).Pairwise fun a b => g.turn came a < g.turn came b := by
      simpa [InTurn] using hturn
    refine hbefore.imp_of_mem fun {a b} ha hb hlt => ?_
    simp only [turn, lastSource_append (hold a ha), lastSource_append (hold b hb)]
    exact hlt
  · have hsorted : (g.readers i).dedup.Pairwise (· < ·) :=
      ((g.readers_sorted i).sublist (List.dedup_sublist _)).imp₂
        (fun _ _ hle hne => Nat.lt_of_le_of_ne hle hne) (List.nodup_dedup _)
    refine (hsorted.filter _).imp_of_mem fun {a b} ha hb hlt => ?_
    refine Prod.Lex.toLex_lt_toLex.mpr (Or.inr ⟨?_, hlt⟩)
    exact (hreleased a ha).trans (hreleased b hb).symm
  · refine Prod.Lex.toLex_lt_toLex.mpr (Or.inl ?_)
    show g.lastSource (came ++ [i]) a < g.lastSource (came ++ [i]) b
    rw [hreleased b hb, lastSource_append (hold a ha)]
    exact lastSource_lt (hold a ha)

/-- **Nodes come in their turns.** -/
theorem Counts.inTurn_advance (fuel : Nat) (h : Counts g came [] l) (hturn : InTurn g came l) :
    InTurn g (came ++ (Line.advance g fuel l).1) (Line.advance g fuel l).2 := by
  induction fuel generalizing came l with
  | zero => simpa [Line.advance] using hturn
  | succ fuel ih =>
      obtain ⟨ready, openReads⟩ := l
      cases ready with
      | nil => simpa [Line.advance] using hturn
      | cons i rest => simpa [Line.advance] using ih h.come (h.inTurn_come hturn)

end Line

end OpGraph.Graph
