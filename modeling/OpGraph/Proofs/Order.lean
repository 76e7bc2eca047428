import OpGraph.Graph.Order

/-!
# `Proofs.Order` — nothing comes before what it reads from

The line keeps count of the readings still open: for each node, those of its sources that have not come
yet. While the readings from one node are being settled the count is ahead of that by the settlements
still to do (`Line.Counts`). A node in line has no reading open, so everything it reads from came before
it, and an order without nodes left over lists each node once.
-/

namespace OpGraph.Graph

/-- The sources of the node at a position. -/
def sourcesAt (g : Graph) (i : Nat) : List Nat := ((g.nodes[i]?).map g.sources).getD []

/-- Nodes that may come in this order after some that came: each once, and behind all it reads from. -/
def Legal (g : Graph) : List Nat → List Nat → Prop
  | _, [] => True
  | came, i :: rest =>
      i < g.nodes.length ∧ i ∉ came ∧ (∀ s ∈ g.sourcesAt i, s ∈ came) ∧ Legal g (came ++ [i]) rest

/-- Places in a list grow along it. -/
theorem pairwise_zipIdx {α : Type} (xs : List α) : xs.zipIdx.Pairwise fun a b => a.2 < b.2 := by
  have hplaces : (xs.zipIdx.map (·.2)).Pairwise (· < ·) := by
    rw [List.zipIdx_map_snd]
    exact List.pairwise_lt_range'
  exact List.pairwise_map.mp hplaces

/-! ## How often a node reads from another -/

theorem count_copies {α : Type} (f : α → Nat) (j : Nat) :
    ∀ (xs : List α) (k : Nat),
      ((xs.zipIdx k).flatMap fun a => List.replicate (f a.1) a.2).count j =
        if k ≤ j then ((xs[j - k]?).map f).getD 0 else 0 := by
  intro xs
  induction xs with
  | nil => simp
  | cons a rest ih =>
      intro k
      rw [List.zipIdx_cons, List.flatMap_cons, List.count_append, ih, List.count_replicate]
      rcases Nat.lt_trichotomy k j with hlt | rfl | hgt
      · have hsub : j - k = (j - (k + 1)) + 1 := by omega
        have hne : (k == j) = false := by simp; omega
        simp [hne, Nat.le_of_lt hlt, Nat.succ_le_of_lt hlt, hsub]
      · have hlt : ¬k + 1 ≤ k := by omega
        simp [hlt]
      · have hne : (k == j) = false := by simp; omega
        simp [hne, Nat.not_le.mpr hgt, Nat.not_le.mpr (Nat.lt_succ_of_lt hgt)]

theorem count_readers (g : Graph) (i j : Nat) :
    (g.readers i).count j = (g.sourcesAt j).count i := by
  have hcopies : g.readers i =
      g.nodes.zipIdx.flatMap fun n => List.replicate ((g.sources n.1).count i) n.2 := by
    unfold readers
    congr 1
    funext n
    simp only [List.map_const', List.count_eq_length_filter]
    rfl
  have hcount := count_copies (fun n => (g.sources n).count i) j g.nodes 0
  rw [hcopies, hcount]
  unfold sourcesAt
  cases g.nodes[j]? <;> simp

theorem mem_readers {g : Graph} {i j : Nat} (h : j ∈ g.readers i) : j < g.nodes.length := by
  simp only [readers, List.mem_flatMap, Prod.exists, List.mem_map] at h
  obtain ⟨n, k, hk, _, _, rfl⟩ := h
  have := List.snd_lt_add_of_mem_zipIdx hk
  omega

/-! ## What the line counts -/

namespace Line

/-- Sources of a node that have not come. -/
def missing (g : Graph) (came : List Nat) (j : Nat) : Nat :=
  ((g.sourcesAt j).filter fun s => s ∉ came).length

theorem missing_eq_zero {g : Graph} {came : List Nat} {j : Nat} :
    missing g came j = 0 ↔ ∀ s ∈ g.sourcesAt j, s ∈ came := by
  simp [missing, List.filter_eq_nil_iff]

/-- The line when some nodes came and some settlements are still to do. -/
structure Counts (g : Graph) (came todo : List Nat) (l : Line) : Prop where
  length : l.openReads.length = g.nodes.length
  opens : ∀ j < g.nodes.length, l.openReads.getD j 0 = missing g came j + todo.count j
  closed : ∀ j ∈ came ++ l.ready, j < g.nodes.length ∧ l.openReads.getD j 0 = 0
  distinct : (came ++ l.ready).Nodup

theorem counts_start (g : Graph) : Counts g [] [] (Line.start g) where
  length := by simp [start]
  opens j hj := by
    have hall : missing g [] j = (g.sourcesAt j).length := by simp [missing]
    rw [hall]
    simp [start, sourcesAt, hj]
  closed j hj := by
    simp only [List.nil_append, start, List.mem_filter, List.mem_range, decide_eq_true_eq] at hj
    exact hj
  distinct := by
    simp only [List.nil_append, start]
    exact List.nodup_range.filter _

/-- One settlement. -/
theorem Counts.settle {g : Graph} {came todo : List Nat} {l : Line} {j : Nat}
    (h : Counts g came (j :: todo) l) (hj : j < g.nodes.length) : Counts g came todo (l.settle j) := by
  have hopen := h.opens j hj
  rw [List.count_cons_self] at hopen
  -- A node with an open read is not in line yet, so it comes into it once.
  have hnew : j ∉ came ++ l.ready := fun hmem => by
    have := (h.closed j hmem).2
    omega
  have hset : ∀ k, (l.settle j).openReads.getD k 0 =
      if k = j then l.openReads.getD j 0 - 1 else l.openReads.getD k 0 := by
    intro k
    simp only [Line.settle, List.getD_eq_getElem?_getD, List.getElem?_set]
    by_cases hk : k = j
    · subst hk
      simp [h.length, hj]
    · simp [hk, Ne.symm hk]
  constructor
  · simpa [Line.settle] using h.length
  · intro k hk
    rw [hset]
    by_cases hkj : k = j
    · subst hkj
      rw [if_pos rfl]
      omega
    · have hcount : (j :: todo).count k = todo.count k := List.count_cons_of_ne (Ne.symm hkj)
      rw [if_neg hkj, h.opens k hk, hcount]
  · intro k hk
    rw [hset]
    by_cases hkj : k = j
    · subst hkj
      refine ⟨hj, ?_⟩
      rw [if_pos rfl]
      by_cases hleft : l.openReads.getD k 0 - 1 = 0
      · exact hleft
      · simp only [Line.settle, if_neg hleft] at hk
        exact absurd hk hnew
    · rw [if_neg hkj]
      refine h.closed k ?_
      simp only [Line.settle] at hk
      split at hk <;> simpa [hkj] using hk
  · simp only [Line.settle]
    split
    · rw [← List.append_assoc]
      refine List.nodup_append.mpr ⟨h.distinct, by simp, fun a ha b hb => ?_⟩
      obtain rfl := List.mem_singleton.mp hb
      exact fun heq => hnew (heq ▸ ha)
    · exact h.distinct

/-- All settlements there are to do. -/
theorem Counts.settleAll {g : Graph} {came : List Nat} :
    ∀ {todo : List Nat} {l : Line}, Counts g came todo l → (∀ j ∈ todo, j < g.nodes.length) →
      Counts g came [] (todo.foldl Line.settle l) := by
  intro todo
  induction todo with
  | nil => intro l h _; exact h
  | cons j rest ih =>
      intro l h hb
      exact ih (h.settle (hb j List.mem_cons_self)) fun k hk => hb k (List.mem_cons_of_mem _ hk)

/-- A node that came or is in line reads from nothing that has not come. -/
theorem Counts.sources_came {g : Graph} {came : List Nat} {l : Line} (h : Counts g came [] l) {i : Nat}
    (hi : i ∈ came ++ l.ready) : ∀ s ∈ g.sourcesAt i, s ∈ came := by
  obtain ⟨hlt, hzero⟩ := h.closed i hi
  have hmissing : missing g came i = 0 := by
    have := h.opens i hlt
    simp only [List.count_nil] at this
    omega
  exact missing_eq_zero.mp hmissing

/-- Nobody in line came already. -/
theorem Counts.new {g : Graph} {came todo : List Nat} {l : Line} (h : Counts g came todo l) {i : Nat}
    (hi : i ∈ l.ready) : i ∉ came :=
  fun hcame => (List.nodup_append.mp h.distinct).2.2 i hcame i hi rfl

/-- The first in line comes, and the readings from it are still to settle. -/
theorem Counts.called {g : Graph} {came : List Nat} {i : Nat} {rest openReads : List Nat}
    (h : Counts g came [] ⟨i :: rest, openReads⟩) :
    Counts g (came ++ [i]) (g.readers i) ⟨rest, openReads⟩ := by
  have hnew : i ∉ came := h.new List.mem_cons_self
  refine ⟨h.length, ?_, ?_, ?_⟩
  · intro j hj
    have hopen := h.opens j hj
    rw [count_readers]
    -- Of the sources that were missing, those that are `i` are the ones still to settle.
    have hsplit : missing g came j = missing g (came ++ [i]) j + (g.sourcesAt j).count i := by
      unfold missing
      induction g.sourcesAt j with
      | nil => simp
      | cons s ss ih =>
          by_cases hs : s = i
          · subst hs
            simp [hnew] at ih ⊢
            omega
          · by_cases hc : s ∈ came
            · simp [hc, hs] at ih ⊢
              exact ih
            · simp [hc, hs] at ih ⊢
              omega
    simp only [List.count_nil, Nat.add_zero] at hopen
    rw [hopen, hsplit]
  · intro j hj
    exact h.closed j (by simpa using hj)
  · simpa using h.distinct

/-- The first in line comes, and the readings from it are settled. -/
theorem Counts.come {g : Graph} {came : List Nat} {i : Nat} {rest openReads : List Nat}
    (h : Counts g came [] ⟨i :: rest, openReads⟩) :
    Counts g (came ++ [i]) [] ((g.readers i).foldl Line.settle ⟨rest, openReads⟩) :=
  h.called.settleAll fun _ hj => mem_readers hj

/-- Whatever comes, comes in a legal order, and the line keeps counting. -/
theorem Counts.advance {g : Graph} : ∀ (fuel : Nat) {came : List Nat} {l : Line}, Counts g came [] l →
    Legal g came (Line.advance g fuel l).1 ∧
      Counts g (came ++ (Line.advance g fuel l).1) [] (Line.advance g fuel l).2 := by
  intro fuel
  induction fuel with
  | zero => intro came l h; simpa [Line.advance, Legal] using h
  | succ fuel ih =>
      intro came l h
      obtain ⟨ready, openReads⟩ := l
      cases ready with
      | nil => simpa [Line.advance, Legal] using h
      | cons i rest =>
          obtain ⟨hlegal, hcounts⟩ := ih h.come
          have hsources := h.sources_came (List.mem_append_right _ List.mem_cons_self)
          refine ⟨⟨?_, h.new List.mem_cons_self, hsources, hlegal⟩, ?_⟩
          · exact (h.closed i (by simp)).1
          · simpa [Line.advance] using hcounts

end Line

/-! ## The order of a graph -/

/-- **The order of a graph lists every node once, each behind all it reads from.** -/
theorem order_legal {g : Graph} {order : List Nat} (h : g.order = .ok order) :
    Legal g [] order ∧ order.length = g.nodes.length := by
  unfold Graph.order at h
  split at h
  next ord l hadv =>
    by_cases hlen : ord.length = g.nodes.length
    · obtain rfl : ord = order := by simpa [hlen] using h
      have hlegal := (Line.Counts.advance g.nodes.length (Line.counts_start g)).1
      rw [hadv] at hlegal
      exact ⟨hlegal, hlen⟩
    · simp [hlen] at h

/-- In a legal order each place holds a position of the graph, and what it reads from came earlier. -/
theorem Legal.earlier {g : Graph} : ∀ {order came : List Nat}, Legal g came order →
    ∀ {k i : Nat}, order[k]? = some i →
      i < g.nodes.length ∧ ∀ s ∈ g.sourcesAt i, s ∈ came ∨ ∃ k' < k, order[k']? = some s := by
  intro order
  induction order with
  | nil => intro came _ k i hk; simp at hk
  | cons j rest ih =>
      intro came h k i hk
      obtain ⟨hj, -, hsources, hrest⟩ := h
      cases k with
      | zero =>
          obtain rfl : j = i := by simpa using hk
          exact ⟨hj, fun s hs => Or.inl (hsources s hs)⟩
      | succ k =>
          obtain ⟨hi, hearlier⟩ := ih hrest (by simpa using hk)
          refine ⟨hi, fun s hs => ?_⟩
          rcases hearlier s hs with hcame | ⟨k', hk', hs'⟩
          · rcases List.mem_append.mp hcame with hcame | hcame
            · exact Or.inl hcame
            · obtain rfl := List.mem_singleton.mp hcame
              exact Or.inr ⟨0, by omega, by simp⟩
          · exact Or.inr ⟨k' + 1, by omega, by simpa using hs'⟩

/-- A legal order lists nothing twice, and nothing that came before. -/
theorem Legal.nodup {g : Graph} : ∀ {order came : List Nat}, came.Nodup → Legal g came order →
    (came ++ order).Nodup := by
  intro order
  induction order with
  | nil => intro came hcame _; simpa using hcame
  | cons j rest ih =>
      intro came hcame h
      obtain ⟨-, hnew, -, hrest⟩ := h
      have : (came ++ [j] ++ rest).Nodup := by
        refine ih (List.nodup_append.mpr ⟨hcame, by simp, fun a ha b hb => ?_⟩) hrest
        obtain rfl := List.mem_singleton.mp hb
        exact fun heq => hnew (heq ▸ ha)
      simpa using this

theorem Legal.distinct {g : Graph} {order : List Nat} (h : Legal g [] order) : order.Nodup := by
  simpa using h.nodup List.nodup_nil

end OpGraph.Graph
