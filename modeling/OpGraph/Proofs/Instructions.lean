import OpGraph.Plan.Run

/-!
# `Proofs.Instructions` — the instructions of a plan, and their order

What the host does for a node stands together: its waits, its launch, its announcement. Nodes follow each
other in the order of the plan, and the waits for the outputs come last. Every instruction that is about
one node has a place in that order (`Instruction.place`), and those ahead of a host never go back.
-/

namespace OpGraph

/-- Where an instruction stands in a plan; none for one that may stand anywhere. -/
def Instruction.place (p : Plan) : Instruction → Option Nat
  | .wait _ (.node j) => some (3 * j)
  | .launch j => some (3 * j + 1)
  | .work j => some (3 * j + 1)
  | .announce j => some (3 * j + 2)
  | .wait _ (.output _) => some (3 * p.nodes.length)
  | _ => none

namespace Plan

variable {p : Plan} {n : PlannedNode} {a b : Instruction} {rest : List Instruction}

/-! ## Which instructions there are -/

theorem mem_nodeInstructions {j : Nat} :
    a ∈ nodeInstructions n j ↔ (∃ w ∈ n.waits, a = .wait w (.node j)) ∨
      (n.stream = none ∧ (a = .work j ∨ a = .check)) ∨
      (n.stream.isSome ∧ (a = .launch j ∨ (n.consumers ≠ 0 ∧ a = .announce j))) := by
  unfold nodeInstructions
  rw [List.mem_append, List.mem_map]
  cases n.stream with
  | none => simp [eq_comm]
  | some k =>
      by_cases h : n.consumers = 0
      · simp [h, eq_comm]
      · simp [h, eq_comm]

theorem mem_launching : a ∈ p.launching ↔ (∃ j n, p.nodes[j]? = some n ∧ a ∈ nodeInstructions n j) ∨
    ∃ o ∈ p.outputs, ∃ w, o.wait = some w ∧ a = .wait w (.output o.value) := by
  unfold launching
  rw [List.mem_append, List.mem_flatMap, List.mem_filterMap]
  constructor
  · rintro (⟨⟨n, j⟩, hmem, ha⟩ | ⟨o, ho, ha⟩)
    · exact Or.inl ⟨j, n, List.mem_zipIdx_iff_getElem?.mp hmem, ha⟩
    · obtain ⟨w, hw, rfl⟩ := Option.map_eq_some_iff.mp ha
      exact Or.inr ⟨o, ho, w, hw, rfl⟩
  · rintro (⟨j, n, hn, ha⟩ | ⟨o, ho, w, hw, rfl⟩)
    · exact Or.inl ⟨(n, j), List.mem_zipIdx_iff_getElem?.mpr hn, ha⟩
    · exact Or.inr ⟨o, ho, by simp [hw]⟩

theorem mem_draining : a ∈ p.draining ↔
    a = .forget ∨ ∃ k < p.streams.length, a = .flush k ∨ a = .flushed k := by
  simp [draining]

theorem draining_not_work {j : Nat} : .work j ∉ p.draining := by
  simp [mem_draining]

theorem draining_not_launch {j : Nat} : .launch j ∉ p.draining := by
  simp [mem_draining]

theorem draining_not_wait {w : PlannedWait} {who : Waiter} : .wait w who ∉ p.draining := by
  simp [mem_draining]

theorem draining_not_announce {j : Nat} : .announce j ∉ p.draining := by
  simp [mem_draining]

theorem launching_not_forget : .forget ∉ p.launching := by
  simp [mem_launching, mem_nodeInstructions]

theorem launching_not_flushed {k : Nat} : .flushed k ∉ p.launching := by
  simp [mem_launching, mem_nodeInstructions]

/-- The node that an instruction launches. -/
theorem node_of_launch {j : Nat} (h : .launch j ∈ p.launching) :
    ∃ n, p.nodes[j]? = some n ∧ n.stream.isSome := by
  rcases mem_launching.mp h with ⟨i, n, hn, ha⟩ | ⟨o, -, w, -, heq⟩
  · rcases mem_nodeInstructions.mp ha with ⟨w, -, heq⟩ | ⟨-, heq⟩ | ⟨hs, heq⟩
    · cases heq
    · simp at heq
    · obtain rfl : j = i := by simpa using heq
      exact ⟨n, hn, hs⟩
  · cases heq

/-- The node whose work the host begins. -/
theorem node_of_work {j : Nat} (h : .work j ∈ p.launching) :
    ∃ n, p.nodes[j]? = some n ∧ n.stream = none := by
  rcases mem_launching.mp h with ⟨i, n, hn, ha⟩ | ⟨o, -, w, -, heq⟩
  · rcases mem_nodeInstructions.mp ha with ⟨w, -, heq⟩ | ⟨hs, heq⟩ | ⟨-, heq⟩
    · cases heq
    · obtain rfl : j = i := by simpa using heq
      exact ⟨n, hn, hs⟩
    · simp at heq
  · cases heq

/-- The node that an instruction announces. -/
theorem node_of_announce {j : Nat} (h : .announce j ∈ p.launching) :
    ∃ n, p.nodes[j]? = some n ∧ n.stream.isSome := by
  rcases mem_launching.mp h with ⟨i, n, hn, ha⟩ | ⟨o, -, w, -, heq⟩
  · rcases mem_nodeInstructions.mp ha with ⟨w, -, heq⟩ | ⟨-, heq⟩ | ⟨hs, heq⟩
    · cases heq
    · simp at heq
    · obtain rfl : j = i := by simpa using (heq.resolve_left (by simp)).2
      exact ⟨n, hn, hs⟩
  · cases heq

/-- Every node is launched, or its work is begun. -/
theorem begun {j : Nat} (h : p.nodes[j]? = some n) : .launch j ∈ p.launching ∨ .work j ∈ p.launching := by
  cases hs : n.stream with
  | none =>
      exact Or.inr (mem_launching.mpr (Or.inl ⟨j, n, h,
        mem_nodeInstructions.mpr (Or.inr (Or.inl ⟨hs, Or.inl rfl⟩))⟩))
  | some k =>
      exact Or.inl (mem_launching.mpr (Or.inl ⟨j, n, h,
        mem_nodeInstructions.mpr (Or.inr (Or.inr ⟨by simp [hs], Or.inl rfl⟩))⟩))

/-- A node on a stream that somebody waits for is announced. -/
theorem announced {j : Nat} (h : p.nodes[j]? = some n) (hs : n.stream.isSome) (hpos : n.consumers ≠ 0) :
    .announce j ∈ p.launching :=
  mem_launching.mpr (Or.inl ⟨j, n, h, mem_nodeInstructions.mpr (Or.inr (Or.inr ⟨hs, Or.inr ⟨hpos, rfl⟩⟩))⟩)

/-- The waits of a node. -/
theorem node_of_wait {w : PlannedWait} {j : Nat} (h : .wait w (.node j) ∈ p.launching) :
    ∃ n, p.nodes[j]? = some n ∧ w ∈ n.waits := by
  rcases mem_launching.mp h with ⟨i, n, hn, ha⟩ | ⟨o, -, w, -, heq⟩
  · rcases mem_nodeInstructions.mp ha with ⟨w', hw', heq⟩ | ⟨-, heq⟩ | ⟨-, heq⟩
    · injection heq with hw hj
      subst hw
      obtain rfl : j = i := by simpa using hj
      exact ⟨n, hn, hw'⟩
    · simp at heq
    · simp at heq
  · simp at heq

theorem output_of_wait {w : PlannedWait} {v : Nat} (h : .wait w (.output v) ∈ p.launching) :
    ∃ o ∈ p.outputs, o.wait = some w := by
  rcases mem_launching.mp h with ⟨i, n, hn, ha⟩ | ⟨o, ho, w', hw', heq⟩
  · rcases mem_nodeInstructions.mp ha with ⟨w', hw', heq⟩ | ⟨-, heq⟩ | ⟨-, heq⟩
    · simp at heq
    · simp at heq
    · simp at heq
  · injection heq with hw
    exact ⟨o, ho, hw ▸ hw'⟩

theorem wait_mem {j : Nat} (hn : p.nodes[j]? = some n) {w : PlannedWait} (hw : w ∈ n.waits) :
    .wait w (.node j) ∈ p.launching :=
  mem_launching.mpr (Or.inl ⟨j, n, hn, mem_nodeInstructions.mpr (Or.inl ⟨w, hw, rfl⟩)⟩)

/-! ## In which order -/

/-- The second may come after the first: it stands later, or both are waits for the same thing. -/
def InOrder (p : Plan) (a b : Instruction) : Prop :=
  ∀ x y, a.place p = some x → b.place p = some y → x ≤ y ∧ (x = y → x % 3 = 0)

/-- Instructions for a node stand between those for the nodes next to it. -/
theorem place_nodeInstructions {j x : Nat} (ha : a ∈ nodeInstructions n j) (hx : a.place p = some x) :
    3 * j ≤ x ∧ x ≤ 3 * j + 2 := by
  rcases mem_nodeInstructions.mp ha with ⟨w, -, rfl⟩ | ⟨-, rfl | rfl⟩ | ⟨-, rfl | ⟨-, rfl⟩⟩
  all_goals simp [Instruction.place] at hx
  all_goals omega

theorem nodeInstructions_inOrder (p : Plan) (n : PlannedNode) (j : Nat) :
    (nodeInstructions n j).Pairwise p.InOrder := by
  refine List.pairwise_append.mpr ⟨?_, ?_, ?_⟩
  · refine List.pairwise_map.mpr (List.pairwise_of_forall fun _ _ x y hx hy => ?_)
    simp only [Instruction.place, Option.some.injEq] at hx hy
    omega
  · cases n.stream with
    | none => simp [InOrder, Instruction.place]
    | some k =>
        by_cases h : n.consumers = 0
        · simp [h]
        · simp [h, InOrder, Instruction.place]
  · intro a ha b hb x y hx hy
    obtain ⟨w, -, rfl⟩ := List.mem_map.mp ha
    have hlow := (place_nodeInstructions (List.mem_append_right _ hb) hy).1
    simp only [Instruction.place, Option.some.injEq] at hx
    omega

/-- **The host never goes back.** -/
theorem launching_inOrder (p : Plan) : p.launching.Pairwise p.InOrder := by
  have hplaced : ∀ {o : PlannedOutput} {a : Instruction}, o.wait.map (.wait · (.output o.value)) = some a →
      a.place p = some (3 * p.nodes.length) := by
    intro o a ha
    obtain ⟨w, -, rfl⟩ := Option.map_eq_some_iff.mp ha
    rfl
  refine List.pairwise_append.mpr ⟨List.pairwise_flatMap.mpr ⟨?_, ?_⟩, ?_, ?_⟩
  · exact fun e _ => nodeInstructions_inOrder p e.1 e.2
  · refine List.pairwise_iff_getElem.mpr fun i j hi hj hlt a ha b hb x y hx hy => ?_
    simp only [List.getElem_zipIdx] at ha hb
    have hhigh := (place_nodeInstructions ha hx).2
    have hlow := (place_nodeInstructions hb hy).1
    omega
  · refine List.pairwise_filterMap.mpr (List.pairwise_of_forall fun o o' a ha b hb x y hx hy => ?_)
    rw [hplaced ha] at hx
    rw [hplaced hb] at hy
    injection hx
    injection hy
    omega
  · intro a ha b hb x y hx hy
    obtain ⟨⟨n, j⟩, hmem, ha⟩ := List.mem_flatMap.mp ha
    obtain ⟨o, -, hb⟩ := List.mem_filterMap.mp hb
    have hlt := (List.getElem?_eq_some_iff.mp (List.mem_zipIdx_iff_getElem?.mp hmem)).1
    have hhigh := (place_nodeInstructions ha hx).2
    rw [hplaced hb] at hy
    injection hy
    omega

/-- What is ahead of a host that carries an instruction out comes after it. -/
theorem later (h : a :: rest <:+ p.launching) (hb : b ∈ rest) : p.InOrder a b :=
  (List.pairwise_cons.mp ((p.launching_inOrder).sublist h.sublist)).1 b hb

/-- What stands before the instruction in front is not ahead any more. -/
theorem passed {x y : Nat} (h : a :: rest <:+ p.launching) (ha : a.place p = some x) (hb : b.place p = some y)
    (hlt : y < x) : b ∉ a :: rest := by
  intro hmem
  rcases List.mem_cons.mp hmem with rfl | hmem
  · exact absurd (Option.some.inj (ha.symm.trans hb)) (Nat.ne_of_gt hlt)
  · exact absurd (later h hmem _ _ ha hb).1 (Nat.not_le.mpr hlt)

/-! ## Draining -/

/-- What is ahead while a stream is asked for a flush begins with the wait for its answer. -/
theorem flushed_next {k : Nat} (h : .flush k :: rest <:+ p.draining) : rest.head? = some (.flushed k) := by
  have hstreams : ∀ (ks : List Nat) {rest : List Instruction},
      .flush k :: rest <:+ (ks.flatMap fun s => [.flush s, .flushed s]) → rest.head? = some (.flushed k) := by
    intro ks
    induction ks with
    | nil => intro rest h; simp at h
    | cons s ks ih =>
        intro rest h
        rw [List.flatMap_cons, List.cons_append, List.cons_append, List.nil_append] at h
        rcases List.suffix_cons_iff.mp h with heq | h
        · injection heq with hs hrest
          injection hs with hs
          rw [hrest, hs]
          rfl
        · rcases List.suffix_cons_iff.mp h with heq | h
          · cases heq
          · exact ih h
  rcases List.suffix_cons_iff.mp h with heq | h
  · cases heq
  · exact hstreams _ h

end Plan

end OpGraph
