import OpGraph.Plan.Compute

/-!
# `Proofs.Work` — everything one step of the work of a node can do

A step takes one argument, runs the kernel, or publishes one output; or it finds that this cannot be done,
and the next step tells of it. `Advanced` lists the cases. Slots are only ever filled, so whoever read one
has read what stands in it (`ValueStore.Grows`).
-/

namespace OpGraph

namespace ValueStore

/-- What stands in a slot; for an input that is left out, nothing. -/
def Reads (s : ValueStore) : Option Nat → Option Tensor → Prop
  | none, none => True
  | some v, some t => s.get? v = some t
  | _, _ => False

/-- Whatever stands in a slot stays there. -/
def Grows (s s' : ValueStore) : Prop := ∀ v t, s.get? v = some t → s'.get? v = some t

theorem Grows.refl (s : ValueStore) : s.Grows s := fun _ _ => id

theorem get?_set (s : ValueStore) (v w : Nat) (t : Tensor) :
    get? (s.set v (some t)) w = if v = w ∧ w < s.length then some t else s.get? w := by
  unfold get?
  rw [List.getElem?_set]
  by_cases h : v = w
  · subst h
    by_cases hlt : v < s.length
    · simp [hlt]
    · simp [hlt]
  · simp [h]

/-- Filling a slot that is free. -/
theorem grows_set {s : ValueStore} {v : Nat} (h : s.get? v = none) (t : Tensor) :
    s.Grows (s.set v (some t)) := by
  intro w t' hw
  rw [get?_set, if_neg]
  · exact hw
  · rintro ⟨rfl, -⟩
    rw [h] at hw
    cases hw

theorem Reads.mono {s s' : ValueStore} (h : s.Grows s') {i : Option Nat} {a : Option Tensor}
    (hr : s.Reads i a) : s'.Reads i a := by
  cases i <;> cases a <;> first | exact hr | exact h _ _ hr

/-- What an input reads is one thing. -/
theorem Reads.unique {s : ValueStore} {i : Option Nat} {a a' : Option Tensor} (h : s.Reads i a)
    (h' : s.Reads i a') : a = a' := by
  cases i <;> cases a <;> cases a' <;> first | rfl | exact h.elim | exact h'.elim | exact h.symm.trans h'

/-- What was made for an output stands in its slot, where it is wanted. -/
def Shows (s : ValueStore) (e : Option Tensor × Option Nat) : Prop :=
  ∀ v, e.2 = some v → ∃ t, e.1 = some t ∧ s.get? v = some t

theorem Shows.mono {s s' : ValueStore} (h : s.Grows s') {e : Option Tensor × Option Nat}
    (he : s.Shows e) : s'.Shows e := by
  intro v hv
  obtain ⟨t, ht, hget⟩ := he v hv
  exact ⟨t, ht, h v t hget⟩

end ValueStore

namespace PlannedNode

/-- What a step of the work of a node did, by how far the work had come. -/
inductive Advanced (n : PlannedNode) (stream : Option Stream) (slots : ValueStore) :
    Stage → WorkStep → Prop
  /-- One more argument was taken. -/
  | took {args : List (Option Tensor)} {i : Option Nat} {a : Option Tensor} :
      n.inputs[args.length]? = some i → slots.Reads i a →
      Advanced n stream slots (.taking args) { slots, rest := some (.taking (args ++ [a])) }
  /-- An argument is not there. -/
  | missing {args : List (Option Tensor)} {v : Nat} :
      n.inputs[args.length]? = some (some v) → slots.get? v = none →
      Advanced n stream slots (.taking args)
        { slots, rest := some (.failing (.invalidArgument (.neverProduced args.length))) }
  /-- The kernel ran. -/
  | ran {args : List (Option Tensor)} {u : Unit} {c : KernelContext} :
      n.inputs.length ≤ args.length → n.invoke stream args = (.ok u, c) →
      Advanced n stream slots (.taking args)
        { slots, arguments := some args, reports := c.reports, log := c.log, launched := c.launched
          rest := some (.publishing 0 (c.outputs.zip n.outputs)) }
  /-- The kernel stopped early. -/
  | broke {args : List (Option Tensor)} {stop : Abort} {c : KernelContext} :
      n.inputs.length ≤ args.length → n.invoke stream args = (.error stop, c) →
      Advanced n stream slots (.taking args)
        { slots, arguments := some args, reports := c.reports, log := c.log, launched := c.launched
          rest := some (.failing (stop.toError n.op)) }
  /-- Everything is published. -/
  | finished {i : Nat} : Advanced n stream slots (.publishing i []) { slots }
  /-- An output is not wanted. -/
  | unwanted {i : Nat} {o : Option Tensor} {left : List (Option Tensor × Option Nat)} :
      Advanced n stream slots (.publishing i ((o, none) :: left))
        { slots, rest := some (.publishing (i + 1) left) }
  /-- An output was not made. -/
  | unmade {i v : Nat} {left : List (Option Tensor × Option Nat)} :
      Advanced n stream slots (.publishing i ((none, some v) :: left))
        { slots, rest := some (.failing (.invalidArgument (.notProduced i))) }
  /-- A slot is filled already. -/
  | occupied {i v : Nat} {t : Tensor} {left : List (Option Tensor × Option Nat)} :
      slots.get? v ≠ none →
      Advanced n stream slots (.publishing i ((some t, some v) :: left))
        { slots, rest := some (.failing (.invalidArgument (.alreadySet i))) }
  /-- An output was published. -/
  | published {i v : Nat} {t : Tensor} {left : List (Option Tensor × Option Nat)} :
      slots.get? v = none →
      Advanced n stream slots (.publishing i ((some t, some v) :: left))
        { slots := slots.set v (some t), rest := some (.publishing (i + 1) left) }
  /-- A failure was told of. -/
  | told {e : OpError} : Advanced n stream slots (.failing e) { slots, failure := some e }

/-- **Everything a step of the work of a node can do.** -/
theorem advanced (n : PlannedNode) (stream : Option Stream) (slots : ValueStore) (stage : Stage) :
    n.Advanced stream slots stage (n.advance stream slots stage) := by
  match stage with
  | .taking args =>
      cases hi : n.inputs[args.length]? with
      | none =>
          have htake : n.take slots args = none := by simp [take, hi]
          have hall : n.inputs.length ≤ args.length := by simpa using hi
          simp only [advance, htake, runKernel]
          rcases hrun : n.invoke stream args with ⟨stop | u, c⟩
          · exact .broke hall hrun
          · exact .ran hall hrun
      | some i =>
          cases i with
          | none =>
              have htake : n.take slots args = some (.taking (args ++ [none])) := by simp [take, hi]
              simp only [advance, htake]
              exact .took hi trivial
          | some v =>
              cases hv : slots.get? v with
              | none =>
                  have htake : n.take slots args =
                      some (.failing (.invalidArgument (.neverProduced args.length))) := by
                    simp [take, hi, hv]
                  simp only [advance, htake]
                  exact .missing hi hv
              | some t =>
                  have htake : n.take slots args = some (.taking (args ++ [some t])) := by
                    simp [take, hi, hv]
                  simp only [advance, htake]
                  exact .took hi hv
  | .publishing i [] => exact .finished
  | .publishing i ((o, none) :: left) =>
      cases o <;> exact .unwanted
  | .publishing i ((none, some v) :: left) => exact .unmade
  | .publishing i ((some t, some v) :: left) =>
      cases hv : slots.get? v with
      | none =>
          simp only [advance, hv, Option.isSome_none, Bool.false_eq_true, if_false]
          exact .published hv
      | some t' =>
          simp only [advance, hv, Option.isSome_some, if_true]
          exact .occupied (by simp [hv])
  | .failing e => exact .told

/-- The work of a node only fills slots. -/
theorem grows_advance (n : PlannedNode) (stream : Option Stream) (slots : ValueStore) (stage : Stage) :
    slots.Grows (n.advance stream slots stage).slots := by
  have h := n.advanced stream slots stage
  generalize n.advance stream slots stage = w at h
  cases h with
  | published hfree => exact ValueStore.grows_set hfree _
  | _ => exact .refl _

theorem length_advance (n : PlannedNode) (stream : Option Stream) (slots : ValueStore) (stage : Stage) :
    (n.advance stream slots stage).slots.length = slots.length := by
  have h := n.advanced stream slots stage
  generalize n.advance stream slots stage = w at h
  cases h with
  | published => exact List.length_set
  | _ => rfl

/-! ## How far the work of a node has come -/

/-- These arguments are what the first inputs read. -/
structure Taken (n : PlannedNode) (slots : ValueStore) (args : List (Option Tensor)) : Prop where
  length : args.length ≤ n.inputs.length
  reads : ∀ (k : Nat) i a, n.inputs[k]? = some i → args[k]? = some a → slots.Reads i a

/-- The kernel ran on what all inputs read, and what it made is published but for what is left. -/
structure Ran (n : PlannedNode) (stream : Option Stream) (slots : ValueStore)
    (args : List (Option Tensor)) (left : List (Option Tensor × Option Nat)) : Prop where
  length : args.length = n.inputs.length
  reads : ∀ (k : Nat) i a, n.inputs[k]? = some i → args[k]? = some a → slots.Reads i a
  made : ∃ u c before, n.invoke stream args = (.ok u, c) ∧ c.outputs.zip n.outputs = before ++ left ∧
    ∀ e ∈ before, slots.Shows e

variable {n : PlannedNode} {stream : Option Stream} {slots slots' : ValueStore}
  {args : List (Option Tensor)} {left : List (Option Tensor × Option Nat)}

theorem Taken.mono (h : n.Taken slots args) (hg : slots.Grows slots') : n.Taken slots' args :=
  ⟨h.length, fun k i a hi ha => (h.reads k i a hi ha).mono hg⟩

theorem Ran.mono (h : n.Ran stream slots args left) (hg : slots.Grows slots') :
    n.Ran stream slots' args left := by
  obtain ⟨u, c, before, hrun, hzip, hshown⟩ := h.made
  exact ⟨h.length, fun k i a hi ha => (h.reads k i a hi ha).mono hg, u, c, before, hrun, hzip,
    fun e he => (hshown e he).mono hg⟩

/-- One more argument. -/
theorem Taken.snoc (h : n.Taken slots args) {i : Option Nat} {a : Option Tensor}
    (hi : n.inputs[args.length]? = some i) (ha : slots.Reads i a) : n.Taken slots (args ++ [a]) := by
  refine ⟨?_, fun k i' a' hi' ha' => ?_⟩
  · have hlt := (List.getElem?_eq_some_iff.mp hi).1
    rw [List.length_append, List.length_singleton]
    exact hlt
  · rw [List.getElem?_append] at ha'
    split at ha'
    · exact h.reads k i' a' hi' ha'
    · obtain ⟨hk, ha'⟩ := List.getElem?_eq_some_iff.mp ha'
      obtain rfl : k = args.length := by
        simp only [List.length_singleton] at hk
        omega
      obtain rfl : a = a' := by simpa using ha'
      obtain rfl : i = i' := Option.some.inj (hi.symm.trans hi')
      exact ha

/-- One more output that is published, or that is not wanted. -/
theorem Ran.snoc {e : Option Tensor × Option Nat} (h : n.Ran stream slots args (e :: left))
    (he : slots.Shows e) : n.Ran stream slots args left := by
  obtain ⟨u, c, before, hrun, hzip, hshown⟩ := h.made
  refine ⟨h.length, h.reads, u, c, before ++ [e], hrun, by simp [hzip], fun e' he' => ?_⟩
  rcases List.mem_append.mp he' with he' | he'
  · exact hshown e' he'
  · obtain rfl := List.mem_singleton.mp he'
    exact he

/-- What is left to publish goes to outputs of the node, no two to one. -/
theorem Ran.wanted (h : n.Ran stream slots args left) {e : Option Tensor × Option Nat} (he : e ∈ left)
    {v : Nat} (hv : e.2 = some v) : some v ∈ n.outputs := by
  obtain ⟨u, c, before, -, hzip, -⟩ := h.made
  have hmem : e ∈ c.outputs.zip n.outputs := by
    rw [hzip]
    exact List.mem_append_right _ he
  rw [← hv]
  exact (List.of_mem_zip hmem).2

/-- Arguments that are what all inputs read are one list. -/
theorem args_unique {args' : List (Option Tensor)} (hlen : args.length = n.inputs.length)
    (hlen' : args'.length = n.inputs.length)
    (h : ∀ (k : Nat) i a, n.inputs[k]? = some i → args[k]? = some a → slots.Reads i a)
    (h' : ∀ (k : Nat) i a, n.inputs[k]? = some i → args'[k]? = some a → slots.Reads i a) :
    args = args' := by
  refine List.ext_getElem (hlen.trans hlen'.symm) fun k hk hk' => ?_
  have hi : n.inputs[k]? = some n.inputs[k] := List.getElem?_eq_getElem (hlen ▸ hk)
  exact (h k _ _ hi (List.getElem?_eq_getElem hk)).unique (h' k _ _ hi (List.getElem?_eq_getElem hk'))

end PlannedNode

end OpGraph
