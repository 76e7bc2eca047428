import OpGraph.Proofs.Typed
import OpGraph.Proofs.Work
import OpGraph.Plan.Run

/-!
# `Proofs.Sequential` — evaluating a plan one node after the other

`Plan.evaluate` is what a plan means: the nodes compute one by one, in their order, with nobody else at the
slots. Slots in which every node ran on what its inputs read are a solution of the plan (`Plan.Solves`), in
whatever order they were filled. A plan has at most one solution that begins with given values, and
evaluating it leads there.
-/

namespace OpGraph

open Outcome

namespace Plan

variable {p : Plan} {fed : List (String × Tensor)} {slots : ValueStore}

/-! ## Evaluation -/

/-- Do the work of a node, with nobody else at the slots. -/
def evaluateNode (p : Plan) (slots : ValueStore) (n : PlannedNode) : Except SessionError ValueStore :=
  match n.compute (p.streamOf n) slots with
  | (.ok _, slots) => .ok slots
  | (.error e, _) => .error (.kernel n.name e)

/-- The outputs of a plan, read from the slots. -/
def outputsFrom (p : Plan) (slots : ValueStore) : Except SessionError (List Tensor) :=
  p.outputs.mapM fun o =>
    match slots.get? o.value with
    | some t => .ok t
    | none => .error (.missingOutput (p.valueName o.value))

/-- The outputs of a plan on what was fed, its nodes evaluated one by one in their order. -/
def evaluate (p : Plan) (fed : List (String × Tensor)) : Except SessionError (List Tensor) := do
  let slots ← Run.initialSlots p fed
  let slots ← p.nodes.foldlM p.evaluateNode slots
  p.outputsFrom slots

/-- Every node ran on what its inputs read, and what it made is published. -/
def Solves (p : Plan) (slots : ValueStore) : Prop :=
  ∀ (j : Nat) n, p.nodes[j]? = some n → ∃ args, n.Ran (p.streamOf n) slots args []

/-! ## What is there at the start -/

theorem get?_replicate (k v : Nat) : ValueStore.get? (List.replicate k none) v = none := by
  unfold ValueStore.get?
  rw [List.getElem?_replicate]
  split <;> rfl

theorem feed_eq_ok {slots' : ValueStore} {v : Nat} (h : Run.feed p fed slots v = .ok slots')
    (hv : v < p.values.length) : ∃ t, slots' = slots.set v (some t) := by
  unfold Run.feed at h
  rw [List.getElem?_eq_getElem hv] at h
  dsimp only at h
  split at h
  · cases h
  next t ht =>
  split at h
  · cases h
  · exact ⟨t, (Except.ok.inj h).symm⟩

/-- Fill slots one after the other. -/
def fill (slots : ValueStore) (es : List (Nat × Tensor)) : ValueStore :=
  es.foldl (fun s e => s.set e.1 (some e.2)) slots

theorem fill_spec (es : List (Nat × Tensor)) (slots : ValueStore) (h : ∀ e ∈ es, e.1 < slots.length) :
    (fill slots es).length = slots.length ∧
      ∀ v, ((fill slots es).get? v).isSome ↔ v ∈ es.map (·.1) ∨ (slots.get? v).isSome := by
  induction es generalizing slots with
  | nil => exact ⟨rfl, by simp [fill]⟩
  | cons e rest ih =>
      have he := h e List.mem_cons_self
      obtain ⟨hlen, hget⟩ := ih (slots.set e.1 (some e.2)) fun e' he' => by
        simpa using h e' (List.mem_cons_of_mem _ he')
      refine ⟨hlen.trans List.length_set, fun v => ?_⟩
      show ((fill (slots.set e.1 (some e.2)) rest).get? v).isSome ↔ _
      rw [hget, ValueStore.get?_set, List.map_cons, List.mem_cons]
      by_cases hv : e.1 = v
      · subst hv
        simp [he]
      · simp [hv, Ne.symm hv]

/-- Feeding fills the slots of the values that are fed. -/
theorem feeds_eq_ok {vs : List Nat} {slots' : ValueStore} (hvs : ∀ v ∈ vs, v < p.values.length)
    (h : vs.foldlM (Run.feed p fed) slots = .ok slots') :
    ∃ es, es.map (·.1) = vs ∧ slots' = fill slots es := by
  induction vs generalizing slots with
  | nil => exact ⟨[], rfl, (pure_eq_ok.mp h).symm⟩
  | cons v rest ih =>
      rw [List.foldlM_cons, bind_eq_ok] at h
      obtain ⟨slots₁, hv, hrest⟩ := h
      obtain ⟨t, rfl⟩ := feed_eq_ok hv (hvs v List.mem_cons_self)
      obtain ⟨es, hes, heq⟩ := ih (fun w hw => hvs w (List.mem_cons_of_mem _ hw)) hrest
      exact ⟨(v, t) :: es, by simp [hes], heq⟩

/-- What is there at the start is what was given. -/
theorem initialSlots_eq_ok (hs : p.Sound) (h : Run.initialSlots p fed = .ok slots) :
    slots.length = p.values.length ∧ ∀ v, (slots.get? v).isSome ↔ p.IsGiven v := by
  obtain ⟨slots₁, hfeeds, hinit⟩ := bind_eq_ok.mp h
  obtain ⟨es, hes, rfl⟩ := feeds_eq_ok (fun v hv => hs.given_lt (Or.inl hv)) hfeeds
  have hslots : slots = fill (List.replicate p.values.length none) (es ++ p.initializers) := by
    rw [← pure_eq_ok.mp hinit]
    unfold fill
    rw [List.foldl_append]
  have hgiven : ∀ v, v ∈ (es ++ p.initializers).map (·.1) ↔ p.IsGiven v := by
    intro v
    rw [List.map_append, hes, List.mem_append]
    rfl
  obtain ⟨hlen, hget⟩ := fill_spec (es ++ p.initializers) (List.replicate p.values.length none)
    fun e he => by
      simpa using hs.given_lt ((hgiven e.1).mp (List.mem_map.mpr ⟨e, he, rfl⟩))
  rw [← hslots] at hlen hget
  refine ⟨by simpa using hlen, fun v => ?_⟩
  rw [hget, hgiven, get?_replicate]
  simp

/-! ## The solution -/

theorem gather_eq_ok {is : List (Option Nat)} {args : List (Option Tensor)} {k : Nat}
    (hlen : args.length = is.length)
    (h : ∀ (k : Nat) i a, is[k]? = some i → args[k]? = some a → slots.Reads i a) :
    slots.gather k is = .ok args := by
  induction is generalizing args k with
  | nil =>
      obtain rfl : args = [] := by simpa using hlen
      rfl
  | cons i rest ih =>
      cases args with
      | nil => simp at hlen
      | cons a args =>
          have hrest := @ih args (k + 1) (by simpa using hlen) fun k i a hi ha =>
            h (k + 1) i a (by simpa using hi) (by simpa using ha)
          have hhead := h 0 i a rfl rfl
          cases i with
          | none =>
              cases a with
              | none => simp [ValueStore.gather, hrest, Except.map]
              | some t => exact hhead.elim
          | some v =>
              cases a with
              | none => exact hhead.elim
              | some t =>
                  have hv : slots.get? v = some t := hhead
                  simp [ValueStore.gather, hrest, Except.map, hv]

/-- What stands in the slots of some values of a solution, and nothing else. -/
structure Part (known : Nat → Prop) (slots part : ValueStore) : Prop where
  length : part.length = slots.length
  inside : ∀ v, known v → part.get? v = slots.get? v
  outside : ∀ v, ¬known v → part.get? v = none

/-- Publishing what a solution shows. -/
theorem publish_eq_ok {es : List (Option Tensor × Option Nat)} {known : Nat → Prop}
    {part : ValueStore} {i : Nat} (h : Part known slots part) (hes : ∀ e ∈ es, slots.Shows e)
    (hnew : ∀ e ∈ es, ∀ v, e.2 = some v → ¬known v) (hnodup : (es.filterMap (·.2)).Nodup) :
    ∃ part', part.publish i es = (.ok (), part') ∧
      Part (fun v => known v ∨ some v ∈ es.map (·.2)) slots part' := by
  -- One slot more is known after each entry, so the induction is for any set of known slots.
  induction es generalizing part known i with
  | nil => exact ⟨part, rfl, h.length, by simpa using h.inside, by simpa using h.outside⟩
  | cons e rest ih =>
      obtain ⟨o, w⟩ := e
      have hrest : ∀ e ∈ rest, slots.Shows e := fun e he => hes e (List.mem_cons_of_mem _ he)
      have hold : ∀ e ∈ rest, ∀ v, e.2 = some v → ¬known v :=
        fun e he => hnew e (List.mem_cons_of_mem _ he)
      cases w with
      | none =>
          obtain ⟨part', hpublish, hpart⟩ := ih (i := i + 1) h hrest hold (by simpa using hnodup)
          refine ⟨part', by simpa [ValueStore.publish] using hpublish, hpart.length, ?_, ?_⟩
          · simpa using hpart.inside
          · simpa using hpart.outside
      | some v =>
          obtain ⟨t, ht, hv⟩ := hes _ List.mem_cons_self v rfl
          dsimp only at ht
          subst ht
          have hfree := h.outside v (hnew _ List.mem_cons_self v rfl)
          have hlt : v < slots.length := by
            refine Nat.lt_of_not_le fun hle => ?_
            rw [ValueStore.get?, List.getElem?_eq_none hle] at hv
            cases hv
          have hstep : Part (fun w => known w ∨ w = v) slots (part.set v (some t)) := by
            refine ⟨by simpa using h.length, fun w hw => ?_, fun w hw => ?_⟩
            · rw [ValueStore.get?_set, h.length]
              by_cases hvw : v = w
              · subst hvw
                simp [hlt, hv]
              · simp only [hvw, false_and, if_false]
                exact h.inside w (hw.resolve_right (Ne.symm hvw))
            · rw [ValueStore.get?_set, if_neg fun (hc : v = w ∧ _) => hw (Or.inr hc.1.symm)]
              exact h.outside w fun hk => hw (Or.inl hk)
          simp only [List.filterMap_cons, List.nodup_cons] at hnodup
          obtain ⟨part', hpublish, hpart⟩ := ih (i := i + 1) hstep hrest (fun e he u hu hk => by
            rcases hk with hk | rfl
            · exact hold e he u hu hk
            · exact hnodup.1 (List.mem_filterMap.mpr ⟨e, he, hu⟩)) hnodup.2
          refine ⟨part', by simpa [ValueStore.publish, hfree] using hpublish, hpart.length, ?_, ?_⟩
          · intro u hu
            refine hpart.inside u ?_
            simpa [or_assoc, eq_comm] using hu
          · intro u hu
            refine hpart.outside u fun hk => hu ?_
            simpa [or_assoc, eq_comm] using hk

/-- What is there before a node runs: what was given, and what the nodes before it make. -/
def Available (p : Plan) (j v : Nat) : Prop := p.IsGiven v ∨ ∃ u < j, p.Makes u v

/-- What a kernel made, output by output. -/
theorem made_outputs (hs : p.Sound) {n : PlannedNode} (hn : n ∈ p.nodes) {stream : Option Stream}
    {args : List (Option Tensor)} {u : Unit} {c : KernelContext} (h : n.invoke stream args = (.ok u, c)) :
    (c.outputs.zip n.outputs).map (·.2) = n.outputs := by
  obtain ⟨htyped, hplanned⟩ := n.invoke_typed stream args
  rw [h] at htyped hplanned
  have hle : n.outputs.length ≤ c.outputs.length :=
    Nat.le_of_eq (by rw [htyped.length, hplanned, hs.types_length n hn])
  exact List.map_snd_zip hle

/-- A node that ran and published everything filled the slots of all its outputs. -/
theorem ran_fills (hs : p.Sound) {n : PlannedNode} (hn : n ∈ p.nodes) {stream : Option Stream}
    {args : List (Option Tensor)} (h : n.Ran stream slots args []) {v : Nat} (hv : some v ∈ n.outputs) :
    (slots.get? v).isSome := by
  obtain ⟨u, c, before, hrun, hzip, hshown⟩ := h.made
  rw [List.append_nil] at hzip
  subst hzip
  rw [← made_outputs hs hn hrun] at hv
  obtain ⟨e, he, hev⟩ := List.mem_map.mp hv
  obtain ⟨t, -, ht⟩ := hshown e he v hev
  rw [ht]
  rfl

/-- No two things that are left to publish go to one output. -/
theorem ran_once (hs : p.Sound) {n : PlannedNode} (hn : n ∈ p.nodes) {stream : Option Stream}
    {args : List (Option Tensor)} {o : Option Tensor} {v : Nat} {left : List (Option Tensor × Option Nat)}
    (h : n.Ran stream slots args ((o, some v) :: left)) : ∀ e ∈ left, e.2 ≠ some v := by
  obtain ⟨u, c, before, hrun, hzip, -⟩ := h.made
  have hnodup := hs.outputs_nodup n hn
  rw [← made_outputs hs hn hrun, hzip, List.map_append, List.map_cons, List.filterMap_append] at hnodup
  have hnot := (List.nodup_cons.mp (List.nodup_append.mp hnodup).2.1).1
  exact fun e he hv => hnot (List.mem_filterMap.mpr ⟨_, List.mem_map.mpr ⟨e, he, rfl⟩, hv⟩)

/-- Evaluating the next node fills in its part of a solution. -/
theorem evaluateNode_eq_ok (hs : p.Sound) (hsolves : p.Solves slots) {j : Nat} {n : PlannedNode}
    (hn : p.nodes[j]? = some n) {part : ValueStore} (hpart : Part (p.Available j) slots part) :
    ∃ part', p.evaluateNode part n = .ok part' ∧ Part (p.Available (j + 1)) slots part' := by
  obtain ⟨args, hlen, hreads, u, c, before, hrun, hzip, hshown⟩ := hsolves j n hn
  rw [List.append_nil] at hzip
  subst hzip
  -- Whatever the node reads is available, so its kernel is called as in the solution.
  have hgather : part.gather 0 n.inputs = .ok args := by
    refine gather_eq_ok hlen fun k i a hi ha => ?_
    have hread := hreads k i a hi ha
    cases i <;> cases a <;> first | exact hread | skip
    next v t =>
      show part.get? v = some t
      rw [hpart.inside v (hs.reads hn (List.mem_of_getElem? hi))]
      exact hread
  have hmakes : ∀ e ∈ c.outputs.zip n.outputs, ∀ v, e.2 = some v → p.Makes j v := by
    rintro ⟨o, w⟩ he v rfl
    exact ⟨n, hn, (List.of_mem_zip he).2⟩
  have hnew : ∀ e ∈ c.outputs.zip n.outputs, ∀ v, e.2 = some v → ¬p.Available j v := by
    rintro e he v hv (hgiven | ⟨u, hu, hmakes'⟩)
    · exact hs.makes_new (hmakes e he v hv) hgiven
    · exact absurd (hs.makes_once hmakes' (hmakes e he v hv)) (Nat.ne_of_lt hu)
  have houtputs := made_outputs hs (List.mem_of_getElem? hn) hrun
  have hnodup : ((c.outputs.zip n.outputs).filterMap (·.2)).Nodup := by
    have hmap : (c.outputs.zip n.outputs).filterMap (·.2) =
        ((c.outputs.zip n.outputs).map (·.2)).filterMap id := by
      rw [List.filterMap_map]
      rfl
    rw [hmap, houtputs]
    exact hs.outputs_nodup n (List.mem_of_getElem? hn)
  obtain ⟨part', hpublish, hpart'⟩ := publish_eq_ok (i := 0) hpart hshown hnew hnodup
  refine ⟨part', ?_, hpart'.length, fun v hv => hpart'.inside v ?_, fun v hv => hpart'.outside v ?_⟩
  · unfold evaluateNode PlannedNode.compute
    simp [hgather, hrun, hpublish]
  · rw [houtputs]
    rcases hv with hgiven | ⟨u, hu, hmakes'⟩
    · exact Or.inl (Or.inl hgiven)
    · rcases Nat.lt_succ_iff_lt_or_eq.mp hu with hlt | rfl
      · exact Or.inl (Or.inr ⟨u, hlt, hmakes'⟩)
      · obtain ⟨n', hn', hmem⟩ := hmakes'
        obtain rfl := Option.some.inj (hn.symm.trans hn')
        exact Or.inr hmem
  · rw [houtputs]
    rintro ((hgiven | ⟨u, hu, hmakes'⟩) | hmem)
    · exact hv (Or.inl hgiven)
    · exact hv (Or.inr ⟨u, Nat.lt_succ_of_lt hu, hmakes'⟩)
    · exact hv (Or.inr ⟨j, Nat.lt_succ_self j, n, hn, hmem⟩)

theorem evaluateNodes_eq_ok (hs : p.Sound) (hsolves : p.Solves slots) :
    ∀ (ns : List PlannedNode) (j : Nat) (part : ValueStore), p.nodes.drop j = ns →
      Part (p.Available j) slots part →
      ∃ part', ns.foldlM p.evaluateNode part = .ok part' ∧
        Part (p.Available (j + ns.length)) slots part' := by
  intro ns
  induction ns with
  | nil => exact fun j part _ hpart => ⟨part, rfl, hpart⟩
  | cons n rest ih =>
      intro j part hdrop hpart
      have hn : p.nodes[j]? = some n := by
        have := congrArg (·[0]?) hdrop
        simpa using this
      have hrest : p.nodes.drop (j + 1) = rest := by
        rw [← List.drop_drop, hdrop]
        rfl
      obtain ⟨part₁, hone, hpart₁⟩ := evaluateNode_eq_ok hs hsolves hn hpart
      obtain ⟨part₂, hall, hpart₂⟩ := ih (j + 1) part₁ hrest hpart₁
      refine ⟨part₂, ?_, ?_⟩
      · rw [List.foldlM_cons, bind_eq_ok]
        exact ⟨part₁, hone, hall⟩
      · rw [List.length_cons, Nat.add_comm rest.length, ← Nat.add_assoc]
        exact hpart₂

/-- **Evaluating a plan node by node leads to its solution**, whatever was given is a part of. -/
theorem evaluate_eq_ok (hs : p.Sound) {start : ValueStore} (hstart : Run.initialSlots p fed = .ok start)
    (hgrows : start.Grows slots) (hlen : slots.length = p.values.length) (hsolves : p.Solves slots) :
    ∃ outs, p.evaluate fed = .ok outs ∧ p.outputsFrom slots = .ok outs := by
  obtain ⟨hlength, hgiven⟩ := initialSlots_eq_ok hs hstart
  have hpart : Part (p.Available 0) slots start := by
    refine ⟨hlength.trans hlen.symm, fun v hv => ?_, fun v hv => ?_⟩
    · have hsome : (start.get? v).isSome := by
        refine (hgiven v).mpr (hv.resolve_right ?_)
        rintro ⟨u, hu, -⟩
        cases hu
      obtain ⟨t, ht⟩ := Option.isSome_iff_exists.mp hsome
      rw [ht, hgrows v t ht]
    · exact Option.not_isSome_iff_eq_none.mp fun hsome => hv (Or.inl ((hgiven v).mp hsome))
  obtain ⟨part, hfold, hpart⟩ := evaluateNodes_eq_ok hs hsolves p.nodes 0 start rfl hpart
  rw [Nat.zero_add] at hpart
  have hread : ∀ o ∈ p.outputs, ∃ t, part.get? o.value = some t ∧ slots.get? o.value = some t := by
    intro o ho
    have havailable : p.Available p.nodes.length o.value := by
      rcases hs.output o ho with hgiven | ⟨u, hmakes⟩
      · exact Or.inl hgiven
      · obtain ⟨n, hn, -⟩ := id hmakes
        exact Or.inr ⟨u, (List.getElem?_eq_some_iff.mp hn).1, hmakes⟩
    rw [hpart.inside _ havailable]
    simp only [and_self]
    refine Option.isSome_iff_exists.mp ?_
    rcases hs.output o ho with hgiven' | ⟨u, n, hn, hmem⟩
    · obtain ⟨t, ht⟩ := Option.isSome_iff_exists.mp ((hgiven o.value).mpr hgiven')
      rw [hgrows _ t ht]
      rfl
    · obtain ⟨args, hran⟩ := hsolves u n hn
      exact ran_fills hs (List.mem_of_getElem? hn) hran hmem
  have hall : ∃ outs, p.outputsFrom slots = .ok outs := by
    refine exists_mapM_eq_ok fun o ho => ?_
    obtain ⟨t, -, ht⟩ := hread o ho
    exact ⟨t, by rw [ht]⟩
  obtain ⟨outs, houts⟩ := hall
  refine ⟨outs, ?_, houts⟩
  unfold evaluate
  simp only [bind_eq_ok]
  refine ⟨start, hstart, part, hfold, ?_⟩
  unfold outputsFrom
  rw [mapM_eq_ok, ← mapM_eq_ok.mp houts]
  refine List.map_congr_left fun o ho => ?_
  obtain ⟨t, ht, ht'⟩ := hread o ho
  rw [ht, ht']

end Plan

end OpGraph
