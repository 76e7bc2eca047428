import OpGraph.Proofs.Outputs
import OpGraph.Proofs.Typed

/-!
# `Proofs.Publishing` — what the work of a node sets, and where it stops

The slots of a run are shared, so others may be at them between two steps of the work of a node. Whatever they do,
the work changes no slot before its kernel has ended well (`Works.taking`). Then it publishes output by output, and
stops at the first that it cannot publish: those before stand in their slots, each with the tensor the kernel put
last, and nothing else was changed (`Works.sets`). So a node that failed may have published some of its outputs,
and others go on to read them (`half_published`).
-/

namespace OpGraph.PlannedNode

/-- The work of a node from a stage on: the slots before and after each of its steps, and the failure it told of.
    Between two of its steps others may change the slots in any way. -/
inductive Works (n : PlannedNode) (stream : Option Stream) :
    Stage → List (ValueStore × ValueStore) → Option OpError → Prop
  | ends {stage : Stage} {slots : ValueStore} : (n.advance stream slots stage).rest = none →
      Works n stream stage [(slots, (n.advance stream slots stage).slots)] (n.advance stream slots stage).failure
  | step {stage stage' : Stage} {slots : ValueStore} {history : List (ValueStore × ValueStore)}
      {ending : Option OpError} :
      (n.advance stream slots stage).rest = some stage' → Works n stream stage' history ending →
      Works n stream stage ((slots, (n.advance stream slots stage).slots) :: history) ending

/-- A step changed a slot and left this in it. -/
def Writes (history : List (ValueStore × ValueStore)) (v : Nat) (a : Option Tensor) : Prop :=
  ∃ e ∈ history, e.1.get? v ≠ e.2.get? v ∧ e.2.get? v = a

/-- How the work of a node fails before its kernel has ended well. -/
inductive FailsEarly (n : PlannedNode) (stream : Option Stream) : OpError → Prop
  | missing {i v : Nat} : n.inputs[i]? = some (some v) →
      FailsEarly n stream (.invalidArgument (.neverProduced i))
  | stopped {args : List (Option Tensor)} {stop : Abort} : args.length = n.inputs.length →
      (n.invoke stream args).1 = .error stop → FailsEarly n stream (stop.toError n.op)

/-- The wanted outputs before position `k` were published, each with the tensor that was put there last, and no
    other slot was changed. -/
structure Publishes (n : PlannedNode) (ps : List (Nat × Tensor)) (k : Nat)
    (history : List (ValueStore × ValueStore)) : Prop where
  made : ∀ i < k, ∀ v, n.outputs[i]? = some (some v) → (lastValue? i ps).isSome
  writes : ∀ v a, Writes history v a ↔
    ∃ i < k, n.outputs[i]? = some (some v) ∧ ∃ t, lastValue? i ps = some t ∧ a = some t

/-- Why publishing came no further than position `k`. -/
inductive Stops (n : PlannedNode) (ps : List (Nat × Tensor)) (k : Nat)
    (history : List (ValueStore × ValueStore)) : Option OpError → Prop
  /-- There is no further output with a planned type. -/
  | done : k = min n.types.length n.outputs.length → Stops n ps k history none
  /-- The kernel put nothing there. -/
  | unmade {v : Nat} : k < n.types.length → n.outputs[k]? = some (some v) → lastValue? k ps = none →
      Stops n ps k history (some (.invalidArgument (.notProduced k)))
  /-- The slot was filled when its turn came. -/
  | occupied {v : Nat} {t : Tensor} : k < n.types.length → n.outputs[k]? = some (some v) →
      lastValue? k ps = some t → (∃ e ∈ history, e.1.get? v ≠ none) →
      Stops n ps k history (some (.invalidArgument (.alreadySet k)))

variable {n : PlannedNode} {stream : Option Stream} {stage : Stage} {slots slots' : ValueStore}
  {history : List (ValueStore × ValueStore)} {ending : Option OpError} {v : Nat} {a : Option Tensor}

/-! ## Changes -/

theorem writes_cons : Writes ((slots, slots') :: history) v a ↔
    (slots.get? v ≠ slots'.get? v ∧ slots'.get? v = a) ∨ Writes history v a := by
  simp [Writes]

/-- A step that leaves the slots alone. -/
theorem writes_cons_same : Writes ((slots, slots) :: history) v a ↔ Writes history v a := by
  simp [writes_cons]

/-- The last step of work that sets nothing. -/
theorem not_writes_last : ∀ v a, ¬Writes [(slots, slots)] v a := by simp [Writes]

/-- A step that leaves the slots alone, and nothing is set after it. -/
theorem not_writes_cons_same (h : ∀ v a, ¬Writes history v a) :
    ∀ v a, ¬Writes ((slots, slots) :: history) v a :=
  fun v a hwrites => h v a (writes_cons_same.mp hwrites)

/-- A step that fills a slot. -/
theorem writes_cons_set {w : Nat} {t : Tensor} (hfree : slots.get? w = none) (hw : w < slots.length) :
    Writes ((slots, slots.set w (some t)) :: history) v a ↔ (v = w ∧ a = some t) ∨ Writes history v a := by
  rw [writes_cons, ValueStore.get?_set]
  refine or_congr ?_ Iff.rfl
  by_cases h : w = v
  · subst h
    simp [hw, hfree, eq_comm]
  · simp [h, Ne.symm h]

/-! ## Publishing -/

/-- These outputs were published, and no other slot was changed. -/
structure Published (es : List (Option Tensor × Option Nat)) (history : List (ValueStore × ValueStore)) : Prop where
  made : ∀ o w, (o, some w) ∈ es → o.isSome
  writes : ∀ v a, Writes history v a ↔ ∃ t, (some t, some v) ∈ es ∧ a = some t

/-- Why these outputs, from position `k` on, were not published. -/
inductive Halts (k : Nat) (history : List (ValueStore × ValueStore)) :
    List (Option Tensor × Option Nat) → Option OpError → Prop
  | done : Halts k history [] none
  | unmade {w : Nat} {left : List (Option Tensor × Option Nat)} :
      Halts k history ((none, some w) :: left) (some (.invalidArgument (.notProduced k)))
  | occupied {w : Nat} {t : Tensor} {left : List (Option Tensor × Option Nat)} :
      (∃ e ∈ history, e.1.get? w ≠ none) →
      Halts k history ((some t, some w) :: left) (some (.invalidArgument (.alreadySet k)))

variable {es left : List (Option Tensor × Option Nat)} {i k w : Nat}

theorem Halts.mono {later : List (ValueStore × ValueStore)} (h : Halts k later left ending)
    (hsub : later ⊆ history) : Halts k history left ending := by
  cases h with
  | done => exact .done
  | unmade => exact .unmade
  | occupied hfilled => exact .occupied (hfilled.imp fun _ he => ⟨hsub he.1, he.2⟩)

theorem Published.nil (h : ∀ v a, ¬Writes history v a) : Published [] history :=
  ⟨by simp, fun v a => by simp [h]⟩

theorem Published.unwanted {o : Option Tensor} (h : Published es history) :
    Published ((o, none) :: es) ((slots, slots) :: history) :=
  ⟨by simpa using h.made, fun v a => by simp [writes_cons_same, h.writes]⟩

theorem Published.set {t : Tensor} (h : Published es history) (hfree : slots.get? w = none)
    (hw : w < slots.length) :
    Published ((some t, some w) :: es) ((slots, slots.set w (some t)) :: history) := by
  refine ⟨fun o v hmem => ?_, fun v a => ?_⟩
  · rcases List.mem_cons.mp hmem with heq | hmem
    · cases heq
      rfl
    · exact h.made o v hmem
  · rw [writes_cons_set hfree hw, h.writes]
    constructor
    · rintro (⟨rfl, rfl⟩ | ⟨t', hmem, rfl⟩)
      · exact ⟨t, List.mem_cons_self, rfl⟩
      · exact ⟨t', List.mem_cons_of_mem _ hmem, rfl⟩
    · rintro ⟨t', hmem, rfl⟩
      rcases List.mem_cons.mp hmem with heq | hmem
      · cases heq
        exact .inl ⟨rfl, rfl⟩
      · exact .inr ⟨t', hmem, rfl⟩

/-! ## Step by step -/

/-- The first step of some work, and what comes after it. -/
theorem Works.first (h : n.Works stream stage history ending) : ∃ slots w later,
    n.Advanced stream slots stage w ∧ history = (slots, w.slots) :: later ∧
      w.rest.elim (later = [] ∧ ending = w.failure) fun stage' => n.Works stream stage' later ending := by
  cases h with
  | @ends _ slots hrest =>
      refine ⟨slots, _, [], n.advanced stream slots stage, rfl, ?_⟩
      rw [hrest]
      exact ⟨rfl, rfl⟩
  | @step _ stage' slots later _ hrest hlater =>
      refine ⟨slots, _, later, n.advanced stream slots stage, rfl, ?_⟩
      rw [hrest]
      exact hlater

theorem Works.failing {e : OpError} (h : n.Works stream (.failing e) history ending) :
    ending = some e ∧ ∀ v a, ¬Writes history v a := by
  obtain ⟨slots, w, later, hadv, rfl, hlater⟩ := h.first
  cases hadv
  obtain ⟨rfl, rfl⟩ := hlater
  exact ⟨rfl, not_writes_last⟩

/-- **Publishing goes as far as it can**, output by output. -/
theorem Works.publishing (h : n.Works stream (.publishing i left) history ending)
    (hroom : ∀ e ∈ history, ∀ o w, (o, some w) ∈ left → w < e.1.length) :
    ∃ done rest, left = done ++ rest ∧ Published done history ∧ Halts (i + done.length) history rest ending := by
  -- On what is left: a step that goes on takes the first output off, and a failure leaves it there.
  induction left generalizing i history with
  | nil =>
      obtain ⟨slots, w, later, hadv, rfl, hlater⟩ := h.first
      cases hadv
      obtain ⟨rfl, rfl⟩ := hlater
      exact ⟨[], [], rfl, .nil not_writes_last, .done⟩
  | cons o left ih =>
      obtain ⟨slots, w, later, hadv, rfl, hlater⟩ := h.first
      have hroom' : ∀ e ∈ later, ∀ o' w', (o', some w') ∈ left → w' < e.1.length :=
        fun e he o' w' hmem => hroom e (List.mem_cons_of_mem _ he) o' w' (List.mem_cons_of_mem _ hmem)
      have hplace : ∀ (e : Option Tensor × Option Nat) (done : List (Option Tensor × Option Nat)),
          i + 1 + done.length = i + (e :: done).length := fun _ _ => by rw [List.length_cons]; omega
      cases hadv with
      | unwanted =>
          obtain ⟨done, rest, rfl, hpublished, hhalts⟩ := ih hlater hroom'
          exact ⟨_ :: done, rest, rfl, hpublished.unwanted, hplace _ done ▸ hhalts.mono (List.subset_cons_self _ _)⟩
      | unmade =>
          obtain ⟨rfl, hnone⟩ := Works.failing hlater
          exact ⟨[], _, rfl, .nil (not_writes_cons_same hnone), .unmade⟩
      | occupied hfilled =>
          obtain ⟨rfl, hnone⟩ := Works.failing hlater
          exact ⟨[], _, rfl, .nil (not_writes_cons_same hnone),
            .occupied ⟨_, List.mem_cons_self, hfilled⟩⟩
      | published hfree =>
          obtain ⟨done, rest, rfl, hpublished, hhalts⟩ := ih hlater hroom'
          exact ⟨_ :: done, rest, rfl, hpublished.set hfree (hroom _ List.mem_cons_self _ _ List.mem_cons_self),
            hplace _ done ▸ hhalts.mono (List.subset_cons_self _ _)⟩

/-- **Nothing is set before the kernel has ended well.** -/
theorem Works.taking {args : List (Option Tensor)} (h : n.Works stream (.taking args) history ending)
    (hargs : args.length ≤ n.inputs.length) :
    (∃ e, ending = some e ∧ n.FailsEarly stream e ∧ ∀ v a, ¬Writes history v a) ∨
      ∃ args u c later, args.length = n.inputs.length ∧ n.invoke stream args = (.ok u, c) ∧
        n.Works stream (.publishing 0 (c.outputs.zip n.outputs)) later ending ∧ later ⊆ history ∧
        ∀ v a, Writes history v a ↔ Writes later v a := by
  -- On the steps, since an argument is added with each of them.
  induction history generalizing args with
  | nil =>
      obtain ⟨_, _, _, -, hnil, -⟩ := h.first
      cases hnil
  | cons e later ih =>
      obtain ⟨slots, w, _, hadv, heq, hlater⟩ := h.first
      obtain ⟨rfl, rfl⟩ := List.cons.inj heq
      cases hadv with
      | @took _ _ a hi =>
          have hlt := (List.getElem?_eq_some_iff.mp hi).1
          have hargs' : (args ++ [a]).length ≤ n.inputs.length := by
            rw [List.length_append]
            exact hlt
          rcases ih hlater hargs' with ⟨e, rfl, hfails, hnone⟩ |
            ⟨args, u, c, rest, hlen, hrun, hrest, hsub, hsame⟩
          · exact .inl ⟨e, rfl, hfails, not_writes_cons_same hnone⟩
          · exact .inr ⟨args, u, c, rest, hlen, hrun, hrest, fun _ h => List.mem_cons_of_mem _ (hsub h),
              fun v a => writes_cons_same.trans (hsame v a)⟩
      | missing hi =>
          obtain ⟨rfl, hnone⟩ := Works.failing hlater
          exact .inl ⟨_, rfl, .missing hi, not_writes_cons_same hnone⟩
      | ran hall hrun =>
          exact .inr ⟨args, _, _, later, Nat.le_antisymm hargs hall, hrun, hlater,
            fun _ h => List.mem_cons_of_mem _ h, fun v a => writes_cons_same⟩
      | broke hall hrun =>
          obtain ⟨rfl, hnone⟩ := Works.failing hlater
          exact .inl ⟨_, rfl, .stopped (Nat.le_antisymm hargs hall) (congrArg Prod.fst hrun),
            not_writes_cons_same hnone⟩

/-! ## The whole work -/

/-- There is a place for every planned output. -/
theorem length_invoke (n : PlannedNode) (stream : Option Stream) (args : List (Option Tensor)) :
    (n.invoke stream args).2.outputs.length = n.types.length := by
  obtain ⟨htyped, hplanned⟩ := n.invoke_typed stream args
  rw [htyped.length, hplanned]

section Invoked

variable {args : List (Option Tensor)} {u : Unit} {c : KernelContext} {ps : List (Nat × Tensor)}
  {done rest : List (Option Tensor × Option Nat)} {o : Option Tensor}

/-- What the kernel put last goes to the outputs of its node. -/
theorem getElem?_zip_outputs (hrun : n.invoke stream args = (.ok u, c))
    (hps : n.kernel.compute.Puts (KernelContext.start args n.types stream n.logger) ps) :
    (c.outputs.zip n.outputs)[i]? = some (o, some w) ↔
      i < n.types.length ∧ n.outputs[i]? = some (some w) ∧ lastValue? i ps = o := by
  have hlast : (n.invoke stream args).2.output? i = _ := hps.output? i
  have hlen := n.length_invoke stream args
  rw [hrun, KernelContext.output?_start, Option.or_none] at hlast
  rw [hrun] at hlen
  rw [← hlast, List.getElem?_zip_eq_some, ← hlen]
  unfold KernelContext.output?
  constructor
  · rintro ⟨ho, hw⟩
    exact ⟨(List.getElem?_eq_some_iff.mp ho).1, hw, congrArg Option.join ho⟩
  · rintro ⟨hi, hw, ho⟩
    refine ⟨?_, hw⟩
    rw [List.getElem?_eq_getElem hi] at ho ⊢
    exact congrArg some ho

theorem length_zip_outputs (hrun : n.invoke stream args = (.ok u, c)) :
    (c.outputs.zip n.outputs).length = min n.types.length n.outputs.length := by
  rw [List.length_zip, ← n.length_invoke stream args, hrun]

/-- The first outputs of a node are those at the first positions. -/
theorem mem_first_outputs (hrun : n.invoke stream args = (.ok u, c))
    (hps : n.kernel.compute.Puts (KernelContext.start args n.types stream n.logger) ps)
    (hsplit : c.outputs.zip n.outputs = done ++ rest) : (o, some w) ∈ done ↔
      ∃ i < done.length, n.outputs[i]? = some (some w) ∧ lastValue? i ps = o := by
  have hlen := length_zip_outputs hrun
  rw [hsplit, List.length_append] at hlen
  rw [List.mem_iff_getElem?]
  refine exists_congr fun i => ?_
  have hzip := getElem?_zip_outputs (i := i) (w := w) (o := o) hrun hps
  rw [hsplit] at hzip
  constructor
  · intro hi
    have hlt := (List.getElem?_eq_some_iff.mp hi).1
    rw [List.getElem?_append_left hlt] at hzip
    exact ⟨hlt, (hzip.mp hi).2⟩
  · rintro ⟨hlt, hw, ho⟩
    rw [List.getElem?_append_left hlt] at hzip
    exact hzip.mpr ⟨by omega, hw, ho⟩

theorem Published.publishes (h : Published done history) (hrun : n.invoke stream args = (.ok u, c))
    (hps : n.kernel.compute.Puts (KernelContext.start args n.types stream n.logger) ps)
    (hsplit : c.outputs.zip n.outputs = done ++ rest) : n.Publishes ps done.length history := by
  refine ⟨fun i hi w hw => h.made _ w ((mem_first_outputs hrun hps hsplit).mpr ⟨i, hi, hw, rfl⟩), fun v a => ?_⟩
  rw [h.writes]
  constructor
  · rintro ⟨t, ht, rfl⟩
    obtain ⟨i, hi, hw, hlast⟩ := (mem_first_outputs hrun hps hsplit).mp ht
    exact ⟨i, hi, hw, t, hlast, rfl⟩
  · rintro ⟨i, hi, hw, t, hlast, rfl⟩
    exact ⟨t, (mem_first_outputs hrun hps hsplit).mpr ⟨i, hi, hw, hlast⟩, rfl⟩

theorem Halts.stops (h : Halts done.length history rest ending) (hrun : n.invoke stream args = (.ok u, c))
    (hps : n.kernel.compute.Puts (KernelContext.start args n.types stream n.logger) ps)
    (hsplit : c.outputs.zip n.outputs = done ++ rest) : n.Stops ps done.length history ending := by
  have hnext : ∀ {o w tail}, rest = (o, some w) :: tail →
      done.length < n.types.length ∧ n.outputs[done.length]? = some (some w) ∧ lastValue? done.length ps = o := by
    rintro o w tail rfl
    exact (getElem?_zip_outputs hrun hps).mp (by simp [hsplit])
  cases h with
  | done =>
      have hlen := length_zip_outputs hrun
      rw [hsplit, List.append_nil] at hlen
      exact .done hlen
  | unmade =>
      obtain ⟨hlt, hw, hnone⟩ := hnext rfl
      exact .unmade hlt hw hnone
  | occupied hfilled =>
      obtain ⟨hlt, hw, hsome⟩ := hnext rfl
      exact .occupied hlt hw hsome hfilled

end Invoked

/-- **What the work of a node sets.** Without a kernel that ended well it sets nothing. Otherwise it sets the
    wanted outputs up to a position, each to the tensor that was put there last, and changes no other slot: all
    of them where it ends well, and those before the one that it could not publish where it fails. -/
theorem Works.sets (h : n.Works stream (.taking []) history ending)
    (hroom : ∀ e ∈ history, ∀ v, some v ∈ n.outputs → v < e.1.length) :
    (∃ e, ending = some e ∧ n.FailsEarly stream e ∧ ∀ v a, ¬Writes history v a) ∨
      ∃ args ps k, args.length = n.inputs.length ∧ (n.invoke stream args).1 = .ok () ∧
        n.kernel.compute.Puts (KernelContext.start args n.types stream n.logger) ps ∧
        n.Publishes ps k history ∧ n.Stops ps k history ending := by
  rcases h.taking (Nat.zero_le _) with hfails | ⟨args, u, c, later, hlen, hrun, hpublishing, hsub, hsame⟩
  · exact .inl hfails
  obtain ⟨ps, hps⟩ := n.kernel.compute_composed.exists_puts
    (c := KernelContext.start args n.types stream n.logger) (by simp [KernelContext.start])
  -- What was published is told by outputs, and the kernel's tensors by positions.
  obtain ⟨done, rest, hsplit, hpublished, hhalts⟩ := hpublishing.publishing fun e he o w hmem =>
    hroom e (hsub he) w (List.of_mem_zip hmem).2
  rw [Nat.zero_add] at hhalts
  obtain ⟨hmade, hwrites⟩ := hpublished.publishes hrun hps hsplit
  refine .inr ⟨args, ps, done.length, hlen, by rw [hrun], hps, ⟨hmade, fun v a => (hsame v a).trans (hwrites v a)⟩,
    (hhalts.mono hsub).stops hrun hps hsplit⟩

/-! ## Work that is left alone -/

/-- Nobody else changes the slots between these steps. -/
def Links : ValueStore → List (ValueStore × ValueStore) → ValueStore → Prop
  | s, [], s' => s = s'
  | s, e :: history, s' => e.1 = s ∧ Links e.2 history s'

/-- The work from a stage on, left alone, comes to this. -/
def Comes (n : PlannedNode) (stream : Option Stream) (stage : Stage) (slots : ValueStore)
    (result : Except OpError Unit × ValueStore) : Prop :=
  ∃ history ending, n.Works stream stage history ending ∧ Links slots history result.2 ∧
    result.1 = ending.elim (.ok ()) .error

theorem Comes.step {stage' : Stage} {w : WorkStep} {result : Except OpError Unit × ValueStore}
    (hadv : n.advance stream slots stage = w) (hrest : w.rest = some stage')
    (h : n.Comes stream stage' w.slots result) : n.Comes stream stage slots result := by
  subst hadv
  obtain ⟨history, ending, hworks, hlinks, hresult⟩ := h
  exact ⟨_, ending, .step hrest hworks, ⟨rfl, hlinks⟩, hresult⟩

theorem comes_failing (n : PlannedNode) (stream : Option Stream) (e : OpError) (slots : ValueStore) :
    n.Comes stream (.failing e) slots (.error e, slots) := ⟨_, some e, .ends rfl, ⟨rfl, rfl⟩, rfl⟩

theorem comes_publishing (n : PlannedNode) (stream : Option Stream) (i : Nat) (slots : ValueStore)
    (es : List (Option Tensor × Option Nat)) : n.Comes stream (.publishing i es) slots (slots.publish i es) := by
  induction es generalizing i slots with
  | nil => exact ⟨_, none, .ends rfl, ⟨rfl, rfl⟩, rfl⟩
  | cons e es ih =>
      match e with
      | (o, none) => cases o <;> exact .step rfl rfl (ih (i + 1) slots)
      | (none, some v) => exact .step rfl rfl (n.comes_failing stream _ slots)
      | (some t, some v) =>
          unfold ValueStore.publish
          by_cases hfilled : (slots.get? v).isSome = true
          · rw [if_pos hfilled]
            exact .step (if_pos hfilled) rfl (n.comes_failing stream _ slots)
          · rw [if_neg hfilled]
            exact .step (if_neg hfilled) rfl (ih (i + 1) _)

/-- Run the kernel on the arguments that were taken, and publish what it made. -/
def finish (n : PlannedNode) (stream : Option Stream) (slots : ValueStore) :
    Except OpError (List (Option Tensor)) → Except OpError Unit × ValueStore
  | .error e => (.error e, slots)
  | .ok args =>
      match n.invoke stream args with
      | (.error stop, _) => (.error (stop.toError n.op), slots)
      | (.ok _, c) => slots.publish 0 (c.outputs.zip n.outputs)

theorem compute_eq_finish (n : PlannedNode) (stream : Option Stream) (slots : ValueStore) :
    n.compute stream slots = n.finish stream slots (slots.gather 0 n.inputs) := by
  unfold compute
  cases slots.gather 0 n.inputs <;> rfl

theorem advance_take {args : List (Option Tensor)} {stage : Stage} (h : n.take slots args = some stage) :
    n.advance stream slots (.taking args) = { slots, rest := some stage } := by
  simp only [advance, h]

theorem comes_taking (n : PlannedNode) (stream : Option Stream) (slots : ValueStore)
    {args : List (Option Tensor)} {is : List (Option Nat)} (hleft : n.inputs.drop args.length = is) :
    n.Comes stream (.taking args) slots
      (n.finish stream slots ((slots.gather args.length is).map (args ++ ·))) := by
  -- On the inputs that are left: what they come to stands behind the arguments that were taken.
  induction is generalizing args with
  | nil =>
      have hall : n.inputs[args.length]? = none := by simpa using hleft
      have htake : n.take slots args = none := by simp [take, hall]
      have hadv : n.advance stream slots (.taking args) = n.runKernel stream slots args := by
        simp only [advance, htake]
      simp only [ValueStore.gather, Except.map, List.append_nil, finish]
      rcases hrun : n.invoke stream args with ⟨stop | u, c⟩
      · exact .step hadv (by simp [runKernel, hrun]) (n.comes_failing stream _ slots)
      · exact .step hadv (by simp [runKernel, hrun]) (n.comes_publishing stream 0 slots _)
  | cons i is ih =>
      have hi : n.inputs[args.length]? = some i := by
        rw [← List.head?_drop, hleft, List.head?_cons]
      have hlen : ∀ a : Option Tensor, (args ++ [a]).length = args.length + 1 := fun _ => List.length_append
      have hnext : ∀ a : Option Tensor, n.inputs.drop (args ++ [a]).length = is := fun a => by
        rw [hlen, ← List.tail_drop, hleft, List.tail_cons]
      have hmore : ∀ (a : Option Tensor) (x : Except OpError (List (Option Tensor))),
          (x.map (a :: ·)).map (args ++ ·) = x.map (args ++ [a] ++ ·) := fun a x => by
        cases x <;> simp [Except.map]
      have htook : ∀ {a}, n.take slots args = some (.taking (args ++ [a])) →
          n.Comes stream (.taking args) slots
            (n.finish stream slots (((slots.gather (args.length + 1) is).map (a :: ·)).map (args ++ ·))) := by
        intro a htake
        have hcomes := ih (hnext a)
        rw [hlen] at hcomes
        rw [hmore]
        exact .step (advance_take htake) rfl hcomes
      cases i with
      | none => exact htook (by simp [take, hi])
      | some v =>
          unfold ValueStore.gather
          cases hv : slots.get? v with
          | some t => exact htook (by simp [take, hi, hv])
          | none =>
              have htake : n.take slots args = some (.failing (.invalidArgument (.neverProduced args.length))) := by
                simp [take, hi, hv]
              exact .step (advance_take htake) rfl (n.comes_failing stream _ slots)

/-- **The work that is left alone ends, and comes to what it comes to in one go.** -/
theorem comes_compute (n : PlannedNode) (stream : Option Stream) (slots : ValueStore) :
    n.Comes stream (.taking []) slots (n.compute stream slots) := by
  have hleft : n.inputs.drop ([] : List (Option Tensor)).length = n.inputs := List.drop_zero
  have hcomes := n.comes_taking stream slots hleft
  have hsame : ∀ x : Except OpError (List (Option Tensor)), x.map ([] ++ ·) = x := fun x => by cases x <;> rfl
  rw [List.length_nil, hsame] at hcomes
  rw [compute_eq_finish]
  exact hcomes

/-! ## What the work sets -/

/-- An operator with two outputs that makes the first of them. -/
def halving : Descriptor :=
  Builtin.stateless (Builtin.signature "Half" (some .sim) [.float32] [.float32, .float32])
    (KernelM.update (·.setOutput 0 System.relayed)) (.setOutput ..)

def halvingSetup : Setup := { config := { providers := [.sim] }, domains := [("demo", [halving])] }

/-- A node that makes half of what it should, and one that reads that half. -/
def halvingGraph : Graph :=
  { inputs := [("x", .float32)]
    nodes :=
      [{ name := "a", domain := "demo", op := "Half", inputs := ["x"], outputs := ["y", "z"]
         provider := some .sim },
        { name := "b", domain := Builtin.domain, op := "Identity", inputs := ["y"], outputs := ["w"]
          provider := some .sim }]
    outputs := ["w"] }

/-- **What the work of a node sets, and where it stops**, whatever others do to the slots in the meantime. The
    work in one go is the work that is left alone, and in a plan every output has a planned type, and a slot if
    it is wanted. -/
theorem work_sets (n : PlannedNode) (stream : Option Stream) :
    (∀ history ending, n.Works stream (.taking []) history ending →
      (∀ e ∈ history, ∀ v, some v ∈ n.outputs → v < e.1.length) →
      (∃ e, ending = some e ∧ n.FailsEarly stream e ∧ ∀ v a, ¬Writes history v a) ∨
        ∃ args ps k, args.length = n.inputs.length ∧ (n.invoke stream args).1 = .ok () ∧
          n.kernel.compute.Puts (KernelContext.start args n.types stream n.logger) ps ∧
          n.Publishes ps k history ∧ n.Stops ps k history ending) ∧
    (∀ slots, n.Comes stream (.taking []) slots (n.compute stream slots)) ∧
    ∀ (s : Session) g (m m' : Machine NodeJob) p life, Plan.build s g m = ((.ok p, life), m') → n ∈ p.nodes →
      n.types.length = n.outputs.length ∧ ∀ v, some v ∈ n.outputs → v < p.values.length := by
  refine ⟨fun _ _ h hroom => h.sets hroom, n.comes_compute stream, fun s g m m' p life hbuild hn => ?_⟩
  have hs := Plan.build_sound hbuild
  obtain ⟨j, hj⟩ := List.mem_iff_getElem?.mp hn
  exact ⟨hs.types_length n hn, fun v hv => hs.makes_lt ⟨n, hj, hv⟩⟩

/-- The slots before the steps of the work of the first node and after them, with nobody else at them. -/
def halvingSteps : List (ValueStore × ValueStore) :=
  let fed : ValueStore := [some System.relayed, none, none, none]
  let half : ValueStore := [some System.relayed, some System.relayed, none, none]
  [(fed, fed), (fed, fed), (fed, half), (half, half), (half, half)]

theorem work_sets_half : ∃ n : PlannedNode,
    n.Works none (.taking []) halvingSteps (some (.invalidArgument (.notProduced 1))) ∧
    (∀ e ∈ halvingSteps, ∀ v, some v ∈ n.outputs → v < e.1.length) ∧
    ∃ args ps k, args.length = n.inputs.length ∧ (n.invoke none args).1 = .ok () ∧
      n.kernel.compute.Puts (KernelContext.start args n.types none n.logger) ps ∧
      n.Publishes ps k halvingSteps ∧ n.Stops ps k halvingSteps (some (.invalidArgument (.notProduced 1))) ∧
      n.types.length = n.outputs.length := by
  have hbuilt : ∃ s m₁ events p life m₂ n,
      Session.start halvingSetup ({} : Machine NodeJob) = (.ok (s, m₁), events) ∧
      Plan.build s halvingGraph m₁ = ((.ok p, life), m₂) ∧ p.nodes[0]? = some n ∧
      n.outputs = [some 1, some 2] ∧
      n.Works none (.taking []) halvingSteps (some (.invalidArgument (.notProduced 1))) :=
    ⟨_, _, _, _, _, _, _, rfl, rfl, rfl, rfl, .step rfl (.step rfl (.step rfl (.step rfl (.ends rfl))))⟩
  obtain ⟨s, m₁, -, p, life, m₂, n, -, hbuild, hn, houtputs, hworks⟩ := hbuilt
  have hroom : ∀ e ∈ halvingSteps, ∀ v, some v ∈ n.outputs → v < e.1.length := by
    have hlen : ∀ e ∈ halvingSteps, e.1.length = 4 := by decide
    intro e he v hv
    rw [hlen e he]
    simp only [houtputs, List.mem_cons, Option.some.injEq, List.not_mem_nil, or_false] at hv
    omega
  have hwrites : Writes halvingSteps 1 (some System.relayed) := ⟨_, List.mem_of_getElem? (i := 2) rfl, by decide, rfl⟩
  obtain ⟨hsets, -, hplanned⟩ := n.work_sets none
  have htypes := (hplanned s halvingGraph m₁ m₂ p life hbuild (List.mem_of_getElem? hn)).1
  rcases hsets _ _ hworks hroom with ⟨_, -, -, hnone⟩ | ⟨args, ps, k, hlen, hrun, hps, hpublishes, hstops⟩
  · exact absurd hwrites (hnone _ _)
  · exact ⟨n, hworks, hroom, args, ps, k, hlen, hrun, hps, hpublishes, hstops, htypes⟩

/-- **A node that failed may have published an output.** The other node reads it and runs. -/
theorem half_published : ∃ (σ : System) (r : Run) (n : PlannedNode), σ.Reached ∧ σ.runs[0]? = some r ∧
    r.isOver = true ∧ r.plan.nodes[0]? = some n ∧ n.outputs = [some 1, some 2] ∧
    r.failure = some (.kernel n.name (.invalidArgument (.notProduced 1))) ∧
    r.slots.get? 1 = some System.relayed ∧
    r.calls = [(0, [some System.relayed]), (1, [some System.relayed])] ∧
    n.compute (r.plan.streamOf n) [some System.relayed, none, none, none] =
      (.error (.invalidArgument (.notProduced 1)), [some System.relayed, some System.relayed, none, none]) := by
  have hwhole : ∃ s m₁ events p life m₂ r₀ r' n,
      Session.start halvingSetup ({} : Machine NodeJob) = (.ok (s, m₁), events) ∧
      Plan.build s halvingGraph m₁ = ((.ok p, life), m₂) ∧ Run.start p [("x", System.relayed)] = .ok r₀ ∧
      ((Execution.mk m₂ [r₀]).finish 0).runs[0]? = some r' ∧
      r'.isOver = true ∧ r'.plan.nodes[0]? = some n ∧ n.outputs = [some 1, some 2] ∧
      r'.failure = some (.kernel n.name (.invalidArgument (.notProduced 1))) ∧
      r'.slots.get? 1 = some System.relayed ∧
      r'.calls = [(0, [some System.relayed]), (1, [some System.relayed])] ∧
      n.compute (r'.plan.streamOf n) [some System.relayed, none, none, none] =
        (.error (.invalidArgument (.notProduced 1)), [some System.relayed, some System.relayed, none, none]) :=
    ⟨_, _, _, _, _, _, _, _, _, rfl, rfl, rfl, rfl, rfl, rfl, rfl, rfl, rfl, rfl, rfl⟩
  obtain ⟨s, m₁, events, p, life, m₂, r₀, r, n, hstart, hbuild, hr₀, hr, hrest⟩ := hwhole
  exact ⟨_, r, n, System.Reached.first rfl hstart hbuild hr₀, hr, hrest⟩

end OpGraph.PlannedNode
