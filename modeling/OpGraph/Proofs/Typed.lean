import OpGraph.Proofs.Grounded
import OpGraph.Proofs.Storage
import OpGraph.Proofs.Whole
import OpGraph.Proofs.Work

/-!
# `Proofs.Typed` — values have the types they were planned with

The context of a kernel refuses outputs that are off the plan, however the kernel comes by them, so what a
kernel made is as planned whatever it did (`invoke_typed`). Feeds are checked and initializers decide their
own types. Hence in every run, at any time, whatever stands in a slot or is on its way from or into one has
the type the plan gives it, where it gives one.
-/

namespace OpGraph

open Machine Outcome

/-! ## Kernels -/

namespace KernelContext

/-- Outputs made so far have the types they were planned with. -/
structure Typed (c : KernelContext) : Prop where
  length : c.outputs.length = c.planned.length
  outputs : ∀ (i : Nat) (t : Tensor) (d : DataType), c.outputs[i]? = some (some t) → c.planned[i]? = some d → d.isDefined = true →
    t.dtype = d

theorem Typed.start (inputs : List (Option Tensor)) (planned : List DataType) (stream : Option Stream)
    (logger : Option Logger) : (start inputs planned stream logger).Typed where
  length := by simp [KernelContext.start]
  outputs i t d hi _ _ := by
    have hnone : (List.replicate planned.length (none : Option Tensor))[i]? = some (some t) := hi
    rw [List.getElem?_replicate] at hnone
    split at hnone <;> cases hnone

theorem Typed.place {c : KernelContext} (h : c.Typed) {i : Nat} {t : Tensor}
    (ht : ∀ d, c.planned[i]? = some d → d.isDefined = true → t.dtype = d) : (c.place i t).Typed where
  length := by simpa [KernelContext.place] using h.length
  outputs j t' d hj hd hdef := by
    have hset : (c.outputs.set i (some t))[j]? = some (some t') := hj
    rw [List.getElem?_set] at hset
    split at hset
    next hij =>
      subst hij
      split at hset
      · obtain rfl : t = t' := by simpa using hset
        exact ht d hd hdef
      · cases hset
    · exact h.outputs j t' d hset hd hdef

theorem checkOutput_eq_ok {c : KernelContext} {i : Nat} {type d : DataType} {u : Unit}
    (h : c.checkOutput i type = .ok u) (hd : c.planned[i]? = some d) (hdef : d.isDefined = true) :
    type = d := by
  unfold checkOutput plannedType at h
  rw [hd] at h
  obtain ⟨planned, hplanned, hcheck⟩ := bind_eq_ok.mp h
  obtain rfl := Except.ok.inj hplanned
  by_cases heq : d = type
  · exact heq.symm
  · simp [hdef, heq] at hcheck

theorem Typed.setOutput {c c' : KernelContext} (h : c.Typed) {i : Nat} {t : Tensor}
    (hc : c.setOutput i t = .ok c') : c'.Typed ∧ c'.planned = c.planned := by
  obtain ⟨u, hcheck, hplace⟩ := bind_eq_ok.mp hc
  obtain rfl := pure_eq_ok.mp hplace
  exact ⟨h.place fun d hd hdef => checkOutput_eq_ok hcheck hd hdef, rfl⟩

theorem Typed.allocate {c c' : KernelContext} (h : c.Typed) {i : Nat} {type : DataType} {shape : Shape}
    (hc : c.allocate i type shape = .ok c') : c'.Typed ∧ c'.planned = c.planned := by
  obtain ⟨u, hcheck, hzeros⟩ := bind_eq_ok.mp hc
  split at hzeros
  next t ht =>
    obtain rfl := pure_eq_ok.mp hzeros
    refine ⟨h.place fun d hd hdef => ?_, rfl⟩
    obtain ⟨-, -, rfl⟩ := Tensor.zeros_eq_ok.mp ht
    exact checkOutput_eq_ok hcheck hd hdef
  · cases hzeros

theorem Typed.allocatePlanned {c c' : KernelContext} (h : c.Typed) {i : Nat} {shape : Shape}
    (hc : c.allocatePlanned i shape = .ok c') : c'.Typed ∧ c'.planned = c.planned := by
  obtain ⟨type, -, hallocate⟩ := bind_eq_ok.mp hc
  split at hallocate
  · exact h.allocate hallocate
  · cases hallocate

/-- Writing elements leaves the type of a tensor alone. -/
theorem Typed.overwriteOutput {c c' : KernelContext} (h : c.Typed) {i : Nat} {type : DataType}
    {xs : List (Element type)} (hc : c.overwriteOutput i type xs = .ok c') :
    c'.Typed ∧ c'.planned = c.planned := by
  unfold KernelContext.overwriteOutput at hc
  split at hc
  · cases hc
  next t ht =>
    split at hc
    next t' ht' =>
      obtain rfl := Except.ok.inj hc
      obtain ⟨-, rfl⟩ := Tensor.overwrite_eq_ok ht'
      have hget : c.outputs[i]? = some (some t) := by
        unfold output? at ht
        exact Option.join_eq_some_iff.mp ht
      exact ⟨h.place fun d hd hdef => h.outputs i t d hget hd hdef, rfl⟩
    · cases hc

end KernelContext

/-- **What a kernel made is as planned, whatever it did.** -/
theorem KernelM.Composed.typed {α : Type} {k : KernelM α} (hk : k.Composed) {c : KernelContext}
    (hc : c.Typed) : (start k c).2.Typed ∧ (start k c).2.planned = c.planned := by
  refine hk.keeps (P := fun c' => c'.Typed ∧ c'.planned = c.planned) ?_ ?_ ?_ ?_ ?_ ⟨hc, rfl⟩
  · rintro c₁ c₂ i shape ⟨h, hplanned⟩ heq
    obtain ⟨h', hplanned'⟩ := h.allocatePlanned heq
    exact ⟨h', hplanned'.trans hplanned⟩
  · rintro c₁ c₂ i d shape ⟨h, hplanned⟩ heq
    obtain ⟨h', hplanned'⟩ := h.allocate heq
    exact ⟨h', hplanned'.trans hplanned⟩
  · rintro c₁ c₂ i t ⟨h, hplanned⟩ heq
    obtain ⟨h', hplanned'⟩ := h.setOutput heq
    exact ⟨h', hplanned'.trans hplanned⟩
  · rintro c₁ c₂ i d xs ⟨h, hplanned⟩ heq
    obtain ⟨h', hplanned'⟩ := h.overwriteOutput heq
    exact ⟨h', hplanned'.trans hplanned⟩
  · rintro c₁ reports log launched ⟨h, hplanned⟩
    exact ⟨⟨h.length, h.outputs⟩, hplanned⟩

theorem PlannedNode.invoke_typed (n : PlannedNode) (stream : Option Stream) (args : List (Option Tensor)) :
    (n.invoke stream args).2.Typed ∧ (n.invoke stream args).2.planned = n.types :=
  n.kernel.compute_composed.typed (.start ..)

/-! ## Values and arguments -/

namespace Plan

/-- The tensor has the type of the value, where that is known. -/
def Fits (p : Plan) (v : Nat) (t : Tensor) : Prop :=
  ∀ x : Value, p.values[v]? = some x → x.type.isDefined = true → t.dtype = x.type

/-- The argument for an input: a tensor that fits, or nothing where the input is left out. -/
def Passed (p : Plan) : Option Nat → Option Tensor → Prop
  | none, none => True
  | some v, some t => p.Fits v t
  | _, _ => False

/-- Everything in a slot has the type of its value. -/
def Holds (p : Plan) (slots : ValueStore) : Prop := ∀ v t, slots.get? v = some t → p.Fits v t

end Plan

/-- The type of an argument; unknown where there is none. -/
def argumentType : Option Tensor → DataType
  | some t => t.dtype
  | none => .undefined

namespace Plan

variable {p : Plan} {n : PlannedNode} {slots : ValueStore}

theorem Holds.set (h : p.Holds slots) {v : Nat} {t : Tensor} (ht : p.Fits v t) :
    p.Holds (slots.set v (some t)) := by
  intro w t' hw
  rw [ValueStore.get?_set] at hw
  split at hw
  next heq =>
    obtain rfl := Option.some.inj hw
    exact heq.1 ▸ ht
  · exact h w t' hw

/-- Work on its way from slots or into them has the types of its values. -/
def StageFits (p : Plan) (n : PlannedNode) : Stage → Prop
  | .taking args => args.length ≤ n.inputs.length ∧
      ∀ (k : Nat) i a, n.inputs[k]? = some i → args[k]? = some a → p.Passed i a
  | .publishing _ left => ∀ v t, (some t, some v) ∈ left → p.Fits v t
  | .failing _ => True

theorem stageFits_taking_nil : p.StageFits n (.taking []) := ⟨Nat.zero_le _, by simp⟩

theorem Holds.passed (h : p.Holds slots) {i : Option Nat} {a : Option Tensor} (hr : slots.Reads i a) :
    p.Passed i a := by
  cases i <;> cases a <;> first | exact hr | exact h _ _ hr

/-- What a kernel made fits the values it was planned for. -/
theorem made_fits (hs : p.Sound) (hn : n ∈ p.nodes) {c : KernelContext} (hc : c.Typed)
    (hplanned : c.planned = n.types) {v : Nat} {t : Tensor}
    (hmem : (some t, some v) ∈ c.outputs.zip n.outputs) : p.Fits v t := by
  intro x hx hdef
  obtain ⟨i, hi⟩ := List.mem_iff_getElem?.mp hmem
  obtain ⟨ht, hv⟩ := List.getElem?_zip_eq_some.mp hi
  have hlt : i < n.types.length := by
    rw [hs.types_length n hn]
    exact (List.getElem?_eq_some_iff.mp hv).1
  have htype : n.types[i]? = some n.types[i] := List.getElem?_eq_getElem hlt
  have hplace : (some v, n.types[i]) ∈ n.outputs.zip n.types :=
    List.mem_iff_getElem?.mpr ⟨i, List.getElem?_zip_eq_some.mpr ⟨hv, htype⟩⟩
  have hmade : x.type = n.types[i] := by
    have := hs.made_type n hn hplace
    simpa [typeAt, hx] using this
  rw [hmade] at hdef ⊢
  exact hc.outputs i t _ ht (by rw [hplanned]; exact htype) hdef

/-- An argument that was taken fits the type planned for it. -/
theorem StageFits.snoc {args : List (Option Tensor)} {i : Option Nat} {a : Option Tensor} (h : p.Holds slots)
    (hstage : p.StageFits n (.taking args)) (hi : n.inputs[args.length]? = some i) (hr : slots.Reads i a) :
    p.StageFits n (.taking (args ++ [a])) := by
  refine ⟨?_, fun k i' a' hi' ha' => ?_⟩
  · have hlt := (List.getElem?_eq_some_iff.mp hi).1
    rw [List.length_append, List.length_singleton]
    exact hlt
  rw [List.getElem?_append] at ha'
  split at ha'
  · exact hstage.2 k i' a' hi' ha'
  · obtain ⟨hk, ha'⟩ := List.getElem?_eq_some_iff.mp ha'
    obtain rfl : k = args.length := by
      simp only [List.length_singleton] at hk
      omega
    obtain rfl : a = a' := by simpa using ha'
    obtain rfl : i = i' := Option.some.inj (hi.symm.trans hi')
    exact h.passed hr

/-- One step of the work of a node keeps to the types. -/
theorem advance_fits (hs : p.Sound) (hn : n ∈ p.nodes) (stream : Option Stream) (h : p.Holds slots)
    {stage : Stage} (hstage : p.StageFits n stage) :
    p.Holds (n.advance stream slots stage).slots ∧
      (∀ stage', (n.advance stream slots stage).rest = some stage' → p.StageFits n stage') ∧
      ∀ args, (n.advance stream slots stage).arguments = some args →
        args.length = n.inputs.length ∧ p.StageFits n (.taking args) := by
  have hadv := n.advanced stream slots stage
  generalize n.advance stream slots stage = w at hadv
  cases hadv with
  | took hi hr =>
      refine ⟨h, fun stage' heq => ?_, nofun⟩
      obtain rfl := Option.some.inj heq
      exact hstage.snoc h hi hr
  | missing =>
      refine ⟨h, fun stage' heq => ?_, nofun⟩
      obtain rfl := Option.some.inj heq
      trivial
  | @ran args u c hall hrun =>
      refine ⟨h, fun stage' heq => ?_, fun args' heq => ?_⟩
      · obtain rfl := Option.some.inj heq
        intro v t hmem
        obtain ⟨htyped, hplanned⟩ := n.invoke_typed stream args
        rw [hrun] at htyped hplanned
        exact made_fits hs hn htyped hplanned hmem
      · obtain rfl := Option.some.inj heq
        exact ⟨Nat.le_antisymm hstage.1 hall, hstage⟩
  | @broke args stop c hall hrun =>
      refine ⟨h, fun stage' heq => ?_, fun args' heq => ?_⟩
      · obtain rfl := Option.some.inj heq
        trivial
      · obtain rfl := Option.some.inj heq
        exact ⟨Nat.le_antisymm hstage.1 hall, hstage⟩
  | finished => exact ⟨h, by simp, by simp⟩
  | unwanted =>
      refine ⟨h, fun stage' heq => ?_, nofun⟩
      obtain rfl := Option.some.inj heq
      exact fun v t hmem => hstage v t (List.mem_cons_of_mem _ hmem)
  | unmade =>
      refine ⟨h, fun stage' heq => ?_, nofun⟩
      obtain rfl := Option.some.inj heq
      trivial
  | occupied =>
      refine ⟨h, fun stage' heq => ?_, nofun⟩
      obtain rfl := Option.some.inj heq
      trivial
  | @published i v t left hfree =>
      refine ⟨h.set (hstage v t List.mem_cons_self), fun stage' heq => ?_, nofun⟩
      obtain rfl := Option.some.inj heq
      exact fun v t hmem => hstage v t (List.mem_cons_of_mem _ hmem)
  | told => exact ⟨h, by simp, by simp⟩

/-! ## Runs -/

theorem holds_replicate (k : Nat) : p.Holds (List.replicate k none) := by
  intro v t hv
  unfold ValueStore.get? at hv
  rw [List.getElem?_replicate] at hv
  split at hv <;> cases hv

theorem feed_fits {fed : List (String × Tensor)} {slots' : ValueStore} {v : Nat} (h : p.Holds slots)
    (hf : Run.feed p fed slots v = .ok slots') : p.Holds slots' := by
  unfold Run.feed at hf
  split at hf
  · obtain rfl := Except.ok.inj hf
    exact h
  next x hx =>
  split at hf
  · cases hf
  next t ht =>
  split at hf
  · cases hf
  next hcheck =>
  obtain rfl := Except.ok.inj hf
  refine h.set fun x' hx' hdef => ?_
  obtain rfl : x = x' := Option.some.inj (hx.symm.trans hx')
  by_cases heq : x.type = t.dtype
  · exact heq.symm
  · simp [hdef, heq] at hcheck

/-- What is there at the start has the types of its values. -/
theorem initialSlots_fit (hs : p.Sound) {fed : List (String × Tensor)}
    (h : Run.initialSlots p fed = .ok slots) : p.Holds slots := by
  obtain ⟨slots₁, hfeeds, hinit⟩ := bind_eq_ok.mp h
  obtain rfl := pure_eq_ok.mp hinit
  have hfed := foldlM_induction (fun slots _ => p.Holds slots) (fun _ _ _ _ h hf => feed_fits h hf)
    p.feeds _ [] (p.holds_replicate p.values.length) hfeeds
  have hfold : ∀ (is : List (Nat × Tensor)) (slots : ValueStore), (∀ e ∈ is, e ∈ p.initializers) →
      p.Holds slots → p.Holds (is.foldl (fun s e => s.set e.1 (some e.2)) slots) := by
    intro is
    induction is with
    | nil => exact fun _ _ h => h
    | cons e rest ih =>
        intro slots hmem h
        refine ih _ (fun e' he' => hmem e' (List.mem_cons_of_mem _ he')) (h.set fun x hx _ => ?_)
        have htype := hs.initializer_type (hmem e List.mem_cons_self)
        simpa [typeAt, hx] using htype.symm
  exact hfold p.initializers slots₁ (fun _ => id) hfed

end Plan

namespace Run

variable {i : Nat} {r r' : Run} {m m' : Machine NodeJob}

/-- Whatever a run has computed or is computing has the types of its plan. -/
structure Typed (i : Nat) (m : Machine NodeJob) (r : Run) : Prop where
  slots : r.plan.Holds r.slots
  calls : ∀ j args, (j, args) ∈ r.calls → ∃ n, r.plan.nodes[j]? = some n ∧
    args.length = n.inputs.length ∧ r.plan.StageFits n (.taking args)
  active : ∀ job n, r.active = some job → r.plan.nodes[job.node]? = some n → r.plan.StageFits n job.stage
  jobs : ∀ w label job n, .run label job ∈ (m.queue w).pending → job.run = i →
    r.plan.nodes[job.node]? = some n → r.plan.StageFits n job.stage

/-- Taking up a step of work. -/
theorem Typed.absorb (h : r.Typed i m) (hs : r.plan.Sound) {j : Nat} {n : PlannedNode} {stage : Stage}
    (hn : r.plan.nodes[j]? = some n) (hstage : r.plan.StageFits n stage) :
    r.plan.Holds (n.advance (r.plan.streamOf n) r.slots stage).slots ∧
      ∀ k args, (k, args) ∈ (r.absorb j n.name (n.advance (r.plan.streamOf n) r.slots stage)).calls →
        ∃ n, r.plan.nodes[k]? = some n ∧ args.length = n.inputs.length ∧
          r.plan.StageFits n (.taking args) := by
  obtain ⟨hslots, -, hargs⟩ := Plan.advance_fits hs (List.mem_of_getElem? hn) (r.plan.streamOf n) h.slots hstage
  refine ⟨hslots, fun k args hmem => ?_⟩
  rcases List.mem_append.mp hmem with hmem | hmem
  · exact h.calls k args hmem
  · obtain ⟨args', hargs', heq⟩ := Option.map_eq_some_iff.mp (Option.mem_toList.mp hmem)
    obtain ⟨rfl, rfl⟩ := Prod.mk.inj heq
    exact ⟨n, hn, hargs _ hargs'⟩

/-- **Everything a run sees keeps to the types.** -/
theorem Typed.saw (hp : r.Placed i m) (h : r.Typed i m) (hs : r.Saw i m r' m') : r'.Typed i m' := by
  have hplan := hs.plan
  -- Work that waits was there before, is what a step left of it, or is new and has taken nothing.
  have hjobs : ∀ w label job n, .run label job ∈ (m'.queue w).pending → job.run = i →
      r.plan.nodes[job.node]? = some n → r.plan.StageFits n job.stage := by
    intro w label job n hmem hjob hn
    rcases hs.jobs hmem hjob with hold | ⟨job', n', stage, hold, hrun, hn', hrest, rfl, -⟩ | ⟨-, hnew, -⟩
    · exact h.jobs w label job n hold hjob hn
    · obtain rfl : n' = n := Option.some.inj (hn'.symm.trans hn)
      have hstage := h.jobs w label job' n' hold hrun hn'
      exact (Plan.advance_fits hp.sound (List.mem_of_getElem? hn') _ h.slots hstage).2.1 stage hrest
    · rw [hnew]
      exact Plan.stageFits_taking_nil
  have hkept : r'.slots = r.slots → r'.calls = r.calls → r'.active = r.active → r'.Typed i m' := by
    intro hslots hcalls hactive
    constructor
    · rw [hplan, hslots]
      exact h.slots
    · rw [hplan, hcalls]
      exact h.calls
    · rw [hplan, hactive]
      exact h.active
    · rw [hplan]
      exact hjobs
  cases hs with
  | pushed => exact hkept rfl rfl rfl
  | took => exact hkept rfl rfl rfl
  | @worked _ w label job n more hhead hown hn =>
      have hstage := h.jobs w label job n (List.mem_of_mem_head? hhead) hown hn
      obtain ⟨hslots, hcalls⟩ := h.absorb hp.sound hn hstage
      exact ⟨hslots, hcalls, h.active, hjobs⟩
  | @proceeded job n hactive hn =>
      have hstage := h.active job n hactive hn
      obtain ⟨hslots, hcalls⟩ := h.absorb hp.sound hn hstage
      refine ⟨hslots, hcalls, fun job' n' hjob' hn' => ?_, hjobs⟩
      obtain ⟨stage, hrest, rfl⟩ := Option.map_eq_some_iff.mp hjob'
      obtain rfl := Option.some.inj (hn.symm.trans hn')
      exact (Plan.advance_fits hp.sound (List.mem_of_getElem? hn) _ h.slots hstage).2.1 stage hrest
  | @did _ q _ a more hactive hnext hpushes hdid =>
      obtain ⟨hslots, hcalls, -⟩ := hdid.computed
      obtain ⟨hslots', hcalls', -⟩ := hnext.computed
      constructor
      · rw [hplan, hslots, hslots']
        exact h.slots
      · rw [hplan, hcalls, hcalls']
        exact h.calls
      · intro job n hjob hn
        rw [(hdid.active (hnext.active.trans hactive) hjob).2.1]
        exact Plan.stageFits_taking_nil
      · rw [hplan]
        exact hjobs

theorem Typed.start {p : Plan} {fed : List (String × Tensor)} (hr : start p fed = .ok r) (hs : p.Sound)
    (hnew : ∀ w label job, .run label job ∈ (m.queue w).pending → job.run ≠ i) : r.Typed i m := by
  obtain ⟨slots, hslots, rfl⟩ := map_eq_ok.mp hr
  refine ⟨Plan.initialSlots_fit hs hslots, by simp, by simp, ?_⟩
  exact fun w label job n hmem hjob => absurd hjob (hnew w label job hmem)

end Run

/-! ## Every run -/

namespace Plan

variable {p : Plan} {n : PlannedNode} {args : List (Option Tensor)}

/-- Arguments that fit inputs whose types are all known have exactly those types. -/
theorem argumentTypes_eq (hs : p.Sound) {j : Nat} (hn : p.nodes[j]? = some n)
    (hlen : args.length = n.inputs.length) (hargs : p.StageFits n (.taking args))
    (hknown : ∀ v x, some v ∈ n.inputs → p.values[v]? = some x → x.type.isDefined = true) :
    args.map argumentType = p.typesOf n.inputs := by
  apply List.ext_getElem?
  intro k
  unfold typesOf
  rw [List.getElem?_map, List.getElem?_map]
  cases hi : n.inputs[k]? with
  | none =>
      have hnone : args[k]? = none := by
        rw [List.getElem?_eq_none_iff] at hi ⊢
        omega
      rw [hnone]
      rfl
  | some i =>
      have hlt : k < args.length := by
        rw [hlen]
        exact (List.getElem?_eq_some_iff.mp hi).1
      have ha : args[k]? = some args[k] := List.getElem?_eq_getElem hlt
      have hpassed := hargs.2 k i _ hi ha
      rw [ha, Option.map_some, Option.map_some]
      congr 1
      generalize args[k] = a at hpassed
      cases i with
      | none =>
          cases a with
          | none => rfl
          | some t => exact hpassed.elim
      | some v =>
          cases a with
          | none => exact hpassed.elim
          | some t =>
              have hmem := List.mem_of_getElem? hi
              have hv : v < p.values.length := by
                rcases hs.reads hn hmem with hgiven | ⟨u, -, hmakes⟩
                · exact hs.given_lt hgiven
                · exact hs.makes_lt hmakes
              have hx : p.values[v]? = some p.values[v] := List.getElem?_eq_getElem hv
              have htype : t.dtype = p.values[v].type := hpassed _ hx (hknown v _ hmem hx)
              simp [argumentType, typeAt, hx, htype]

end Plan

namespace System

variable {σ : System}

theorem Reached.typed (h : σ.Reached) {i : Nat} {r : Run} (hr : σ.runs[i]? = some r) :
    r.Typed i σ.machine := by
  obtain ⟨-, -, htyped⟩ := h.kept (P := fun i _ r m => r.Typed i m)
    (fun hg hp hstart => .start hstart (hg.sound _ hp) fun w label job hmem =>
      Nat.ne_of_lt (hg.jobs w label job hmem))
    (fun hplaced _ htyped hsaw => htyped.saw hplaced hsaw) hr
  exact htyped

/-- **Arguments, published values and results have the types they were planned with.** And where all types
    of a node's inputs are known, the arguments match the inputs of the kernel that was selected for it. -/
theorem types_as_planned (h : σ.Reached) {i : Nat} {r : Run} (hr : σ.runs[i]? = some r) :
    (∀ j args, (j, args) ∈ r.calls → ∃ n, r.plan.nodes[j]? = some n ∧ args.length = n.inputs.length ∧
      (∀ (k v : Nat) t, n.inputs[k]? = some (some v) → args[k]? = some (some t) → r.plan.Fits v t) ∧
      ((∀ v x, some v ∈ n.inputs → r.plan.values[v]? = some x → x.type.isDefined = true) →
        (n.definition.binding.matchInputs (args.map argumentType)).isSome)) ∧
    (∀ v t, r.slots.get? v = some t → r.plan.Fits v t) ∧
    ∀ ts, r.result = .ok ts → ∀ (k : Nat) o t, r.plan.outputs[k]? = some o → ts[k]? = some t →
      r.plan.Fits o.value t := by
  have htyped := h.typed hr
  have hsound := (h.grounded.placed i r hr).sound
  refine ⟨fun j args hmem => ?_, htyped.slots, fun ts hts k o t ho ht => ?_⟩
  · obtain ⟨n, hn, hlen, hargs⟩ := htyped.calls j args hmem
    refine ⟨n, hn, hlen, fun k v t hi ha => hargs.2 k _ _ hi ha, fun hknown => ?_⟩
    rw [Plan.argumentTypes_eq hsound hn hlen hargs hknown]
    exact hsound.matched n (List.mem_of_getElem? hn)
  · unfold Run.result at hts
    split at hts
    · cases hts
    have hget := congrArg (·[k]?) (mapM_eq_ok.mp hts)
    simp only [List.getElem?_map, ho, ht, Option.map_some] at hget
    have hout : r.output o = .ok t := Option.some.inj hget
    unfold Run.output at hout
    split at hout
    next t' ht' =>
      obtain rfl := Except.ok.inj hout
      exact htyped.slots _ _ ht'
    · cases hout

/-- A session with a simulated device. -/
def relaySetup : Setup := { config := { providers := [.sim] } }

/-- Two nodes that hand a float on, the first on the host and the second on the device. -/
def relayGraph : Graph :=
  { inputs := [("x", .float32)]
    nodes :=
      [{ name := "a", domain := Builtin.domain, op := "Identity", inputs := ["x"], outputs := ["y"] },
        { name := "b", domain := Builtin.domain, op := "Identity", inputs := ["y"], outputs := ["z"]
          provider := some .sim }]
    outputs := ["z"] }

/-- A float to hand on. -/
def relayed : Tensor := Tensor.scalar .float32 1#32

/-- Both nodes were called on the float, whose type is planned for all three values. -/
theorem types_as_planned_relay : ∃ (σ : System) (r : Run), σ.Reached ∧ σ.runs[0]? = some r ∧
    r.calls = [(0, [some relayed]), (1, [some relayed])] ∧ r.result = .ok [relayed] ∧
    (∀ v t, r.slots.get? v = some t → r.plan.Fits v t) := by
  have hwhole : ∃ s m₁ events p life m₂ r₀ r',
      Session.start relaySetup ({} : Machine NodeJob) = (.ok (s, m₁), events) ∧
      Plan.build s relayGraph m₁ = ((.ok p, life), m₂) ∧ Run.start p [("x", relayed)] = .ok r₀ ∧
      ((Execution.mk m₂ [r₀]).finish 0).runs[0]? = some r' ∧
      r'.calls = [(0, [some relayed]), (1, [some relayed])] ∧ r'.result = .ok [relayed] :=
    ⟨_, _, _, _, _, _, _, _, rfl, rfl, rfl, rfl, rfl, rfl⟩
  obtain ⟨s, m₁, events, p, life, m₂, r₀, r, hstart, hbuild, hr₀, hr, hcalls, hresult⟩ := hwhole
  have hreached := Reached.first rfl hstart hbuild hr₀
  obtain ⟨-, hslots, -⟩ := types_as_planned hreached hr
  exact ⟨_, r, hreached, hr, hcalls, hresult, hslots⟩

end System

end OpGraph
