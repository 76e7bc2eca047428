import OpGraph.Operator.Builtin

/-!
# `Proofs.Blind` — kernels that do not see where they run

The context of a kernel shows more than what the kernel computes on: the stream it runs on, a logger, and
what was reported so far. Without these it is *bare*. A computation is *blind* if it goes in every context
as in the bare one, and enqueues nothing; what it makes is then decided by inputs, planned types and outputs
alone. Blind computations put together are blind, and so are the kernels of the built-in operators.
-/

namespace OpGraph

/-! ## The bare context -/

namespace KernelContext

/-- What is computed on: inputs, planned types and outputs. -/
def bare (c : KernelContext) : KernelContext :=
  { inputs := c.inputs, planned := c.planned, outputs := c.outputs }

@[simp] theorem bare_bare (c : KernelContext) : c.bare.bare = c.bare := rfl

theorem bare_start (inputs : List (Option Tensor)) (planned : List DataType) (stream : Option Stream)
    (logger : Option Logger) :
    (start inputs planned stream logger).bare = start inputs planned none none := rfl

/-! ### Outputs are made as in the bare context -/

variable (c : KernelContext) (i : Nat)

/-- A required input is read off the inputs. -/
theorem requiredInput_bare : c.requiredInput i = c.bare.requiredInput i := rfl

theorem setOutput_bare (t : Tensor) :
    c.setOutput i t = (c.bare.setOutput i t).map fun d => { c with outputs := d.outputs } := by
  have hcheck : c.bare.checkOutput i t.dtype = c.checkOutput i t.dtype := rfl
  unfold setOutput
  rw [hcheck]
  cases c.checkOutput i t.dtype <;> rfl

theorem allocate_bare (d : DataType) (shape : Shape) :
    c.allocate i d shape = (c.bare.allocate i d shape).map fun d => { c with outputs := d.outputs } := by
  have hcheck : c.bare.checkOutput i d = c.checkOutput i d := rfl
  unfold allocate
  rw [hcheck]
  cases c.checkOutput i d with
  | error e => rfl
  | ok u => cases Tensor.zeros d shape <;> rfl

theorem allocatePlanned_bare (shape : Shape) :
    c.allocatePlanned i shape =
      (c.bare.allocatePlanned i shape).map fun d => { c with outputs := d.outputs } := by
  have hplanned : c.bare.plannedType i = c.plannedType i := rfl
  unfold allocatePlanned
  rw [hplanned]
  cases c.plannedType i with
  | error e => rfl
  | ok type =>
      by_cases hdef : type.isDefined = true
      · show (if type.isDefined = true then _ else _) = Except.map _ (if type.isDefined = true then _ else _)
        rw [if_pos hdef, if_pos hdef]
        exact c.allocate_bare i type shape
      · show (if type.isDefined = true then _ else _) = Except.map _ (if type.isDefined = true then _ else _)
        rw [if_neg hdef, if_neg hdef]
        rfl

theorem overwriteOutput_bare (d : DataType) (xs : List (Element d)) :
    c.overwriteOutput i d xs =
      (c.bare.overwriteOutput i d xs).map fun d => { c with outputs := d.outputs } := by
  have houtput : c.bare.output? i = c.output? i := rfl
  unfold overwriteOutput
  rw [houtput]
  cases c.output? i with
  | none => rfl
  | some t =>
      dsimp only
      cases t.overwrite d xs <;> rfl

end KernelContext

/-! ## Blind computations -/

namespace KernelM

variable {α β : Type}

/-- The computation goes in every context as in the bare one, and enqueues nothing. -/
structure Blind (k : KernelM α) : Prop where
  result : ∀ c, (start k c).1 = (start k c.bare).1
  context : ∀ c, (start k c).2.bare = (start k c.bare).2.bare
  launched : ∀ c, (start k c).2.launched = c.launched

namespace Blind

theorem pure (a : α) : Blind (pure a : KernelM α) := ⟨fun _ => rfl, fun _ => rfl, fun _ => rfl⟩

theorem fail (e : OpError) : Blind (fail e : KernelM α) := ⟨fun _ => rfl, fun _ => rfl, fun _ => rfl⟩

/-- Blind computations one after the other. -/
theorem bind {k : KernelM α} {f : α → KernelM β} (hk : Blind k) (hf : ∀ a, Blind (f a)) :
    Blind (k >>= f) := by
  -- Both contexts in which the second one starts are bare alike.
  have hboth : ∀ c, (start (k >>= f) c).1 = (start (k >>= f) c.bare).1 ∧
      (start (k >>= f) c).2.bare = (start (k >>= f) c.bare).2.bare := by
    intro c
    have hresult := hk.result c
    have hcontext := hk.context c
    rw [start_bind, start_bind]
    rcases hfirst : start k c with ⟨a | a, d⟩
    all_goals
      rcases hbare : start k c.bare with ⟨a' | a', d'⟩
      all_goals
        rw [hfirst, hbare] at hresult hcontext
        cases hresult
    · exact ⟨rfl, hcontext⟩
    · have hsame : d.bare = d'.bare := hcontext
      dsimp only
      rw [(hf a).result d, (hf a).result d', (hf a).context d, (hf a).context d', hsame]
      exact ⟨rfl, rfl⟩
  refine ⟨fun c => (hboth c).1, fun c => (hboth c).2, fun c => ?_⟩
  have hlaunched := hk.launched c
  rw [start_bind]
  rcases hfirst : start k c with ⟨a | a, d⟩
  · rw [hfirst] at hlaunched
    exact hlaunched
  · rw [hfirst] at hlaunched
    exact ((hf a).launched d).trans hlaunched

/-- Reading what is computed on. -/
theorem ask {f : KernelContext → Except OpError α} (hf : ∀ c, f c = f c.bare) : Blind (ask f) := by
  have hget : ∀ c, start (get : KernelM KernelContext) c = (.ok c, c) := fun _ => rfl
  have hask : ∀ c, start (KernelM.ask f) c = ((f c).mapError .of, c) := by
    intro c
    unfold KernelM.ask
    rw [start_bind, hget]
    dsimp only
    cases f c <;> rfl
  refine ⟨fun c => ?_, fun c => ?_, fun c => ?_⟩
  · rw [hask, hask, hf c]
  · rw [hask, hask, KernelContext.bare_bare]
  · rw [hask]

theorem view (d : DataType) (t : Tensor) : Blind (view d t) := ask fun _ => rfl

/-- Making an output in a way that goes by what is computed on. -/
theorem update {f : KernelContext → Except OpError KernelContext}
    (hf : ∀ c, f c = (f c.bare).map fun d => { c with outputs := d.outputs }) : Blind (update f) := by
  have hcases : ∀ c, (∃ e, f c = .error e ∧ f c.bare = .error e) ∨
      ∃ outputs, f c = .ok { c with outputs } ∧ f c.bare = .ok { c.bare with outputs } := by
    intro c
    have hc := hf c
    have hbare := hf c.bare
    rw [KernelContext.bare_bare] at hbare
    cases h : f c.bare with
    | error e => exact .inl ⟨e, by rw [hc, h]; rfl, rfl⟩
    | ok d =>
        rw [h] at hc hbare
        exact .inr ⟨d.outputs, hc, hbare⟩
  refine ⟨fun c => ?_, fun c => ?_, fun c => ?_⟩
  all_goals
    rcases hcases c with ⟨e, hc, hbare⟩ | ⟨outputs, hc, hbare⟩ <;>
      simp only [start_update, hc, hbare] <;> rfl

end Blind

end KernelM

/-! ## The built-in kernels -/

namespace Builtin

open KernelM

/-- Telling how many elements are added only adds to the log. -/
theorem start_announce (op : String) (count : Nat) (c : KernelContext) :
    ∃ more, start (announce op count) c = (.ok (), { c with log := c.log ++ more }) := by
  obtain ⟨inputs, planned, outputs, stream, logger, reports, log, launched⟩ := c
  cases logger with
  | none => exact ⟨[], by rw [List.append_nil]; rfl⟩
  | some l =>
      have hlog : start (announce op count)
          ⟨inputs, planned, outputs, stream, some l, reports, log, launched⟩ =
          start (discard (KernelM.log l .verbose s!"adding {count} elements" op none))
            ⟨inputs, planned, outputs, stream, some l, reports, log, launched⟩ := rfl
      rw [hlog]
      unfold KernelM.log
      cases l.log .verbose s!"adding {count} elements" op none with
      | none => exact ⟨[], by rw [List.append_nil]; rfl⟩
      | some m => exact ⟨[.message m], rfl⟩

theorem announce_blind (op : String) (count : Nat) : (announce op count).Blind := by
  refine ⟨fun c => ?_, fun c => ?_, fun c => ?_⟩
  all_goals
    obtain ⟨more, hc⟩ := start_announce op count c
    obtain ⟨more', hbare⟩ := start_announce op count c.bare
    simp only [hc, hbare]
  rfl

/-- **Addition does not see where it runs.** -/
theorem computeAdd_blind (op : String) : (computeAdd op).Blind := by
  refine .bind (.ask fun c => c.requiredInput_bare 0) fun a =>
    .bind (.ask fun c => c.requiredInput_bare 1) fun b => ?_
  have hrest : (do
      announce op a.count
      let xs ← KernelM.view .float32 a
      let ys ← KernelM.view .float32 b
      KernelM.update (·.allocatePlanned 0 a.shape)
      KernelM.update (·.overwriteOutput 0 .float32
        (List.zipWith (fun x y => Tensor.ofFloat (Tensor.toFloat x + Tensor.toFloat y)) xs ys)) :
        KernelM Unit).Blind := by
    refine .bind (announce_blind op a.count) fun _ => .bind (.view ..) fun xs => .bind (.view ..) fun ys => ?_
    exact .bind (.update fun c => c.allocatePlanned_bare 0 a.shape) fun _ =>
      .update fun c => c.overwriteOutput_bare 0 .float32 _
  split
  · exact .bind (.fail _) fun _ => hrest
  · exact hrest

/-- **Copying does not see where it runs.** -/
theorem computeIdentity_blind : computeIdentity.Blind :=
  .bind (.ask fun c => c.requiredInput_bare 0) fun x => .update fun c => c.setOutput_bare 0 x

/-- **Scaling does not see where it runs.** -/
theorem computeScale_blind (factor : Element .float32) : (computeScale factor).Blind := by
  refine .bind (.ask fun c => c.requiredInput_bare 0) fun x => .bind (.view ..) fun xs => ?_
  exact .bind (.update fun c => c.allocatePlanned_bare 0 x.shape) fun _ =>
    .update fun c => c.overwriteOutput_bare 0 .float32 _

end Builtin

end OpGraph
