import Mathlib.Data.List.Forall2
import OpGraph.Operator.Builtin
import OpGraph.Proofs.Lasting

/-!
# `Proofs.Uncovered` — slots that a version does not cover are never read

Two signatures of one version that agree on every slot the version covers look the same through the gated
accessors, and so have the same shape or the same fault, the same binding and the same kernel definition
(`Signature.Twins`). The rest is a run of two catalogs side by side, one given the first of each pair of
twins, the other the second: every step has the same outcome, and what differs in the end is only which
twin the kernels are made from.
-/

namespace OpGraph

open Outcome

/-! ## Two computations side by side -/

namespace Outcome

variable {ε α β σ τ : Type}

/-- Two computations end alike: both well, with related results, or both in the same error. -/
inductive Related (R : α → β → Prop) : Except ε α → Except ε β → Prop
  | ok {a : α} {b : β} : R a b → Related R (.ok a) (.ok b)
  | error (e : ε) : Related R (.error e) (.error e)

theorem Related.bind {R : α → β → Prop} {S : σ → τ → Prop} {x : Except ε α} {y : Except ε β}
    {f : α → Except ε σ} {g : β → Except ε τ} (h : Related R x y)
    (hrest : ∀ a b, R a b → Related S (f a) (g b)) : Related S (x >>= f) (y >>= g) := by
  cases h with
  | ok hab => exact hrest _ _ hab
  | error e => exact .error e

/-- Folds over related lists end alike, if every step does. -/
theorem Related.foldlM {R : σ → τ → Prop} {S : α → β → Prop} {f : σ → α → Except ε σ}
    {g : τ → β → Except ε τ} (hstep : ∀ s t a b, R s t → S a b → Related R (f s a) (g t b))
    {xs : List α} {ys : List β} (h : List.Forall₂ S xs ys) {s : σ} {t : τ} (hst : R s t) :
    Related R (xs.foldlM f s) (ys.foldlM g t) := by
  induction h generalizing s t with
  | nil => exact .ok hst
  | @cons a b xs ys hab _ ih =>
      rw [List.foldlM_cons, List.foldlM_cons]
      exact (hstep s t a b hst hab).bind fun _ _ => ih

/-- What comes first in related lists is related, if both look for the same. -/
theorem find?_related {R : α → β → Prop} {p : α → Bool} {q : β → Bool}
    (hsame : ∀ a b, R a b → q b = p a) {xs : List α} {ys : List β} (h : List.Forall₂ R xs ys) :
    Option.Rel R (xs.find? p) (ys.find? q) := by
  induction h with
  | nil => exact .none
  | @cons a b xs ys hab _ ih =>
      rw [List.find?_cons, List.find?_cons, hsame a b hab]
      cases p a with
      | true => exact .some hab
      | false => exact ih

end Outcome

/-! ## Signatures that look the same -/

namespace Signature

/-- Some answers of `variadic` became `required`. -/
def Softened (slot slot' : Option (Nat → Characteristic)) : Prop :=
  ∃ f f', slot = some f ∧ slot' = some f' ∧ ∀ i, f' i = f i ∨ f i = .variadic ∧ f' i = .required

/-- Two signatures of one version agree on every slot it covers. What it does not cover may differ in any
    way. A version that knows how positions are filled, and not yet that they repeat, does not tell a
    `variadic` answer from a `required` one. -/
structure Twins (s s' : Signature) : Prop where
  name : s'.name = s.name
  version : s'.version = s.version
  provider : s'.provider = s.provider
  inputs : s'.inputs = s.inputs
  outputs : s'.outputs = s.outputs
  inputCharacteristic : Interface.supports s.version Interface.characteristics →
    s'.slots.inputCharacteristic = s.slots.inputCharacteristic ∨
      ¬Interface.supports s.version Interface.variadics ∧
        Softened s.slots.inputCharacteristic s'.slots.inputCharacteristic
  outputCharacteristic : Interface.supports s.version Interface.characteristics →
    s'.slots.outputCharacteristic = s.slots.outputCharacteristic ∨
      ¬Interface.supports s.version Interface.variadics ∧
        Softened s.slots.outputCharacteristic s'.slots.outputCharacteristic
  inputMemory : Interface.supports s.version Interface.memoryTypes →
    s'.slots.inputMemory = s.slots.inputMemory
  variadicInputLeast : Interface.supports s.version Interface.variadics →
    s'.slots.variadicInputLeast = s.slots.variadicInputLeast
  variadicInputHomogeneous : Interface.supports s.version Interface.variadics →
    s'.slots.variadicInputHomogeneous = s.slots.variadicInputHomogeneous
  variadicOutputLeast : Interface.supports s.version Interface.variadics →
    s'.slots.variadicOutputLeast = s.slots.variadicOutputLeast
  variadicOutputHomogeneous : Interface.supports s.version Interface.variadics →
    s'.slots.variadicOutputHomogeneous = s.slots.variadicOutputHomogeneous

variable {s s' : Signature}

theorem Twins.refl (s : Signature) : s.Twins s := by
  constructor <;> simp

/-- A slot reads the same where it is the same or not covered. -/
theorem Twins.gated_eq (h : s.Twins s') {α : Type} {since : Nat} {slot slot' : Option α}
    (hslot : Interface.supports s.version since → slot' = slot) :
    s'.gated since slot' = s.gated since slot := by
  unfold gated
  rw [h.version]
  split
  next hcovered => exact hslot hcovered
  · rfl

/-- How an answer about a position may differ between twins of a version: not at all, or by a `variadic`
    that the version takes for a `required`. -/
def Answers (version : Nat) (answer answer' : Characteristic) : Prop :=
  answer' = answer ∨
    ¬Interface.supports version Interface.variadics ∧ answer = .variadic ∧ answer' = .required

theorem Twins.answers (h : s.Twins s') {slot slot' : Option (Nat → Characteristic)}
    (hslot : Interface.supports s.version Interface.characteristics →
      slot' = slot ∨ ¬Interface.supports s.version Interface.variadics ∧ Softened slot slot') (i : Nat) :
    Answers s.version (((s.gated Interface.characteristics slot).map (· i)).getD .required)
      (((s'.gated Interface.characteristics slot').map (· i)).getD .required) := by
  unfold gated
  rw [h.version]
  split
  next hcovered =>
    obtain rfl | ⟨hbefore, f, f', rfl, rfl, hf⟩ := hslot hcovered
    · exact .inl rfl
    · exact (hf i).imp id fun hsoft => ⟨hbefore, hsoft⟩
  · exact .inl rfl

/-- Such a difference does not show in the form of the position. -/
theorem Answers.positionForm_eq {version : Nat} {answer answer' : Characteristic}
    (h : Answers version answer answer') (side : Side) (position count : Nat) (homogeneous : Bool)
    (least : Nat) :
    FormalShape.positionForm version side position count answer' homogeneous least =
      FormalShape.positionForm version side position count answer homogeneous least := by
  obtain rfl | ⟨hbefore, rfl, rfl⟩ := h
  · rfl
  · simp only [FormalShape.positionForm, if_neg hbefore]

theorem Twins.inputParameter_eq (h : s.Twins s') :
    FormalShape.inputParameter s' = FormalShape.inputParameter s := by
  funext i d
  have hanswers : Answers s.version (s.inputCharacteristic i) (s'.inputCharacteristic i) :=
    h.answers h.inputCharacteristic i
  have hhomogeneous : s'.variadicInputHomogeneous = s.variadicInputHomogeneous :=
    congrArg (·.getD true) (h.gated_eq h.variadicInputHomogeneous)
  have hleast : s'.variadicInputLeast = s.variadicInputLeast :=
    congrArg (·.getD 1) (h.gated_eq h.variadicInputLeast)
  unfold FormalShape.inputParameter
  rw [h.version, h.inputs, hhomogeneous, hleast, hanswers.positionForm_eq]

theorem Twins.outputParameter_eq (h : s.Twins s') :
    FormalShape.outputParameter s' = FormalShape.outputParameter s := by
  funext i d
  have hanswers : Answers s.version (s.outputCharacteristic i) (s'.outputCharacteristic i) :=
    h.answers h.outputCharacteristic i
  have hhomogeneous : s'.variadicOutputHomogeneous = s.variadicOutputHomogeneous :=
    congrArg (·.getD true) (h.gated_eq h.variadicOutputHomogeneous)
  have hleast : s'.variadicOutputLeast = s.variadicOutputLeast :=
    congrArg (·.getD 1) (h.gated_eq h.variadicOutputLeast)
  have htemplated : FormalShape.hasTemplatedInput s' = FormalShape.hasTemplatedInput s := by
    rw [FormalShape.hasTemplatedInput, FormalShape.hasTemplatedInput, h.inputs]
  unfold FormalShape.outputParameter
  rw [h.version, h.outputs, hhomogeneous, hleast, hanswers.positionForm_eq, htemplated]

/-- **Twins have the same shape, or the same fault.** -/
theorem Twins.ofSignature_eq (h : s.Twins s') :
    FormalShape.ofSignature s' = FormalShape.ofSignature s := by
  have hinvalid : ∀ r : Except SignatureFault FormalParameter,
      FormalShape.ofSignature.invalid s' r = FormalShape.ofSignature.invalid s r := by
    intro r
    cases r with
    | ok a => rfl
    | error f => rw [FormalShape.ofSignature.invalid, FormalShape.ofSignature.invalid, h.name]
  unfold FormalShape.ofSignature
  rw [h.inputs, h.outputs, h.inputParameter_eq, h.outputParameter_eq, funext hinvalid]

theorem Twins.binding_eq (h : s.Twins s') (shape : FormalShape) : shape.binding s' = shape.binding s := by
  rw [FormalShape.binding, FormalShape.binding, h.inputs, h.outputs]

/-- **Twins have the same kernel definition**, memory types included. -/
theorem Twins.definitionOf_eq (h : s.Twins s') (domain : String) (b : TypeBinding) :
    Catalog.definitionOf domain s' b = Catalog.definitionOf domain s b := by
  have hmemory : s'.inputMemory = s.inputMemory := by
    funext i
    exact congrArg (Option.map (· i)) (h.gated_eq h.inputMemory)
  unfold Catalog.definitionOf Catalog.memoryOf Catalog.constraintsOf
  rw [h.name, h.provider, h.inputs, h.outputs, hmemory]

end Signature

/-! ## Kernels that behave the same -/

/-- Two descriptors with the same functions, whose signatures are twins. -/
structure Descriptor.Twins (op op' : Descriptor) : Prop where
  signature : op.signature.Twins op'.signature
  create : op'.create = op.create
  traced : op'.traced = op.traced

theorem Descriptor.Twins.refl (op : Descriptor) : op.Twins op := ⟨.refl _, rfl, rfl⟩

/-- Two kernels with the same state for the same node, which compute and are released in the same way. -/
structure Kernel.Same (k k' : Kernel) : Prop where
  state : k'.state = k.state
  node : k'.node = k.node
  compute : k'.compute = k.compute
  release : k'.release = k.release

/-- Two makers of which the kernels are the same, or not made for the same reason, with the same record. -/
def Factory.Same (f f' : Factory) : Prop :=
  ∀ info, (f'.instantiate info).2 = (f.instantiate info).2 ∧
    Related Kernel.Same (f.instantiate info).1 (f'.instantiate info).1

/-- **Kernels made from twins are the same.** -/
theorem Descriptor.Twins.same {op op' : Descriptor} (h : op.Twins op') (newest : Nat) :
    Factory.Same ⟨op, newest⟩ ⟨op', newest⟩ := by
  intro info
  unfold Factory.instantiate Descriptor.instantiate
  rw [h.signature.version, h.signature.name, h.create, h.traced]
  split
  · exact ⟨rfl, .error _⟩
  · refine ⟨rfl, ?_⟩
    show Related _ ((op.create op.signature.version info).result.map _)
      ((op.create op.signature.version info).result.map _)
    cases (op.create op.signature.version info).result with
    | error e => exact .error e
    | ok state =>
        refine .ok ⟨rfl, rfl, rfl, ?_⟩
        show LifeEvent.mk op'.signature.name info.node op'.traced .destroyed = _
        rw [h.signature.name, h.traced]
        rfl

namespace Catalog

/-! ## Catalogs that look the same -/

/-- Two kernels with one definition, made alike. -/
def SameKernel (e e' : KernelDefinition × Factory) : Prop := e'.1 = e.1 ∧ e.2.Same e'.2

theorem definitions_eq {es es' : List (KernelDefinition × Factory)} (h : List.Forall₂ SameKernel es es') :
    es'.map (·.1) = es.map (·.1) := by
  induction h with
  | nil => rfl
  | cons hsame _ ih => rw [List.map_cons, List.map_cons, hsame.1, ih]

theorem keys_eq {es es' : List (KernelDefinition × Factory)} (h : List.Forall₂ SameKernel es es') :
    es'.map (·.1.key) = es.map (·.1.key) := by
  have hkeys := congrArg (List.map KernelDefinition.key) (definitions_eq h)
  rwa [List.map_map, List.map_map] at hkeys

/-- Two catalogs that differ at most in what kernels are made from. -/
structure Same (c c' : Catalog) : Prop where
  newest : c'.newest = c.newest
  schemas : c'.schemas = c.schemas
  ranges : c'.ranges = c.ranges
  kernels : List.Forall₂ SameKernel c.kernels.entries c'.kernels.entries
  keys : c'.kernels.keys = c.kernels.keys

theorem Same.refl (c : Catalog) : c.Same c := by
  refine ⟨rfl, rfl, rfl, List.forall₂_same.mpr fun e _ => ⟨rfl, ?_⟩, rfl⟩
  exact (Descriptor.Twins.refl e.2.descriptor).same e.2.newest

/-- The same of what staging has gathered. -/
structure Staged.Same (st st' : Staged) : Prop where
  drafts : st'.drafts = st.drafts
  kernels : List.Forall₂ SameKernel st.kernels st'.kernels

section

variable {c c' : Catalog} {domain : String} {st st' : Staged} {op op' : Descriptor}
  {ops ops' : List Descriptor}

theorem Same.draftFor_eq (h : c.Same c') (hst : st.Same st') (name : String) (shape : FormalShape) :
    c'.draftFor domain st' name shape = c.draftFor domain st name shape := by
  unfold draftFor schema?
  rw [hst.drafts, h.schemas]

/-- **Staging one of two twins has the same outcome**, and leaves the same behind. -/
theorem Same.stage (h : c.Same c') (hst : st.Same st') (hop : op.Twins op') :
    Related Staged.Same (c.stage domain st op) (c'.stage domain st' op') := by
  have hsig := hop.signature
  unfold Catalog.stage
  simp only [hsig.ofSignature_eq, hsig.name, hsig.binding_eq, hsig.definitionOf_eq, h.draftFor_eq hst,
    h.keys, keys_eq hst.kernels, h.newest]
  cases FormalShape.ofSignature op.signature with
  | error e => exact .error e
  | ok shape =>
      simp only [bind, Except.bind]
      cases (c.draftFor domain st op.signature.name shape).shape.ensureCompatible op.signature.name shape with
      | error e => exact .error e
      | ok _ =>
          simp only
          split
          · exact .error _
          · refine .ok ⟨?_, ?_⟩
            · simp only [hst.drafts]
            · exact List.rel_append hst.kernels (.cons ⟨rfl, hop.same c.newest⟩ .nil)

theorem Same.stageAll (h : c.Same c') (domain : String) (hops : List.Forall₂ Descriptor.Twins ops ops') :
    Related Staged.Same (c.stageAll domain ops) (c'.stageAll domain ops') := by
  have hnothing : Staged.Same {} {} := ⟨rfl, .nil⟩
  exact Related.foldlM (f := c.stage domain) (g := c'.stage domain)
    (fun _ _ _ _ hst hop => h.stage hst hop) hops hnothing

theorem Same.committed (h : c.Same c') (hops : List.Forall₂ Descriptor.Twins ops ops')
    (hst : st.Same st') : (c.committed domain ops st).Same (c'.committed domain ops' st') := by
  have hempty : ops'.isEmpty = ops.isEmpty := by cases hops <;> rfl
  constructor
  case newest => exact h.newest
  case schemas => simp only [Catalog.committed, hst.drafts, h.schemas]
  case ranges =>
    show (if ops'.isEmpty then c'.ranges else c'.putRange domain) = _
    rw [hempty, putRange, range?, h.ranges]
    rfl
  case kernels => exact List.rel_append h.kernels hst.kernels
  case keys => simp only [Catalog.committed, h.keys, keys_eq hst.kernels]

/-- **Registering twins has the same outcome**, and leaves catalogs that look the same. -/
theorem Same.enroll (h : c.Same c') (domain : String) (hc : c.Lockstep) (hc' : c'.Lockstep)
    (hops : List.Forall₂ Descriptor.Twins ops ops') :
    (c'.enroll domain ops').1 = (c.enroll domain ops).1 ∧
      (c.enroll domain ops).2.Same (c'.enroll domain ops').2 := by
  have hstaged := h.stageAll domain hops
  obtain ⟨e, hst, heq⟩ | ⟨st, hst, heq⟩ := hc.enroll_cases domain ops
  all_goals obtain ⟨e', hst', heq'⟩ | ⟨st', hst', heq'⟩ := hc'.enroll_cases domain ops'
  all_goals rw [hst, hst'] at hstaged; rw [heq, heq']
  · cases hstaged
    exact ⟨rfl, h⟩
  · cases hstaged
  · cases hstaged
  · cases hstaged with
    | ok hsame => exact ⟨by rw [hsame.drafts], h.committed hops hsame⟩

/-- **A look-up finds the same kernel**, or fails in the same way. -/
theorem Same.lookup (h : c.Same c') (name domain : String) (inputs : List DataType)
    (provider : ProviderId) : Related SameKernel (c.kernels.lookup name domain inputs provider)
      (c'.kernels.lookup name domain inputs provider) := by
  have hfound := find?_related (p := fun e => e.1.serves name domain inputs provider)
    (q := fun e => e.1.serves name domain inputs provider)
    (fun (e e' : KernelDefinition × Factory) (hsame : SameKernel e e') => by rw [hsame.1]) h.kernels
  unfold KernelTable.lookup
  revert hfound
  generalize c.kernels.entries.find? _ = found
  generalize c'.kernels.entries.find? _ = found'
  rintro (hsame | _)
  · exact .ok hsame
  · exact .error _

theorem Same.infer?_eq (h : c.Same c') (name domain : String) (inputs : List DataType) (count : Nat) :
    c'.infer? name domain inputs count = c.infer? name domain inputs count := by
  rw [infer?, infer?, schema?, schema?, h.schemas]

end

/-! ## Along a history -/

/-- Two calls register twins in one domain. -/
def TwinCalls (call call' : String × List Descriptor) : Prop :=
  call'.1 = call.1 ∧ List.Forall₂ Descriptor.Twins call.2 call'.2

theorem history_same (newest : Nat) {calls calls' : List (String × List Descriptor)}
    (h : List.Forall₂ TwinCalls calls calls') : (history newest calls).Same (history newest calls') := by
  have hfold : ∀ {c c' : Catalog}, c.Same c' → c.Lockstep → c'.Lockstep →
      (calls.foldl (fun c call => (c.enroll call.1 call.2).2) c).Same
        (calls'.foldl (fun c call => (c.enroll call.1 call.2).2) c') := by
    induction h with
    | nil => exact fun hsame _ _ => hsame
    | @cons call call' _ _ hcall _ ih =>
        intro c c' hsame hc hc'
        obtain ⟨domain, ops⟩ := call
        obtain ⟨domain', ops'⟩ := call'
        obtain ⟨rfl, hops⟩ : domain' = domain ∧ _ := hcall
        exact ih (hsame.enroll _ hc hc' hops).2 (hc.enroll _ _) (hc'.enroll _ _)
  exact hfold (.refl _) (.empty newest) (.empty newest)

/-- **What a version does not cover is never read.** Take two histories that register twins, call by call
    and operator by operator, and a further domain of twins. Both catalogs give the same schemas, or refuse
    the domain for the same reason; they end with the same schemas, bindings and kernel definitions; every
    look-up finds the same definition, with a maker of the same kernels, or fails in the same way; and all
    inferences agree. -/
theorem uncovered_slots_are_never_read (newest : Nat) {calls calls' : List (String × List Descriptor)}
    (hcalls : List.Forall₂ TwinCalls calls calls') (domain : String) {ops ops' : List Descriptor}
    (hops : List.Forall₂ Descriptor.Twins ops ops') :
    let after := (history newest calls).enroll domain ops
    let after' := (history newest calls').enroll domain ops'
    after'.1 = after.1 ∧ after.2.Same after'.2 ∧
      (∀ name domain inputs provider, Related SameKernel
        (after.2.kernels.lookup name domain inputs provider)
        (after'.2.kernels.lookup name domain inputs provider)) ∧
      ∀ name domain inputs count,
        after'.2.infer? name domain inputs count = after.2.infer? name domain inputs count := by
  intro after after'
  obtain ⟨houtcome, hsame⟩ := (history_same newest hcalls).enroll domain
    (history_lockstep newest calls) (history_lockstep newest calls') hops
  exact ⟨houtcome, hsame, hsame.lookup, hsame.infer?_eq⟩

/-- An operator of version 9 that copies nothing, with some slots. -/
def vintage (slots : Slots) : Descriptor :=
  { signature :=
      { name := "Foo", version := 9, providerName := none, inputs := [.undefined, .float32]
        outputs := [.undefined], slots }
    create := fun _ _ => { result := .ok ⟨pure (), .pure ()⟩ } }

/-- An optional input, and one that repeats, as far as the version goes. -/
def plainSlots : Slots :=
  { inputCharacteristic := some fun i => if i = 0 then .optional else .variadic }

/-- The same with the second input required, and with slots of later versions. -/
def filledSlots : Slots :=
  { inputCharacteristic := some fun i => if i = 0 then .optional else .required
    inputMemory := some fun _ => .hostInput
    variadicInputLeast := some 5
    variadicOutputHomogeneous := some false }

theorem vintage_twins : (vintage plainSlots).Twins (vintage filledSlots) := by
  refine ⟨?_, rfl, rfl⟩
  constructor
  case inputCharacteristic =>
    refine fun _ => .inr ⟨by decide, _, _, rfl, rfl, fun i => ?_⟩
    by_cases hi : i = 0
    · simp [hi]
    · simp [hi]
  case outputCharacteristic => exact fun _ => .inl rfl
  all_goals first | rfl | exact fun hcovered => absurd hcovered (by decide)

/-- Behind a built-in operator, and after another, either goes in, with the same two schemas. -/
theorem uncovered_slots_are_never_read_vintage :
    let calls := [("demo", [Builtin.add none])]
    let ops := [Builtin.identity none, vintage plainSlots]
    let ops' := [Builtin.identity none, vintage filledSlots]
    let after := (history Interface.newest calls).enroll "demo" ops
    let after' := (history Interface.newest calls).enroll "demo" ops'
    List.Forall₂ TwinCalls calls calls ∧ List.Forall₂ Descriptor.Twins ops ops' ∧
      (∃ out, after.1 = .ok out ∧ after'.1 = .ok out ∧ out.length = 2) ∧ after.2.Same after'.2 ∧
      (∀ name domain inputs provider, Related SameKernel
        (after.2.kernels.lookup name domain inputs provider)
        (after'.2.kernels.lookup name domain inputs provider)) ∧
      ∀ name domain inputs count,
        after'.2.infer? name domain inputs count = after.2.infer? name domain inputs count := by
  intro calls ops ops' after after'
  have hcalls : List.Forall₂ TwinCalls calls calls :=
    .cons ⟨rfl, .cons (.refl _) .nil⟩ .nil
  have hops : List.Forall₂ Descriptor.Twins ops ops' := .cons (.refl _) (.cons vintage_twins .nil)
  obtain ⟨houtcome, hrest⟩ := uncovered_slots_are_never_read Interface.newest hcalls "demo" hops
  have hout : ∃ out, after.1 = .ok out ∧ out.length = 2 := ⟨_, rfl, rfl⟩
  obtain ⟨out, hafter, hlength⟩ := hout
  exact ⟨hcalls, hops, ⟨out, hafter, houtcome.trans hafter, hlength⟩, hrest⟩

end Catalog

end OpGraph
