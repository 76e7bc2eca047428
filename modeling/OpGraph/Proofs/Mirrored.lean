import OpGraph.Proofs.Blind
import OpGraph.Proofs.Refinement

/-!
# `Proofs.Mirrored` — plans that do the same work in other places

Two plans mirror each other if they have the same values and, node by node, the same work to do on them, by
kernels that do not see where they run. Streams, waits and notifications of the two may be quite different.
What solves one plan solves the other, so a run of one that ends well decides what every run of the other
comes to that was fed the same (`System.Reached.mirrored`).
-/

namespace OpGraph

open Outcome

/-! ## Nodes -/

/-- Two nodes with the same work, wherever each does it. -/
structure PlannedNode.Mirrors (n n' : PlannedNode) : Prop where
  inputs : n'.inputs = n.inputs
  outputs : n'.outputs = n.outputs
  types : n'.types = n.types
  compute : n'.kernel.compute = n.kernel.compute
  blind : n.kernel.compute.Blind

namespace PlannedNode

variable {n n' : PlannedNode}

theorem Mirrors.symm (h : n.Mirrors n') : n'.Mirrors n :=
  ⟨h.inputs.symm, h.outputs.symm, h.types.symm, h.compute.symm, h.compute ▸ h.blind⟩

/-- A blind kernel runs on every stream as on none. -/
theorem invoke_blind (h : n.kernel.compute.Blind) (stream : Option Stream) (args : List (Option Tensor)) :
    let alone := KernelM.start n.kernel.compute (KernelContext.start args n.types none none)
    (n.invoke stream args).1 = alone.1 ∧ (n.invoke stream args).2.outputs = alone.2.outputs ∧
      (n.invoke stream args).2.launched = [] := by
  have hresult := h.result (KernelContext.start args n.types stream n.logger)
  have hcontext := h.context (KernelContext.start args n.types stream n.logger)
  rw [KernelContext.bare_start] at hresult hcontext
  have houtputs := congrArg KernelContext.outputs hcontext
  exact ⟨hresult, houtputs, h.launched _⟩

/-- Mirrored nodes end alike and make the same, each on its own stream. -/
theorem Mirrors.invoke (h : n.Mirrors n') (stream stream' : Option Stream) (args : List (Option Tensor)) :
    (n'.invoke stream' args).1 = (n.invoke stream args).1 ∧
      (n'.invoke stream' args).2.outputs = (n.invoke stream args).2.outputs := by
  obtain ⟨hresult, houtputs, -⟩ := n.invoke_blind h.blind stream args
  obtain ⟨hresult', houtputs', -⟩ := n'.invoke_blind h.symm.blind stream' args
  rw [hresult, hresult', houtputs, houtputs', h.compute, h.types]
  exact ⟨rfl, rfl⟩

/-- Where one ran, so might the other have. -/
theorem Mirrors.ran (h : n.Mirrors n') {stream : Option Stream} (stream' : Option Stream)
    {slots : ValueStore} {args : List (Option Tensor)} {left : List (Option Tensor × Option Nat)}
    (hran : n.Ran stream slots args left) : n'.Ran stream' slots args left := by
  obtain ⟨hlen, hreads, u, c, before, hrun, hzip, hshown⟩ := hran
  obtain ⟨hresult, houtputs⟩ := h.invoke stream stream' args
  rw [hrun] at hresult houtputs
  have hrun' : n'.invoke stream' args = (.ok u, (n'.invoke stream' args).2) := Prod.ext hresult rfl
  constructor
  case length => rw [h.inputs, hlen]
  case reads => rwa [h.inputs]
  case made => exact ⟨u, _, before, hrun', by rw [houtputs, h.outputs, hzip], hshown⟩

end PlannedNode

/-! ## Plans -/

namespace Plan

/-- Two plans with the same values, and the same work on them node by node. -/
structure Mirrors (p p' : Plan) : Prop where
  values : p'.values = p.values
  feeds : p'.feeds = p.feeds
  initializers : p'.initializers = p.initializers
  length : p'.nodes.length = p.nodes.length
  nodes : ∀ {j : Nat} {n n' : PlannedNode}, p.nodes[j]? = some n → p'.nodes[j]? = some n' → n.Mirrors n'
  outputs : p'.outputs.map (·.value) = p.outputs.map (·.value)

namespace Mirrors

variable {p p' : Plan} {slots : ValueStore}

theorem symm (h : p.Mirrors p') : p'.Mirrors p where
  values := h.values.symm
  feeds := h.feeds.symm
  initializers := h.initializers.symm
  length := h.length.symm
  nodes hn hn' := (h.nodes hn' hn).symm
  outputs := h.outputs.symm

/-- The node in the same place. -/
theorem exists_node (h : p.Mirrors p') {j : Nat} {n : PlannedNode} (hn : p.nodes[j]? = some n) :
    ∃ n', p'.nodes[j]? = some n' ∧ n.Mirrors n' := by
  have hlt : j < p'.nodes.length := by
    rw [h.length]
    exact (List.getElem?_eq_some_iff.mp hn).1
  have hn' : p'.nodes[j]? = some p'.nodes[j] := List.getElem?_eq_getElem hlt
  exact ⟨_, hn', h.nodes hn hn'⟩

/-- Types are planned alike. -/
theorem typeOf?_eq (h : p.Mirrors p') (v : String) : p'.typeOf? v = p.typeOf? v := by
  unfold typeOf?
  rw [h.values]

/-- Feeds are taken or refused alike. -/
theorem initialSlots_eq (h : p.Mirrors p') (fed : List (String × Tensor)) :
    Run.initialSlots p' fed = Run.initialSlots p fed := by
  have hfeed : Run.feed p' fed = Run.feed p fed := by
    funext slots v
    unfold Run.feed
    rw [h.values]
  unfold Run.initialSlots
  rw [h.feeds, h.values, h.initializers, hfeed]

/-- A run of the one is refused with an error exactly if one of the other is. -/
theorem start_eq_error_iff (h : p.Mirrors p') (fed : List (String × Tensor)) (e : SessionError) :
    Run.start p' fed = .error e ↔ Run.start p fed = .error e := by
  unfold Run.start
  rw [h.initialSlots_eq]
  cases Run.initialSlots p fed with
  | error e' => exact Iff.rfl
  | ok slots => exact ⟨nofun, nofun⟩

/-- **What solves one plan solves the other.** -/
theorem solves (h : p.Mirrors p') (hsolves : p.Solves slots) : p'.Solves slots := by
  intro j n' hn'
  obtain ⟨n, hn, hmirrors⟩ := h.symm.exists_node hn'
  obtain ⟨args, hran⟩ := hsolves j n hn
  exact ⟨args, hmirrors.symm.ran _ hran⟩

/-- Outputs are read from the same slots. -/
theorem outputsFrom_eq (h : p.Mirrors p') (slots : ValueStore) :
    p'.outputsFrom slots = p.outputsFrom slots := by
  have hread : ∀ q : Plan, q.outputsFrom slots = (q.outputs.map (·.value)).mapM fun v =>
      (slots.get? v).elim (.error (.missingOutput (q.valueName v))) .ok := by
    intro q
    rw [List.mapM_map]
    unfold outputsFrom
    congr 1
    funext o
    show _ = (slots.get? o.value).elim _ _
    cases slots.get? o.value <;> rfl
  have hnames : p'.valueName = p.valueName := by
    funext v
    unfold valueName
    rw [h.values]
  rw [hread, hread, h.outputs, hnames]

/-- No kernel of either plan enqueues anything. -/
theorem quiet (h : p.Mirrors p') : p.Quiet := by
  intro n hn args job hjob
  obtain ⟨j, hj⟩ := List.mem_iff_getElem?.mp hn
  obtain ⟨n', -, hmirrors⟩ := h.exists_node hj
  obtain ⟨-, -, hnothing⟩ := n.invoke_blind hmirrors.blind (p.streamOf n) args
  rw [hnothing] at hjob
  cases hjob

end Mirrors

end Plan

/-! ## Runs -/

namespace System

/-- **Runs of plans that mirror each other come to the same**, where the plans' waits are admitted and
    their devices have nothing to report: if one ends well, so does every run of the other that was fed the
    same, with the same outputs. -/
theorem Reached.mirrored {σ σ' : System} (h : Reached σ) (h' : Reached σ') {i i' : Nat} {r r' : Run}
    {fed : List (String × Tensor)} (hr : σ.runs[i]? = some r) (hfed : σ.feeds[i]? = some fed)
    (hover : r.isOver = true) (hr' : σ'.runs[i']? = some r') (hfed' : σ'.feeds[i']? = some fed)
    (hover' : r'.isOver = true) (hmirrors : r.plan.Mirrors r'.plan)
    (hadmits : ∀ w who, .wait w who ∈ r'.plan.launching → r'.plan.Admits w who)
    (hresponsive : r'.plan.Responsive) {outs : List Tensor} (houts : r.result = .ok outs) :
    r'.result = .ok outs := by
  have hlawful := h.lawful hr hfed
  have hlawful' := h'.lawful hr' hfed'
  obtain ⟨hfine, hread⟩ := Run.result_eq_ok.mp houts
  -- The slots in which one run ended solve the plan of the other.
  obtain ⟨slots, hslots, hbelow⟩ := hlawful.given
  have hslots' : Run.initialSlots r'.plan fed = .ok slots := (hmirrors.initialSlots_eq fed).trans hslots
  have hsolves : r'.plan.Solves r.slots := hmirrors.solves (hlawful.solves hover hfine)
  have hfollows := h'.follows hr' hfed' hslots' hbelow hsolves hadmits hresponsive
  have hflush := h'.flushError_eq_none hr' hmirrors.symm.quiet hresponsive
  obtain ⟨outs₁, houts₁, heval⟩ :=
    hlawful'.result_eq hover' ⟨hfollows.failure, hfollows.launchError, hflush⟩
  -- Evaluating the other plan leads to the same slots.
  have hlength : r.slots.length = r'.plan.values.length := by
    rw [hmirrors.values]
    exact hlawful.stands.length
  obtain ⟨outs₂, heval₂, hread₂⟩ :=
    Plan.evaluate_eq_ok hlawful'.placed.sound hslots' hbelow hlength hsolves
  rw [hmirrors.outputsFrom_eq, hread] at hread₂
  rw [heval] at heval₂
  rw [houts₁, Except.ok.inj heval₂, Except.ok.inj hread₂]

end System

end OpGraph
