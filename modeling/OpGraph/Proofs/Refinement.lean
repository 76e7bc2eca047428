import OpGraph.Proofs.Draining
import OpGraph.Proofs.Following
import OpGraph.Proofs.Quiet
import OpGraph.Proofs.Sequential
import OpGraph.Proofs.Whole

/-!
# `Proofs.Refinement` — runs compute what the plan means

However the host of a run and the workers take turns, and whatever else goes on at the same time, a run
that ends well called each kernel once, on what its inputs read, and returns what evaluating the plan node
by node returns (`System.asynchronous_eq_sequential`). All that is known of a run at any time is put
together in `Run.Lawful`; at the end of the run it says that the slots are a solution of the plan.
-/

namespace OpGraph

open Machine Outcome

/-- Arguments taken for all inputs are what the inputs read. -/
theorem PlannedNode.Taken.args_eq {n : PlannedNode} {slots : ValueStore} {args : List (Option Tensor)}
    (h : n.Taken slots args) (hall : n.inputs.length ≤ args.length) :
    args = n.inputs.map fun v => v.bind slots.get? := by
  refine List.ext_getElem? fun k => ?_
  rw [List.getElem?_map]
  cases hi : n.inputs[k]? with
  | none => exact List.getElem?_eq_none (Nat.le_trans h.length (List.getElem?_eq_none_iff.mp hi))
  | some v =>
      have hlt : k < args.length := Nat.lt_of_lt_of_le (List.getElem?_eq_some_iff.mp hi).1 hall
      have hreads := h.reads k v args[k] hi (List.getElem?_eq_getElem hlt)
      rw [List.getElem?_eq_getElem hlt]
      generalize args[k] = a at hreads
      cases v with
      | none => cases a with
        | none => rfl
        | some t => exact hreads.elim
      | some v => cases a with
        | none => exact hreads.elim
        | some t => exact congrArg some (hreads : slots.get? v = some t).symm

/-- Where arguments were taken for all inputs, each input that is not left out reads something. -/
theorem PlannedNode.Taken.inputs_there {n : PlannedNode} {slots : ValueStore} {args : List (Option Tensor)}
    (h : n.Taken slots args) (hall : n.inputs.length ≤ args.length) {v : Nat} (hv : some v ∈ n.inputs) :
    (slots.get? v).isSome := by
  obtain ⟨k, hk⟩ := List.mem_iff_getElem?.mp hv
  have hlt : k < args.length := Nat.lt_of_lt_of_le (List.getElem?_eq_some_iff.mp hk).1 hall
  have hreads := h.reads k _ args[k] hk (List.getElem?_eq_getElem hlt)
  generalize args[k] = a at hreads
  cases a with
  | none => exact hreads.elim
  | some t => exact Option.isSome_iff_exists.mpr ⟨t, hreads⟩

theorem PlannedNode.Ran.taken {n : PlannedNode} {stream : Option Stream} {slots : ValueStore}
    {args : List (Option Tensor)} {left : List (Option Tensor × Option Nat)}
    (h : n.Ran stream slots args left) : n.Taken slots args :=
  ⟨Nat.le_of_eq h.length, h.reads⟩

/-- The arguments of a kernel that ran are what the inputs of its node read. -/
theorem PlannedNode.Ran.args_eq {n : PlannedNode} {stream : Option Stream} {slots : ValueStore}
    {args : List (Option Tensor)} {left : List (Option Tensor × Option Nat)}
    (h : n.Ran stream slots args left) : args = n.inputs.map fun v => v.bind slots.get? :=
  h.taken.args_eq (Nat.le_of_eq h.length.symm)

/-- Each input that is not left out reads something. -/
theorem PlannedNode.Ran.inputs_there {n : PlannedNode} {stream : Option Stream} {slots : ValueStore}
    {args : List (Option Tensor)} {left : List (Option Tensor × Option Nat)}
    (h : n.Ran stream slots args left) {v : Nat} (hv : some v ∈ n.inputs) : (slots.get? v).isSome :=
  h.taken.inputs_there (Nat.le_of_eq h.length.symm) hv

namespace Run

variable {i : Nat} {r r' : Run} {m m' : Machine NodeJob} {fed : List (String × Tensor)}

/-- All that is known of a run at any time. -/
structure Lawful (fed : List (String × Tensor)) (i : Nat) (m : Machine NodeJob) (r : Run) : Prop where
  placed : r.Placed i m
  stands : r.Stands i m
  notified : r.Notified
  ordered : r.Ordered i m
  drains : r.Drains i m
  /-- What was given stays. -/
  given : ∃ slots, initialSlots r.plan fed = .ok slots ∧ slots.Grows r.slots

theorem Lawful.saw (h : r.Lawful fed i m) (htidy : m.Tidy) (hs : r.Saw i m r' m') :
    r'.Lawful fed i m' where
  placed := h.placed.saw hs
  stands := Stands.saw h.placed h.stands hs
  notified := h.notified.saw h.placed hs
  ordered := h.ordered.saw h.placed htidy h.stands h.notified hs
  drains := Drains.saw h.placed htidy h.drains hs
  given := by
    obtain ⟨slots, hslots, hgrows⟩ := h.given
    exact ⟨slots, hs.plan ▸ hslots, fun v t hv => hs.slots.2 v t (hgrows v t hv)⟩

theorem start_eq_ok {p : Plan} (hr : start p fed = .ok r) :
    r.plan = p ∧ initialSlots p fed = .ok r.slots := by
  obtain ⟨slots, hslots, rfl⟩ := map_eq_ok.mp hr
  exact ⟨rfl, hslots⟩

theorem Lawful.start {p : Plan} (hr : start p fed = .ok r) (hsound : p.Sound)
    (hon : ∀ s ∈ p.streams, s.On m)
    (hnew : ∀ w label job, .run label job ∈ (m.queue w).pending → job.run ≠ i) : r.Lawful fed i m where
  placed := .start hr hsound hon hnew
  stands := .start hr hsound hnew
  notified := .start hr
  ordered := .start hr hnew
  drains := .start hr
  given := by
    obtain ⟨hplan, hslots⟩ := start_eq_ok hr
    exact ⟨r.slots, hplan ▸ hslots, fun v t hv => hv⟩

/-- Nothing failed. -/
structure Fine (r : Run) : Prop where
  failure : r.failure = none
  launchError : r.launchError = none
  flushError : r.flushError = none

theorem result_eq_ok {outs : List Tensor} :
    r.result = .ok outs ↔ r.Fine ∧ r.plan.outputsFrom r.slots = .ok outs := by
  unfold result
  constructor
  · intro h
    split at h
    · cases h
    next hnone =>
      obtain ⟨hboth, hflush⟩ := Option.or_eq_none_iff.mp hnone
      obtain ⟨hlaunch, hfailure⟩ := Option.or_eq_none_iff.mp hboth
      exact ⟨⟨hfailure, hlaunch, hflush⟩, h⟩
  · rintro ⟨hfine, houts⟩
    rw [hfine.failure, hfine.launchError, hfine.flushError]
    exact houts

/-! ## At the end of a run -/

/-- Every node ran once, on what its inputs read. -/
theorem Lawful.ran (h : r.Lawful fed i m) (hover : r.isOver = true) (hfine : r.Fine) :
    ∀ (j : Nat) n, r.plan.nodes[j]? = some n →
      ∃ args, r.callsOf j = [args] ∧ n.Ran (r.plan.streamOf n) r.slots args [] :=
  h.stands.solves hover hfine.failure hfine.launchError fun w label job hmem =>
    h.drains.idle h.placed hover hfine.flushError w label job hmem

theorem Lawful.solves (h : r.Lawful fed i m) (hover : r.isOver = true) (hfine : r.Fine) :
    r.plan.Solves r.slots := by
  intro j n hn
  obtain ⟨args, -, hran⟩ := h.ran hover hfine j n hn
  exact ⟨args, hran⟩

/-- **A run in which nothing failed returns what evaluating its plan returns.** -/
theorem Lawful.result_eq (h : r.Lawful fed i m) (hover : r.isOver = true) (hfine : r.Fine) :
    ∃ outs, r.result = .ok outs ∧ r.plan.evaluate fed = .ok outs := by
  obtain ⟨slots, hslots, hgrows⟩ := h.given
  obtain ⟨outs, hevaluate, houts⟩ := Plan.evaluate_eq_ok h.placed.sound hslots hgrows h.stands.length
    (h.solves hover hfine)
  exact ⟨outs, result_eq_ok.mpr ⟨hfine, houts⟩, hevaluate⟩

/-- All waits of a plan are admitted if those of one run were. -/
theorem Lawful.admits (h : r.Lawful fed i m) (hover : r.isOver = true) (hfine : r.Fine) {w : PlannedWait}
    {who : Waiter} (hmem : .wait w who ∈ r.plan.launching) : r.plan.Admits w who := by
  have hgoing : r.Going := ⟨hfine.launchError, Or.inl hfine.failure⟩
  refine (h.notified.admitted hgoing w who hmem).resolve_left fun hahead => ?_
  rw [(isOver_iff.mp hover).2.1] at hahead
  cases hahead

end Run

namespace System

variable {σ σ' : System}

/-- What holds of every run as it starts, and is kept by everything a run sees, given all that is known of
    runs, holds at any time. -/
theorem Reached.kept_lawful {P : Nat → List (String × Tensor) → Run → Machine NodeJob → Prop}
    (start : ∀ {i p fed r m}, Run.start p fed = .ok r → r.Lawful fed i m →
      (∀ w label job, .run label job ∈ (m.queue w).pending → job.run ≠ i) → P i fed r m)
    (saw : ∀ {i fed r m r' m'}, r.Lawful fed i m → m.Tidy → P i fed r m → r.Saw i m r' m' → P i fed r' m')
    (h : Reached σ) {i : Nat} {r : Run} (hr : σ.runs[i]? = some r) :
    ∃ fed, σ.feeds[i]? = some fed ∧ r.Lawful fed i σ.machine ∧ P i fed r σ.machine := by
  refine Reached.kept (P := fun i fed r m => r.Lawful fed i m ∧ P i fed r m)
    (fun hg hp hstart => ?_) (fun _ htidy hboth hsaw => ?_) h hr
  · have hnew := fun w label job hmem => Nat.ne_of_lt (hg.jobs w label job hmem)
    have hlawful : Run.Lawful _ _ _ _ := .start hstart (hg.sound _ hp) (hg.streams _ hp) hnew
    exact ⟨hlawful, start hstart hlawful hnew⟩
  · exact ⟨hboth.1.saw htidy hsaw, saw hboth.1 htidy hboth.2 hsaw⟩

theorem Reached.lawful (h : Reached σ) {i : Nat} {r : Run} {fed : List (String × Tensor)}
    (hr : σ.runs[i]? = some r) (hfed : σ.feeds[i]? = some fed) : r.Lawful fed i σ.machine := by
  obtain ⟨fed', hfed', hlawful, -⟩ := h.kept_lawful (P := fun _ _ _ _ => True) (fun _ _ _ => trivial)
    (fun _ _ _ _ => trivial) hr
  obtain rfl := Option.some.inj (hfed.symm.trans hfed')
  exact hlawful

theorem Reached.exists_lawful (h : Reached σ) {i : Nat} {r : Run} (hr : σ.runs[i]? = some r) :
    ∃ fed, r.Lawful fed i σ.machine := by
  have hlt : i < σ.feeds.length := h.grounded.feeds ▸ (List.getElem?_eq_some_iff.mp hr).1
  exact ⟨_, h.lawful hr (List.getElem?_eq_getElem hlt)⟩

/-- **Nothing fails in a run whose plan has a solution on what the run was fed.** -/
theorem Reached.follows (h : Reached σ) {i : Nat} {r : Run} {fed : List (String × Tensor)}
    (hr : σ.runs[i]? = some r) (hfed : σ.feeds[i]? = some fed) {slots solution : ValueStore}
    (hslots : Run.initialSlots r.plan fed = .ok slots) (hbelow : slots.Grows solution)
    (hsolves : r.plan.Solves solution)
    (hadmits : ∀ w who, .wait w who ∈ r.plan.launching → r.plan.Admits w who)
    (hresponsive : r.plan.Responsive) : r.Follows solution i σ.machine := by
  obtain ⟨fed', hfed', -, hfollows⟩ := Reached.kept
    (P := fun i fed' r' m => r'.Lawful fed' i m ∧
      (r'.plan = r.plan → fed' = fed → r'.Follows solution i m))
    (fun hg hp hstart => by
      have hnew := fun w label job hmem => Nat.ne_of_lt (hg.jobs w label job hmem)
      refine ⟨.start hstart (hg.sound _ hp) (hg.streams _ hp) hnew, fun hplan hsame => ?_⟩
      rw [(Run.start_eq_ok hstart).1] at hplan
      subst hsame
      exact .start hstart (hplan ▸ hslots) (hg.sound _ hp) hbelow hnew)
    (fun hplaced htidy hboth hsaw => by
      obtain ⟨hlawful, hfollows⟩ := hboth
      refine ⟨hlawful.saw htidy hsaw, fun hplan hsame => ?_⟩
      rw [hsaw.plan] at hplan
      exact (hfollows hplan hsame).saw hplaced hlawful.stands hlawful.notified hlawful.ordered
        (hplan ▸ hsolves) (hplan ▸ hadmits) (hplan ▸ hresponsive) hsaw) h hr
  exact hfollows rfl (Option.some.inj (hfed'.symm.trans hfed))

/-- **Running a plan is evaluating it node by node.** A run that ends well called the kernel of every node
    once, on what the inputs of the node read, and returns what evaluating the plan returns; where that
    fails, no run ends well. If one run ends well, in no other that was fed the same does a kernel or a wait
    fail, and it returns the same unless a flush tells of a job that kernels of the plan enqueued. -/
theorem asynchronous_eq_sequential (h : Reached σ) {i : Nat} {r : Run} {fed : List (String × Tensor)}
    (hr : σ.runs[i]? = some r) (hfed : σ.feeds[i]? = some fed) (hover : r.isOver = true) :
    (∀ outs, r.result = .ok outs →
      (∀ (j : Nat) n, r.plan.nodes[j]? = some n →
        r.callsOf j = [n.inputs.map fun v => v.bind r.slots.get?] ∧
          ∀ v, some v ∈ n.inputs → (r.slots.get? v).isSome) ∧
      r.plan.evaluate fed = .ok outs) ∧
    (∀ e, r.plan.evaluate fed = .error e → ∀ outs, r.result ≠ .ok outs) ∧
    ∀ outs, r.result = .ok outs → ∀ σ', Reached σ' → ∀ (i' : Nat) r', σ'.runs[i']? = some r' →
      σ'.feeds[i']? = some fed → r'.plan = r.plan → r'.isOver = true →
      r'.failure = none ∧ r'.launchError = none ∧ (r.plan.Quiet → r'.result = .ok outs) := by
  have hlawful := h.lawful hr hfed
  have hevaluate : ∀ outs, r.result = .ok outs → r.plan.evaluate fed = .ok outs := by
    intro outs houts
    obtain ⟨outs', houts', heval⟩ := hlawful.result_eq hover (Run.result_eq_ok.mp houts).1
    rw [houts'] at houts
    exact Except.ok.inj houts ▸ heval
  refine ⟨fun outs houts => ⟨fun j n hn => ?_, hevaluate outs houts⟩, fun e he outs houts => ?_,
    fun outs houts σ' h' i' r' hr' hfed' hplan hover' => ?_⟩
  · obtain ⟨args, hcalls, hran⟩ := hlawful.ran hover (Run.result_eq_ok.mp houts).1 j n hn
    exact ⟨hran.args_eq ▸ hcalls, fun v hv => hran.inputs_there hv⟩
  · have hok := hevaluate outs houts
    rw [he] at hok
    cases hok
  · -- The slots of the run that ended well are a solution for the other one.
    have hfine := (Run.result_eq_ok.mp houts).1
    obtain ⟨slots, hslots, hbelow⟩ := hlawful.given
    have hresponsive : r'.plan.Responsive := by
      rw [hplan]
      exact hlawful.drains.responsive hover hfine.flushError
    have hadmits : ∀ w who, .wait w who ∈ r'.plan.launching → r'.plan.Admits w who := by
      rw [hplan]
      exact fun w who hmem => hlawful.admits hover hfine hmem
    have hfollows := h'.follows hr' hfed' (hplan ▸ hslots) hbelow (hplan ▸ hlawful.solves hover hfine)
      hadmits hresponsive
    refine ⟨hfollows.failure, hfollows.launchError, fun hquiet => ?_⟩
    have hflush := h'.flushError_eq_none hr' (hplan ▸ hquiet) hresponsive
    obtain ⟨outs', houts', heval⟩ := (h'.lawful hr' hfed').result_eq hover'
      ⟨hfollows.failure, hfollows.launchError, hflush⟩
    rw [hplan, hevaluate outs houts] at heval
    exact Except.ok.inj heval ▸ houts'

/-- The float that was handed on is what evaluating the two nodes returns. -/
theorem asynchronous_eq_sequential_relay : ∃ (σ : System) (r : Run), σ.Reached ∧ σ.runs[0]? = some r ∧
    r.isOver = true ∧ r.result = .ok [relayed] ∧ r.callsOf 1 = [[some relayed]] ∧
    r.plan.evaluate [("x", relayed)] = .ok [relayed] := by
  have hwhole : ∃ s m₁ events p life m₂ r₀ r',
      Session.start relaySetup ({} : Machine NodeJob) = (.ok (s, m₁), events) ∧
      Plan.build s relayGraph m₁ = ((.ok p, life), m₂) ∧ Run.start p [("x", relayed)] = .ok r₀ ∧
      ((Execution.mk m₂ [r₀]).finish 0).runs[0]? = some r' ∧ r'.isOver = true ∧
      r'.result = .ok [relayed] ∧ r'.callsOf 1 = [[some relayed]] :=
    ⟨_, _, _, _, _, _, _, _, rfl, rfl, rfl, rfl, rfl, rfl, rfl⟩
  obtain ⟨s, m₁, events, p, life, m₂, r₀, r, hstart, hbuild, hr₀, hr, hover, hresult, hcalls⟩ := hwhole
  have hreached := Reached.first rfl hstart hbuild hr₀
  obtain ⟨hends, -, -⟩ := asynchronous_eq_sequential hreached hr rfl hover
  exact ⟨_, r, hreached, hr, hover, hresult, hcalls, (hends _ hresult).2⟩

end System

end OpGraph
