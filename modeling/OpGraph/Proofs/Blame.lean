import OpGraph.Proofs.Refinement

/-!
# `Proofs.Blame` — what a run that failed says

Only the first failure of a job is kept. By then every node before it had everything it reads, so it comes
from a kernel that was called on what its inputs read and stopped, or left out an output: a node that finds
a slot empty does so after something else failed, and no slot is ever filled twice (`Run.Rooted`). The host
ends launching or draining only for what a stream says, never for a wait too many (`Run.Sourced`).
-/

namespace OpGraph

open Machine

/-- An error of a stream, other than that there were more waits than a notification was made for. -/
def SessionError.OfStream (e : SessionError) : Prop := ∃ e', e = .stream e' ∧ ∀ p k, e' ≠ .overWaited p k

namespace Run

variable {i j : Nat} {r r' q : Run} {m m' : Machine NodeJob} {n : PlannedNode} {a : Instruction}
  {more : Worker → List (Command NodeJob)} {fed : List (String × Tensor)}

/-! ## Errors of the host -/

/-- What is waited for next was announced, and has a wait left. -/
theorem Lawful.wait_left (h : r.Lawful fed i m) {w : PlannedWait} {who : Waiter}
    (hnext : r.Next (.wait w who) q) :
    ∃ n, q.notification? w.producer = some n ∧ n.waits < n.consumers := by
  obtain ⟨hlaunching, hsuffix, -⟩ := h.placed.next_launching hnext Plan.draining_not_wait
  have hne : r.launching ≠ [] := by simp [hlaunching]
  -- Whoever still launches has seen no error.
  have hgoing : r.Going :=
    ⟨Classical.byContradiction fun hsome => hne (h.ordered.stopped hsome), Or.inr hne⟩
  obtain ⟨n, hn⟩ := Option.isSome_iff_exists.mp
    (h.notified.wait_ready h.placed.sound hgoing hlaunching hsuffix)
  have hwaits := (h.notified.waited hlaunching hn (Nat.le_refl 1)).2
  exact ⟨n, (hnext.notification? _).trans hn, by omega⟩

/-- What ended launching or draining a stream said, and it is not that there were too many waits. -/
structure Sourced (r : Run) : Prop where
  launchError : ∀ e, r.launchError = some e → e.OfStream
  flushError : ∀ e, r.flushError = some e → e.OfStream

theorem Sourced.saw (h : r.Sourced) (hl : r.Lawful fed i m) (hs : r.Saw i m r' m') : r'.Sourced := by
  cases hs with
  | did _ hnext _ hdid =>
      have hq : ∀ {q a}, r.Next a q → q.Sourced := fun hnext => by
        cases hnext <;> exact ⟨h.launchError, h.flushError⟩
      have hq := hq hnext
      cases hdid with
      | absent hnone =>
          obtain ⟨n, hn, -⟩ := hl.wait_left hnext
          rw [hnone] at hn
          cases hn
      | @refused w who n k e hn hfails =>
          obtain ⟨n', hn', hleft⟩ := hl.wait_left hnext
          obtain rfl := Option.some.inj (hn.symm.trans hn')
          refine ⟨fun e' he' => ?_, hq.flushError⟩
          obtain rfl := Option.some.inj he'
          exact ⟨e, rfl, hfails.ne_overWaited hleft⟩
      | @failed k s e hs hfails =>
          refine ⟨hq.launchError, fun e' he' => ?_⟩
          obtain rfl := Option.some.inj he'
          exact ⟨e, rfl, hfails.ne_overWaited⟩
      | check => split <;> exact ⟨hq.launchError, hq.flushError⟩
      | _ => exact ⟨hq.launchError, hq.flushError⟩
  | _ => exact ⟨h.launchError, h.flushError⟩

/-! ## Failures of jobs -/

/-- The kernel of the node was called once, on what its inputs read. -/
structure Called (r : Run) (j : Nat) (n : PlannedNode) (args : List (Option Tensor)) : Prop where
  once : r.callsOf j = [args]
  taken : n.Taken r.slots args
  all : n.inputs.length ≤ args.length

end Run

/-- What a kernel called on these arguments did that fails the work of its node. -/
inductive PlannedNode.Faults (n : PlannedNode) (stream : Option Stream) (args : List (Option Tensor)) :
    OpError → Prop
  /-- It ended with an error or a panic of its own. -/
  | stopped {stop : Abort} {c : KernelContext} : n.invoke stream args = (.error stop, c) →
      Faults n stream args (stop.toError n.op)
  /-- It ended without an output that the node names. -/
  | unmade {u : Unit} {c : KernelContext} {k v : Nat} : n.invoke stream args = (.ok u, c) →
      c.outputs[k]? = some none → n.outputs[k]? = some (some v) →
      Faults n stream args (.invalidArgument (.notProduced k))

namespace Run

variable {i j : Nat} {r r' q : Run} {m m' : Machine NodeJob} {n : PlannedNode} {a : Instruction}
  {more : Worker → List (Command NodeJob)} {fed : List (String × Tensor)}

/-- The node failed by what its own kernel did. -/
def Blames (r : Run) (j : Nat) (n : PlannedNode) (e : OpError) : Prop :=
  ∃ args, r.Called j n args ∧ n.Faults (r.plan.streamOf n) args e

/-- Failures have roots, those that nobody was told of as well. -/
structure RootedAt (i : Nat) (m : Machine NodeJob) (r : Run) (j : Nat) (n : PlannedNode) : Prop where
  failing : ∀ e, .failing e ∈ r.stages i m j → r.failure ≠ none ∨ r.Blames j n e
  /-- What is left to publish is the end of what the kernel made. -/
  publishing : ∀ k left args u c, .publishing k left ∈ r.stages i m j → r.callsOf j = [args] →
    n.invoke (r.plan.streamOf n) args = (.ok u, c) → (c.outputs.zip n.outputs).drop k = left

/-- The failure a run keeps has a root. -/
structure Rooted (i : Nat) (m : Machine NodeJob) (r : Run) : Prop where
  failure : ∀ e, r.failure = some e → ∃ (j : Nat) (n : PlannedNode) (source : OpError),
    r.plan.nodes[j]? = some n ∧ e = .kernel n.name source ∧ r.Blames j n source
  nodes : ∀ (j : Nat) n, r.plan.nodes[j]? = some n → r.RootedAt i m j n

/-- A node that was called is called no more. -/
theorem Called.moved {args : List (Option Tensor)} (h : r.Called j n args) (hl : r.Lawful fed i m)
    (hn : r.plan.nodes[j]? = some n) (hgrows : r.slots.Grows r'.slots) (hm : r.Moved i m r' m' j n) :
    r'.Called j n args := by
  refine ⟨?_, h.taken.mono hgrows, h.all⟩
  cases hm with
  | still _ _ hcalls => exact hcalls.trans h.once
  | launched _ _ _ _ hcalls => exact hcalls.trans h.once
  | @worked job others w _ _ hstages hadv _ _ hcalls =>
      suffices hnone : w.arguments = none by rw [hcalls, hnone, h.once]; rfl
      have hworking := hl.stands.working hn (hstages ▸ List.mem_cons_self)
      generalize job.stage = stage at hworking hadv
      -- The kernel is only called by work that takes arguments, and then it was not called before.
      have htaking : ∀ {args'}, stage ≠ .taking args' := by
        rintro args' rfl
        cases hworking with
        | taking hno => cases hno.symm.trans h.once
      cases hadv with
      | ran => exact absurd rfl htaking
      | broke => exact absurd rfl htaking
      | _ => rfl

theorem Blames.saw {e : OpError} (h : r.Blames j n e) (hl : r.Lawful fed i m)
    (hn : r.plan.nodes[j]? = some n) (hs : r.Saw i m r' m') : r'.Blames j n e := by
  obtain ⟨args, hcalled, hfaults⟩ := h
  exact ⟨args, hcalled.moved hl hn hs.slots.2 (hs.moved hl.placed hl.stands hn), hs.plan ▸ hfaults⟩

/-- An argument is missing only after something failed. -/
theorem Lawful.missing (h : r.Lawful fed i m) {job : NodeJob} (hjob : r.InHand i m job)
    (hn : r.plan.nodes[job.node]? = some n) {v : Nat} (hmem : some v ∈ n.inputs)
    (hv : r.slots.get? v = none) : r.failure ≠ none := by
  have hempty : (r.slots.get? v).isSome = false := by rw [hv]; rfl
  rcases h.placed.sound.reads hn hmem with hgiven | ⟨u, -, hmakes⟩
  · obtain ⟨slots, hslots, hgrows⟩ := h.given
    obtain ⟨t, ht⟩ := Option.isSome_iff_exists.mp
      (((Plan.initialSlots_eq_ok h.placed.sound hslots).2 v).mpr hgiven)
    rw [hgrows v t ht] at hv
    cases hv
  · refine (h.ordered.inHand hjob ⟨n, v, hn, hmem, hmakes⟩).resolve_left fun hmade => ?_
    rw [hmade v hmakes] at hempty
    cases hempty

theorem drop_eq_cons {α : Type} {l rest : List α} {k : Nat} {x : α} (h : l.drop k = x :: rest) :
    l[k]? = some x ∧ l.drop (k + 1) = rest := by
  refine ⟨?_, ?_⟩
  · rw [← List.head?_drop, h, List.head?_cons]
  · rw [← List.tail_drop, h, List.tail_cons]

/-- What a piece of work has still to do is all the work there is of its node. -/
theorem RootedAt.of_rest {rest : Option Stage} (hstages : r.stages i m j = rest.toList)
    (hfails : ∀ e, rest = some (.failing e) → r.failure ≠ none ∨ r.Blames j n e)
    (hpublishes : ∀ k left args u c, rest = some (.publishing k left) → r.callsOf j = [args] →
      n.invoke (r.plan.streamOf n) args = (.ok u, c) → (c.outputs.zip n.outputs).drop k = left) :
    r.RootedAt i m j n :=
  ⟨fun e he => hfails e (Option.mem_toList.mp (hstages ▸ he)), fun k left args u c hk =>
    hpublishes k left args u c (Option.mem_toList.mp (hstages ▸ hk))⟩

section Worked

variable {args : List (Option Tensor)} {w : WorkStep}

/-- Work that takes arguments fails by its kernel, or for want of an argument. -/
theorem RootedAt.took (hadv : n.Advanced (r.plan.streamOf n) r.slots (.taking args) w)
    (htaken : n.Taken r'.slots args) (hplan : r'.plan = r.plan)
    (hmissing : ∀ v, some v ∈ n.inputs → r.slots.get? v = none → r'.failure ≠ none)
    (hstages : r'.stages i m' j = w.rest.toList) (hcalls : r'.callsOf j = w.arguments.toList) :
    r'.RootedAt i m' j n := by
  cases hadv with
  | took => exact .of_rest hstages (fun _ he => nomatch he) fun _ _ _ _ _ hk => nomatch hk
  | missing hi hv =>
      exact .of_rest hstages (fun _ _ => Or.inl (hmissing _ (List.mem_of_getElem? hi) hv))
        fun _ _ _ _ _ hk => nomatch hk
  | broke hall hrun =>
      refine .of_rest hstages (fun e he => Or.inr ⟨args, ⟨hcalls, htaken, hall⟩, ?_⟩)
        fun _ _ _ _ _ hk => nomatch hk
      injection Option.some.inj he with he
      exact hplan ▸ he ▸ .stopped hrun
  | ran hall hrun =>
      refine .of_rest hstages (fun _ he => nomatch he) fun k left args' u' c' hk hcall hrun' => ?_
      injection Option.some.inj hk with hk hleft
      obtain rfl := List.singleton_inj.mp (hcalls.symm.trans hcall)
      obtain ⟨-, rfl⟩ := Prod.mk.inj (hrun.symm.trans (hplan ▸ hrun'))
      rw [← hk, ← hleft]
      rfl

/-- Work that publishes goes through what the kernel made, and fails where an output is missing. -/
theorem RootedAt.published {k : Nat} {left : List (Option Tensor × Option Nat)} {u : Unit}
    {c : KernelContext} (hadv : n.Advanced (r.plan.streamOf n) r.slots (.publishing k left) w)
    (hcalled : r'.Called j n args) (hrun : n.invoke (r'.plan.streamOf n) args = (.ok u, c))
    (hleft : (c.outputs.zip n.outputs).drop k = left)
    (hfree : ∀ e ∈ left, ∀ v, e.2 = some v → r.slots.get? v = none)
    (hstages : r'.stages i m' j = w.rest.toList) : r'.RootedAt i m' j n := by
  have hfewer : ∀ {e left}, (c.outputs.zip n.outputs).drop k = e :: left →
      w.rest = some (.publishing (k + 1) left) → r'.RootedAt i m' j n := by
    intro e left hdrop hrest
    refine .of_rest hstages (fun e he => by rw [hrest] at he; cases he)
      fun k' left' args' u' c' hk hcall hrun' => ?_
    rw [hrest] at hk
    injection Option.some.inj hk with hk hleft'
    obtain rfl := List.singleton_inj.mp (hcalled.once.symm.trans hcall)
    obtain ⟨-, rfl⟩ := Prod.mk.inj (hrun.symm.trans hrun')
    rw [← hk, ← hleft']
    exact (drop_eq_cons hdrop).2
  cases hadv with
  | finished => exact .of_rest hstages (fun _ he => nomatch he) fun _ _ _ _ _ hk => nomatch hk
  | unwanted => exact hfewer hleft rfl
  | published => exact hfewer hleft rfl
  | occupied hfull => exact absurd (hfree _ List.mem_cons_self _ rfl) hfull
  | unmade =>
      obtain ⟨hmade, hwanted⟩ := List.getElem?_zip_eq_some.mp (drop_eq_cons hleft).1
      refine .of_rest hstages (fun e he => Or.inr ⟨args, hcalled, ?_⟩) fun _ _ _ _ _ hk => nomatch hk
      injection Option.some.inj he with he
      exact he ▸ .unmade hrun hmade hwanted

/-- Work that goes a step further fails by what the kernel of its node did, unless something failed
    before. -/
theorem RootedAt.worked (h : r.RootedAt i m j n) (hl : r.Lawful fed i m) (hn : r.plan.nodes[j]? = some n)
    {job : NodeJob} {others : List Stage} (hjob : r.InHand i m job) (hnode : job.node = j)
    (hstages : r.stages i m j = job.stage :: others)
    (hadv : n.Advanced (r.plan.streamOf n) r.slots job.stage w)
    (hstages' : r'.stages i m' j = w.rest.toList ++ others)
    (hcalls : r'.callsOf j = r.callsOf j ++ w.arguments.toList) (hplan : r'.plan = r.plan)
    (hgrows : r.slots.Grows r'.slots) (hfailure : r.failure ≠ none → r'.failure ≠ none) :
    r'.RootedAt i m' j n := by
  -- A node has one piece of work at most.
  have hstage : job.stage ∈ r.stages i m j := hstages ▸ List.mem_cons_self
  obtain ⟨-, hone, hworking⟩ := (hl.stands.nodes j n hn).working hstage
  obtain rfl : others = [] := (List.cons.inj (hstages.symm.trans hone)).2
  rw [List.append_nil] at hstages'
  generalize job.stage = stage at hworking hadv hstage
  cases hworking with
  | failing =>
      cases hadv with
      | told => exact .of_rest hstages' (fun _ he => nomatch he) fun _ _ _ _ _ hk => nomatch hk
  | taking hno htaken =>
      rw [hno, List.nil_append] at hcalls
      subst hnode
      exact .took hadv (htaken.mono hgrows) hplan
        (fun v hv hnone => hfailure (hl.missing hjob hn hv hnone)) hstages' hcalls
  | @publishing args k left hcall hran hfree =>
      obtain ⟨u, c, -, hrun, -⟩ := hran.made
      have hleft := h.publishing k left args u c hstage hcall hrun
      have hnone : w.arguments = none := by cases hadv <;> rfl
      rw [hnone, hcall] at hcalls
      exact .published hadv ⟨hcalls, hran.taken.mono hgrows, Nat.le_of_eq hran.length.symm⟩
        (hplan ▸ hrun) hleft hfree hstages'

end Worked

/-- **A node that fails was called, and its kernel is to blame, unless something failed before.** -/
theorem RootedAt.saw (h : r.RootedAt i m j n) (hl : r.Lawful fed i m) (hn : r.plan.nodes[j]? = some n)
    (hs : r.Saw i m r' m') : r'.RootedAt i m' j n := by
  have hold : ∀ {e}, r.failure ≠ none ∨ r.Blames j n e → r'.failure ≠ none ∨ r'.Blames j n e :=
    Or.imp hs.failure fun hblames => hblames.saw hl hn hs
  -- Failing and publishing go on as before, where no work of the node was done.
  have hback : (∀ stage, stage ∈ r'.stages i m' j → stage ∈ r.stages i m j ∨ stage = .taking []) →
      r'.callsOf j = r.callsOf j → r'.RootedAt i m' j n := by
    intro hback hcalls
    refine ⟨fun e he => hold (h.failing e ((hback _ he).resolve_right nofun)),
      fun k left args u c hstage hcall hrun => ?_⟩
    exact h.publishing k left args u c ((hback _ hstage).resolve_right nofun) (hcalls ▸ hcall)
      (hs.plan ▸ hrun)
  cases hs.moved hl.placed hl.stands hn with
  | still hstages _ hcalls => exact hback (fun stage hmem => Or.inl (hstages ▸ hmem)) hcalls
  | launched _ _ hstages _ hcalls =>
      refine hback (fun stage hmem => ?_) hcalls
      rw [hstages] at hmem
      exact (List.mem_append.mp hmem).imp id List.mem_singleton.mp
  | worked hjob hnode hstages hadv hstages' _ hcalls =>
      exact h.worked hl hn hjob hnode hstages hadv hstages' hcalls hs.plan hs.slots.2 hs.failure

/-- **The first failure of a job has a root.** -/
theorem Rooted.saw (h : r.Rooted i m) (hl : r.Lawful fed i m) (hs : r.Saw i m r' m') : r'.Rooted i m' := by
  refine ⟨?_, fun j n hn => ?_⟩
  · have hold : r'.failure = r.failure → ∀ e, r'.failure = some e → ∃ (j : Nat) (n : PlannedNode)
        (source : OpError), r'.plan.nodes[j]? = some n ∧ e = .kernel n.name source ∧
          r'.Blames j n source := by
      intro hsame e he
      obtain ⟨j, n, source, hn, rfl, hblames⟩ := h.failure e (hsame ▸ he)
      exact ⟨j, n, source, hs.plan ▸ hn, rfl, hblames.saw hl hn hs⟩
    have hworked : ∀ {job n}, r.plan.nodes[job.node]? = some n → r.InHand i m job →
        r'.failure = r.failure.or ((r.stepOf n job).failure.map (.kernel n.name ·)) → ∀ e,
        r'.failure = some e → ∃ (j : Nat) (n : PlannedNode) (source : OpError),
          r'.plan.nodes[j]? = some n ∧ e = .kernel n.name source ∧ r'.Blames j n source := by
      intro job n hn hjob hfailure
      cases hbefore : r.failure with
      | some e₀ => exact hold (by rw [hfailure, hbefore]; rfl)
      | none =>
          intro e he
          rw [hfailure, hbefore, Option.none_or] at he
          obtain ⟨source, htold, rfl⟩ := Option.map_eq_some_iff.mp he
          -- Only work that was failing tells of a failure.
          have hstage : job.stage = .failing source := by
            have hadv := n.advanced (r.plan.streamOf n) r.slots job.stage
            unfold stepOf at htold
            generalize n.advance (r.plan.streamOf n) r.slots job.stage = w at hadv htold
            generalize job.stage = stage at hadv
            cases hadv with
            | told => exact congrArg _ (Option.some.inj htold)
            | _ => cases htold
          have hblames := (h.nodes job.node n hn).failing source (hstage ▸ hl.placed.stage_inHand hjob)
          exact ⟨job.node, n, source, hs.plan ▸ hn, rfl,
            (hblames.resolve_left fun hne => hne hbefore).saw hl hn hs⟩
    cases hs with
    | pushed => exact hold rfl
    | took => exact hold rfl
    | worked hhead hown hn => exact hworked hn (Or.inr ⟨_, _, hhead, hown⟩) rfl
    | proceeded hactive hn => exact hworked hn (Or.inl hactive) rfl
    | did _ hnext _ hdid => exact hold (hdid.computed.2.2.trans hnext.computed.2.2)
  · rw [hs.plan] at hn
    exact (h.nodes j n hn).saw hl hn hs

theorem Rooted.start {p : Plan} (hr : start p fed = .ok r)
    (hnew : ∀ w label job, .run label job ∈ (m.queue w).pending → job.run ≠ i) : r.Rooted i m := by
  have hnone : ∀ j, r.stages i m j = [] := fun j => stages_start hr hnew
  refine ⟨fun e he => ?_, fun j n _ => ⟨fun e he => ?_, fun k left args u c hk => ?_⟩⟩
  · obtain ⟨slots, -, rfl⟩ := Outcome.map_eq_ok.mp hr
    cases he
  · rw [hnone] at he
    cases he
  · rw [hnone] at hk
    cases hk

end Run

/-- A kernel only says what the executor says of slots if that is its own error. -/
theorem PlannedNode.Faults.own {n : PlannedNode} {stream : Option Stream} {args : List (Option Tensor)}
    {source : OpError} (h : n.Faults stream args source) {k : Nat}
    (hk : source = .invalidArgument (.neverProduced k) ∨ source = .invalidArgument (.alreadySet k)) :
    ∃ c, n.invoke stream args = (.error (.error source), c) := by
  cases h with
  | @stopped stop c hrun =>
      cases stop with
      | error e => exact ⟨c, hrun⟩
      | panic payload => rcases hk with hk | hk <;> cases hk
  | unmade => rcases hk with hk | hk <;> cases hk

namespace System

variable {σ : System}

theorem Reached.sourced (h : Reached σ) {i : Nat} {r : Run} (hr : σ.runs[i]? = some r) : r.Sourced := by
  obtain ⟨-, -, -, hsourced⟩ := h.kept_lawful (P := fun _ _ r _ => r.Sourced)
    (fun hstart _ _ => by
      obtain ⟨slots, -, rfl⟩ := Outcome.map_eq_ok.mp hstart
      exact ⟨fun _ he => (by cases he), fun _ he => (by cases he)⟩)
    (fun hl _ hsourced hs => hsourced.saw hl hs) hr
  exact hsourced

theorem Reached.rooted (h : Reached σ) {i : Nat} {r : Run} (hr : σ.runs[i]? = some r) :
    r.Rooted i σ.machine := by
  obtain ⟨-, -, -, hrooted⟩ := h.kept_lawful (P := fun i _ r m => r.Rooted i m)
    (fun hstart _ hnew => .start hstart hnew)
    (fun hl _ hrooted hs => hrooted.saw hl hs) hr
  exact hrooted

/-- **A run that fails for a node names a root cause.** The kernel of the node was called, once, on what
    its inputs read, all of which was there; it ended with this error or with a panic, or without an output
    that the node names. That an input was never produced, or an output already set, is only said where the
    kernel itself says it. -/
theorem kernel_failure_rooted (h : Reached σ) {i : Nat} {r : Run} (hr : σ.runs[i]? = some r) {name : String}
    {source : OpError} (hresult : r.result = .error (.kernel name source)) :
    ∃ (j : Nat) (n : PlannedNode) (args : List (Option Tensor)), r.plan.nodes[j]? = some n ∧ n.name = name ∧
      r.callsOf j = [args] ∧ args = (n.inputs.map fun v => v.bind r.slots.get?) ∧
      (∀ v, some v ∈ n.inputs → (r.slots.get? v).isSome) ∧
      n.Faults (r.plan.streamOf n) args source ∧
      ∀ k, source = .invalidArgument (.neverProduced k) ∨ source = .invalidArgument (.alreadySet k) →
        ∃ c, n.invoke (r.plan.streamOf n) args = (.error (.error source), c) := by
  have hsourced := h.sourced hr
  have hfailure : r.failure = some (.kernel name source) := by
    unfold Run.result at hresult
    split at hresult
    next e he =>
      obtain rfl := Except.error.inj hresult
      rcases Option.or_eq_some_iff.mp he with hboth | ⟨-, hflush⟩
      · rcases Option.or_eq_some_iff.mp hboth with hlaunch | ⟨-, hfailure⟩
        · obtain ⟨e', heq, -⟩ := hsourced.launchError _ hlaunch
          cases heq
        · exact hfailure
      · obtain ⟨e', heq, -⟩ := hsourced.flushError _ hflush
        cases heq
    · obtain ⟨o, -, ho⟩ := Outcome.exists_of_mapM_eq_error hresult
      unfold Run.output at ho
      split at ho <;> cases ho
  obtain ⟨j, n, source', hn, heq, args, hcalled, hfaults⟩ := (h.rooted hr).failure _ hfailure
  injection heq with hname hsource
  subst hname hsource
  exact ⟨j, n, args, hn, rfl, hcalled.once, hcalled.taken.args_eq hcalled.all,
    fun v hv => hcalled.taken.inputs_there hcalled.all hv, hfaults, fun k hk => hfaults.own hk⟩

/-- Two nodes, of which the first adds tensors of different shapes on the device, and the second copies
    the sum on the host. -/
def unevenGraph : Graph :=
  { inputs := [("x", .float32), ("y", .float32)]
    nodes :=
      [{ name := "sum", domain := Builtin.domain, op := "Add", inputs := ["x", "y"], outputs := ["s"]
         provider := some .sim },
        { name := "copy", domain := Builtin.domain, op := "Identity", inputs := ["s"], outputs := ["z"] }]
    outputs := ["z"] }

/-- The addition is to blame, not the copy that found no sum. -/
theorem kernel_failure_rooted_uneven : ∃ (σ : System) (r : Run) (source : OpError), Reached σ ∧
    σ.runs[0]? = some r ∧ r.isOver = true ∧ r.result = .error (.kernel "sum" source) ∧
    r.callsOf 0 = [[some relayed, some { relayed with shape := [1], strides := [1] }]] ∧ r.callsOf 1 = [] ∧
    ∃ (j : Nat) (n : PlannedNode) (args : List (Option Tensor)), r.plan.nodes[j]? = some n ∧
      n.name = "sum" ∧ r.callsOf j = [args] ∧ n.Faults (r.plan.streamOf n) args source := by
  have hwhole : ∃ s m₁ events p life m₂ r₀ r' source,
      Session.start relaySetup ({} : Machine NodeJob) = (.ok (s, m₁), events) ∧
      Plan.build s unevenGraph m₁ = ((.ok p, life), m₂) ∧
      Run.start p [("x", relayed), ("y", { relayed with shape := [1], strides := [1] })] = .ok r₀ ∧
      ((Execution.mk m₂ [r₀]).finish 0).runs[0]? = some r' ∧ r'.isOver = true ∧
      r'.result = .error (.kernel "sum" source) ∧
      r'.callsOf 0 = [[some relayed, some { relayed with shape := [1], strides := [1] }]] ∧ r'.callsOf 1 = [] :=
    ⟨_, _, _, _, _, _, _, _, _, rfl, rfl, rfl, rfl, rfl, rfl, rfl, rfl⟩
  obtain ⟨s, m₁, events, p, life, m₂, r₀, r, source, hstart, hbuild, hr₀, hr, hover, hresult, hcalls,
    hcalls'⟩ := hwhole
  have hreached := Reached.first rfl hstart hbuild hr₀
  obtain ⟨j, n, args, hn, hname, hcall, -, -, hfaults, -⟩ := kernel_failure_rooted hreached hr hresult
  exact ⟨_, r, source, hreached, hr, hover, hresult, hcalls, hcalls', j, n, args, hn, hname, hcall, hfaults⟩

end System

end OpGraph
