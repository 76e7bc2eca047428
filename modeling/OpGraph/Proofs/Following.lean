import OpGraph.Proofs.Ordered

/-!
# `Proofs.Following` — runs of a plan that has a solution

A solution of a plan decides what every run does that was given the same: each kernel is called on what the
solution has for its inputs, and makes what the solution has for its outputs. If all waits of the plan are
admitted as well and its devices have nothing to report, nothing can fail in such a run, in whatever order
things happen (`Run.Follows`).
-/

namespace OpGraph

open Machine

namespace Run

variable {i j : Nat} {r r' q : Run} {m m' : Machine NodeJob} {n : PlannedNode} {a : Instruction}
  {more : Worker → List (Command NodeJob)} {solution : ValueStore}

/-- Nothing failed, and everything published is as in the solution. -/
structure Follows (solution : ValueStore) (i : Nat) (m : Machine NodeJob) (r : Run) : Prop where
  failure : r.failure = none
  launchError : r.launchError = none
  below : r.slots.Grows solution
  given : ∀ v, r.plan.IsGiven v → (r.slots.get? v).isSome
  sane : ∀ (j : Nat) n e, r.plan.nodes[j]? = some n → .failing e ∉ r.stages i m j

/-- Work that goes on next finds settled what its node reads. -/
theorem Ordered.inHand (h : r.Ordered i m) {job : NodeJob} (hjob : r.InHand i m job) {u : Nat}
    (hfeeds : r.plan.Feeds u job.node) : r.Settled u := by
  rcases hjob with hactive | ⟨w, label, hhead, hrun⟩
  · exact h.active job u hactive hfeeds
  · exact h.front hhead ⟨hrun, hfeeds⟩

/-- **No step of the work of a node fails**, and what it publishes is as in the solution. -/
theorem Follows.advanced (h : r.Follows solution i m) (hp : r.Placed i m) (hst : r.Stands i m)
    (hord : r.Ordered i m) (hsolves : r.plan.Solves solution) {job : NodeJob} {w : WorkStep}
    (hn : r.plan.nodes[job.node]? = some n) (hjob : r.InHand i m job)
    (hadv : n.Advanced (r.plan.streamOf n) r.slots job.stage w) :
    w.failure = none ∧ (∀ e, w.rest ≠ some (.failing e)) ∧ w.slots.Grows solution := by
  have hstage := hp.stage_inHand hjob
  have hworking := hst.working hn hstage
  obtain ⟨args', hsolved⟩ := hsolves job.node n hn
  obtain ⟨u', c', before', hrun', hzip', hshown'⟩ := hsolved.made
  rw [List.append_nil] at hzip'
  subst hzip'
  -- A kernel that was called on all arguments was called on those of the solution.
  have hsame : ∀ {args : List (Option Tensor)}, args.length = n.inputs.length →
      (∀ (k : Nat) i a, n.inputs[k]? = some i → args[k]? = some a → r.slots.Reads i a) → args = args' :=
    fun hlen hreads => PlannedNode.args_unique hlen hsolved.length
      (fun k i a hi ha => (hreads k i a hi ha).mono h.below) hsolved.reads
  have hentry : ∀ {args left}, n.Ran (r.plan.streamOf n) r.slots args left →
      ∀ e ∈ left, solution.Shows e := by
    intro args left hran e he
    obtain ⟨u, c, before, hrun, hzip, -⟩ := hran.made
    rw [hsame hran.length hran.reads, hrun'] at hrun
    obtain ⟨-, rfl⟩ := Prod.mk.inj hrun
    refine hshown' e ?_
    rw [hzip]
    exact List.mem_append_right _ he
  generalize job.stage = stage at hadv hstage hworking
  cases hworking with
  | failing => exact absurd hstage (h.sane job.node n _ hn)
  | taking _ htaken =>
      cases hadv with
      | took => exact ⟨rfl, by simp, h.below⟩
      | @missing _ v hi hv =>
          have hmem := List.mem_of_getElem? hi
          have hthere : (r.slots.get? v).isSome := by
            rcases hp.sound.reads hn hmem with hgiven | ⟨u, -, hmakes⟩
            · exact h.given v hgiven
            · exact (hord.inHand hjob ⟨n, v, hn, hmem, hmakes⟩).resolve_right (fun hne => hne h.failure) v hmakes
          rw [hv] at hthere
          cases hthere
      | ran => exact ⟨rfl, by simp, h.below⟩
      | broke hall hrun =>
          have hlen := Nat.le_antisymm htaken.length hall
          rw [hsame hlen htaken.reads, hrun'] at hrun
          cases hrun
  | publishing _ hran hfree =>
      cases hadv with
      | finished => exact ⟨rfl, by simp, h.below⟩
      | unwanted => exact ⟨rfl, by simp, h.below⟩
      | unmade =>
          obtain ⟨t, ht, -⟩ := hentry hran _ List.mem_cons_self _ rfl
          cases ht
      | occupied hfull => exact absurd (hfree _ List.mem_cons_self _ rfl) hfull
      | @published k v t left hempty =>
          refine ⟨rfl, by simp, fun v' t' hv' => ?_⟩
          obtain ⟨t₀, ht₀, hv⟩ := hentry hran _ List.mem_cons_self v rfl
          obtain rfl : t = t₀ := Option.some.inj ht₀
          rw [ValueStore.get?_set] at hv'
          split at hv'
          next heq =>
            obtain rfl := Option.some.inj hv'
            exact heq.1 ▸ hv
          · exact h.below v' t' hv'

/-- **No wait fails.** -/
theorem Follows.did (h : r.Follows solution i m) (hp : r.Placed i m) (hnot : r.Notified)
    (hadmits : ∀ w who, .wait w who ∈ r.plan.launching → r.plan.Admits w who)
    (hresponsive : r.plan.Responsive) (hnext : r.Next a q) (hd : Did i m m' q a r' more) : r'.launchError = none := by
  have hsame : q.notifications = r.notifications ∧ q.launchError = r.launchError :=
    ⟨hnext.host.1, hnext.host.2.2.1⟩
  have hfine := hsame.2.trans h.launchError
  cases hd with
  | absent hnone =>
      obtain ⟨hlaunching, hsuffix, hq⟩ := hp.next_launching hnext Plan.draining_not_wait
      have hgoing : r.Going := ⟨h.launchError, Or.inl h.failure⟩
      have hready := hnot.wait_ready hp.sound hgoing hlaunching hsuffix
      rw [notification?, hsame.1] at hnone
      rw [notification?, hnone] at hready
      cases hready
  | @refused w who n k e hn hfails =>
      obtain ⟨hlaunching, hsuffix, hq⟩ := hp.next_launching hnext Plan.draining_not_wait
      rw [notification?, hsame.1] at hn
      obtain ⟨node, s, hnode, hs, hadmits⟩ := hadmits w who (hsuffix.subset List.mem_cons_self)
      obtain ⟨node', s', hnode', hs', hstream, -⟩ := hnot.made w.producer n hn
      obtain rfl := Option.some.inj (hnode.symm.trans hnode')
      obtain rfl := Option.some.inj (hs.symm.trans hs')
      cases hfails with
      | refused _ hrefused =>
          refine absurd ⟨?_, ?_⟩ hrefused
          · rw [hstream, hnext.plan]
            exact hadmits
          · have hcounted := (hnot.waited hlaunching hn (Nat.le_refl 1)).2
            omega
      | reported hreport =>
          rw [hstream, hresponsive s (streamOf_mem hs)] at hreport
          cases hreport
  | check => split <;> exact hfine
  | _ => exact hfine

theorem Follows.saw (h : r.Follows solution i m) (hp : r.Placed i m) (hst : r.Stands i m)
    (hnot : r.Notified) (hord : r.Ordered i m) (hsolves : r.plan.Solves solution)
    (hadmits : ∀ w who, .wait w who ∈ r.plan.launching → r.plan.Admits w who)
    (hresponsive : r.plan.Responsive) (hs : r.Saw i m r' m') : r'.Follows solution i m' := by
  have hplan := hs.plan
  have hgiven : ∀ v, r'.plan.IsGiven v → (r'.slots.get? v).isSome := by
    intro v hv
    obtain ⟨t, ht⟩ := Option.isSome_iff_exists.mp (h.given v (hplan ▸ hv))
    rw [hs.slots.2 v t ht]
    rfl
  -- New work takes arguments, and work that goes on does not fail.
  have hsane : ∀ (j : Nat) n e, r'.plan.nodes[j]? = some n → .failing e ∉ r'.stages i m' j := by
    intro j n e hn hmem
    rw [hplan] at hn
    have hold := h.sane j n e hn
    cases hs.moved hp hst hn with
    | still hstages => exact hold (hstages ▸ hmem)
    | launched _ _ hstages =>
        rw [hstages] at hmem
        rcases List.mem_append.mp hmem with hmem | hmem
        · exact hold hmem
        · cases List.mem_singleton.mp hmem
    | worked hjob hnode hstages hadv hstages' =>
        subst hnode
        rw [hstages'] at hmem
        rcases List.mem_append.mp hmem with hmem | hmem
        · exact (h.advanced hp hst hord hsolves hn hjob hadv).2.1 e (Option.mem_toList.mp hmem)
        · exact hold (by rw [hstages]; exact List.mem_cons_of_mem _ hmem)
  have hstep : ∀ {job n}, r.plan.nodes[job.node]? = some n → r.InHand i m job →
      r.failure.or ((r.stepOf n job).failure.map (SessionError.kernel n.name ·)) = none ∧
        (r.stepOf n job).slots.Grows solution := by
    intro job n hn hjob
    obtain ⟨hfailure, -, hbelow⟩ := h.advanced hp hst hord hsolves hn hjob
      (n.advanced (r.plan.streamOf n) r.slots job.stage)
    refine ⟨?_, hbelow⟩
    rw [h.failure, stepOf, hfailure]
    rfl
  cases hs with
  | pushed => exact ⟨h.failure, h.launchError, h.below, hgiven, hsane⟩
  | took => exact ⟨h.failure, h.launchError, h.below, hgiven, hsane⟩
  | worked hhead hown hn =>
      obtain ⟨hfailure, hbelow⟩ := hstep hn (Or.inr ⟨_, _, hhead, hown⟩)
      exact ⟨hfailure, h.launchError, hbelow, hgiven, hsane⟩
  | proceeded hactive hn =>
      obtain ⟨hfailure, hbelow⟩ := hstep hn (Or.inl hactive)
      exact ⟨hfailure, h.launchError, hbelow, hgiven, hsane⟩
  | did _ hnext _ hdid =>
      obtain ⟨hslots, -, hfailure⟩ := hdid.computed
      obtain ⟨hslots', -, hfailure'⟩ := hnext.computed
      refine ⟨?_, h.did hp hnot hadmits hresponsive hnext hdid, ?_, hgiven, hsane⟩
      · rw [hfailure, hfailure']
        exact h.failure
      · rw [hslots, hslots']
        exact h.below

theorem Follows.start {p : Plan} {fed : List (String × Tensor)} {slots : ValueStore} (hr : start p fed = .ok r)
    (hslots : initialSlots p fed = .ok slots) (hs : p.Sound) (hbelow : slots.Grows solution)
    (hnew : ∀ w label job, .run label job ∈ (m.queue w).pending → job.run ≠ i) :
    r.Follows solution i m := by
  have hnone : ∀ j, r.stages i m j = [] := fun j => stages_start hr hnew
  obtain ⟨slots', hslots', rfl⟩ := Outcome.map_eq_ok.mp hr
  obtain rfl := Except.ok.inj (hslots.symm.trans hslots')
  refine ⟨rfl, rfl, hbelow, fun v => ((Plan.initialSlots_eq_ok hs hslots).2 v).mpr, fun j n e hn hmem => ?_⟩
  rw [hnone j] at hmem
  cases hmem

end Run

end OpGraph
