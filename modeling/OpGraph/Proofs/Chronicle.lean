import OpGraph.Proofs.Refinement

/-!
# `Proofs.Chronicle` — what hosts carried out

A system does not remember what its hosts did. To speak of that, a chronicle is kept along with it
(`System.Chronicled`): every instruction that the host of a run carried out, in order. Of one run it is the
beginning of what its plan says about launching, then the beginning of what it says about draining
(`Run.Trail`). Instructions are dropped only where something failed.
-/

namespace OpGraph

open Machine

namespace Run

variable {i : Nat} {r r' q : Run} {m m' : Machine NodeJob} {a : Instruction}
  {more : Worker → List (Command NodeJob)}

/-- The instruction the host carries out next; none in the middle of work, and at the end. -/
def next? (r : Run) : Option Instruction :=
  match r.active with
  | some _ => none
  | none => (r.launching ++ r.draining).head?

theorem Next.next? (h : r.Next a q) (hactive : r.active = none) : r.next? = some a := by
  cases h with
  | launching heq => simp [Run.next?, hactive, heq]
  | draining hnil heq => simp [Run.next?, hactive, hnil, heq]

/-- Whatever is carried out is ahead no longer. -/
theorem Next.shorter (h : r.Next a q) (hd : Did i m m' q a r' more) :
    r'.launching ≠ r.launching ∨ r'.draining ≠ r.draining := by
  cases h with
  | launching heq =>
      refine Or.inl fun hsame => ?_
      have hle := hd.ahead.1.length_le
      rw [hsame, heq] at hle
      exact Nat.not_succ_le_self _ hle
  | draining _ heq =>
      refine Or.inr fun hsame => ?_
      have hle := hd.ahead.2.length_le
      rw [hsame, heq] at hle
      exact Nat.not_succ_le_self _ hle

/-- The host's side of a run stays as it is while the host carries nothing out. -/
structure Unmoved (r r' : Run) : Prop where
  plan : r'.plan = r.plan
  launching : r'.launching = r.launching
  draining : r'.draining = r.draining
  notifications : r'.notifications = r.notifications
  launchError : r'.launchError = r.launchError
  flushError : r'.flushError = r.flushError
  failure : r.failure ≠ none → r'.failure ≠ none

theorem Saw.unmoved (h : r.Saw i m r' m') (hlaunching : r'.launching = r.launching)
    (hdraining : r'.draining = r.draining) : r.Unmoved r' := by
  have hfailure := h.failure
  cases h with
  | did _ hnext _ hdid =>
      rcases hnext.shorter hdid with hne | hne
      · exact absurd hlaunching hne
      · exact absurd hdraining hne
  | _ => exact ⟨rfl, rfl, rfl, rfl, rfl, rfl, hfailure⟩

/-! ## From the plan to what was carried out -/

/-- What a host carried out while launching and while draining, against the plan. -/
structure Trail (r : Run) (launched drained : List Instruction) : Prop where
  /-- Of the instructions for launching, those in the middle were dropped, and only if something failed. -/
  launching : ∃ dropped, r.plan.launching = launched ++ dropped ++ r.launching ∧
    (dropped ≠ [] → r.launching = [] ∧ (r.launchError ≠ none ∨ r.failure ≠ none))
  draining : ∃ dropped, r.plan.draining = drained ++ dropped ++ r.draining ∧
    (dropped ≠ [] → r.draining = [] ∧ r.flushError ≠ none)
  order : drained ≠ [] → r.launching = []

variable {launched drained : List Instruction}

theorem Trail.start {p : Plan} {fed : List (String × Tensor)} (hr : start p fed = .ok r) :
    r.Trail [] [] := by
  obtain ⟨slots, -, rfl⟩ := Outcome.map_eq_ok.mp hr
  exact ⟨⟨[], rfl, nofun⟩, ⟨[], rfl, nofun⟩, nofun⟩

theorem Trail.unmoved (h : r.Trail launched drained) (hu : r.Unmoved r') : r'.Trail launched drained := by
  obtain ⟨⟨dropped, hplan, hwhy⟩, ⟨dropped', hplan', hwhy'⟩, horder⟩ := h
  refine ⟨⟨dropped, ?_, fun hne => ?_⟩, ⟨dropped', ?_, fun hne => ?_⟩, ?_⟩
  · rw [hu.plan, hu.launching, hplan]
  · rw [hu.launching, hu.launchError]
    exact (hwhy hne).imp id (Or.imp id hu.failure)
  · rw [hu.plan, hu.draining, hplan']
  · rw [hu.draining, hu.flushError]
    exact hwhy' hne
  · rw [hu.launching]
    exact horder

/-- The next instruction is carried out. -/
theorem Trail.did (h : r.Trail launched drained) (hp : r.Placed i m) (hnext : r.Next a q)
    (hd : Did i m m' q a r' more) : ∃ launched' drained',
      launched' ++ drained' = launched ++ drained ++ [a] ∧ r'.Trail launched' drained' := by
  obtain ⟨⟨dropped, hplan, hwhy⟩, ⟨dropped', hplan', hwhy'⟩, horder⟩ := h
  have hsame : r'.plan = r.plan := hd.plan.trans hnext.plan
  have hkept : (r.launchError ≠ none ∨ r.failure ≠ none → r'.launchError ≠ none ∨ r'.failure ≠ none) ∧
      (r.flushError ≠ none → r'.flushError ≠ none) := by
    obtain ⟨-, -, hlaunch, hflush⟩ := hnext.host
    refine ⟨Or.imp (fun hne => hd.errors.1 (hlaunch ▸ hne)) fun hne => ?_, fun hne =>
      hd.errors.2 (hflush ▸ hne)⟩
    rw [hd.computed.2.2, hnext.computed.2.2]
    exact hne
  rcases hp.next hnext with ⟨hlaunching, hsuffix, hdraining⟩ | ⟨hnil, hnil', hdraining, hsuffix⟩
  · -- Nothing was dropped so far, and draining is yet to begin.
    obtain rfl : dropped = [] := Classical.byContradiction fun hne => by
      rw [hlaunching] at hwhy
      cases (hwhy hne).1
    obtain rfl : drained = [] := Classical.byContradiction fun hne => by
      rw [hlaunching] at horder
      cases horder hne
    refine ⟨launched ++ [a], [], by simp, ?_, ?_, nofun⟩
    · rw [hsame, hplan, hlaunching]
      rcases hd.dropped.1 with heq | ⟨heq, hfailed⟩
      · exact ⟨[], by simp [heq], nofun⟩
      · exact ⟨q.launching, by simp [heq], fun _ => ⟨heq, hfailed⟩⟩
    · have hstays : r'.draining = r.draining := by
        refine (hd.draining ?_).trans hdraining
        rintro k rfl
        exact Plan.launching_not_flushed (hsuffix.subset List.mem_cons_self)
      exact ⟨dropped', by rw [hsame, hplan', hstays], fun hne => hstays ▸ (hwhy' hne).imp id hkept.2⟩
  · -- Launching is over for good, and nothing of draining was dropped so far.
    have hgone : r'.launching = [] := List.suffix_nil.mp (hnil' ▸ hd.ahead.1)
    obtain rfl : dropped' = [] := Classical.byContradiction fun hne => by
      rw [hdraining] at hwhy'
      cases (hwhy' hne).1
    refine ⟨launched, drained ++ [a], by simp, ⟨dropped, ?_, fun hne => ?_⟩, ?_, fun _ => hgone⟩
    · rw [hsame, hplan, hgone, hnil]
    · exact ⟨hgone, hkept.1 (hwhy hne).2⟩
    · rw [hsame, hplan', hdraining]
      rcases hd.dropped.2 with heq | ⟨heq, hfailed⟩
      · exact ⟨[], by simp [heq], nofun⟩
      · exact ⟨q.draining, by simp [heq], fun _ => ⟨heq, hfailed⟩⟩

end Run

/-! ## Keeping a chronicle -/

namespace System

variable {σ σ' : System} {log : List (Nat × Instruction)} {i : Nat} {r : Run}

/-- A system that came about, with the instructions that hosts carried out on the way, each with the number
    of its run. -/
inductive Chronicled : System → List (Nat × Instruction) → Prop
  | empty : Chronicled {} []
  /-- The host of a run carries its next instruction out. -/
  | performed {σ : System} {log : List (Nat × Instruction)} {i : Nat} {r : Run} {a : Instruction}
      {x : Execution} : Chronicled σ log → σ.runs[i]? = some r → r.next? = some a →
      σ.execution.hostStep i = some x → Chronicled { σ with execution := x } (log ++ [(i, a)])
  /-- A step that leaves everything that is ahead of hosts ahead of them. -/
  | passed {σ σ' : System} {log : List (Nat × Instruction)} : Chronicled σ log → Step σ σ' →
      (∀ (i : Nat) (r : Run), σ.runs[i]? = some r → ∃ r' : Run, σ'.runs[i]? = some r' ∧
        r'.launching = r.launching ∧ r'.draining = r.draining) → Chronicled σ' log

/-- What the host of a run carried out, in order. -/
def carriedOut (i : Nat) (log : List (Nat × Instruction)) : List Instruction :=
  (log.filter (·.1 = i)).map (·.2)

theorem carriedOut_self (i : Nat) (log : List (Nat × Instruction)) (a : Instruction) :
    carriedOut i (log ++ [(i, a)]) = carriedOut i log ++ [a] := by
  simp [carriedOut]

theorem carriedOut_of_ne {k : Nat} (h : k ≠ i) (log : List (Nat × Instruction)) (a : Instruction) :
    carriedOut i (log ++ [(k, a)]) = carriedOut i log := by
  simp [carriedOut, h]

theorem Chronicled.reached (h : Chronicled σ log) : Reached σ := by
  induction h with
  | empty => exact .empty
  | performed _ _ _ hstep ih => exact .step ih (.host hstep)
  | passed _ hs _ ih => exact .step ih hs

/-- Nothing is told of runs that are not there. -/
theorem Chronicled.lt (h : Chronicled σ log) : ∀ e ∈ log, e.1 < σ.runs.length := by
  induction h with
  | empty => exact nofun
  | @performed σ log i r a x _ hr _ hstep ih =>
      have hlen : x.runs.length = σ.runs.length := by
        rcases Step.started (.host hstep : Step σ { σ with execution := x }) with
          ⟨hlen, -⟩ | ⟨p, fed, r, -, -, -, hfeeds, -⟩
        · exact hlen
        · simp at hfeeds
      intro e he
      show e.1 < x.runs.length
      rw [hlen]
      rcases List.mem_append.mp he with hold | hnew
      · exact ih e hold
      · obtain rfl := List.mem_singleton.mp hnew
        exact (List.getElem?_eq_some_iff.mp hr).1
  | passed _ hs _ ih =>
      intro e he
      rcases hs.started with ⟨hlen, -⟩ | ⟨p, fed, r, -, -, hruns, -⟩
      · exact hlen ▸ ih e he
      · rw [hruns, List.length_append]
        exact Nat.lt_add_right _ (ih e he)

theorem hostStep_eq_some {x : Execution} (h : σ.execution.hostStep i = some x) :
    ∃ r, σ.runs[i]? = some r ∧ ∃ r' m', r.hostStep i σ.machine = some (r', m') ∧
      x = { machine := m', runs := σ.runs.set i r' } := by
  unfold Execution.hostStep at h
  split at h
  · cases h
  next r hr =>
    obtain ⟨⟨r', m'⟩, hhost, rfl⟩ := Option.map_eq_some_iff.mp h
    exact ⟨r, hr, r', m', hhost, rfl⟩

/-- What is ahead of every host stays where one run changes and what is ahead of its host does not. -/
theorem set_keeps {runs : List Run} {r' : Run} (hr : runs[i]? = some r)
    (hsame : r'.launching = r.launching ∧ r'.draining = r.draining) (k : Nat) (q : Run)
    (hq : runs[k]? = some q) : ∃ q', (runs.set i r')[k]? = some q' ∧ q'.launching = q.launching ∧
      q'.draining = q.draining := by
  by_cases hk : i = k
  · subst hk
    obtain rfl := Option.some.inj (hr.symm.trans hq)
    exact ⟨r', List.getElem?_set_self (List.getElem?_eq_some_iff.mp hr).1, hsame⟩
  · exact ⟨q, (List.getElem?_set_ne hk).trans hq, rfl, rfl⟩

/-- The host of a run carries its next instruction out, and nothing happens to other runs. -/
theorem hostStep_next (hg : Grounded σ) (hr : σ.runs[i]? = some r) {a : Instruction}
    (hnext : r.next? = some a) {x : Execution} (hstep : σ.execution.hostStep i = some x) :
    ∃ q r' more, x.runs[i]? = some r' ∧ (∀ k, k ≠ i → x.runs[k]? = σ.runs[k]?) ∧ r.active = none ∧
      r.Next a q ∧ Pushes σ.machine x.machine more ∧ Run.Did i σ.machine x.machine q a r' more := by
  obtain ⟨r₀, hr₀, r', m', hhost, rfl⟩ := hostStep_eq_some hstep
  obtain rfl := Option.some.inj (hr.symm.trans hr₀)
  have hplaced := hg.placed i r hr
  rcases Run.hostStep_eq_some hplaced.homed hplaced.on hhost with
    ⟨job, hactive, -⟩ | ⟨hactive, a', q, more, hnext', hp, hdid⟩
  · simp [Run.next?, hactive] at hnext
  · obtain rfl : a = a' := Option.some.inj (hnext.symm.trans (hnext'.next? hactive))
    have hlt := (List.getElem?_eq_some_iff.mp hr).1
    exact ⟨q, r', more, List.getElem?_set_self hlt, fun k hk => List.getElem?_set_ne (Ne.symm hk), hactive,
      hnext', hp, hdid⟩

/-- **Every system has a chronicle.** -/
theorem Reached.exists_chronicle (h : Reached σ) : ∃ log, Chronicled σ log := by
  induction h with
  | empty => exact ⟨_, .empty⟩
  | @step σ σ' hreached hs ih =>
      obtain ⟨log, hlog⟩ := ih
      have hpass : σ'.runs = σ.runs → ∃ log, Chronicled σ' log := fun hsame =>
        ⟨log, .passed hlog hs fun i r hr => ⟨r, hsame ▸ hr, rfl, rfl⟩⟩
      cases hs with
      | device => exact hpass rfl
      | session => exact hpass rfl
      | prepare => exact hpass rfl
      | refuse => exact hpass rfl
      | begin hp hstart =>
          refine ⟨log, .passed hlog (.begin hp hstart) fun i r hr => ⟨r, ?_, rfl, rfl⟩⟩
          show (σ.runs ++ _)[i]? = some r
          rw [List.getElem?_append_left (List.getElem?_eq_some_iff.mp hr).1]
          exact hr
      | @host i x hstep =>
          obtain ⟨r, hr, r', m', hhost, rfl⟩ := hostStep_eq_some hstep
          have hplaced := hreached.grounded.placed i r hr
          rcases Run.hostStep_eq_some hplaced.homed hplaced.on hhost with
            ⟨job, -, rfl, rfl⟩ | ⟨hactive, a, q, more, hnext, -⟩
          · refine ⟨log, .passed hlog (.host hstep) (set_keeps hr ?_)⟩
            unfold Run.proceed
            split <;> exact ⟨rfl, rfl⟩
          · exact ⟨_, .performed hlog hr (hnext.next? hactive) hstep⟩
      | @work w x hstep =>
          have hold := hstep
          unfold Execution.workerStep at hold
          obtain ⟨⟨runs', m'⟩, hwork, rfl⟩ := Option.map_eq_some_iff.mp hold
          obtain ⟨c, front, more, -, -, hhead, -, htook⟩ := step_eq_some hwork
          cases htook with
          | @run label job e _ ends hexec =>
              obtain ⟨r, n, hr, hn, -⟩ := hreached.grounded.job (List.mem_of_mem_head? hhead)
              obtain ⟨rfl, -⟩ := execute_eq_some hexec hr hn
              exact ⟨log, .passed hlog (.work hstep) (set_keeps hr ⟨rfl, rfl⟩)⟩
          | _ => exact ⟨log, .passed hlog (.work hstep) fun i r hr => ⟨r, hr, rfl, rfl⟩⟩

/-! ## What the host of a run carried out -/

/-- **What holds of every run as it starts, and is kept both by what others do and by every instruction its
    host carries out, holds at any time of the run and all that its host carried out.** -/
theorem Chronicled.kept {P : Nat → Run → Machine NodeJob → List Instruction → Prop}
    (start : ∀ {i p fed r m}, Run.start p fed = .ok r → r.Lawful fed i m → P i r m [])
    (unmoved : ∀ {i fed r m r' m' done}, r.Lawful fed i m → m.Tidy → P i r m done → r.Saw i m r' m' →
      r.Unmoved r' → P i r' m' done)
    (did : ∀ {i fed r m q r' m' a more done}, r.Lawful fed i m → m.Tidy → P i r m done → r.active = none →
      r.Next a q → Pushes m m' more → Run.Did i m m' q a r' more → P i r' m' (done ++ [a]))
    (h : Chronicled σ log) (hr : σ.runs[i]? = some r) : P i r σ.machine (carriedOut i log) := by
  induction h generalizing i r with
  | empty => cases hr
  | @performed σ log k r₀ a x hlog hr₀ hnext hstep ih =>
      have hg := hlog.reached.grounded
      obtain ⟨q, r₁, more, hr₁, hothers, hactive, hnext, hpushes, hdid⟩ := hostStep_next hg hr₀ hnext hstep
      have hr : x.runs[i]? = some r := hr
      by_cases hk : k = i
      · subst hk
        obtain rfl := Option.some.inj (hr₁.symm.trans hr)
        obtain ⟨fed, hlawful⟩ := hlog.reached.exists_lawful hr₀
        rw [carriedOut_self]
        exact did hlawful hg.tidy (ih hr₀) hactive hnext hpushes hdid
      · -- The host of another run went on, and this one saw no more of it than the machine.
        rw [hothers i (Ne.symm hk)] at hr
        obtain ⟨fed, hlawful⟩ := hlog.reached.exists_lawful hr
        obtain ⟨r', hr', hsaw⟩ := (Step.host hstep : Step σ { σ with execution := x }).saw hg hr
        have hr' : x.runs[i]? = some r' := hr'
        obtain rfl : r = r' := by
          rw [hothers i (Ne.symm hk)] at hr'
          exact Option.some.inj (hr.symm.trans hr')
        rw [carriedOut_of_ne hk]
        exact unmoved hlawful hg.tidy (ih hr) hsaw (hsaw.unmoved rfl rfl)
  | @passed σ σ' log hlog hs hsame ih =>
      have hg := hlog.reached.grounded
      rcases hs.run hg hr with ⟨r₀, hr₀, hsaw, -⟩ | ⟨p, fed, hp, hstart, rfl, hfed, -⟩
      · obtain ⟨r', hr', hlaunching, hdraining⟩ := hsame i r₀ hr₀
        obtain rfl := Option.some.inj (hr'.symm.trans hr)
        obtain ⟨fed, hlawful⟩ := hlog.reached.exists_lawful hr₀
        exact unmoved hlawful hg.tidy (ih hr₀) hsaw (hsaw.unmoved hlaunching hdraining)
      · -- The run is new, so there is nothing about it in the chronicle.
        have hnone : carriedOut σ.runs.length log = [] := by
          unfold carriedOut
          rw [List.map_eq_nil_iff, List.filter_eq_nil_iff]
          intro e he
          simpa using Nat.ne_of_lt (hlog.lt e he)
        rw [hnone]
        exact start hstart ((Reached.step hlog.reached hs).lawful hr hfed)

/-- What the host of a run carried out is the beginning of what its plan says. -/
theorem Chronicled.trail (h : Chronicled σ log) (hr : σ.runs[i]? = some r) :
    ∃ launched drained, carriedOut i log = launched ++ drained ∧ r.Trail launched drained :=
  h.kept (P := fun _ r _ done => ∃ launched drained, done = launched ++ drained ∧ r.Trail launched drained)
    (fun hstart _ => ⟨[], [], rfl, .start hstart⟩)
    (fun _ _ ⟨launched, drained, hdone, htrail⟩ _ hunmoved =>
      ⟨launched, drained, hdone, htrail.unmoved hunmoved⟩)
    (fun hlawful _ ⟨launched, drained, hdone, htrail⟩ _ hnext _ hdid => by
      obtain ⟨launched', drained', happend, htrail'⟩ := htrail.did hlawful.placed hnext hdid
      exact ⟨launched', drained', by rw [hdone, happend], htrail'⟩) hr

end System

end OpGraph
