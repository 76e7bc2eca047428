import OpGraph.Proofs.Grounded
import OpGraph.Proofs.Sequential

/-!
# `Proofs.Standing` — how far each node of a run has come

At any time a node of a run is waiting to be launched, has its work somewhere, or is over; its kernel was
called at most once, and on what its inputs read (`Run.Standing`). To a node a step of the system is one of
three things (`Run.Moved`): the host launches it, its work goes a step further, or something happens that
leaves it and the slots of its outputs alone.
-/

namespace OpGraph

open Machine

/-- How far the work of a node has come that waits as a command. -/
def Command.stage? (i j : Nat) : Command NodeJob → Option Stage
  | .run _ job => if job.run = i ∧ job.node = j then some job.stage else none
  | _ => none

theorem Command.stage?_eq_none {i j : Nat} {c : Command NodeJob}
    (h : ∀ label job, c = .run label job → job.run = i → job.node ≠ j) : c.stage? i j = none := by
  cases c with
  | run label job =>
      have hne : ¬(job.run = i ∧ job.node = j) := fun hjob => h label job rfl hjob.1 hjob.2
      simp [stage?, hne]
  | _ => rfl

theorem filterMap_stage?_eq_nil {i j : Nat} {cs : List (Command NodeJob)}
    (h : ∀ label job, .run label job ∈ cs → job.run = i → job.node ≠ j) :
    cs.filterMap (Command.stage? i j) = [] := by
  refine List.filterMap_eq_nil_iff.mpr fun c hc => Command.stage?_eq_none fun label job heq => ?_
  subst heq
  exact h label job hc

namespace Run

variable {i j : Nat} {r r' q : Run} {m m' : Machine NodeJob} {n : PlannedNode} {a : Instruction}
  {more : Worker → List (Command NodeJob)}

/-! ## What a run looks like from one node -/

/-- The work of a node that waits or goes on. -/
def stages (r : Run) (i : Nat) (m : Machine NodeJob) (j : Nat) : List Stage :=
  match r.plan.home j with
  | some w => (m.queue w).pending.filterMap (Command.stage? i j)
  | none => (r.active.filter fun job => job.node = j).toList.map (·.stage)

variable {p : Plan}

theorem stages_of_some {w : Worker} (hplan : r.plan = p) (h : p.home j = some w) :
    r.stages i m j = (m.queue w).pending.filterMap (Command.stage? i j) := by
  unfold stages
  rw [hplan, h]

theorem stages_of_none (hplan : r.plan = p) (h : p.home j = none) :
    r.stages i m j = (r.active.filter fun job => job.node = j).toList.map (·.stage) := by
  unfold stages
  rw [hplan, h]

/-- Work of a node on a queue is put behind what is there. -/
theorem stages_pushed {w : Worker} (hplan : r'.plan = r.plan) (hpushes : Pushes m m' more)
    (h : r.plan.home j = some w) :
    r'.stages i m' j = r.stages i m j ++ (more w).filterMap (Command.stage? i j) := by
  rw [stages_of_some hplan h, stages_of_some rfl h, hpushes.pending, List.filterMap_append]

/-- A worker takes the command in front, puts what is left of it in its place, and more behind the others. -/
theorem stages_popped {w : Worker} {c : Command NodeJob} {front more : List (Command NodeJob)}
    (hplan : r'.plan = r.plan) (hhead : (m.queue w).pending.head? = some c) (hp : Popped m m' w front more)
    (h : r.plan.home j = some w) : ∃ others, r.stages i m j = (c.stage? i j).toList ++ others ∧
      r'.stages i m' j = front.filterMap (Command.stage? i j) ++ others ++
        more.filterMap (Command.stage? i j) := by
  obtain ⟨rest, hbefore, hafter⟩ := hp.pending_eq hhead
  refine ⟨rest.filterMap (Command.stage? i j), ?_, ?_⟩
  · rw [stages_of_some rfl h, hbefore, List.filterMap_cons]
    cases c.stage? i j <;> rfl
  · rw [stages_of_some hplan h, hafter, List.filterMap_append, List.filterMap_append]

/-- A worker that goes on with no work of the node leaves the node where it is. -/
theorem stages_popped_of_none {w : Worker} {c : Command NodeJob} {front more : List (Command NodeJob)}
    (hplan : r'.plan = r.plan) (hactive : r'.active = r.active)
    (hhead : (m.queue w).pending.head? = some c) (hp : Popped m m' w front more)
    (hc : c.stage? i j = none) (hfront : front.filterMap (Command.stage? i j) = [])
    (hmore : more.filterMap (Command.stage? i j) = []) : r'.stages i m' j = r.stages i m j := by
  cases hhome : r.plan.home j with
  | none => rw [stages_of_none hplan hhome, stages_of_none rfl hhome, hactive]
  | some w' =>
      by_cases hw : w' = w
      · subst hw
        obtain ⟨others, hbefore, hafter⟩ := stages_popped (i := i) hplan hhead hp hhome
        rw [hbefore, hafter, hc, hfront, hmore, List.append_nil]
        rfl
      · rw [stages_of_some hplan hhome, stages_of_some rfl hhome, hp.others w' hw]

/-- What is left of a step of work is work of the same node. -/
theorem filterMap_restOf (label : String) (job : NodeJob) (step : WorkStep) :
    (restOf label job step).filterMap (Command.stage? i j) =
      if job.run = i ∧ job.node = j then step.rest.toList else [] := by
  unfold restOf
  by_cases hjob : job.run = i ∧ job.node = j
  · cases step.rest with
    | none => simp
    | some stage => simp [Command.stage?, hjob]
  · cases step.rest with
    | none => simp
    | some stage => simp [Command.stage?, hjob]

/-- The arguments that the kernel of a node was called on, one list for each call. -/
def callsOf (r : Run) (j : Nat) : List (List (Option Tensor)) :=
  r.calls.filterMap fun call => if call.1 = j then some call.2 else none

/-- The host is yet to launch the node. -/
def Ahead (r : Run) (j : Nat) : Prop := .launch j ∈ r.launching ∨ .work j ∈ r.launching

/-- No instruction was dropped so far. -/
def Going (r : Run) : Prop := r.launchError = none ∧ (r.failure = none ∨ r.launching ≠ [])

theorem callsOf_absorb (r : Run) (k : Nat) (name : String) (w : WorkStep) :
    (r.absorb k name w).callsOf j =
      r.callsOf j ++ if k = j then w.arguments.toList else [] := by
  unfold callsOf absorb
  rw [List.filterMap_append]
  congr 1
  cases w.arguments with
  | none => split <;> rfl
  | some args => by_cases h : k = j <;> simp [h]

/-! ## Where a node stands -/

/-- Where a node of run `i` stands. -/
inductive Standing (i : Nat) (m : Machine NodeJob) (r : Run) (j : Nat) (n : PlannedNode) : Prop
  /-- It was not launched yet, and will be unless something fails. -/
  | waiting : (r.Going → r.Ahead j) → r.stages i m j = [] → r.callsOf j = [] →
      (∀ v, some v ∈ n.outputs → r.slots.get? v = none) → Standing i m r j n
  /-- Its work takes the arguments. -/
  | taking {args : List (Option Tensor)} : ¬r.Ahead j → r.stages i m j = [.taking args] →
      r.callsOf j = [] → n.Taken r.slots args →
      (∀ v, some v ∈ n.outputs → r.slots.get? v = none) → Standing i m r j n
  /-- Its kernel ran, and its work publishes what was made. -/
  | publishing {args : List (Option Tensor)} {k : Nat} {left : List (Option Tensor × Option Nat)} :
      ¬r.Ahead j → r.stages i m j = [.publishing k left] → r.callsOf j = [args] →
      n.Ran (r.plan.streamOf n) r.slots args left →
      (∀ e ∈ left, ∀ v, e.2 = some v → r.slots.get? v = none) → Standing i m r j n
  /-- Its work failed, and nobody was told yet. -/
  | failing {e : OpError} : ¬r.Ahead j → r.stages i m j = [.failing e] → (r.callsOf j).length ≤ 1 →
      Standing i m r j n
  /-- Its work failed. -/
  | failed : ¬r.Ahead j → r.stages i m j = [] → (r.callsOf j).length ≤ 1 → r.failure ≠ none →
      Standing i m r j n
  /-- Everything it made is published. -/
  | done {args : List (Option Tensor)} : ¬r.Ahead j → r.stages i m j = [] → r.callsOf j = [args] →
      n.Ran (r.plan.streamOf n) r.slots args [] → Standing i m r j n

/-- Every node stands somewhere. -/
structure Stands (i : Nat) (m : Machine NodeJob) (r : Run) : Prop where
  length : r.slots.length = r.plan.values.length
  nodes : ∀ (j : Nat) n, r.plan.nodes[j]? = some n → r.Standing i m j n

/-- What is known of a node whose work has come to a stage. -/
inductive Working (r : Run) (j : Nat) (n : PlannedNode) : Stage → Prop
  | taking {args : List (Option Tensor)} : r.callsOf j = [] → n.Taken r.slots args →
      (∀ v, some v ∈ n.outputs → r.slots.get? v = none) → Working r j n (.taking args)
  | publishing {args : List (Option Tensor)} {k : Nat} {left : List (Option Tensor × Option Nat)} :
      r.callsOf j = [args] → n.Ran (r.plan.streamOf n) r.slots args left →
      (∀ e ∈ left, ∀ v, e.2 = some v → r.slots.get? v = none) → Working r j n (.publishing k left)
  | failing {e : OpError} : (r.callsOf j).length ≤ 1 → Working r j n (.failing e)

variable {stage : Stage}

/-- Work that stands somewhere is all the work there is of its node. -/
theorem Standing.working (h : r.Standing i m j n) (hstage : stage ∈ r.stages i m j) :
    ¬r.Ahead j ∧ r.stages i m j = [stage] ∧ r.Working j n stage := by
  cases h with
  | waiting _ hnone => rw [hnone] at hstage; cases hstage
  | failed _ hnone => rw [hnone] at hstage; cases hstage
  | done _ hnone => rw [hnone] at hstage; cases hstage
  | taking hnot hone hno htaken hfree =>
      obtain rfl := List.mem_singleton.mp (hone ▸ hstage)
      exact ⟨hnot, hone, .taking hno htaken hfree⟩
  | publishing hnot hone hcall hran hfree =>
      obtain rfl := List.mem_singleton.mp (hone ▸ hstage)
      exact ⟨hnot, hone, .publishing hcall hran hfree⟩
  | failing hnot hone hlen =>
      obtain rfl := List.mem_singleton.mp (hone ▸ hstage)
      exact ⟨hnot, hone, .failing hlen⟩

theorem Working.standing (h : r.Working j n stage) (hnot : ¬r.Ahead j) (hone : r.stages i m j = [stage]) :
    r.Standing i m j n := by
  cases h with
  | taking hno htaken hfree => exact .taking hnot hone hno htaken hfree
  | publishing hcall hran hfree => exact .publishing hnot hone hcall hran hfree
  | failing hlen => exact .failing hnot hone hlen

/-- What a node has at some stage. -/
theorem Stands.working (h : r.Stands i m) (hn : r.plan.nodes[j]? = some n) (hstage : stage ∈ r.stages i m j) :
    r.Working j n stage :=
  ((h.nodes j n hn).working hstage).2.2

/-! ## What a node sees of a step -/

/-- The work that goes on next in its queue, or that the host is in the middle of. -/
def InHand (i : Nat) (m : Machine NodeJob) (r : Run) (job : NodeJob) : Prop :=
  r.active = some job ∨
    ∃ w label, (m.queue w).pending.head? = some (.run label job) ∧ job.run = i

/-- What a node of run `i` sees of a step. -/
inductive Moved (i : Nat) (r : Run) (m : Machine NodeJob) (r' : Run) (m' : Machine NodeJob) (j : Nat)
    (n : PlannedNode) : Prop
  /-- Nothing but that others may have filled their slots. -/
  | still : r'.stages i m' j = r.stages i m j → r.slots.Grows r'.slots → r'.callsOf j = r.callsOf j →
      (∀ v, some v ∈ n.outputs → r'.slots.get? v = r.slots.get? v) → (r'.Ahead j → r.Ahead j) →
      (r'.Going → r.Going ∧ (r.Ahead j → r'.Ahead j)) → Moved i r m r' m' j n
  /-- The host launched it. -/
  | launched : r.Ahead j → ¬r'.Ahead j → r'.stages i m' j = r.stages i m j ++ [.taking []] →
      r'.slots = r.slots → r'.callsOf j = r.callsOf j → Moved i r m r' m' j n
  /-- Its work went a step further. -/
  | worked {job : NodeJob} {others : List Stage} {w : WorkStep} : r.InHand i m job → job.node = j →
      r.stages i m j = job.stage :: others → n.Advanced (r.plan.streamOf n) r.slots job.stage w → r'.stages i m' j = w.rest.toList ++ others →
      r'.slots = w.slots → r'.callsOf j = r.callsOf j ++ w.arguments.toList →
      (r'.Ahead j ↔ r.Ahead j) → (w.failure ≠ none → r'.failure ≠ none) → Moved i r m r' m' j n

/-- The work of a node leaves the outputs of other nodes alone. -/
theorem Stands.elsewhere (h : r.Stands i m) (hs : r.plan.Sound) {n' : PlannedNode} {job : NodeJob}
    (hn : r.plan.nodes[j]? = some n) (hn' : r.plan.nodes[job.node]? = some n') (hne : job.node ≠ j)
    (hstage : job.stage ∈ r.stages i m job.node) {v : Nat} (hv : some v ∈ n.outputs) :
    (r.stepOf n' job).slots.get? v = r.slots.get? v := by
  have hadv := n'.advanced (r.plan.streamOf n') r.slots job.stage
  have hworking := h.working hn' hstage
  unfold stepOf
  generalize n'.advance (r.plan.streamOf n') r.slots job.stage = w at hadv
  generalize job.stage = stage at hadv hworking
  cases hadv with
  | @published k v' t left =>
      have hv' : some v' ∈ n'.outputs := by
        cases hworking with
        | publishing _ hran => exact hran.wanted List.mem_cons_self rfl
      refine (ValueStore.get?_set ..).trans (if_neg ?_)
      rintro ⟨rfl, -⟩
      exact hne (hs.makes_once ⟨n', hn', hv'⟩ ⟨n, hn, hv⟩)
  | _ => rfl

/-- Work that waits in its queue, or that the host is in the middle of. -/
theorem Placed.stage_mem (h : r.Placed i m) {w : Worker} {label : String} {job : NodeJob}
    (hmem : .run label job ∈ (m.queue w).pending) (hrun : job.run = i) :
    job.stage ∈ r.stages i m job.node := by
  rw [stages_of_some rfl (h.jobs w label job hmem hrun)]
  exact List.mem_filterMap.mpr ⟨_, hmem, by simp [Command.stage?, hrun]⟩

theorem Placed.stage_active (h : r.Placed i m) {job : NodeJob} (hactive : r.active = some job) :
    r.stages i m job.node = [job.stage] := by
  rw [stages_of_none rfl (h.active job hactive).2.2, hactive, Option.filter_some_pos (by simp)]
  rfl

theorem Placed.stage_inHand (h : r.Placed i m) {job : NodeJob} (hjob : r.InHand i m job) :
    job.stage ∈ r.stages i m job.node := by
  rcases hjob with hactive | ⟨w, label, hhead, hrun⟩
  · rw [h.stage_active hactive]
    exact List.mem_singleton_self _
  · exact h.stage_mem (List.mem_of_mem_head? hhead) hrun

/-- A host that goes on launching dropped nothing. -/
theorem Did.going (h : Did i m m' r a r' more) (hg : r'.Going) : r.Going ∧ r'.launching = r.launching := by
  cases h with
  | absent => cases hg.1
  | refused => cases hg.1
  | check =>
      split at hg
      next hsome =>
        rcases hg.2 with hnone | hne
        · have hnone : r.failure = none := hnone
          rw [hnone] at hsome
          cases hsome
        · exact absurd rfl hne
      next hnone =>
        rw [if_neg hnone]
        exact ⟨hg, rfl⟩
  | _ => exact ⟨hg, rfl⟩

theorem Next.going (h : r.Next a q) (hg : q.Going) : r.Going := by
  cases h with
  | launching heq => exact ⟨hg.1, Or.inr (by simp [heq])⟩
  | draining => exact hg

/-- A failure stays. -/
theorem Saw.failure (h : r.Saw i m r' m') (hf : r.failure ≠ none) : r'.failure ≠ none := by
  have hor : ∀ e : Option SessionError, r.failure.or e ≠ none := fun e hnone =>
    hf (Option.or_eq_none_iff.mp hnone).1
  cases h with
  | pushed => exact hf
  | took => exact hf
  | worked => exact hor _
  | proceeded => exact hor _
  | did _ hnext _ hdid =>
      rw [hdid.computed.2.2, hnext.computed.2.2]
      exact hf

/-- What an instruction that does not launch a node does to it. -/
theorem Did.still (hp : r.Placed i m) (hactive : r.active = none) (hnext : r.Next a q)
    (hpushes : Pushes m m' more) (h : Did i m m' q a r' more) (hlaunch : a ≠ .launch j)
    (hwork : a ≠ .work j) : r.Moved i m r' m' j n := by
  obtain ⟨hslots, hcalls, -⟩ := h.computed
  obtain ⟨hslots', hcalls', -⟩ := hnext.computed
  have hplan : r'.plan = r.plan := h.plan.trans hnext.plan
  rw [hslots'] at hslots
  rw [hcalls'] at hcalls
  refine .still ?_ (hslots ▸ .refl _) (by rw [callsOf, callsOf, hcalls]) (fun v _ => by rw [hslots])
    ?_ fun hg => ?_
  · cases hhome : r.plan.home j with
    | some w =>
        have hnone : (more w).filterMap (Command.stage? i j) = [] := by
          refine filterMap_stage?_eq_nil ?_
          rintro label job hmem - rfl
          exact hlaunch (h.put hmem).1
        rw [stages_pushed hplan hpushes hhome, hnone, List.append_nil]
    | none =>
        rw [stages_of_none hplan hhome, stages_of_none rfl hhome, hactive]
        cases hnow : r'.active with
        | none => rfl
        | some job =>
            have hne : job.node ≠ j := by
              rintro rfl
              rcases (h.active (hnext.active.trans hactive) hnow).2.2 with heq | ⟨heq, -⟩
              · exact hwork heq
              · exact hlaunch heq
            simp [hne]
  · have hsuffix := h.ahead.1.trans hnext.ahead.1
    exact Or.imp (hsuffix.subset ·) (hsuffix.subset ·)
  · obtain ⟨hgoing, hlaunching⟩ := h.going hg
    refine ⟨hnext.going hgoing, fun hahead => ?_⟩
    unfold Ahead at hahead ⊢
    rw [hlaunching]
    rcases hp.next hnext with ⟨heq, -⟩ | ⟨hnil, -⟩
    · simpa [heq, hlaunch.symm, hwork.symm] using hahead
    · simp [hnil] at hahead

/-- What launching a node does to it. -/
theorem Did.launched (hp : r.Placed i m) (hactive : r.active = none) (hnext : r.Next a q)
    (hpushes : Pushes m m' more) (h : Did i m m' q a r' more) (ha : a = .launch j ∨ a = .work j) :
    r.Moved i m r' m' j n := by
  obtain ⟨hslots, hcalls, -⟩ := h.computed
  obtain ⟨hslots', hcalls', -⟩ := hnext.computed
  have hplan := hnext.plan
  -- The instruction is one of the plan, and it is gone.
  obtain ⟨heq, hsuffix, -⟩ := hp.next_launching hnext (by
    rcases ha with rfl | rfl
    · exact Plan.draining_not_launch
    · exact Plan.draining_not_work)
  have hmem : a ∈ r.plan.launching := hsuffix.subset List.mem_cons_self
  have hahead : r.Ahead j := by
    unfold Ahead
    rw [heq]
    rcases ha with rfl | rfl
    · exact Or.inl List.mem_cons_self
    · exact Or.inr List.mem_cons_self
  have hgone : ¬r'.Ahead j := by
    have hplace : a.place r.plan = some (3 * j + 1) := by
      rcases ha with rfl | rfl
      · rfl
      · rfl
    -- Only waits for one thing share a place, so the node is not launched a second time.
    have hnot : ∀ b, b.place r.plan = some (3 * j + 1) → b ∉ r'.launching := by
      intro b hb hmem
      have := Plan.later hsuffix (h.ahead.1.subset hmem) _ _ hplace hb
      omega
    exact not_or.mpr ⟨hnot _ rfl, hnot _ rfl⟩
  refine .launched hahead hgone ?_ (hslots.trans hslots')
    (by rw [callsOf, callsOf, hcalls, hcalls'])
  have hbegun : ∀ job : NodeJob, job.node = j → r.plan.home j = none → r'.active = some job →
      job.stage = .taking [] → r'.plan = r.plan → r'.stages i m' j = r.stages i m j ++ [.taking []] := by
    intro job hnode hhome hnow hstage hplan'
    rw [stages_of_none hplan' hhome, stages_of_none rfl hhome, hactive, hnow,
      Option.filter_some_pos (by simpa using hnode)]
    simp [hstage]
  rcases ha with rfl | rfl
  · cases h with
    | @queued _ node s w hn hs hw =>
        have hhome : r.plan.home j = some w := by
          rw [← hplan, Plan.home_eq hn, hs]
          exact hw
        rw [stages_pushed hplan hpushes hhome]
        simp [only, Command.stage?]
    | @inline _ node s hn hs hw =>
        refine hbegun { run := i, node := j } rfl ?_ rfl rfl hplan
        rw [← hplan, Plan.home_eq hn, hs]
        exact hw
    | unlaunched hnone =>
        obtain ⟨node, hn, hstream⟩ := Plan.node_of_launch hmem
        obtain ⟨k, hk⟩ := Option.isSome_iff_exists.mp hstream
        have hlt := hp.sound.stream_lt node (List.mem_of_getElem? hn) hk
        have hs := hnone node (hplan ▸ hn)
        rw [hplan] at hs
        simp [Plan.streamOf, hk, List.getElem?_eq_getElem hlt] at hs
  · cases h with
    | work => exact hbegun { run := i, node := j } rfl (Plan.home_of_work hmem).2 rfl rfl hplan

/-- What a step of the work of a node does to that node, and to the others. -/
theorem Stands.absorb (h : r.Stands i m) (hp : r.Placed i m) {n' : PlannedNode} {job : NodeJob}
    (active : Option NodeJob) (hn : r.plan.nodes[j]? = some n) (hn' : r.plan.nodes[job.node]? = some n')
    (hr' : r' = { r.absorb job.node n'.name (r.stepOf n' job) with active })
    (hhand : r.InHand i m job) (hothers : job.node ≠ j → r'.stages i m' j = r.stages i m j)
    (hown : job.node = j → ∃ others, r.stages i m j = job.stage :: others ∧
      r'.stages i m' j = (r.stepOf n' job).rest.toList ++ others) : r.Moved i m r' m' j n := by
  have hadv := n'.advanced (r.plan.streamOf n') r.slots job.stage
  have hcalls : r'.callsOf j = r.callsOf j ++
      if job.node = j then (r.stepOf n' job).arguments.toList else [] := by
    rw [hr']
    exact callsOf_absorb r job.node n'.name _
  have hfailure : r'.failure = r.failure.or ((r.stepOf n' job).failure.map (.kernel n'.name ·)) := by
    rw [hr']
    rfl
  have hlaunching : r'.launching = r.launching := by rw [hr']; rfl
  have hslots : r'.slots = (r.stepOf n' job).slots := by rw [hr']; rfl
  have hahead : r'.Ahead j ↔ r.Ahead j := by rw [Ahead, Ahead, hlaunching]
  by_cases hj : job.node = j
  · obtain ⟨others, hbefore, hafter⟩ := hown hj
    subst hj
    obtain rfl := Option.some.inj (hn.symm.trans hn')
    rw [if_pos rfl] at hcalls
    refine .worked hhand rfl hbefore hadv hafter hslots hcalls hahead fun hfails => ?_
    obtain ⟨e, he⟩ := Option.ne_none_iff_exists'.mp hfails
    have he' : (r.stepOf n job).failure = some e := he
    rw [hfailure, he']
    cases r.failure <;> simp
  · refine .still (hothers hj) ?_ ?_ (fun v hv => ?_) hahead.mp fun hg => ⟨⟨?_, ?_⟩, hahead.mpr⟩
    · rw [hslots]
      exact n'.grows_advance _ _ _
    · rw [hcalls, if_neg hj, List.append_nil]
    · rw [hslots]
      exact h.elsewhere hp.sound hn hn' hj (hp.stage_inHand hhand) hv
    · have hnone := hg.1
      rw [hr'] at hnone
      exact hnone
    · rw [← hlaunching]
      refine hg.2.imp (fun hnone => ?_) id
      rw [hfailure, Option.or_eq_none_iff] at hnone
      exact hnone.1

/-- **What a node sees of a step.** -/
theorem Saw.moved (hp : r.Placed i m) (hst : r.Stands i m) (h : r.Saw i m r' m')
    (hn : r.plan.nodes[j]? = some n) : r.Moved i m r' m' j n := by
  have hstill : ∀ {m' : Machine NodeJob}, r.stages i m' j = r.stages i m j → r.Moved i m r m' j n :=
    fun hstages => .still hstages (.refl _) rfl (fun _ _ => rfl) id fun hg => ⟨hg, id⟩
  have hplan := h.plan
  cases h with
  | @pushed _ more hpushes halien =>
      refine hstill ?_
      cases hhome : r.plan.home j with
      | none => rw [stages_of_none rfl hhome, stages_of_none rfl hhome]
      | some w =>
          have hnone : (more w).filterMap (Command.stage? i j) = [] :=
            filterMap_stage?_eq_nil fun label job hmem hrun => absurd hrun (halien w _ hmem)
          rw [stages_pushed rfl hpushes hhome, hnone, List.append_nil]
  | @took _ w c runs runs' front more hhead halien hpopped htook hput =>
      have hfront : front.filterMap (Command.stage? i j) = [] :=
        filterMap_stage?_eq_nil fun label job hmem hrun =>
          absurd hrun (hput label job (List.mem_append_left _ hmem))
      have hmore : more.filterMap (Command.stage? i j) = [] :=
        filterMap_stage?_eq_nil fun label job hmem hrun =>
          absurd hrun (hput label job (List.mem_append_right _ hmem))
      have hc : c.stage? i j = none :=
        Command.stage?_eq_none fun label job heq hrun => absurd hrun (halien label job heq)
      exact hstill (stages_popped_of_none rfl rfl hhead hpopped hc hfront hmore)
  | @worked _ w label job n' more hhead hown hn' hpopped hcalm =>
      have hmem := List.mem_of_mem_head? hhead
      have hhome := hp.jobs w label job hmem hown
      have hmore : more.filterMap (Command.stage? i j) = [] :=
        filterMap_stage?_eq_nil fun label job hmem => (hcalm _ hmem).elim
      refine hst.absorb hp r.active hn hn' rfl (Or.inr ⟨w, label, hhead, hown⟩) ?_ ?_
      · intro hj
        have hc : (Command.run label job).stage? i j = none := by simp [Command.stage?, hj]
        have hfront : (restOf label job (r.stepOf n' job)).filterMap (Command.stage? i j) = [] := by
          rw [filterMap_restOf, if_neg fun hjob => hj hjob.2]
        exact stages_popped_of_none hplan rfl hhead hpopped hc hfront hmore
      · rintro rfl
        obtain ⟨others, hbefore, hafter⟩ := stages_popped (i := i) hplan hhead hpopped hhome
        have hc : (Command.run label job).stage? i job.node = some job.stage := by
          simp [Command.stage?, hown]
        rw [hc] at hbefore
        rw [filterMap_restOf, if_pos ⟨hown, rfl⟩, hmore, List.append_nil] at hafter
        exact ⟨others, hbefore, hafter⟩
  | @proceeded job n' hactive hn' =>
      have hhome := (hp.active job hactive).2.2
      have hone := hp.stage_active hactive
      refine hst.absorb hp _ hn hn' rfl (Or.inl hactive) ?_ ?_
      · intro hj
        cases hhome' : r.plan.home j with
        | some w' => exact (stages_of_some hplan hhome').trans (stages_of_some rfl hhome').symm
        | none =>
            refine (stages_of_none hplan hhome').trans (Eq.trans ?_ (stages_of_none rfl hhome').symm)
            rw [hactive, Option.filter_some_neg (by simpa using hj)]
            cases (r.stepOf n' job).rest with
            | none => rfl
            | some stage => rw [Option.map_some, Option.filter_some_neg (by simpa using hj)]
      · rintro rfl
        refine ⟨[], hone, (stages_of_none hplan hhome).trans ?_⟩
        cases (r.stepOf n' job).rest with
        | none => rfl
        | some stage =>
            rw [Option.map_some, Option.filter_some_pos (by simp)]
            rfl
  | @did _ q _ a more hactive hnext hpushes hdid =>
      by_cases hlaunch : a = .launch j ∨ a = .work j
      · exact hdid.launched hp hactive hnext hpushes hlaunch
      · exact hdid.still hp hactive hnext hpushes (fun h => hlaunch (Or.inl h)) fun h => hlaunch (Or.inr h)

/-! ## Going on -/

/-- What the kernel made is published next. -/
theorem ran_start {stream : Option Stream} {slots : ValueStore} {args : List (Option Tensor)} {u : Unit}
    {c : KernelContext} (hall : n.inputs.length ≤ args.length) (htaken : n.Taken slots args)
    (hrun : n.invoke stream args = (.ok u, c)) : n.Ran stream slots args (c.outputs.zip n.outputs) :=
  ⟨Nat.le_antisymm htaken.length hall, htaken.reads, u, c, [], hrun, rfl, by simp⟩

/-- Work that goes on somewhere else leaves a node at its stage. -/
theorem Working.mono (h : r.Working j n stage) (hplan : r'.plan = r.plan) (hgrows : r.slots.Grows r'.slots)
    (hcalls : r'.callsOf j = r.callsOf j)
    (hslots : ∀ v, some v ∈ n.outputs → r'.slots.get? v = r.slots.get? v) : r'.Working j n stage := by
  cases h with
  | taking hno htaken hfree =>
      exact .taking (hcalls.trans hno) (htaken.mono hgrows) fun v hv => (hslots v hv).trans (hfree v hv)
  | publishing hcall hran hfree =>
      refine .publishing (hcalls.trans hcall) (hplan ▸ hran.mono hgrows) fun e he v hv => ?_
      exact (hslots v (hran.wanted he hv)).trans (hfree e he v hv)
  | failing hlen => exact .failing (hcalls ▸ hlen)

section Advanced

variable {w : WorkStep}

/-- A tensor is put in the slot it is for, and the slots of what is left stay free. -/
theorem Working.publishes {k v : Nat} {t : Tensor} {left : List (Option Tensor × Option Nat)}
    (h : r.Working j n (.publishing k ((some t, some v) :: left))) (hs : r.plan.Sound)
    (hn : r.plan.nodes[j]? = some n) (hlength : r.slots.length = r.plan.values.length)
    (hplan : r'.plan = r.plan) (hempty : r.slots.get? v = none) (hslots : r'.slots = r.slots.set v (some t))
    (hcalls : r'.callsOf j = r.callsOf j) : r'.Working j n (.publishing (k + 1) left) := by
  cases h with
  | publishing hcall hran hfree =>
      have hv : v < r.slots.length := by
        rw [hlength]
        exact hs.makes_lt ⟨n, hn, hran.wanted List.mem_cons_self rfl⟩
      have hshown : ValueStore.Shows (r.slots.set v (some t)) (some t, some v) := by
        intro v' hv'
        obtain rfl := Option.some.inj hv'
        exact ⟨t, rfl, by simp [ValueStore.get?_set, hv]⟩
      refine .publishing (hcalls.trans hcall) ?_ fun e he v' hv' => ?_
      · rw [hslots, hplan]
        exact (hran.mono (ValueStore.grows_set hempty t)).snoc hshown
      · -- The slot that was filled is none of those that are left.
        have hne := Plan.ran_once hs (List.mem_of_getElem? hn) hran e he
        rw [hslots, ValueStore.get?_set, if_neg]
        · exact hfree e (List.mem_cons_of_mem _ he) v' hv'
        · rintro ⟨rfl, -⟩
          exact hne hv'

/-- Work that is not over goes on at the next stage. -/
theorem Working.goes_on {next : Stage} (h : r.Working j n stage) (hs : r.plan.Sound)
    (hn : r.plan.nodes[j]? = some n) (hlength : r.slots.length = r.plan.values.length)
    (hplan : r'.plan = r.plan) (hadv : n.Advanced (r.plan.streamOf n) r.slots stage w)
    (hslots : r'.slots = w.slots) (hcalls : r'.callsOf j = r.callsOf j ++ w.arguments.toList)
    (hrest : w.rest = some next) : r'.Working j n next := by
  cases h with
  | taking hno htaken hfree =>
      rw [hno, List.nil_append] at hcalls
      cases hadv with
      | took hi hr =>
          obtain rfl := Option.some.inj hrest
          refine .taking hcalls ?_ ?_
          · rw [hslots]
            exact htaken.snoc hi hr
          · rw [hslots]
            exact hfree
      | ran hall hrun =>
          obtain rfl := Option.some.inj hrest
          refine .publishing hcalls ?_ ?_
          · rw [hslots, hplan]
            exact ran_start hall htaken hrun
          · rw [hslots]
            rintro ⟨o, v'⟩ he v rfl
            exact hfree v (List.of_mem_zip he).2
      | missing =>
          obtain rfl := Option.some.inj hrest
          exact .failing (by rw [hcalls]; exact Nat.zero_le _)
      | broke =>
          obtain rfl := Option.some.inj hrest
          exact .failing (by rw [hcalls]; exact Nat.le_refl _)
  | publishing hcall hran hfree =>
      cases hadv with
      | finished => cases hrest
      | unwanted =>
          obtain rfl := Option.some.inj hrest
          refine .publishing (hcalls.trans (by rw [hcall]; rfl)) ?_ ?_
          · rw [hslots, hplan]
            exact hran.snoc fun v hv => by cases hv
          · rw [hslots]
            exact fun e he => hfree e (List.mem_cons_of_mem _ he)
      | unmade =>
          obtain rfl := Option.some.inj hrest
          exact .failing (by rw [hcalls, hcall]; exact Nat.le_refl _)
      | occupied =>
          obtain rfl := Option.some.inj hrest
          exact .failing (by rw [hcalls, hcall]; exact Nat.le_refl _)
      | published hempty =>
          obtain rfl := Option.some.inj hrest
          exact Working.publishes (.publishing hcall hran hfree) hs hn hlength hplan hempty hslots
            (hcalls.trans (List.append_nil _))
  | failing =>
      cases hadv with
      | told => cases hrest

/-- Work is over when everything is published, or when somebody was told that it failed. -/
theorem Working.ends (h : r.Working j n stage) (hplan : r'.plan = r.plan)
    (hadv : n.Advanced (r.plan.streamOf n) r.slots stage w) (hslots : r'.slots = w.slots)
    (hcalls : r'.callsOf j = r.callsOf j ++ w.arguments.toList) (hrest : w.rest = none) :
    (∃ args, r'.callsOf j = [args] ∧ n.Ran (r'.plan.streamOf n) r'.slots args []) ∨
      (r'.callsOf j).length ≤ 1 ∧ w.failure ≠ none := by
  cases h with
  | taking => cases hadv <;> cases hrest
  | publishing hcall hran =>
      cases hadv with
      | finished => exact Or.inl ⟨_, hcalls.trans (by rw [hcall]; rfl), by rw [hslots, hplan]; exact hran⟩
      | _ => cases hrest
  | failing hlen =>
      cases hadv with
      | told => exact Or.inr ⟨by rw [hcalls]; simpa using hlen, by simp⟩

end Advanced

/-- **A node stands somewhere after every step.** -/
theorem Standing.moved (h : r.Standing i m j n) (hs : r.plan.Sound) (hn : r.plan.nodes[j]? = some n)
    (hlength : r.slots.length = r.plan.values.length) (hplan : r'.plan = r.plan)
    (hfailed : r.failure ≠ none → r'.failure ≠ none) (hm : r.Moved i m r' m' j n) :
    r'.Standing i m' j n := by
  cases hm with
  | still hstages hgrows hcalls hslots hback hgoing =>
      have hahead : ¬r.Ahead j → ¬r'.Ahead j := fun hnot hahead => hnot (hback hahead)
      -- Work that stands somewhere stands there still.
      have hkeep : ∀ {stage}, stage ∈ r.stages i m j → r'.Standing i m' j n := by
        intro stage hstage
        obtain ⟨hnot, hone, hworking⟩ := h.working hstage
        exact (hworking.mono hplan hgrows hcalls hslots).standing (hahead hnot) (hstages.trans hone)
      cases h with
      | waiting hwait hnone hno hfree =>
          exact .waiting (fun hg => (hgoing hg).2 (hwait (hgoing hg).1)) (hstages.trans hnone)
            (hcalls.trans hno) fun v hv => (hslots v hv).trans (hfree v hv)
      | failed hnot hnone hcall hbad =>
          exact .failed (hahead hnot) (hstages.trans hnone) (hcalls ▸ hcall) (hfailed hbad)
      | done hnot hnone hcall hran =>
          exact .done (hahead hnot) (hstages.trans hnone) (hcalls.trans hcall) (hplan ▸ hran.mono hgrows)
      | taking _ hone => exact hkeep (hone ▸ List.mem_singleton_self _)
      | publishing _ hone => exact hkeep (hone ▸ List.mem_singleton_self _)
      | failing _ hone => exact hkeep (hone ▸ List.mem_singleton_self _)
  | launched hahead hnot hstages hslots hcalls =>
      cases h with
      | waiting _ hnone hno hfree =>
          refine .taking hnot (hstages.trans (by rw [hnone]; rfl)) (hcalls.trans hno) ⟨?_, by simp⟩ ?_
          · exact Nat.zero_le _
          · rw [hslots]
            exact hfree
      | taking hnot' => exact absurd hahead hnot'
      | publishing hnot' => exact absurd hahead hnot'
      | failing hnot' => exact absurd hahead hnot'
      | failed hnot' => exact absurd hahead hnot'
      | done hnot' => exact absurd hahead hnot'
  | @worked job others w _ _ hstages hadv hstages' hslots hcalls hahead hfailure =>
      obtain ⟨hnot, hone, hworking⟩ := h.working (hstages ▸ List.mem_cons_self)
      obtain rfl : others = [] := (List.cons.inj (hstages.symm.trans hone)).2
      have hnot' : ¬r'.Ahead j := fun hc => hnot (hahead.mp hc)
      rw [List.append_nil] at hstages'
      cases hrest : w.rest with
      | some next =>
          exact (hworking.goes_on hs hn hlength hplan hadv hslots hcalls hrest).standing hnot'
            (by rw [hstages', hrest]; rfl)
      | none =>
          rw [hrest] at hstages'
          rcases hworking.ends hplan hadv hslots hcalls hrest with ⟨args, hcall, hran⟩ | ⟨hlen, hbad⟩
          · exact .done hnot' hstages' hcall hran
          · exact .failed hnot' hstages' hlen (hfailure hbad)

/-- No slot is lost, and whatever stands in one stays there. -/
theorem Saw.slots (h : r.Saw i m r' m') : r'.slots.length = r.slots.length ∧ r.slots.Grows r'.slots := by
  cases h with
  | pushed => exact ⟨rfl, .refl _⟩
  | took => exact ⟨rfl, .refl _⟩
  | @worked _ _ _ job n => exact ⟨n.length_advance _ _ _, n.grows_advance _ _ _⟩
  | @proceeded job n => exact ⟨n.length_advance _ _ _, n.grows_advance _ _ _⟩
  | did _ hnext _ hdid =>
      rw [hdid.computed.1, hnext.computed.1]
      exact ⟨rfl, .refl _⟩

/-- **Every node stands somewhere after every step.** -/
theorem Stands.saw (hp : r.Placed i m) (h : r.Stands i m) (hs : r.Saw i m r' m') : r'.Stands i m' := by
  refine ⟨?_, fun j n hn => ?_⟩
  · rw [hs.plan, ← h.length]
    exact hs.slots.1
  · rw [hs.plan] at hn
    exact (h.nodes j n hn).moved hp.sound hn h.length hs.plan hs.failure (hs.moved hp h hn)

/-- A run that was just started has no work anywhere. -/
theorem stages_start {p : Plan} {fed : List (String × Tensor)} (hr : start p fed = .ok r)
    (hnew : ∀ w label job, .run label job ∈ (m.queue w).pending → job.run ≠ i) : r.stages i m j = [] := by
  obtain ⟨slots, -, rfl⟩ := Outcome.map_eq_ok.mp hr
  cases hhome : p.home j with
  | none => exact stages_of_none rfl hhome
  | some w =>
      refine (stages_of_some rfl hhome).trans ?_
      exact filterMap_stage?_eq_nil fun label job hmem hrun => absurd hrun (hnew w label job hmem)

theorem Stands.start {p : Plan} {fed : List (String × Tensor)} (hr : start p fed = .ok r) (hs : p.Sound)
    (hnew : ∀ w label job, .run label job ∈ (m.queue w).pending → job.run ≠ i) : r.Stands i m := by
  have hnone : ∀ j, r.stages i m j = [] := fun j => stages_start hr hnew
  obtain ⟨slots, hslots, rfl⟩ := Outcome.map_eq_ok.mp hr
  obtain ⟨hlength, hgiven⟩ := Plan.initialSlots_eq_ok hs hslots
  refine ⟨hlength, fun j n hn => .waiting (fun _ => Plan.begun hn) (hnone j) rfl fun v hv => ?_⟩
  refine Option.not_isSome_iff_eq_none.mp fun hsome => ?_
  exact hs.makes_new ⟨n, hn, hv⟩ ((hgiven v).mp hsome)

/-- Once the host is at its end, work is left only behind queues. -/
theorem stages_of_isOver (hover : r.isOver = true) (hnone : ∀ w label job, r.plan.home j = some w →
      .run label job ∈ (m.queue w).pending → job.run ≠ i) : r.stages i m j = [] := by
  cases hhome : r.plan.home j with
  | none =>
      rw [stages_of_none rfl hhome, (isOver_iff.mp hover).1]
      rfl
  | some w =>
      rw [stages_of_some rfl hhome]
      exact filterMap_stage?_eq_nil fun label job hmem hrun => absurd hrun (hnone w label job hhome hmem)

/-- Once the host is at its end, no work is left, and nothing failed, every node is done. -/
theorem Stands.solves (h : r.Stands i m) (hover : r.isOver = true)
    (hfailure : r.failure = none) (herror : r.launchError = none)
    (hnone : ∀ w label job, .run label job ∈ (m.queue w).pending → job.run ≠ i) :
    ∀ (j : Nat) n, r.plan.nodes[j]? = some n →
      ∃ args, r.callsOf j = [args] ∧ n.Ran (r.plan.streamOf n) r.slots args [] := by
  intro j n hn
  obtain ⟨-, hlaunching, -⟩ := isOver_iff.mp hover
  have hstages : r.stages i m j = [] := stages_of_isOver hover fun w label job _ => hnone w label job
  cases h.nodes j n hn with
  | waiting hwait => simpa [Ahead, hlaunching] using hwait ⟨herror, Or.inl hfailure⟩
  | taking _ hone => rw [hstages] at hone; cases hone
  | publishing _ hone => rw [hstages] at hone; cases hone
  | failing _ hone => rw [hstages] at hone; cases hone
  | failed _ _ _ hbad => exact absurd hfailure hbad
  | done _ _ hcall hran => exact ⟨_, hcall, hran⟩

end Run

end OpGraph
