import Mathlib.Algebra.Order.BigOperators.Group.List
import Mathlib.Algebra.Order.Ring.Nat
import OpGraph.Proofs.Attended

/-!
# `Proofs.Settling` — workers that are left to themselves come to an end

The work of a node takes a bounded number of steps, and puts nothing behind its queue but jobs that end in
one step (`PlannedNode.Advanced.shrinks`). So with every step of a worker of a plan there is less work left
behind the queues of the plan, or as much and fewer commands (`System.Reached.shrinks`): the workers of a
plan cannot go on forever unless some host gives them more to do.
-/

namespace OpGraph

open Machine

/-! ## The work of one node -/

/-- A bound for the steps ahead of work that has come to some stage. -/
def PlannedNode.stepsLeft (n : PlannedNode) : Stage → Nat
  | .taking args => (n.inputs.length - args.length) + n.outputs.length + 3
  | .publishing _ left => left.length + 2
  | .failing _ => 1

/-- Work has a step ahead of it. -/
theorem PlannedNode.stepsLeft_pos (n : PlannedNode) (stage : Stage) : 0 < n.stepsLeft stage := by
  cases stage <;> exact Nat.succ_pos _

/-- Each step of the work of a node leaves fewer. -/
theorem PlannedNode.Advanced.shrinks {n : PlannedNode} {stream : Option Stream} {slots : ValueStore}
    {stage stage' : Stage} {w : WorkStep} (h : n.Advanced stream slots stage w) (hrest : w.rest = some stage') :
    n.stepsLeft stage' < n.stepsLeft stage := by
  cases h with
  | @took args i a hi =>
      obtain rfl := Option.some.inj hrest
      have hlt := (List.getElem?_eq_some_iff.mp hi).1
      show _ - (args ++ [a]).length + _ + 3 < _ - args.length + _ + 3
      rw [List.length_append, List.length_singleton]
      omega
  | missing =>
      obtain rfl := Option.some.inj hrest
      show 1 < _ + _ + 3
      omega
  | @ran args u c =>
      obtain rfl := Option.some.inj hrest
      show (c.outputs.zip n.outputs).length + 2 < _ + _ + 3
      rw [List.length_zip]
      omega
  | broke =>
      obtain rfl := Option.some.inj hrest
      show 1 < _ + _ + 3
      omega
  | finished => cases hrest
  | unwanted =>
      obtain rfl := Option.some.inj hrest
      exact Nat.lt_succ_self _
  | unmade =>
      obtain rfl := Option.some.inj hrest
      exact Nat.lt_of_sub_pos (Nat.succ_pos _)
  | occupied =>
      obtain rfl := Option.some.inj hrest
      exact Nat.lt_of_sub_pos (Nat.succ_pos _)
  | published =>
      obtain rfl := Option.some.inj hrest
      exact Nat.lt_succ_self _
  | told => cases hrest

/-! ## Work behind the queues of a plan -/

namespace Plan

/-- The workers of a plan. -/
def workers (p : Plan) : List Worker := p.streams.filterMap Stream.worker?

theorem mem_workers {p : Plan} {w : Worker} : w ∈ p.workers ↔ p.uses w = true := by
  rw [uses_iff]
  exact List.mem_filterMap

/-- A bound for the steps ahead of a command: only work takes more than one. -/
def stepsOf (p : Plan) : Command NodeJob → Nat
  | .run _ job => ((p.nodes[job.node]?).map (·.stepsLeft job.stage)).getD 0
  | _ => 0

/-- A bound for the steps of work behind a queue. -/
def stepsBehind (p : Plan) (m : Machine NodeJob) (w : Worker) : Nat :=
  ((m.queue w).pending.map p.stepsOf).sum

/-- Of work that went a step further less is put back than was taken. -/
theorem steps_restOf {p : Plan} {n : PlannedNode} {label : String} {job : NodeJob}
    (hn : p.nodes[job.node]? = some n) {stream : Option Stream} {slots : ValueStore} {w : WorkStep}
    (h : n.Advanced stream slots job.stage w) :
    ((Run.restOf label job w).map p.stepsOf).sum < p.stepsOf (.run label job) := by
  have hsteps : ∀ stage, p.stepsOf (.run label { job with stage }) = n.stepsLeft stage := by
    intro stage
    show ((p.nodes[job.node]?).map _).getD 0 = _
    rw [hn]
    rfl
  rw [show p.stepsOf (.run label job) = n.stepsLeft job.stage from hsteps job.stage]
  unfold Run.restOf
  cases hrest : w.rest with
  | none => exact n.stepsLeft_pos job.stage
  | some stage =>
      show p.stepsOf (.run label { job with stage }) + 0 < n.stepsLeft job.stage
      rw [hsteps]
      exact h.shrinks hrest

/-- What is left to be done for a plan: steps of work, and commands. -/
def left (p : Plan) (m : Machine NodeJob) : Nat × Nat :=
  ((p.workers.map (p.stepsBehind m)).sum, (p.workers.map fun w => (m.queue w).pending.length).sum)

/-- A sum over the workers is less where one summand is, and the others are the same. -/
theorem sum_workers_lt {p : Plan} {w : Worker} {f f' : Worker → Nat} (huses : p.uses w = true)
    (hothers : ∀ u, u ≠ w → f' u = f u) (h : f' w < f w) : (p.workers.map f').sum < (p.workers.map f).sum := by
  apply List.sum_lt_sum
  · intro u _
    by_cases hu : u = w
    · rw [hu]
      exact Nat.le_of_lt h
    · exact Nat.le_of_eq (hothers u hu)
  · exact ⟨w, mem_workers.mpr huses, h⟩

/-- Less is left where less is behind one queue, and the others are as they were. -/
theorem left_lt {p : Plan} {m m' : Machine NodeJob} {w : Worker} (huses : p.uses w = true)
    (hothers : ∀ u, u ≠ w → m'.queue u = m.queue u) (h : p.stepsBehind m' w < p.stepsBehind m w ∨
      p.stepsBehind m' w = p.stepsBehind m w ∧
        (m'.queue w).pending.length < (m.queue w).pending.length) :
    Prod.Lex (· < ·) (· < ·) (p.left m') (p.left m) := by
  have hsame : ∀ u, u ≠ w → p.stepsBehind m' u = p.stepsBehind m u := by
    intro u hu
    unfold stepsBehind
    rw [hothers u hu]
  rcases h with hless | ⟨hequal, hfewer⟩
  · apply Prod.Lex.left
    exact sum_workers_lt huses hsame hless
  · have hsteps : p.workers.map (p.stepsBehind m') = p.workers.map (p.stepsBehind m) := by
      refine List.map_congr_left fun u _ => ?_
      by_cases hu : u = w
      · rw [hu, hequal]
      · exact hsame u hu
    unfold left
    rw [hsteps]
    apply Prod.Lex.right
    exact sum_workers_lt huses (fun u hu => by rw [hothers u hu]) hfewer

end Plan

namespace System

variable {σ : System}

/-- Work behind a queue of a plan is work of a node of the plan. -/
theorem Grounded.job_of_plan (h : Grounded σ) {p : Plan} (hp : p ∈ σ.plans) {w : Worker}
    (huses : p.uses w = true) {label : String} {job : NodeJob}
    (hmem : .run label job ∈ (σ.machine.queue w).pending) :
    ∃ r n, σ.runs[job.run]? = some r ∧ r.plan = p ∧ p.nodes[job.node]? = some n := by
  obtain ⟨r, n, hr, hn, hhome⟩ := h.job hmem
  obtain ⟨s, hs, hw⟩ := Option.bind_eq_some_iff.mp hhome
  obtain ⟨_, -, hstream⟩ := Option.bind_eq_some_iff.mp hs
  obtain ⟨s', hs', hw'⟩ := Plan.uses_iff.mp huses
  have hplan := h.owner r.plan (h.planned r (List.mem_of_getElem? hr)) p hp s (Run.streamOf_mem hstream) s' hs' w
    hw hw'
  exact ⟨r, n, hr, hplan, hplan ▸ hn⟩

/-- **Every step of a worker of a plan leaves less to be done for the plan.** -/
theorem Reached.shrinks (h : Reached σ) {p : Plan} (hp : p ∈ σ.plans) {w : Worker} (huses : p.uses w = true)
    {x : Execution} (hx : σ.execution.workerStep w = some x) :
    Prod.Lex (· < ·) (· < ·) (p.left x.machine) (p.left σ.machine) := by
  have hg := h.grounded
  unfold Execution.workerStep at hx
  obtain ⟨⟨runs', m'⟩, hwork, rfl⟩ := Option.map_eq_some_iff.mp hx
  obtain ⟨c, front, more, -, -, hhead, hpopped, htook⟩ := step_eq_some hwork
  obtain ⟨rest, hbefore, hafter⟩ := hpopped.pending_eq hhead
  have hbefore : (σ.machine.queue w).pending = c :: rest := hbefore
  have hbehind : p.stepsBehind m' w = (front.map p.stepsOf).sum + (rest.map p.stepsOf).sum +
      (more.map p.stepsOf).sum := by
    unfold Plan.stepsBehind
    rw [hafter, List.map_append, List.map_append, List.sum_append, List.sum_append]
  have hbehind₀ : p.stepsBehind σ.machine w = p.stepsOf c + (rest.map p.stepsOf).sum := by
    unfold Plan.stepsBehind
    rw [hbefore, List.map_cons, List.sum_cons]
  refine Plan.left_lt huses hpopped.others ?_
  -- Commands that are no work are done with in one step.
  have hdone : front = [] → more = [] → p.stepsOf c = 0 →
      p.stepsBehind m' w < p.stepsBehind σ.machine w ∨ p.stepsBehind m' w = p.stepsBehind σ.machine w ∧
        (m'.queue w).pending.length < (σ.machine.queue w).pending.length := by
    rintro rfl rfl hc
    refine .inr ⟨?_, ?_⟩
    · rw [hbehind, hbehind₀, hc]
      simp
    · rw [hafter, hbefore]
      simp
  cases htook with
  | @run label job e _ ends hexec hends =>
      obtain ⟨r, n, hr, rfl, hn⟩ := hg.job_of_plan hp huses (List.mem_of_mem_head? hhead)
      obtain ⟨-, hrest, -, -⟩ := execute_eq_some hexec hr hn
      have hfront : ((Run.restOf label job (r.stepOf n job)).map r.plan.stepsOf).sum <
          r.plan.stepsOf (.run label job) := Plan.steps_restOf hn (n.advanced ..)
      -- Nothing that is put behind the queue is work.
      have hmore : ((e.launched.map Command.fixed ++ ends).map r.plan.stepsOf).sum = 0 := by
        rw [List.sum_eq_zero_iff]
        intro k hk
        obtain ⟨c, hc, rfl⟩ := List.mem_map.mp hk
        rcases List.mem_append.mp hc with hc | hc
        · obtain ⟨job', -, rfl⟩ := List.mem_map.mp hc
          rfl
        · rw [hends c hc]
          rfl
      rw [hrest, Option.map_map] at hbehind
      apply Or.inl
      rw [hbehind, hbehind₀, hmore]
      exact Nat.add_lt_add_right hfront _
  | fixed => exact hdone rfl rfl rfl
  | record => exact hdone rfl rfl rfl
  | wait => exact hdone rfl rfl rfl
  | flush => exact hdone rfl rfl rfl
  | shutdown => exact hdone rfl rfl rfl

end System

end OpGraph
