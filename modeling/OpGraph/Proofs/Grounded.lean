import OpGraph.Proofs.Opening
import OpGraph.Proofs.Saw

/-!
# `Proofs.Grounded` — what is so of every system

In every system that can come about devices and streams are there, streams of different plans are
different queues, and the work of every run waits where it belongs (`System.Grounded`). So every step of a
system is, to each run, one of the steps a run may see (`Step.saw`), and what those keep is so of every run
at any time (`Reached.kept`).
-/

namespace OpGraph

open Machine Outcome

namespace Run

variable {i : Nat} {r r' q : Run} {m m' : Machine NodeJob} {a : Instruction}
  {more : Worker → List (Command NodeJob)}

theorem Next.ahead (h : r.Next a q) : q.launching <:+ r.launching ∧ q.draining <:+ r.draining := by
  cases h with
  | launching heq => exact ⟨by rw [heq]; exact List.suffix_cons .., List.suffix_refl _⟩
  | draining _ heq => exact ⟨List.suffix_refl _, by rw [heq]; exact List.suffix_cons ..⟩

theorem Next.mem (h : r.Next a q) : a ∈ r.launching ∨ a ∈ r.draining := by
  cases h with
  | launching heq => exact Or.inl (by simp [heq])
  | draining _ heq => exact Or.inr (by simp [heq])

theorem Did.ahead (h : Did i m m' r a r' more) :
    r'.launching <:+ r.launching ∧ r'.draining <:+ r.draining := by
  cases h with
  | absent => exact ⟨List.nil_suffix, List.suffix_refl _⟩
  | refused => exact ⟨List.nil_suffix, List.suffix_refl _⟩
  | failed => exact ⟨List.suffix_refl _, List.nil_suffix⟩
  | check =>
      split
      · exact ⟨List.nil_suffix, List.suffix_refl _⟩
      · exact ⟨List.suffix_refl _, List.suffix_refl _⟩
  | _ => exact ⟨List.suffix_refl _, List.suffix_refl _⟩

theorem Next.homed (h : r.Next a q) (hr : r.Homed) : q.Homed := by
  cases h <;> exact hr

theorem Next.active (h : r.Next a q) : q.active = r.active := by
  cases h <;> rfl

theorem Next.notification? (h : r.Next a q) (j : Nat) : q.notification? j = r.notification? j := by
  cases h <;> rfl

/-- Keeping a notification from a stream of the plan. -/
theorem Homed.keep (h : r.Homed) {j : Nat} {n : Notification} (hn : n.stream ∈ r.plan.streams) :
    (r.keep j n).Homed := by
  intro k n' hk
  rw [notification?_keep] at hk
  split at hk
  · obtain rfl := Option.some.inj hk
    exact hn
  · exact h k n' hk

theorem Did.homed (h : Did i m m' r a r' more) (hr : r.Homed) : r'.Homed := by
  cases h with
  | @refused w _ n _ _ hn =>
      have hstream : n.stream ∈ r.plan.streams := hr w.producer n hn
      exact hr.keep hstream
  | @waited w _ n _ hn =>
      have hstream : n.stream ∈ r.plan.streams := hr w.producer n hn
      exact hr.keep hstream
  | announced hn hs => exact hr.keep (streamOf_mem hs)
  | check => split <;> exact hr
  | _ => exact hr

/-- Work the host begins is work of a node that has no worker. -/
theorem Did.active (h : Did i m m' r a r' more) (hr : r.active = none) {job : NodeJob}
    (hjob : r'.active = some job) : job.run = i ∧ job.stage = .taking [] ∧
      (a = .work job.node ∨
        a = .launch job.node ∧ job.node < r.plan.nodes.length ∧ r.plan.home job.node = none) := by
  cases h with
  | @inline j n s hn hs hw =>
      obtain rfl := Option.some.inj hjob
      refine ⟨rfl, rfl, Or.inr ⟨rfl, (List.getElem?_eq_some_iff.mp hn).1, ?_⟩⟩
      rw [Plan.home_eq hn, hs]
      exact hw
  | work =>
      obtain rfl := Option.some.inj hjob
      exact ⟨rfl, rfl, Or.inl rfl⟩
  | check =>
      split at hjob
      · cases hr.symm.trans hjob
      · cases hr.symm.trans hjob
  | _ => cases hr.symm.trans hjob

/-- The work of a run stays where it belongs. -/
theorem Placed.saw (h : r.Placed i m) (hs : r.Saw i m r' m') : r'.Placed i m' := by
  have hplan := hs.plan
  refine ⟨hplan ▸ h.sound, ?_, ?_, ?_, ?_, ?_, ?_⟩
  · intro s hmem w hw
    rw [hplan] at hmem
    exact hs.has (h.on s hmem w hw)
  · cases hs with
    | did _ hnext _ hdid => exact hdid.homed (hnext.homed h.homed)
    | _ => exact h.homed
  · rw [hplan]
    cases hs with
    | did _ hnext _ hdid => exact (hdid.ahead.1.trans hnext.ahead.1).trans h.launching
    | _ => exact h.launching
  · rw [hplan]
    cases hs with
    | did _ hnext _ hdid => exact (hdid.ahead.2.trans hnext.ahead.2).trans h.draining
    | _ => exact h.draining
  · rw [hplan]
    cases hs with
    | @proceeded job n hactive =>
        intro job' hjob'
        obtain ⟨stage, -, rfl⟩ := Option.map_eq_some_iff.mp hjob'
        exact h.active job hactive
    | @did _ q _ a more hactive hnext _ hdid =>
        intro job hjob
        obtain ⟨hrun, -, hnode⟩ := hdid.active (hnext.active.trans hactive) hjob
        refine ⟨hrun, ?_⟩
        rcases hnode with rfl | ⟨-, hnode⟩
        · refine Plan.home_of_work ?_
          rcases hnext.mem with hmem | hmem
          · exact h.launching.subset hmem
          · exact absurd (h.draining.subset hmem) Plan.draining_not_work
        · rw [hnext.plan] at hnode
          exact hnode
    | _ => exact h.active
  · intro w label job hmem hjob
    rw [hplan]
    rcases hs.jobs hmem hjob with hold | ⟨job', n, stage, hold, hrun, -, -, rfl, -⟩ | ⟨hhome, -⟩
    · exact h.jobs w label job hold hjob
    · exact h.jobs w label job' hold hrun
    · exact hhome

/-- The next instruction is the first of those ahead, in the order of the plan. -/
theorem Placed.next (h : r.Placed i m) (hn : r.Next a q) :
    (r.launching = a :: q.launching ∧ a :: q.launching <:+ r.plan.launching ∧ q.draining = r.draining) ∨
      (r.launching = [] ∧ q.launching = [] ∧ r.draining = a :: q.draining ∧
        a :: q.draining <:+ r.plan.draining) := by
  cases hn with
  | launching heq => exact Or.inl ⟨heq, heq ▸ h.launching, rfl⟩
  | draining hnil heq => exact Or.inr ⟨hnil, hnil, heq, heq ▸ h.draining⟩

/-- An instruction that is none of the last ones is carried out while launching. -/
theorem Placed.next_launching (h : r.Placed i m) (hn : r.Next a q) (ha : a ∉ r.plan.draining) :
    r.launching = a :: q.launching ∧ a :: q.launching <:+ r.plan.launching ∧
      q = { r with launching := q.launching } := by
  cases hn with
  | launching heq => exact ⟨heq, heq ▸ h.launching, rfl⟩
  | draining _ heq => exact absurd (h.draining.subset (by rw [heq]; exact List.mem_cons_self)) ha

theorem notification?_start {p : Plan} {fed : List (String × Tensor)} (hr : start p fed = .ok r) (u : Nat) :
    r.notification? u = none := by
  obtain ⟨slots, -, rfl⟩ := map_eq_ok.mp hr
  simp only [notification?, List.getElem?_replicate]
  split <;> rfl

/-- A run before its first instruction, on a machine that has no work of it. -/
theorem Placed.start {p : Plan} {fed : List (String × Tensor)} (hr : start p fed = .ok r) (hsound : p.Sound)
    (hon : ∀ s ∈ p.streams, s.On m)
    (hnew : ∀ w label job, .run label job ∈ (m.queue w).pending → job.run ≠ i) : r.Placed i m := by
  have hnone := notification?_start hr
  obtain ⟨slots, -, rfl⟩ := map_eq_ok.mp hr
  refine ⟨hsound, hon, ?_, List.suffix_refl _, List.suffix_refl _, nofun, ?_⟩
  · intro j n hj
    rw [hnone] at hj
    cases hj
  · exact fun w label job hmem hjob => absurd hjob (hnew w label job hmem)

end Run

namespace System

variable {σ σ' : System}

/-- What is so of every system that can come about. -/
structure Grounded (σ : System) : Prop where
  devices : ∀ s ∈ σ.sessions, s.handles.On σ.machine
  sound : ∀ p ∈ σ.plans, p.Sound
  streams : ∀ p ∈ σ.plans, ∀ s ∈ p.streams, s.On σ.machine
  /-- No two streams of a plan are one queue. -/
  apart : ∀ p ∈ σ.plans, p.streams.Pairwise fun a b => ∀ w, a.worker? = some w → b.worker? ≠ some w
  /-- Plans that share a queue are one plan. -/
  owner : ∀ p ∈ σ.plans, ∀ q ∈ σ.plans, ∀ a ∈ p.streams, ∀ b ∈ q.streams, ∀ w,
    a.worker? = some w → b.worker? = some w → p = q
  feeds : σ.feeds.length = σ.runs.length
  planned : ∀ r ∈ σ.runs, r.plan ∈ σ.plans
  tidy : σ.machine.Tidy
  placed : ∀ i (r : Run), σ.runs[i]? = some r → r.Placed i σ.machine
  /-- All work waiting anywhere is of runs there are. -/
  jobs : ∀ w label job, .run label job ∈ (σ.machine.queue w).pending → job.run < σ.runs.length

theorem Grounded.empty : Grounded {} := by
  have hjobs : ∀ w label job, .run label job ∈ (({} : Machine NodeJob).queue w).pending → job.run < 0 := by
    intro w label job hmem
    cases hmem
  constructor <;> first | exact hjobs | exact Tidy.empty | simp [runs]

/-! ## What runs see of a step -/

/-- What a step of work does, given the run and the node it belongs to. -/
theorem execute_eq_some {job : NodeJob} {runs runs' : List Run} {e : JobEffect NodeJob} {r : Run}
    {n : PlannedNode} (h : job.execute runs = some (runs', e)) (hr : runs[job.run]? = some r)
    (hn : r.plan.nodes[job.node]? = some n) :
    runs' = runs.set job.run
        (r.absorb job.node n.name (n.advance (r.plan.streamOf n) r.slots job.stage)) ∧
      e.rest = ((n.advance (r.plan.streamOf n) r.slots job.stage).rest.map fun stage =>
        { job with stage }) ∧
      e.launched = (n.advance (r.plan.streamOf n) r.slots job.stage).launched ∧ e.panicked = false := by
  unfold NodeJob.execute at h
  simp only [hr, hn] at h
  obtain ⟨rfl, rfl⟩ := Prod.mk.inj (Option.some.inj h)
  exact ⟨rfl, rfl, rfl, rfl⟩

/-- The run and the node of work that waits. -/
theorem Grounded.job (h : Grounded σ) {w : Worker} {label : String} {job : NodeJob}
    (hmem : .run label job ∈ (σ.machine.queue w).pending) : ∃ r n, σ.runs[job.run]? = some r ∧
      r.plan.nodes[job.node]? = some n ∧ r.plan.home job.node = some w := by
  have hlt := h.jobs w label job hmem
  have hr : σ.runs[job.run]? = some σ.runs[job.run] := List.getElem?_eq_getElem hlt
  have hhome := (h.placed _ _ hr).jobs w label job hmem rfl
  cases hn : σ.runs[job.run].plan.nodes[job.node]? with
  | none => simp [Plan.home, hn] at hhome
  | some n => exact ⟨_, n, hr, hn, hhome⟩

/-- Work that a step of a worker puts anywhere is of the run whose work the worker did. -/
theorem Grounded.put_run (h : Grounded σ) {w : Worker} {c : Command NodeJob} {m' : Machine NodeJob}
    {runs' : List Run} {front more : List (Command NodeJob)}
    (hhead : (σ.machine.queue w).pending.head? = some c)
    (ht : Took NodeJob.execute w σ.runs σ.machine m' c runs' front more) {label : String} {job : NodeJob}
    (hput : .run label job ∈ front ++ more) : ∃ job', c = .run label job' ∧ job'.run = job.run := by
  cases ht with
  | @run label' job' e _ ends hexec hends =>
      obtain ⟨r₀, n, hr₀, hn, -⟩ := h.job (List.mem_of_mem_head? hhead)
      obtain ⟨-, hrest, -, -⟩ := execute_eq_some hexec hr₀ hn
      rcases List.mem_append.mp hput with hput | hput
      · obtain ⟨job₁, hjob₁, heq⟩ := Option.map_eq_some_iff.mp (Option.mem_toList.mp hput)
        rw [hrest] at hjob₁
        obtain ⟨stage, -, rfl⟩ := Option.map_eq_some_iff.mp hjob₁
        injection heq with hlabel hjob
        exact ⟨job', by rw [hlabel], by rw [← hjob]⟩
      · rcases List.mem_append.mp hput with hput | hput
        · obtain ⟨job₁, -, heq⟩ := List.mem_map.mp hput
          cases heq
        · cases hends _ hput
  | _ => cases hput

/-- What a run sees of a step of a host: its own instruction, or what the host of another put in queues. -/
theorem Grounded.saw_host (h : Grounded σ) {i k : Nat} {r r₀ r₁ : Run} {m₁ : Machine NodeJob}
    (hr : σ.runs[i]? = some r) (hr₀ : σ.runs[k]? = some r₀)
    (hhost : r₀.hostStep k σ.machine = some (r₁, m₁)) :
    ∃ r', (σ.runs.set k r₁)[i]? = some r' ∧ r.Saw i σ.machine r' m₁ := by
  have hplaced := h.placed k r₀ hr₀
  have hcases := Run.hostStep_eq_some hplaced.homed hplaced.on hhost
  by_cases hk : k = i
  · subst hk
    obtain rfl : r₀ = r := Option.some.inj (hr₀.symm.trans hr)
    refine ⟨r₁, List.getElem?_set_self (List.getElem?_eq_some_iff.mp hr₀).1, ?_⟩
    rcases hcases with ⟨job, hactive, rfl, rfl⟩ | ⟨hactive, a, q, more, hnext, hp, hdid⟩
    · have hn := List.getElem?_eq_getElem (hplaced.active job hactive).2.1
      rw [Run.proceed_eq hn]
      exact .proceeded hactive hn
    · exact .did hactive hnext hp hdid
  · refine ⟨r, (List.getElem?_set_ne hk).trans hr, ?_⟩
    rcases hcases with ⟨job, -, -, rfl⟩ | ⟨-, a, q, more, -, hp, hdid⟩
    · exact .pushed (Pushes.refl _) (by simp [nothing])
    · exact .pushed hp fun w c hc => hdid.isAlien hk hc

/-- What a run sees of a step of a worker: its own work, or that the queue has something else in front now. -/
theorem Grounded.saw_work (h : Grounded σ) {i : Nat} {r : Run} {w : Worker} {runs' : List Run}
    {m' : Machine NodeJob} (hr : σ.runs[i]? = some r)
    (hwork : σ.machine.step NodeJob.execute w σ.runs = some (runs', m')) :
    ∃ r', runs'[i]? = some r' ∧ r.Saw i σ.machine r' m' := by
  obtain ⟨c, front, more, -, -, hhead, hpopped, htook⟩ := step_eq_some hwork
  -- Commands that are no work of a run leave the runs alone.
  have hother : (∀ label job, c ≠ .run label job) → runs' = σ.runs ∧
      ∀ label job, .run label job ∉ front ++ more := by
    intro hc
    cases htook with
    | run => exact absurd rfl (hc _ _)
    | _ => exact ⟨rfl, by simp⟩
  by_cases hc : ∃ label job, c = .run label job
  case neg =>
    obtain ⟨hruns, hput⟩ := hother fun label job heq => hc ⟨label, job, heq⟩
    refine ⟨r, by rw [← hr, ← hruns], ?_⟩
    exact .took hhead (fun label job heq => absurd ⟨label, job, heq⟩ hc) hpopped htook
      fun label job hput' => absurd hput' (hput label job)
  obtain ⟨label, job, rfl⟩ := hc
  obtain ⟨r₀, n, hr₀, hn, -⟩ := h.job (List.mem_of_mem_head? hhead)
  cases htook with
  | @run _ _ e _ ends hexec hends hreached hreplies hflushes hfailed =>
  obtain ⟨hruns, hrest, hlaunched, -⟩ := execute_eq_some hexec hr₀ hn
  rw [hruns]
  by_cases hi : job.run = i
  · subst hi
    obtain rfl : r₀ = r := Option.some.inj (hr₀.symm.trans hr)
    refine ⟨_, List.getElem?_set_self (List.getElem?_eq_some_iff.mp hr₀).1, ?_⟩
    rw [hrest, Option.map_map] at hpopped
    refine .worked hhead rfl hn hpopped (fun c hc => ?_) hreached hreplies hflushes
    rcases List.mem_append.mp hc with hc | hc
    · obtain ⟨job', -, rfl⟩ := List.mem_map.mp hc
      trivial
    · rw [hends c hc]
      trivial
  · refine ⟨r, (List.getElem?_set_ne hi).trans hr, ?_⟩
    refine .took hhead ?_ hpopped (.run hexec hends hreached hreplies hflushes hfailed) ?_
    · intro label' job' heq
      injection heq with _ hjob
      exact hjob ▸ hi
    · intro label' job' hput
      obtain ⟨job₁, heq, hrun⟩ := h.put_run hhead
        (.run hexec hends hreached hreplies hflushes hfailed) hput
      injection heq with _ hjob
      exact fun hj => hi (hjob ▸ hrun.trans hj)

/-- **What a run sees of any step of the system.** -/
theorem Step.saw (hs : Step σ σ') (h : Grounded σ) {i : Nat} {r : Run} (hr : σ.runs[i]? = some r) :
    ∃ r', σ'.runs[i]? = some r' ∧ r.Saw i σ.machine r' σ'.machine := by
  have hnothing : ∀ {m' : Machine NodeJob}, Pushes σ.machine m' nothing → r.Saw i σ.machine r m' :=
    fun hp => .pushed hp (by simp [nothing])
  cases hs with
  | device => exact ⟨r, hr, hnothing (pushes_addTimeline _)⟩
  | session hon hstart => exact ⟨r, hr, hnothing (Session.start_eq_ok hon hstart).2.pushes⟩
  | prepare hmem hbuild =>
      exact ⟨r, hr, hnothing (Plan.build_opened (h.devices _ hmem) hbuild).pushes⟩
  | refuse hmem hbuild =>
      obtain ⟨more, hp, hshut, -⟩ := Plan.build_eq_error (h.devices _ hmem) hbuild
      exact ⟨r, hr, .pushed hp fun w c hc => by rw [hshut w c hc]; trivial⟩
  | begin =>
      refine ⟨r, ?_, hnothing (Pushes.refl _)⟩
      show (σ.runs ++ _)[i]? = some r
      rw [List.getElem?_append_left (List.getElem?_eq_some_iff.mp hr).1]
      exact hr
  | @host k x hstep =>
      unfold Execution.hostStep at hstep
      split at hstep
      · cases hstep
      next r₀ hr₀ =>
      obtain ⟨⟨r₁, m₁⟩, hhost, rfl⟩ := Option.map_eq_some_iff.mp hstep
      exact h.saw_host hr hr₀ hhost
  | @work w x hstep =>
      obtain ⟨⟨runs', m'⟩, hwork, rfl⟩ := Option.map_eq_some_iff.mp hstep
      exact h.saw_work hr hwork

/-! ## What the machine sees of a step -/

/-- A command that the host may have put behind the queue of a worker. -/
def HostMayPut (runs : List Run) (m : Machine NodeJob) (w : Worker) : Command NodeJob → Prop
  | .run _ job => job.run < runs.length
  | .fixed _ => False
  | .record k => k < m.markerCount w.timeline
  | .wait k => ∃ r ∈ runs, ∃ j n s u, r.notification? j = some n ∧ n.marker? = some k ∧
      n.stream.worker? = some u ∧ u.timeline = w.timeline ∧ s ∈ r.plan.streams ∧ s.worker? = some w
  | _ => True

/-- Somebody put commands behind queues, or a worker went on. -/
theorem Step.moved (hs : Step σ σ') (h : Grounded σ) :
    (∃ more, Pushes σ.machine σ'.machine more ∧
        ∀ w, ∀ c ∈ more w, HostMayPut σ.runs σ'.machine w c) ∨
      ∃ w x c front more, σ.execution.workerStep w = some x ∧ σ' = { σ with execution := x } ∧
        (σ.machine.queue w).pending.head? = some c ∧ Popped σ.machine σ'.machine w front more ∧
        Took NodeJob.execute w σ.runs σ.machine σ'.machine c σ'.runs front more := by
  have hnothing : ∀ {m' : Machine NodeJob}, Pushes σ.machine m' nothing → ∃ more,
      Pushes σ.machine m' more ∧ ∀ w, ∀ c ∈ more w, HostMayPut σ.runs m' w c :=
    fun hp => ⟨_, hp, by simp [nothing]⟩
  cases hs with
  | device => exact Or.inl (hnothing (pushes_addTimeline _))
  | session hon hstart => exact Or.inl (hnothing (Session.start_eq_ok hon hstart).2.pushes)
  | prepare hmem hbuild =>
      exact Or.inl (hnothing (Plan.build_opened (h.devices _ hmem) hbuild).pushes)
  | refuse hmem hbuild =>
      obtain ⟨more, hp, hshut, -⟩ := Plan.build_eq_error (h.devices _ hmem) hbuild
      refine Or.inl ⟨more, hp, fun w c hc => ?_⟩
      rw [hshut w c hc]
      trivial
  | begin => exact Or.inl (hnothing (Pushes.refl _))
  | @host i x hstep =>
      refine Or.inl ?_
      unfold Execution.hostStep at hstep
      split at hstep
      · cases hstep
      next r hr =>
      obtain ⟨⟨r₁, m₁⟩, hhost, rfl⟩ := Option.map_eq_some_iff.mp hstep
      have hplaced := h.placed i r hr
      rcases Run.hostStep_eq_some hplaced.homed hplaced.on hhost with
        ⟨job, -, -, rfl⟩ | ⟨-, a, q, more, hnext, hp, hdid⟩
      · exact hnothing (Pushes.refl _)
      · refine ⟨more, hp, fun w c hc => ?_⟩
        have hput := hdid.put hc
        cases c with
        | run label job =>
            show job.run < σ.runs.length
            rw [hput.2.1]
            exact (List.getElem?_eq_some_iff.mp hr).1
        | fixed job => exact hput
        | record k =>
            obtain ⟨rfl, hcount, -⟩ := hput
            show _ < m₁.markerCount w.timeline
            rw [hcount]
            exact Nat.lt_succ_self _
        | wait k =>
            obtain ⟨j, n, s, u, hn, hmarker, hu, htimeline, hs, hw⟩ := hput
            exact ⟨r, List.mem_of_getElem? hr, j, n, s, u, (hnext.notification? j).symm.trans hn, hmarker, hu,
              htimeline, hnext.plan ▸ hs, hw⟩
        | _ => trivial
  | @work w x hstep =>
      obtain ⟨⟨runs', m'⟩, hwork, rfl⟩ := Option.map_eq_some_iff.mp hstep
      obtain ⟨c, front, more, -, -, hhead, hpopped, htook⟩ := step_eq_some hwork
      exact Or.inr ⟨w, _, c, front, more, hstep, rfl, hhead, hpopped, htook⟩

theorem Step.tidy (hs : Step σ σ') (h : Grounded σ) : σ'.machine.Tidy := by
  rcases hs.moved h with ⟨more, hp, hput⟩ | ⟨w, -, c, front, more, -, -, hhead, hp, ht⟩
  · exact h.tidy.pushes hp fun w k hk => hput w _ hk
  · exact h.tidy.took hhead hp ht

theorem Step.grows (hs : Step σ σ') (h : Grounded σ) :
    σ.machine.timelines.length ≤ σ'.machine.timelines.length ∧
      ∀ w, σ.machine.Has w → σ'.machine.Has w := by
  rcases hs.moved h with ⟨more, hp, -⟩ | ⟨w, -, c, front, more, -, -, hhead, hp, ht⟩
  · exact ⟨hp.timelines, hp.has⟩
  · exact ⟨Nat.le_of_eq hp.timelines.symm, fun w' => (hp.has w').mpr⟩

theorem execute_length {job : NodeJob} {runs runs' : List Run} {e : JobEffect NodeJob}
    (h : job.execute runs = some (runs', e)) : runs'.length = runs.length := by
  unfold NodeJob.execute at h
  split at h
  · obtain ⟨rfl, -⟩ := Prod.mk.inj (Option.some.inj h)
    rfl
  · split at h
    · obtain ⟨rfl, -⟩ := Prod.mk.inj (Option.some.inj h)
      rfl
    · obtain ⟨rfl, -⟩ := Prod.mk.inj (Option.some.inj h)
      exact List.length_set

/-- A step starts at most one run, behind those there are. -/
theorem Step.started (hs : Step σ σ') : (σ'.runs.length = σ.runs.length ∧ σ'.feeds = σ.feeds) ∨
    ∃ p fed r, p ∈ σ.plans ∧ Run.start p fed = .ok r ∧ σ'.runs = σ.runs ++ [r] ∧
      σ'.feeds = σ.feeds ++ [fed] ∧ σ'.machine = σ.machine := by
  cases hs with
  | begin hp hstart => exact Or.inr ⟨_, _, _, hp, hstart, rfl, rfl, rfl⟩
  | @host i x hstep =>
      unfold Execution.hostStep at hstep
      split at hstep
      · cases hstep
      · obtain ⟨⟨r₁, m₁⟩, -, rfl⟩ := Option.map_eq_some_iff.mp hstep
        exact Or.inl ⟨List.length_set, rfl⟩
  | @work w x hstep =>
      unfold Execution.workerStep at hstep
      obtain ⟨⟨runs', m'⟩, hwork, rfl⟩ := Option.map_eq_some_iff.mp hstep
      obtain ⟨c, front, more, -, -, -, -, htook⟩ := step_eq_some hwork
      refine Or.inl ⟨?_, rfl⟩
      cases htook with
      | run hexec => exact execute_length hexec
      | _ => rfl
  | _ => exact Or.inl ⟨rfl, rfl⟩

/-- A run there is was there before, and saw the step, or was started by it. -/
theorem Step.run (hs : Step σ σ') (h : Grounded σ) {i : Nat} {r' : Run} (hr' : σ'.runs[i]? = some r') :
    (∃ r, σ.runs[i]? = some r ∧ r.Saw i σ.machine r' σ'.machine ∧ σ'.feeds[i]? = σ.feeds[i]?) ∨
      ∃ p fed, p ∈ σ.plans ∧ Run.start p fed = .ok r' ∧ i = σ.runs.length ∧
        σ'.feeds[i]? = some fed ∧ σ'.machine = σ.machine := by
  by_cases hlt : i < σ.runs.length
  · obtain ⟨r'', hr'', hsaw⟩ := hs.saw h (List.getElem?_eq_getElem hlt)
    obtain rfl : r'' = r' := Option.some.inj (hr''.symm.trans hr')
    refine Or.inl ⟨_, List.getElem?_eq_getElem hlt, hsaw, ?_⟩
    rcases hs.started with ⟨-, hfeeds⟩ | ⟨p, fed, r, -, -, -, hfeeds, -⟩
    · rw [hfeeds]
    · rw [hfeeds, List.getElem?_append_left (h.feeds ▸ hlt)]
  · have hlt' := (List.getElem?_eq_some_iff.mp hr').1
    rcases hs.started with ⟨hlen, -⟩ | ⟨p, fed, r, hp, hstart, hruns, hfeeds, hmachine⟩
    · exact absurd (hlen ▸ hlt') hlt
    · rw [hruns, List.length_append, List.length_singleton] at hlt'
      obtain rfl : i = σ.runs.length := by omega
      rw [hruns, List.getElem?_append_right (Nat.le_refl _), Nat.sub_self] at hr'
      obtain rfl : r = r' := Option.some.inj hr'
      refine Or.inr ⟨p, fed, hp, hstart, rfl, ?_, hmachine⟩
      rw [hfeeds, ← h.feeds, List.getElem?_append_right (Nat.le_refl _), Nat.sub_self]
      rfl

/-- A step prepares at most one plan, with queues of its own. -/
theorem Step.prepared (hs : Step σ σ') (h : Grounded σ) : σ'.plans = σ.plans ∨
    ∃ p : Plan, σ'.plans = p :: σ.plans ∧ p.Sound ∧ Plan.Opened σ.machine p.streams σ'.machine := by
  cases hs with
  | prepare hmem hbuild =>
      exact Or.inr ⟨_, rfl, Plan.build_sound hbuild, Plan.build_opened (h.devices _ hmem) hbuild⟩
  | _ => exact Or.inl rfl

theorem Step.devices (hs : Step σ σ') (h : Grounded σ) : ∀ s ∈ σ'.sessions, s.handles.On σ'.machine := by
  have hold : ∀ s ∈ σ.sessions, s.handles.On σ'.machine :=
    fun s hmem => (h.devices s hmem).mono (hs.grows h).1
  cases hs with
  | session hon hstart =>
      intro s hmem
      rcases List.mem_cons.mp hmem with rfl | hmem
      · exact (Session.start_eq_ok hon hstart).1
      · exact hold s hmem
  | _ => exact hold

/-- All work waiting after a step is of runs there were before it. -/
theorem Step.jobs (hs : Step σ σ') (h : Grounded σ) {w : Worker} {label : String} {job : NodeJob}
    (hmem : .run label job ∈ (σ'.machine.queue w).pending) : job.run < σ.runs.length := by
  rcases hs.moved h with ⟨more, hp, hmore⟩ | ⟨w', -, c, front, more, -, -, hhead, hp, ht⟩
  · rw [hp.pending] at hmem
    rcases List.mem_append.mp hmem with hmem | hmem
    · exact h.jobs w label job hmem
    · exact hmore w _ hmem
  · rcases hp.mem_cases hmem with hold | ⟨rfl, hput⟩
    · exact h.jobs w label job hold
    · obtain ⟨job', rfl, hrun⟩ := h.put_run hhead ht hput
      exact hrun ▸ h.jobs w label job' (List.mem_of_mem_head? hhead)

/-- **Every step keeps what is so of every system.** -/
theorem Grounded.step (h : Grounded σ) (hs : Step σ σ') : Grounded σ' := by
  obtain ⟨-, hhas⟩ := hs.grows h
  have hon : ∀ p ∈ σ.plans, ∀ s ∈ p.streams, s.On σ'.machine :=
    fun p hp s hmem w hw => hhas w (h.streams p hp s hmem w hw)
  have hkeep : ∀ p ∈ σ.plans, p ∈ σ'.plans := by
    rcases hs.prepared h with hsame | ⟨p, hcons, -⟩
    · exact fun p hp => hsame ▸ hp
    · exact fun p hp => hcons ▸ List.mem_cons_of_mem _ hp
  refine ⟨hs.devices h, ?_, ?_, ?_, ?_, ?_, ?_, hs.tidy h, ?_, ?_⟩
  · rcases hs.prepared h with hsame | ⟨p, hcons, hsound, -⟩
    · exact hsame ▸ h.sound
    · rw [hcons]
      exact List.forall_mem_cons.mpr ⟨hsound, h.sound⟩
  · rcases hs.prepared h with hsame | ⟨p, hcons, -, hopened⟩
    · exact hsame ▸ hon
    · rw [hcons]
      exact List.forall_mem_cons.mpr ⟨fun s hmem w hw => (hopened.fresh s hmem w hw).2, hon⟩
  · rcases hs.prepared h with hsame | ⟨p, hcons, -, hopened⟩
    · exact hsame ▸ h.apart
    · rw [hcons]
      exact List.forall_mem_cons.mpr ⟨hopened.apart, h.apart⟩
  · rcases hs.prepared h with hsame | ⟨p, hcons, -, hopened⟩
    · exact hsame ▸ h.owner
    · -- The queues of the new plan were not there before.
      rw [hcons]
      intro p₁ hp₁ p₂ hp₂ a ha b hb w hwa hwb
      rcases List.mem_cons.mp hp₁ with rfl | hold₁ <;> rcases List.mem_cons.mp hp₂ with rfl | hold₂
      · rfl
      · exact absurd (h.streams p₂ hold₂ b hb w hwb) (hopened.fresh a ha w hwa).1
      · exact absurd (h.streams p₁ hold₁ a ha w hwa) (hopened.fresh b hb w hwb).1
      · exact h.owner p₁ hold₁ p₂ hold₂ a ha b hb w hwa hwb
  · rcases hs.started with ⟨hlen, hfeeds⟩ | ⟨p, fed, r, -, -, hruns, hfeeds, -⟩
    · rw [hlen, hfeeds]
      exact h.feeds
    · rw [hruns, hfeeds]
      simp [h.feeds]
  · intro r' hmem
    obtain ⟨i, hi⟩ := List.mem_iff_getElem?.mp hmem
    rcases hs.run h hi with ⟨r, hr, hsaw, -⟩ | ⟨p, fed, hp, hstart, -⟩
    · rw [hsaw.plan]
      exact hkeep _ (h.planned r (List.mem_of_getElem? hr))
    · obtain ⟨slots, -, rfl⟩ := map_eq_ok.mp hstart
      exact hkeep p hp
  · intro i r' hr'
    rcases hs.run h hr' with ⟨r, hr, hsaw, -⟩ | ⟨p, fed, hp, hstart, rfl, -, hmachine⟩
    · exact (h.placed i r hr).saw hsaw
    · rw [hmachine]
      exact .start hstart (h.sound p hp) (h.streams p hp) fun w label job hmem =>
        Nat.ne_of_lt (h.jobs w label job hmem)
  · intro w label job hmem
    refine Nat.lt_of_lt_of_le (hs.jobs h hmem) ?_
    rcases hs.started with ⟨hlen, -⟩ | ⟨p, fed, r, -, -, hruns, -⟩
    · exact Nat.le_of_eq hlen.symm
    · rw [hruns]
      simp

theorem Reached.grounded (h : Reached σ) : Grounded σ := by
  induction h with
  | empty => exact .empty
  | step _ hs ih => exact ih.step hs

/-- **What holds of every run as it starts, and is kept by everything a run sees, holds at any time.** -/
theorem Reached.kept {P : Nat → List (String × Tensor) → Run → Machine NodeJob → Prop}
    (start : ∀ {σ p fed r}, Grounded σ → p ∈ σ.plans → Run.start p fed = .ok r →
      P σ.runs.length fed r σ.machine)
    (saw : ∀ {i fed r m r' m'}, Run.Placed i m r → m.Tidy → P i fed r m → r.Saw i m r' m' →
      P i fed r' m')
    (h : Reached σ) {i : Nat} {r : Run} (hr : σ.runs[i]? = some r) :
    ∃ fed, σ.feeds[i]? = some fed ∧ P i fed r σ.machine := by
  induction h generalizing r with
  | empty => cases hr
  | step hreached hs ih =>
      have hg := hreached.grounded
      rcases hs.run hg hr with ⟨r₀, hr₀, hsaw, hfeeds⟩ | ⟨p, fed, hp, hstart, rfl, hfed, hmachine⟩
      · obtain ⟨fed, hfed, hP⟩ := ih hr₀
        exact ⟨fed, hfeeds.trans hfed, saw (hg.placed i r₀ hr₀) hg.tidy hP hsaw⟩
      · exact ⟨fed, hfed, hmachine ▸ start hg hp hstart⟩

end System

end OpGraph
