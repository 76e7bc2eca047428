import OpGraph.Proofs.Grounded
import OpGraph.Proofs.Work

/-!
# `Proofs.Quiet` — flushes of plans whose kernels leave nothing harmful behind

A kernel on a simulated stream may enqueue jobs of its own there. Such a job comes after whatever waits by
then, so if it panics, which flush tells of it depends on the order of things, and it may be a flush of a
later run. Where no kernel of a plan does so (`Plan.Quiet`) and no device has anything to report
(`Plan.Responsive`), no flush of any run of the plan ever fails: a stream is a queue of one plan, and nobody
else puts jobs there.
-/

namespace OpGraph

open Machine

/-- No kernel of the plan enqueues a job that panics, whatever it is called on. -/
def Plan.Quiet (p : Plan) : Prop :=
  ∀ n ∈ p.nodes, ∀ args, ∀ job ∈ (n.invoke (p.streamOf n) args).2.launched, job.panics = false

/-- Jobs that a step of work enqueued, its kernel enqueued. -/
theorem PlannedNode.launched_advance {n : PlannedNode} {stream : Option Stream} {slots : ValueStore}
    {stage : Stage} {job : FixedJob} (h : job ∈ (n.advance stream slots stage).launched) :
    ∃ args, job ∈ (n.invoke stream args).2.launched := by
  have hadv := n.advanced stream slots stage
  generalize n.advance stream slots stage = w at h hadv
  cases hadv with
  | ran _ hrun => exact ⟨_, by rw [hrun]; exact h⟩
  | broke _ hrun => exact ⟨_, by rw [hrun]; exact h⟩
  | _ => cases h

/-! ## Queues -/

/-- No job panicked on the queue, and none that waits will. -/
structure Queue.Unharmed (k : Queue NodeJob) : Prop where
  failed : k.failed = none
  replies : ∀ a ∈ k.replies, a = none
  jobs : ∀ job, .fixed job ∈ k.pending → job.panics = false

theorem Queue.Unharmed.fresh : Queue.Unharmed {} := ⟨rfl, by simp, by simp⟩

variable {m m' : Machine NodeJob} {w : Worker}

theorem Queue.Unharmed.pushed {more : Worker → List (Command NodeJob)} (h : (m.queue w).Unharmed)
    (hp : Pushes m m' more) (hmore : ∀ job, .fixed job ∉ more w) : (m'.queue w).Unharmed := by
  refine ⟨(hp.failed w).trans h.failed, hp.replies w ▸ h.replies, fun job hjob => ?_⟩
  rw [hp.pending] at hjob
  rcases List.mem_append.mp hjob with hold | hnew
  · exact h.jobs job hold
  · exact absurd hnew (hmore job)

theorem Queue.Unharmed.took {c : Command NodeJob} {runs runs' : List Run}
    {front more : List (Command NodeJob)} (h : (m.queue w).Unharmed)
    (hhead : (m.queue w).pending.head? = some c) (hp : Popped m m' w front more)
    (ht : Took NodeJob.execute w runs m m' c runs' front more)
    (hwork : ∀ label job e, c = .run label job → job.execute runs = some (runs', e) →
      e.panicked = false ∧ ∀ job ∈ e.launched, job.panics = false) : (m'.queue w).Unharmed := by
  obtain ⟨rest, hbefore, hafter⟩ := hp.pending_eq hhead
  have hrest : ∀ job, .fixed job ∈ rest → job.panics = false :=
    fun job hjob => h.jobs job (by rw [hbefore]; exact List.mem_cons_of_mem _ hjob)
  cases ht with
  | @run label job e _ ends hexec hends _ hreplies _ hfailed =>
      obtain ⟨hsafe, hlaunched⟩ := hwork label job e rfl hexec
      refine ⟨?_, hreplies ▸ h.replies, fun job' hjob => ?_⟩
      · rw [hfailed, hsafe, Bool.and_false]
        exact h.failed
      · rw [hafter] at hjob
        simp only [List.mem_append] at hjob
        rcases hjob with (hleft | hold) | hnew | hend
        · obtain ⟨_, -, heq⟩ := Option.map_eq_some_iff.mp (Option.mem_toList.mp hleft)
          cases heq
        · exact hrest job' hold
        · obtain ⟨job₁, hmem, heq⟩ := List.mem_map.mp hnew
          injection heq with heq
          exact heq ▸ hlaunched job₁ hmem
        · cases hends _ hend
  | @fixed job _ hreplies _ hfailed =>
      have hsafe := h.jobs job (by rw [hbefore]; exact List.mem_cons_self)
      rw [hsafe] at hfailed
      exact ⟨hfailed.trans h.failed, hreplies ▸ h.replies, by rw [hafter]; simpa using hrest⟩
  | record _ hreplies _ hfailed =>
      exact ⟨hfailed.trans h.failed, hreplies ▸ h.replies, by rw [hafter]; simpa using hrest⟩
  | wait _ _ hreplies _ hfailed =>
      exact ⟨hfailed.trans h.failed, hreplies ▸ h.replies, by rw [hafter]; simpa using hrest⟩
  | flush _ hreplies _ hfailed =>
      refine ⟨hfailed, fun a ha => ?_, by rw [hafter]; simpa using hrest⟩
      rw [hreplies] at ha
      rcases List.mem_append.mp ha with hold | hnew
      · exact h.replies a hold
      · rw [List.mem_singleton.mp hnew]
        exact h.failed
  | shutdown _ hreplies _ hfailed =>
      exact ⟨hfailed.trans h.failed, hreplies ▸ h.replies, by rw [hafter]; simpa using hrest⟩

/-! ## Systems -/

/-- What a flush failed with, a stream of the plan did. -/
theorem Run.Saw.flushError {i : Nat} {r r' : Run} (h : r.Saw i m r' m') :
    r'.flushError = r.flushError ∨ ∃ s ∈ r.plan.streams, ∃ number e, s.Fails m number e := by
  cases h with
  | @did _ q _ _ _ _ hnext _ hdid =>
      have hsame := hnext.plan
      have hnexterror : q.flushError = r.flushError := hnext.host.2.2.2
      cases hdid with
      | failed hs hfails => exact Or.inr ⟨_, hsame ▸ List.mem_of_getElem? hs, _, _, hfails⟩
      | check =>
          refine Or.inl ?_
          split <;> exact hnexterror
      | _ => exact Or.inl hnexterror
  | _ => exact Or.inl rfl

namespace System

variable {σ σ' : System}

/-- No job panicked on a stream of a plan whose kernels enqueue none that does. -/
def Unharmed (σ : System) : Prop :=
  ∀ p ∈ σ.plans, p.Quiet → ∀ s ∈ p.streams, ∀ w, s.worker? = some w → (σ.machine.queue w).Unharmed

/-- What a step of work on a queue of a quiet plan does. -/
theorem Grounded.quiet_work (h : Grounded σ) {p : Plan} (hp : p ∈ σ.plans) (hquiet : p.Quiet) {s : Stream}
    (hs : s ∈ p.streams) (hw : s.worker? = some w) {label : String} {job : NodeJob} {runs' : List Run}
    {e : JobEffect NodeJob} (hmem : .run label job ∈ (σ.machine.queue w).pending)
    (hexec : job.execute σ.runs = some (runs', e)) :
    e.panicked = false ∧ ∀ job ∈ e.launched, job.panics = false := by
  obtain ⟨r, n, hr, hn, hhome⟩ := h.job hmem
  rw [Plan.home_eq hn] at hhome
  obtain ⟨s', hstream, hw'⟩ := Option.bind_eq_some_iff.mp hhome
  have hr' := h.planned r (List.mem_of_getElem? hr)
  obtain rfl := h.owner p hp r.plan hr' s hs s' (Run.streamOf_mem hstream) w hw hw'
  obtain ⟨-, -, hlaunched, hsafe⟩ := execute_eq_some hexec hr hn
  refine ⟨hsafe, fun job' hjob => ?_⟩
  rw [hlaunched] at hjob
  obtain ⟨args, hargs⟩ := PlannedNode.launched_advance hjob
  exact hquiet n (List.mem_of_getElem? hn) args job' hargs

theorem Unharmed.step (hun : Unharmed σ) (h : Grounded σ) (hs : Step σ σ') : Unharmed σ' := by
  have hold : ∀ p ∈ σ.plans, p.Quiet → ∀ s ∈ p.streams, ∀ w, s.worker? = some w →
      (σ'.machine.queue w).Unharmed := by
    intro p hp hquiet s hstream w hw
    have hbefore := hun p hp hquiet s hstream w hw
    rcases hs.moved h with ⟨more, hpushes, hput⟩ | ⟨w', -, c, front, more, -, -, hhead, hpopped, ht⟩
    · exact hbefore.pushed hpushes fun job hjob => hput w _ hjob
    · by_cases hsame : w = w'
      · subst hsame
        refine hbefore.took hhead hpopped ht fun label job e heq hexec => ?_
        subst heq
        exact h.quiet_work hp hquiet hstream hw (List.mem_of_mem_head? hhead) hexec
      · rw [hpopped.others w hsame]
        exact hbefore
  rcases hs.prepared h with hsame | ⟨p, hcons, -, hopened⟩
  · rw [Unharmed, hsame]
    exact hold
  · rw [Unharmed, hcons]
    refine List.forall_mem_cons.mpr ⟨fun _ s hstream w hw => ?_, hold⟩
    rw [hopened.same, queue_of_not_has (hopened.fresh s hstream w hw).1]
    exact .fresh

theorem Reached.unharmed (h : Reached σ) : Unharmed σ := by
  induction h with
  | empty => exact fun p hp => nomatch hp
  | step hreached hs ih => exact ih.step hreached.grounded hs

/-- **No flush of a quiet plan fails**, in any run of it, as long as its devices answer. -/
theorem Reached.flushError_eq_none (h : Reached σ) {i : Nat} {r : Run} (hr : σ.runs[i]? = some r)
    (hquiet : r.plan.Quiet) (hresponsive : r.plan.Responsive) : r.flushError = none := by
  induction h generalizing r with
  | empty => cases hr
  | step hreached hs ih =>
      have hg := hreached.grounded
      rcases hs.run hg hr with ⟨r₀, hr₀, hsaw, -⟩ | ⟨p, fed, -, hstart, -⟩
      · rw [hsaw.plan] at hquiet hresponsive
        rcases hsaw.flushError with hsame | ⟨s, hstream, number, e, hfails⟩
        · exact hsame.trans (ih hr₀ hquiet hresponsive)
        · obtain ⟨w, label, hw, hreply, -⟩ := hfails.job (hresponsive s hstream)
          have hplan := hg.planned r₀ (List.mem_of_getElem? hr₀)
          cases (hreached.unharmed r₀.plan hplan hquiet s hstream w hw).replies _
            (List.mem_of_getElem? hreply)
      · obtain ⟨slots, -, rfl⟩ := Outcome.map_eq_ok.mp hstart
        rfl

end System

end OpGraph
