import OpGraph.Plan.System
import OpGraph.Proofs.Host
import OpGraph.Proofs.Instructions
import OpGraph.Proofs.Sound
import OpGraph.Proofs.Worker

/-!
# `Proofs.Saw` — what one run sees of a step of the system

To a run, a step of the system is one of few things: its own host went on, a worker took its own work
further, or somebody else put commands behind a queue or took one from the front. `Run.Saw` lists them, so
whatever is kept by each of them is so of every run at any time. The first such thing is that the work of a
run waits where it belongs (`Run.Placed`).
-/

namespace OpGraph

open Machine

/-- The worker that does the work of a node; none where the host does. -/
def Plan.home (p : Plan) (j : Nat) : Option Worker :=
  ((p.nodes[j]?).bind p.streamOf).bind Stream.worker?

theorem Plan.home_eq {p : Plan} {j : Nat} {n : PlannedNode} (hn : p.nodes[j]? = some n) :
    p.home j = (p.streamOf n).bind Stream.worker? := by
  simp [home, hn]

/-- Work the host begins by itself is work of a node without a stream. -/
theorem Plan.home_of_work {p : Plan} {j : Nat} (h : .work j ∈ p.launching) :
    j < p.nodes.length ∧ p.home j = none := by
  obtain ⟨n, hn, hs⟩ := node_of_work h
  exact ⟨(List.getElem?_eq_some_iff.mp hn).1, by simp [home_eq hn, streamOf, hs]⟩

/-! ## Seen from a run -/

/-- A command that only ends: no work of a run, no marker, no flush. -/
def Command.IsCalm : Command NodeJob → Prop
  | .fixed _ => True
  | .shutdown => True
  | _ => False

/-- A command, put behind a queue, that has nothing to do with run `i`. -/
def Command.IsAlien (i : Nat) (m : Machine NodeJob) (w : Worker) : Command NodeJob → Prop
  | .run _ job => job.run ≠ i
  | .record k => m.markerCount w.timeline ≤ k
  | _ => True

namespace Run

/-- The next step of the work of a node. -/
def stepOf (r : Run) (n : PlannedNode) (job : NodeJob) : WorkStep :=
  n.advance (r.plan.streamOf n) r.slots job.stage

/-- What is left of the work of a node after a step of it, as seen by a worker. -/
def restOf (label : String) (job : NodeJob) (w : WorkStep) : List (Command NodeJob) :=
  (w.rest.map fun stage => Command.run label { job with stage }).toList

/-- What run `i` sees of a step. -/
inductive Saw (i : Nat) (r : Run) (m : Machine NodeJob) : Run → Machine NodeJob → Prop
  /-- Others put commands behind queues. -/
  | pushed {m' : Machine NodeJob} {more : Worker → List (Command NodeJob)} : Pushes m m' more →
      (∀ w, ∀ c ∈ more w, c.IsAlien i m w) → Saw i r m r m'
  /-- A worker went on with a command that is no work of the run. -/
  | took {m' : Machine NodeJob} {w : Worker} {c : Command NodeJob} {runs runs' : List Run}
      {front more : List (Command NodeJob)} : (m.queue w).pending.head? = some c →
      (∀ label job, c = .run label job → job.run ≠ i) → Popped m m' w front more →
      Took NodeJob.execute w runs m m' c runs' front more →
      (∀ label job, .run label job ∈ front ++ more → job.run ≠ i) → Saw i r m r m'
  /-- A worker took work of the run further. -/
  | worked {m' : Machine NodeJob} {w : Worker} {label : String} {job : NodeJob} {n : PlannedNode}
      {more : List (Command NodeJob)} : (m.queue w).pending.head? = some (.run label job) →
      job.run = i → r.plan.nodes[job.node]? = some n →
      Popped m m' w (restOf label job (r.stepOf n job)) more → (∀ c ∈ more, c.IsCalm) →
      (∀ t k, m'.reachedAt t k = m.reachedAt t k) → (m'.queue w).replies = (m.queue w).replies →
      (m'.queue w).flushes = (m.queue w).flushes → Saw i r m (r.absorb job.node n.name (r.stepOf n job)) m'
  /-- The host took work of the run further. -/
  | proceeded {job : NodeJob} {n : PlannedNode} : r.active = some job →
      r.plan.nodes[job.node]? = some n →
      Saw i r m { r.absorb job.node n.name (r.stepOf n job) with
        active := (r.stepOf n job).rest.map fun stage => { job with stage } } m
  /-- The host carried out an instruction. -/
  | did {m' : Machine NodeJob} {q r' : Run} {a : Instruction} {more : Worker → List (Command NodeJob)} :
      r.active = none → r.Next a q → Pushes m m' more → Did i m m' q a r' more → Saw i r m r' m'

variable {i : Nat} {r r' q : Run} {m m' : Machine NodeJob} {a : Instruction}
  {more : Worker → List (Command NodeJob)}

/-! ## What stays -/

theorem proceed_eq {job : NodeJob} {n : PlannedNode} (hn : r.plan.nodes[job.node]? = some n) :
    r.proceed job = { r.absorb job.node n.name (r.stepOf n job) with
      active := (r.stepOf n job).rest.map fun stage => { job with stage } } := by
  unfold proceed
  rw [hn]
  rfl

theorem Next.plan (h : r.Next a q) : q.plan = r.plan := by
  cases h <;> rfl

/-- The host's side of a run is that without the instruction. -/
theorem Next.host (h : r.Next a q) : q.notifications = r.notifications ∧ q.asked = r.asked ∧
    q.launchError = r.launchError ∧ q.flushError = r.flushError := by
  cases h <;> exact ⟨rfl, rfl, rfl, rfl⟩

theorem isOver_iff : r.isOver = true ↔ r.active = none ∧ r.launching = [] ∧ r.draining = [] := by
  unfold isOver
  rw [Bool.and_eq_true, Bool.and_eq_true, Option.isNone_iff_eq_none, List.isEmpty_iff, List.isEmpty_iff,
    and_assoc]

theorem Did.plan (h : Did i m m' r a r' more) : r'.plan = r.plan := by
  cases h with
  | check => split <;> rfl
  | _ => rfl

/-- What becomes of the instructions ahead when one is carried out: they stay, or all are dropped. -/
theorem Did.dropped (h : Did i m m' r a r' more) :
    (r'.launching = r.launching ∨ r'.launching = [] ∧ (r'.launchError ≠ none ∨ r'.failure ≠ none)) ∧
    (r'.draining = r.draining ∨ r'.draining = [] ∧ r'.flushError ≠ none) := by
  cases h with
  | absent => exact ⟨Or.inr ⟨rfl, Or.inl nofun⟩, Or.inl rfl⟩
  | refused => exact ⟨Or.inr ⟨rfl, Or.inl nofun⟩, Or.inl rfl⟩
  | failed => exact ⟨Or.inl rfl, Or.inr ⟨rfl, nofun⟩⟩
  | check =>
      split
      next hsome => exact ⟨Or.inr ⟨rfl, Or.inr (Option.isSome_iff_ne_none.mp hsome)⟩, Or.inl rfl⟩
      · exact ⟨Or.inl rfl, Or.inl rfl⟩
  | _ => exact ⟨Or.inl rfl, Or.inl rfl⟩

/-- An error of the host stays. -/
theorem Did.errors (h : Did i m m' r a r' more) :
    (r.launchError ≠ none → r'.launchError ≠ none) ∧ (r.flushError ≠ none → r'.flushError ≠ none) := by
  cases h with
  | absent => exact ⟨fun _ => nofun, id⟩
  | refused => exact ⟨fun _ => nofun, id⟩
  | failed => exact ⟨id, fun _ => nofun⟩
  | check => split <;> exact ⟨id, id⟩
  | _ => exact ⟨id, id⟩

/-- The host leaves what was computed alone, but for the work it does itself. -/
theorem Next.computed (h : r.Next a q) :
    q.slots = r.slots ∧ q.calls = r.calls ∧ q.failure = r.failure := by
  cases h <;> exact ⟨rfl, rfl, rfl⟩

theorem Did.computed (h : Did i m m' r a r' more) :
    r'.slots = r.slots ∧ r'.calls = r.calls ∧ r'.failure = r.failure := by
  cases h with
  | check => split <;> exact ⟨rfl, rfl, rfl⟩
  | _ => exact ⟨rfl, rfl, rfl⟩

theorem Saw.plan (h : r.Saw i m r' m') : r'.plan = r.plan := by
  cases h with
  | pushed => rfl
  | took => rfl
  | worked => rfl
  | proceeded => rfl
  | did _ hnext _ hdid => exact hdid.plan.trans hnext.plan

theorem Saw.has (h : r.Saw i m r' m') {w : Worker} (hw : m.Has w) : m'.Has w := by
  cases h with
  | pushed hp => exact hp.has w hw
  | took _ _ hp => exact (hp.has w).mpr hw
  | worked _ _ _ hp => exact (hp.has w).mpr hw
  | proceeded => exact hw
  | did _ _ hp => exact hp.has w hw

/-! ## What the host puts behind queues -/

/-- What it takes for the host of run `i` to put a command behind the queue of a worker. -/
def Put (i : Nat) (m m' : Machine NodeJob) (r : Run) (a : Instruction) (r' : Run) (w : Worker) :
    Command NodeJob → Prop
  | .run _ job => a = .launch job.node ∧ job.run = i ∧ job.stage = .taking [] ∧
      r.plan.home job.node = some w ∧ r' = r
  | .fixed _ => False
  | .record k => k = m.markerCount w.timeline ∧
      m'.markerCount w.timeline = m.markerCount w.timeline + 1 ∧
      ∃ j n s, a = .announce j ∧ r.plan.nodes[j]? = some n ∧ r.plan.streamOf n = some s ∧
        s.worker? = some w ∧ r' = r.keep j ⟨s, some k, n.consumers, true, 0⟩
  | .wait k => ∃ j n s u, r.notification? j = some n ∧ n.marker? = some k ∧ n.stream.worker? = some u ∧
      u.timeline = w.timeline ∧ s ∈ r.plan.streams ∧ s.worker? = some w
  | .flush => ∃ k s, a = .flush k ∧ r.plan.streams[k]? = some s ∧ s.worker? = some w ∧
      r' = { r with asked := (m.queue w).flushes }
  | .shutdown => True

theorem Did.put (h : Did i m m' r a r' more) {w : Worker} {c : Command NodeJob} (hc : c ∈ more w) :
    Put i m m' r a r' w c := by
  cases h with
  | waited hn _ _ _ hwaits =>
      obtain ⟨u, k, rfl, hmarker, hu, htimeline, s, hs, hw⟩ := hwaits w c hc
      exact ⟨_, _, s, u, hn, hmarker, hu, htimeline.symm, waitingStream_mem hs, hw⟩
  | @queued j n s w' hn hs hw' =>
      unfold only at hc
      split at hc
      next heq =>
        subst heq
        obtain rfl := List.mem_singleton.mp hc
        exact ⟨rfl, rfl, rfl, by rw [Plan.home_eq hn, hs]; exact hw', rfl⟩
      · cases hc
  | @announced j n s hn hs hcount =>
      dsimp only at hc
      split at hc
      next hw =>
        obtain rfl := List.mem_singleton.mp hc
        exact ⟨rfl, hcount w hw, j, n, s, rfl, hn, hs, hw, by rw [hw]; rfl⟩
      · cases hc
  | forgotten hshut =>
      rw [hshut w c hc]
      trivial
  | @flush k number s hs hnumber =>
      unfold Stream.putting at hc
      split at hc
      next hw =>
        obtain rfl := List.mem_singleton.mp hc
        exact ⟨k, s, rfl, hs, hw, by rw [hnumber w hw]⟩
      · cases hc
  | _ => cases hc

/-- The host of another run has nothing to do with this one. -/
theorem Did.isAlien {i' : Nat} (h : Did i' m m' r a r' more) (hne : i' ≠ i) {w : Worker}
    {c : Command NodeJob} (hc : c ∈ more w) : c.IsAlien i m w := by
  cases c with
  | run label job =>
      obtain ⟨-, hjob, -⟩ := h.put hc
      exact fun heq => hne (hjob.symm.trans heq)
  | record k => exact Nat.le_of_eq (h.put hc).1.symm
  | _ => trivial

/-! ## Where the work of a run waits -/

/-- The work of run `i` waits where it belongs, and what is ahead of its host is the end of its plan. -/
structure Placed (i : Nat) (m : Machine NodeJob) (r : Run) : Prop where
  sound : r.plan.Sound
  on : r.On m
  homed : r.Homed
  launching : r.launching <:+ r.plan.launching
  draining : r.draining <:+ r.plan.draining
  active : ∀ job, r.active = some job →
    job.run = i ∧ job.node < r.plan.nodes.length ∧ r.plan.home job.node = none
  jobs : ∀ w label job, .run label job ∈ (m.queue w).pending → job.run = i →
    r.plan.home job.node = some w

theorem notification?_keep (r : Run) (j k : Nat) (n : Notification) :
    (r.keep j n).notification? k =
      if j = k ∧ k < r.notifications.length then some n else r.notification? k := by
  unfold notification? keep
  simp only [List.getElem?_set]
  by_cases h : j = k
  · subst h
    by_cases hlt : j < r.notifications.length
    · simp [hlt]
    · simp [hlt]
  · simp [h]

theorem notification?_kept {j : Nat} (hlt : j < r.notifications.length) {n : Notification} (k : Nat) :
    (r.keep j n).notification? k = if j = k then some n else r.notification? k := by
  rw [notification?_keep]
  by_cases h : j = k
  · rw [if_pos ⟨h, h ▸ hlt⟩, if_pos h]
  · rw [if_neg (fun hboth => h hboth.1), if_neg h]

/-- Work that waits on a queue was there before, perhaps less far, or was launched onto it. -/
theorem Saw.jobs (h : r.Saw i m r' m') {w : Worker} {label : String} {job : NodeJob}
    (hmem : .run label job ∈ (m'.queue w).pending) (hjob : job.run = i) :
    .run label job ∈ (m.queue w).pending ∨
      (∃ job' n stage, .run label job' ∈ (m.queue w).pending ∧ job'.run = i ∧
        r.plan.nodes[job'.node]? = some n ∧
        (r.stepOf n job').rest = some stage ∧ job = { job' with stage } ∧
        r' = r.absorb job'.node n.name (r.stepOf n job')) ∨
      (r.plan.home job.node = some w ∧ job.stage = .taking [] ∧ r'.slots = r.slots) := by
  cases h with
  | pushed hp halien =>
      rw [hp.pending] at hmem
      rcases List.mem_append.mp hmem with hmem | hmem
      · exact Or.inl hmem
      · exact absurd hjob (halien w _ hmem)
  | @took _ w' c _ _ front more hhead halien hp ht hput =>
      rcases hp.mem_cases hmem with hold | ⟨-, hnew⟩
      · exact Or.inl hold
      · exact absurd hjob (hput label job hnew)
  | @worked _ w' label' job' n more hhead hown hn hp hcalm =>
      rcases hp.mem_cases hmem with hold | ⟨rfl, hnew⟩
      · exact Or.inl hold
      -- Only what is left of the job in front is put anywhere.
      rcases List.mem_append.mp hnew with hleft | hmore
      · obtain ⟨stage, hstage, heq⟩ := Option.map_eq_some_iff.mp (Option.mem_toList.mp hleft)
        injection heq with hlabel hjob'
        subst hlabel
        exact Or.inr (Or.inl ⟨job', n, stage, List.mem_of_mem_head? hhead, hown, hn, hstage,
          hjob'.symm, rfl⟩)
      · exact (hcalm _ hmore).elim
  | proceeded => exact Or.inl hmem
  | did hactive hnext hp hdid =>
      rw [hp.pending] at hmem
      rcases List.mem_append.mp hmem with hmem | hmem
      · exact Or.inl hmem
      obtain ⟨-, -, hstage, hhome, rfl⟩ := hdid.put hmem
      refine Or.inr (Or.inr ⟨hnext.plan ▸ hhome, hstage, ?_⟩)
      cases hnext <;> rfl

end Run

end OpGraph
