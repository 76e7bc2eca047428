import OpGraph.Proofs.Creation
import OpGraph.Proofs.Progress
import OpGraph.Proofs.Settling

/-!
# `Proofs.Lives` — the lives of kernels

The kernel of a node belongs to whoever holds the plan, and to every piece of the node's work that waits or
goes on. With its last owner it is released. A *holding* is a plan that was prepared, with the runs of it
that were started, in the middle of everything else that goes on; along with it a log is kept of all that
happens to its kernels (`Lives`). Runs only borrow the plan, so it is given up when they are over. But work
may be left behind queues even then, where a flush failed, and kernels live on with it.

Nothing gives a kernel that was released an owner again: only a host launches work, and hosts of runs that
are over do nothing. And whoever calls a kernel has its work in hand, and owns it. So in the log every
kernel is created, then called, then released once (`System.kernels_live_once`); and since the work that is
left comes to an end, each kernel of a plan that was given up is.
-/

namespace OpGraph

open Machine

/-! ## Records about nodes -/

section Records

variable {α β : Type} {j : Nat}

/-- Entries of a record that are about one node. -/
def entriesOf (j : Nat) (log : List (Nat × α)) : List α :=
  log.filterMap fun e => if e.1 = j then some e.2 else none

/-- The record of one thing about each node, in order. -/
def numbered (l : List α) : List (Nat × α) := l.zipIdx.map fun (a, j) => (j, a)

theorem entriesOf_append (log more : List (Nat × α)) :
    entriesOf j (log ++ more) = entriesOf j log ++ entriesOf j more := List.filterMap_append ..

theorem entriesOf_map (f : α → β) (log : List (Nat × α)) :
    entriesOf j (log.map fun e => (e.1, f e.2)) = (entriesOf j log).map f := by
  unfold entriesOf
  rw [List.filterMap_map, List.map_filterMap]
  refine List.filterMap_congr fun e _ => ?_
  by_cases h : e.1 = j <;> simp [h]

theorem entriesOf_flatMap {ι : Type} (f : ι → List (Nat × α)) (l : List ι) :
    entriesOf j (l.flatMap f) = l.flatMap fun i => entriesOf j (f i) := List.filterMap_flatMap ..

theorem entriesOf_filter (keep : Nat → Bool) (log : List (Nat × α)) :
    entriesOf j (log.filter fun e => keep e.1) = if keep j then entriesOf j log else [] := by
  induction log with
  | nil => simp [entriesOf]
  | cons e log ih =>
      unfold entriesOf at ih ⊢
      by_cases hj : e.1 = j
      · subst hj
        by_cases hkeep : keep e.1 <;> simp [hkeep, ih]
      · by_cases hkeep : keep e.1 <;> simp [hkeep, hj, ih]

theorem entriesOf_numbered (l : List α) : entriesOf j (numbered l) = l[j]?.toList := by
  induction l using List.reverseRecOn with
  | nil => rfl
  | append_singleton l a ih =>
      unfold numbered at ih ⊢
      rw [List.zipIdx_append, List.map_append, entriesOf_append, ih, List.getElem?_append]
      rcases Nat.lt_trichotomy j l.length with h | h | h
      · simp [entriesOf, h, Nat.ne_of_gt h]
      · simp [entriesOf, h]
      · simp [entriesOf, Nat.ne_of_lt h, Nat.not_lt_of_gt h, Nat.sub_ne_zero_of_lt h]

theorem lt_of_mem_numbered {l : List α} {e : Nat × α} (h : e ∈ numbered l) : e.1 < l.length := by
  obtain ⟨⟨a, k⟩, hmem, rfl⟩ := List.mem_map.mp h
  have := List.snd_lt_of_mem_zipIdx hmem
  omega

end Records

/-! ## What a step does to work and calls -/

namespace Run

variable {i j : Nat} {r r' : Run} {m m' : Machine NodeJob} {n : PlannedNode}

/-- Calls are only ever added, and are calls of kernels of the plan. -/
theorem Saw.calls (h : r.Saw i m r' m') :
    ∃ more, r'.calls = r.calls ++ more ∧ ∀ c ∈ more, c.1 < r.plan.nodes.length := by
  have habsorb : ∀ {job : NodeJob} {n : PlannedNode} {args : Option (List (Option Tensor))},
      r.plan.nodes[job.node]? = some n →
      ∀ c ∈ (args.map fun args => (job.node, args)).toList, c.1 < r.plan.nodes.length := by
    intro job n args hn c hc
    obtain ⟨args, -, rfl⟩ := Option.map_eq_some_iff.mp (Option.mem_toList.mp hc)
    exact (List.getElem?_eq_some_iff.mp hn).1
  cases h with
  | pushed => exact ⟨[], (List.append_nil _).symm, nofun⟩
  | took => exact ⟨[], (List.append_nil _).symm, nofun⟩
  | worked _ _ hn => exact ⟨_, rfl, habsorb hn⟩
  | proceeded _ hn => exact ⟨_, rfl, habsorb hn⟩
  | did _ hnext _ hdid =>
      refine ⟨[], ?_, nofun⟩
      rw [List.append_nil, hdid.computed.2.1, hnext.computed.2.1]

/-- A run that is over stays over. -/
theorem Saw.isOver (h : r.Saw i m r' m') (hover : r.isOver = true) : r'.isOver = true := by
  obtain ⟨hactive, hlaunching, hdraining⟩ := isOver_iff.mp hover
  cases h with
  | pushed => exact hover
  | took => exact hover
  | worked => exact hover
  | proceeded hsome =>
      rw [hactive] at hsome
      cases hsome
  | did _ hnext =>
      rcases hnext.mem with hmem | hmem
      · rw [hlaunching] at hmem
        cases hmem
      · rw [hdraining] at hmem
        cases hmem

/-- Work that calls a kernel has something left to do afterwards. -/
theorem rest_of_arguments {stream : Option Stream} {slots : ValueStore} {stage : Stage} {w : WorkStep}
    (h : n.Advanced stream slots stage w) (hcall : w.arguments.toList ≠ []) : w.rest.toList ≠ [] := by
  cases h with
  | ran => exact List.cons_ne_nil _ _
  | broke => exact List.cons_ne_nil _ _
  | _ => exact absurd rfl hcall

/-- **Whoever calls a kernel has work of its node in hand, and a run that is over gets no new work.** -/
theorem Saw.keeps_work (hp : r.Placed i m) (hst : r.Stands i m) (h : r.Saw i m r' m')
    (hn : r.plan.nodes[j]? = some n) {more : List (Nat × List (Option Tensor))}
    (hcalls : r'.calls = r.calls ++ more) : (entriesOf j more ≠ [] → r'.stages i m' j ≠ []) ∧
      (r.isOver = true → r.stages i m j = [] → r'.stages i m' j = []) := by
  have hof : r'.callsOf j = r.callsOf j ++ entriesOf j more := by
    show entriesOf j r'.calls = entriesOf j r.calls ++ _
    rw [hcalls, entriesOf_append]
  cases h.moved hp hst hn with
  | still hstages _ hsame =>
      rw [hsame] at hof
      refine ⟨fun hne => absurd (List.self_eq_append_right.mp hof) hne, fun _ hnone => ?_⟩
      rw [hstages, hnone]
  | launched hahead _ _ _ hsame =>
      rw [hsame] at hof
      refine ⟨fun hne => absurd (List.self_eq_append_right.mp hof) hne, fun hover => ?_⟩
      unfold Ahead at hahead
      rw [(isOver_iff.mp hover).2.1] at hahead
      rcases hahead with hmem | hmem <;> cases hmem
  | worked _ _ hbefore hadvanced hafter _ hsame =>
      rw [hsame] at hof
      refine ⟨fun hne hnone => ?_, fun _ hnone => ?_⟩
      · rw [← List.append_cancel_left hof] at hne
        rw [hafter, List.append_eq_nil_iff] at hnone
        exact rest_of_arguments hadvanced hne hnone.1
      · rw [hbefore] at hnone
        cases hnone

end Run

/-! ## Holding a plan -/

/-- What happens to the kernel of a node. -/
inductive KernelEvent where
  /-- Its creation was asked for, or it was released. -/
  | life (e : LifeEvent)
  /-- It was called on these arguments. -/
  | called (args : List (Option Tensor))

namespace System

/-- Whether work of a node in a run waits or goes on. -/
def busy (σ : System) (i j : Nat) : Bool := (σ.runs[i]?).any fun r => !(r.stages i σ.machine j).isEmpty

/-- What the kernel of a node was called on in a run. -/
def callsOf (σ : System) (i j : Nat) : List (List (Option Tensor)) :=
  ((σ.runs[i]?).map (·.callsOf j)).getD []

/-- Calls of kernels in a run that are new in the second of two systems. -/
def newCalls (σ σ' : System) (i : Nat) : List (Nat × List (Option Tensor)) :=
  match σ.runs[i]?, σ'.runs[i]? with
  | some r, some r' => r'.calls.drop r.calls.length
  | _, _ => []

end System

/-- A plan that was prepared, in the middle of everything that goes on. -/
structure Holding where
  system : System
  plan : Plan
  /-- Numbers of the runs that were started of it. -/
  runs : List Nat := []
  /-- Whether it was not given up yet. -/
  held : Bool := true

namespace Holding

/-- Whether the kernel of a node has an owner: the plan, or work of the node. -/
def owned (x : Holding) (j : Nat) : Bool := x.held || x.runs.any (x.system.busy · j)

/-- What the kernel of a node was called on in all runs. -/
def callsOf (x : Holding) (j : Nat) : List (List (Option Tensor)) := x.runs.flatMap (x.system.callsOf · j)

/-- The record of the calls that are new in another system. -/
def news (x : Holding) (σ' : System) : List (Nat × KernelEvent) :=
  (x.runs.flatMap (x.system.newCalls σ')).map fun e => (e.1, .called e.2)

/-- The record of the releases of kernels that lost their last owner. -/
def lost (x x' : Holding) : List (Nat × KernelEvent) :=
  (numbered (x.plan.release.map .life)).filter fun e => x.owned e.1 && !x'.owned e.1

/-- The same holding in another system. -/
def goTo (x : Holding) (σ' : System) : Holding := { x with system := σ' }

/-- The holding with one more run, which was fed and started. -/
def begin (x : Holding) (fed : List (String × Tensor)) (r : Run) : Holding :=
  { x with
    system := { x.system with
      feeds := x.system.feeds ++ [fed], execution := (x.system.execution.begin r).2 }
    runs := x.runs ++ [x.system.runs.length] }

/-- The holding without the plan. -/
def giveUp (x : Holding) : Holding := { x with held := false }

end Holding

/-- A plan of a graph is prepared by a session, runs, and is given up; with the log of what happens to its
    kernels, each event with the place of its node in the plan. Whatever else the streams of the plan do
    when they are closed comes behind all work, and calls and releases no kernel. -/
inductive Lives (s : Session) (g : Graph) : Holding → List (Nat × KernelEvent) → Prop
  /-- The plan is prepared. -/
  | prepared {σ : System} {p : Plan} {life : List LifeEvent} {m : Machine NodeJob} : σ.Reached →
      s ∈ σ.sessions → Plan.build s g σ.machine = ((.ok p, life), m) →
      Lives s g { system := { σ.onMachine m with plans := p :: σ.plans }, plan := p }
        (numbered (life.map .life))
  /-- Somebody takes a step: a worker, the host of a run of this plan or of another, or anybody else. A run
      that others start is one of their own, even if their plan is the same. -/
  | step {x : Holding} {log : List (Nat × KernelEvent)} {σ' : System} : Lives s g x log →
      x.system.Step σ' → Lives s g (x.goTo σ') (log ++ x.news σ' ++ x.lost (x.goTo σ'))
  /-- A run of the plan is started. -/
  | run {x : Holding} {log : List (Nat × KernelEvent)} {fed : List (String × Tensor)} {r : Run} :
      Lives s g x log → x.held = true → Run.start x.plan fed = .ok r → Lives s g (x.begin fed r) log
  /-- The plan is given up. None of its runs goes on. -/
  | drop {x : Holding} {log : List (Nat × KernelEvent)} : Lives s g x log → x.held = true →
      (∀ i ∈ x.runs, ∀ r, x.system.runs[i]? = some r → r.isOver = true) →
      Lives s g x.giveUp (log ++ x.lost x.giveUp)

namespace Holding

variable {x x' : Holding} {σ' : System} {j : Nat} {n : PlannedNode}

theorem owned_of_held (h : x.held = true) (j : Nat) : x.owned j = true := by
  unfold owned
  rw [h, Bool.true_or]

theorem owned_iff : x.owned j = true ↔ x.held = true ∨ ∃ i ∈ x.runs, ∃ r, x.system.runs[i]? = some r ∧
    r.stages i x.system.machine j ≠ [] := by
  simp [owned, System.busy, Option.any_eq_true]

theorem lost_lt {e : Nat × KernelEvent} (h : e ∈ x.lost x') : e.1 < x.plan.nodes.length := by
  have := lt_of_mem_numbered (List.mem_of_mem_filter h)
  simpa [Plan.release] using this

/-- Of a kernel that lost its last owner the release is recorded. -/
theorem entriesOf_lost (hn : x.plan.nodes[j]? = some n) :
    entriesOf j (x.lost x') = if x.owned j && !x'.owned j then [.life n.kernel.release] else [] := by
  unfold lost
  rw [entriesOf_filter fun j => x.owned j && !x'.owned j, entriesOf_numbered, Plan.release, List.map_map,
    List.getElem?_map, hn]
  rfl

/-! ## What is so of a holding at any time -/

/-- The plan and its runs are there, and after the plan was given up its runs are over. -/
structure Sane (x : Holding) : Prop where
  reached : x.system.Reached
  planned : x.plan ∈ x.system.plans
  ours : ∀ i ∈ x.runs, ∃ r, x.system.runs[i]? = some r ∧ r.plan = x.plan
  ended : x.held = false → ∀ i ∈ x.runs, ∀ r, x.system.runs[i]? = some r → r.isOver = true

/-- What a step of somebody is to one of the runs, and the calls that are new. -/
theorem Sane.saw (h : x.Sane) (hs : x.system.Step σ') {i : Nat} (hi : i ∈ x.runs) :
    ∃ r r', x.system.runs[i]? = some r ∧ r.plan = x.plan ∧ σ'.runs[i]? = some r' ∧
      r.Saw i x.system.machine r' σ'.machine ∧ r'.calls = r.calls ++ x.system.newCalls σ' i ∧
      ∀ c ∈ x.system.newCalls σ' i, c.1 < x.plan.nodes.length := by
  obtain ⟨r, hr, hplan⟩ := h.ours i hi
  obtain ⟨r', hr', hsaw⟩ := hs.saw h.reached.grounded hr
  obtain ⟨more, hcalls, hplaces⟩ := hsaw.calls
  have hnew : x.system.newCalls σ' i = more := by
    unfold System.newCalls
    rw [hr, hr']
    show r'.calls.drop r.calls.length = more
    rw [hcalls, List.drop_left]
  rw [hnew, ← hplan]
  exact ⟨r, r', hr, rfl, hr', hsaw, hcalls, hplaces⟩

/-- In a run that was just started no kernel was called yet. -/
theorem Sane.callsOf_begin (h : x.Sane) {fed : List (String × Tensor)} {r : Run}
    (hr : Run.start x.plan fed = .ok r) : (x.begin fed r).callsOf j = x.callsOf j := by
  have hold : ∀ i ∈ x.runs, (x.begin fed r).system.callsOf i j = x.system.callsOf i j := by
    intro i hi
    obtain ⟨r₀, hr₀, -⟩ := h.ours i hi
    unfold System.callsOf
    rw [hr₀, show (x.begin fed r).system.runs[i]? = some r₀ from
      (List.getElem?_append_left (List.getElem?_eq_some_iff.mp hr₀).1).trans hr₀]
  have hnew : (x.begin fed r).system.callsOf x.system.runs.length j = [] := by
    unfold System.callsOf
    rw [show (x.begin fed r).system.runs[x.system.runs.length]? = some r from
      List.getElem?_concat_length ..]
    obtain ⟨slots, -, rfl⟩ := Outcome.map_eq_ok.mp hr
    rfl
  show (x.runs ++ [x.system.runs.length]).flatMap _ = _
  rw [List.flatMap_append, List.flatMap_congr hold, List.flatMap_singleton, hnew, List.append_nil]
  rfl

theorem Sane.step (h : x.Sane) (hs : x.system.Step σ') : (x.goTo σ').Sane where
  reached := .step h.reached hs
  planned := by
    rcases hs.prepared h.reached.grounded with hsame | ⟨p, hcons, -⟩
    · exact hsame ▸ h.planned
    · exact hcons ▸ List.mem_cons_of_mem _ h.planned
  ours i hi := by
    obtain ⟨r, r', -, hplan, hr', hsaw, -⟩ := h.saw hs hi
    exact ⟨r', hr', hsaw.plan.trans hplan⟩
  ended hgiven i hi r₁ hr₁ := by
    obtain ⟨r, r', hr, -, hr', hsaw, -⟩ := h.saw hs hi
    obtain rfl : r' = r₁ := Option.some.inj (hr'.symm.trans hr₁)
    exact hsaw.isOver (h.ended hgiven i hi r hr)

/-- What a step does, in one of the runs, to a node's work and the calls of its kernel. -/
theorem Sane.saw_node (h : x.Sane) (hs : x.system.Step σ') (hn : x.plan.nodes[j]? = some n) {i : Nat}
    (hi : i ∈ x.runs) : ∃ r r', x.system.runs[i]? = some r ∧ σ'.runs[i]? = some r' ∧
      r'.callsOf j = r.callsOf j ++ entriesOf j (x.system.newCalls σ' i) ∧
      (entriesOf j (x.system.newCalls σ' i) ≠ [] → r'.stages i σ'.machine j ≠ []) ∧
      (r.isOver = true → r.stages i x.system.machine j = [] → r'.stages i σ'.machine j = []) := by
  obtain ⟨r, r', hr, hplan, hr', hsaw, hcalls, -⟩ := h.saw hs hi
  obtain ⟨fed, hlawful⟩ := h.reached.exists_lawful hr
  obtain ⟨hkeeps, hrests⟩ := hsaw.keeps_work hlawful.placed hlawful.stands (hplan ▸ hn) hcalls
  refine ⟨r, r', hr, hr', ?_, hkeeps, hrests⟩
  show entriesOf j r'.calls = entriesOf j r.calls ++ _
  rw [hcalls, entriesOf_append]

/-- **What a step does to the kernel of a node.** New calls are of kernels that stay owned, and a kernel
    without an owner gets none. -/
theorem Sane.tally (h : x.Sane) (hs : x.system.Step σ') (hn : x.plan.nodes[j]? = some n) :
    ∃ more, entriesOf j (x.news σ') = more.map .called ∧
      ((x.goTo σ').callsOf j).Perm (x.callsOf j ++ more) ∧
      (more ≠ [] → (x.goTo σ').owned j = true) ∧ (x.owned j = false → (x.goTo σ').owned j = false) := by
  refine ⟨x.runs.flatMap fun i => entriesOf j (x.system.newCalls σ' i), ?_, ?_, fun hne => ?_, fun hnot => ?_⟩
  · rw [← entriesOf_flatMap]
    exact entriesOf_map _ _
  · have heach : ∀ i ∈ x.runs,
        σ'.callsOf i j = x.system.callsOf i j ++ entriesOf j (x.system.newCalls σ' i) := by
      intro i hi
      obtain ⟨r, r', hr, hr', hcalls, -⟩ := h.saw_node hs hn hi
      unfold System.callsOf
      rw [hr, hr']
      exact hcalls
    show (x.runs.flatMap (σ'.callsOf · j)).Perm _
    rw [List.flatMap_congr heach]
    exact (List.flatMap_append_perm ..).symm
  · -- The run that called the kernel has its work in hand.
    obtain ⟨args, hargs⟩ := List.exists_mem_of_ne_nil _ hne
    obtain ⟨i, hi, hargs⟩ := List.mem_flatMap.mp hargs
    obtain ⟨r, r', -, hr', -, hkeeps, -⟩ := h.saw_node hs hn hi
    exact owned_iff.mpr (.inr ⟨i, hi, r', hr', hkeeps (List.ne_nil_of_mem hargs)⟩)
  · rw [← Bool.not_eq_true, owned_iff] at hnot ⊢
    rintro (hheld | ⟨i, hi, r₁, hr₁, hne⟩)
    · exact hnot (.inl hheld)
    · -- The plan was given up, so the run is over, and had no work of the node before.
      obtain ⟨r, r', hr, hr', -, -, hrests⟩ := h.saw_node hs hn hi
      obtain rfl : r' = r₁ := Option.some.inj (hr'.symm.trans hr₁)
      have hgiven : x.held = false := Bool.eq_false_iff.mpr fun hheld => hnot (.inl hheld)
      apply hne
      apply hrests (h.ended hgiven i hi r hr)
      exact Classical.byContradiction fun hbusy => hnot (.inr ⟨i, hi, r, hr, hbusy⟩)

/-- The log of a holding tells of a kernel: it was created, then called, then released if nobody owns it. -/
def Tells (x : Holding) (log : List (Nat × KernelEvent)) (j : Nat) (n : PlannedNode) : Prop :=
  ∃ calls : List (List (Option Tensor)), calls.Perm (x.callsOf j) ∧ entriesOf j log =
    .life n.creation :: (calls.map .called ++ if x.owned j then [] else [.life n.kernel.release])

/-- More calls, and the release if the last owner goes. -/
theorem Tells.extend {log said : List (Nat × KernelEvent)} {more : List (List (Option Tensor))}
    (h : x.Tells log j n) (hn : x.plan.nodes[j]? = some n) (hsaid : entriesOf j said = more.map .called)
    (hcalls : (x'.callsOf j).Perm (x.callsOf j ++ more)) (hkeeps : more ≠ [] → x'.owned j = true)
    (hrests : x.owned j = false → x'.owned j = false) : x'.Tells (log ++ said ++ x.lost x') j n := by
  obtain ⟨calls, hperm, htold⟩ := h
  refine ⟨calls ++ more, (hperm.append_right more).trans hcalls.symm, ?_⟩
  rw [entriesOf_append, entriesOf_append, htold, hsaid, entriesOf_lost hn, List.map_append]
  cases howned : x.owned j with
  | true => cases howned' : x'.owned j <;> simp
  | false =>
      -- Released before: nothing is called any more.
      have howned' := hrests howned
      have hnone : more = [] := Classical.byContradiction fun hne => by
        rw [hkeeps hne] at howned'
        cases howned'
      simp [howned', hnone]

/-- As long as a kernel has an owner after its plan was given up, work behind a queue of the plan goes on. -/
theorem Sane.goes_on (h : x.Sane) (hgiven : x.held = false) (howned : x.owned j = true) :
    ∃ w, x.plan.uses w = true ∧ (x.system.execution.workerStep w).isSome := by
  rcases owned_iff.mp howned with hheld | ⟨i, hi, r, hr, hbusy⟩
  · rw [hgiven] at hheld
    cases hheld
  obtain ⟨r', hr', hplan⟩ := h.ours i hi
  obtain rfl : r' = r := Option.some.inj (hr'.symm.trans hr)
  have hover := h.ended hgiven i hi r' hr
  -- The run is over, so its work is behind a queue.
  obtain ⟨w, hhome, hne⟩ : ∃ w, r'.plan.home j = some w ∧ (x.system.machine.queue w).pending ≠ [] := by
    refine Classical.byContradiction fun hnone => hbusy (Run.stages_of_isOver hover ?_)
    intro w label job hhome hmem
    exact absurd ⟨w, hhome, List.ne_nil_of_mem hmem⟩ hnone
  have huses : x.plan.uses w = true := by
    obtain ⟨s, hs, hw⟩ := Option.bind_eq_some_iff.mp hhome
    obtain ⟨n, -, hn⟩ := Option.bind_eq_some_iff.mp hs
    exact hplan ▸ Plan.uses_iff.mpr ⟨s, Run.streamOf_mem hn, hw⟩
  exact h.reached.worker_goes_on h.planned huses hne

/-- Where all runs flushed every stream, nobody owns a kernel but the one who holds the plan. -/
theorem Sane.free_of_flushed (h : x.Sane) (hover : ∀ i ∈ x.runs, ∀ r, x.system.runs[i]? = some r →
      r.isOver = true ∧ r.flushError = none) (j : Nat) : x.giveUp.owned j = false := by
  rw [← Bool.not_eq_true, owned_iff]
  rintro (hheld | ⟨i, hi, r, hr, hbusy⟩)
  · cases hheld
  · obtain ⟨hend, hflushed⟩ := hover i hi r hr
    obtain ⟨fed, hlawful⟩ := h.reached.exists_lawful hr
    refine hbusy (Run.stages_of_isOver hend fun w label job _ hmem => ?_)
    exact hlawful.drains.idle hlawful.placed hend hflushed w label job hmem

end Holding

/-! ## Every kernel lives once -/

namespace Lives

variable {s : Session} {g : Graph} {x : Holding} {log : List (Nat × KernelEvent)}

theorem sane (h : Lives s g x log) : x.Sane := by
  induction h with
  | prepared hreached hmem hbuild =>
      exact ⟨.step hreached (.prepare hmem hbuild), List.mem_cons_self, nofun, nofun⟩
  | step _ hs ih => exact ih.step hs
  | @run x log fed r _ hheld hr ih =>
      have hstep := System.Step.begin ih.planned hr
      refine ⟨.step ih.reached hstep, ih.planned, fun i hi => ?_, fun hgiven => ?_⟩
      · rcases List.mem_append.mp hi with hi | hi
        · obtain ⟨r₀, r', -, hplan, hr', hsaw, -⟩ := ih.saw hstep hi
          exact ⟨r', hr', hsaw.plan.trans hplan⟩
        · obtain rfl := List.mem_singleton.mp hi
          refine ⟨r, ?_, (Run.start_eq_ok hr).1⟩
          exact List.getElem?_concat_length ..
      · cases hheld.symm.trans hgiven
  | drop _ _ hover ih => exact ⟨ih.reached, ih.planned, ih.ours, fun _ => hover⟩

/-- The plan is one that was prepared, and the log begins with the creations of its kernels. -/
theorem created (hcatalog : s.catalog.Reachable) (h : Lives s g x log) :
    x.plan.nodes.length = (Plan.inOrder g).length ∧ Plan.Attempt s (Plan.inOrder g) x.plan.nodes none ∧
      numbered (x.plan.nodes.map fun n => .life n.creation) <+: log := by
  induction h with
  | prepared _ _ hbuild =>
      cases Plan.build_record hcatalog hbuild with
      | planned hlength hattempt =>
          refine ⟨hlength, hattempt, ?_⟩
          rw [List.map_map]
          exact List.prefix_refl _
  | step _ _ ih =>
      obtain ⟨hlength, hattempt, hbegins⟩ := ih
      rw [List.append_assoc]
      exact ⟨hlength, hattempt, hbegins.trans (List.prefix_append ..)⟩
  | run _ _ _ ih => exact ih
  | drop _ _ _ ih =>
      obtain ⟨hlength, hattempt, hbegins⟩ := ih
      exact ⟨hlength, hattempt, hbegins.trans (List.prefix_append ..)⟩

/-- The log is about nodes of the plan. -/
theorem places (hcatalog : s.catalog.Reachable) (h : Lives s g x log) :
    ∀ e ∈ log, e.1 < x.plan.nodes.length := by
  induction h with
  | prepared _ _ hbuild =>
      cases Plan.build_record hcatalog hbuild with
      | planned =>
          intro e he
          simpa using lt_of_mem_numbered he
  | @step x log σ' hlives hs ih =>
      intro e he
      rcases List.mem_append.mp he with he | he
      · rcases List.mem_append.mp he with he | he
        · exact ih e he
        · obtain ⟨c, hc, rfl⟩ := List.mem_map.mp he
          obtain ⟨i, hi, hc⟩ := List.mem_flatMap.mp hc
          obtain ⟨r, r', -, -, -, -, -, hplaces⟩ := hlives.sane.saw hs hi
          exact hplaces c hc
      · exact Holding.lost_lt (x := x) he
  | run _ _ _ ih => exact ih
  | @drop x _ _ _ _ ih =>
      intro e he
      rcases List.mem_append.mp he with he | he
      · exact ih e he
      · exact Holding.lost_lt (x := x) he

theorem tells (hcatalog : s.catalog.Reachable) (h : Lives s g x log) {j : Nat} {n : PlannedNode}
    (hn : x.plan.nodes[j]? = some n) : x.Tells log j n := by
  induction h with
  | prepared _ _ hbuild =>
      cases Plan.build_record hcatalog hbuild with
      | planned =>
          refine ⟨[], .refl _, ?_⟩
          rw [Holding.owned_of_held rfl, entriesOf_numbered, List.map_map, List.getElem?_map, hn]
          rfl
  | step hlives hs ih =>
      obtain ⟨more, hsaid, hcalls, hkeeps, hrests⟩ := hlives.sane.tally hs hn
      exact (ih hn).extend hn hsaid hcalls hkeeps hrests
  | @run x log fed r hlives hheld hr ih =>
      obtain ⟨calls, hperm, htold⟩ := ih hn
      rw [Holding.owned_of_held hheld] at htold
      refine ⟨calls, ?_, ?_⟩
      · rw [hlives.sane.callsOf_begin hr]
        exact hperm
      · rw [Holding.owned_of_held (x := x.begin fed r) hheld]
        exact htold
  | @drop x log hlives hheld hover ih =>
      -- Nothing is called, and the plan was an owner of every kernel.
      have hsame : (x.giveUp.callsOf j).Perm (x.callsOf j ++ []) := by
        rw [List.append_nil]
        exact .refl _
      have hrests : x.owned j = false → x.giveUp.owned j = false := by
        intro hfree
        rw [Holding.owned_of_held hheld] at hfree
        cases hfree
      have htells : x.giveUp.Tells (log ++ [] ++ x.lost x.giveUp) j n :=
        (ih hn).extend hn rfl hsame (absurd rfl) hrests
      rwa [List.append_nil] at htells

/-- **A plan that was given up can be brought to where nobody owns its kernels.** As long as one has an owner,
    a worker of the plan goes on, and that leaves less to be done. -/
theorem settles {x : Holding} {log : List (Nat × KernelEvent)} (h : Lives s g x log) (hgiven : x.held = false) :
    ∃ x' more, Lives s g x' (log ++ more) ∧ x'.plan = x.plan ∧ x'.runs = x.runs ∧
      ∀ j, x'.owned j = false := by
  by_cases hfree : ∀ j, x.owned j = false
  · refine ⟨x, [], ?_, rfl, rfl, hfree⟩
    rw [List.append_nil]
    exact h
  · obtain ⟨j, hj⟩ := not_forall.mp hfree
    obtain ⟨w, huses, hgoes⟩ := h.sane.goes_on hgiven (Bool.not_eq_false _ ▸ hj)
    obtain ⟨e, he⟩ := Option.isSome_iff_exists.mp hgoes
    have hless := h.sane.reached.shrinks h.sane.planned huses he
    obtain ⟨x', more, hlives, hplan, hruns, hnone⟩ := settles (h.step (.work he)) hgiven
    rw [List.append_assoc, List.append_assoc] at hlives
    exact ⟨x', _, hlives, hplan, hruns, hnone⟩
termination_by x.plan.left x.system.machine
decreasing_by exact hless

/-- Taking a run to its end is one way for a holding to go on. -/
theorem finish (h : Lives s g x log) (i : Nat) : ∃ log',
    Lives s g (x.goTo { x.system with execution := x.system.execution.finish i }) log' :=
  Execution.finish_induction
    (P := fun e => ∃ log', Lives s g (x.goTo { x.system with execution := e }) log')
    (fun _ _ _ ⟨_, he⟩ hw => ⟨_, he.step (.work hw)⟩) (fun _ _ _ ⟨_, he⟩ hh => ⟨_, he.step (.host hh)⟩)
    ⟨log, h⟩ i

end Lives

namespace System

/-- **Every kernel lives once.** However preparing a graph ends, kernels are asked for in order, at most once
    for each node, of operators that are not newer than the host, and with the version the operator asks for;
    where there is no plan, those that were made are released once, and no others. Of a plan every kernel is
    created once, before anything else happens; then it is called, as often as runs of the plan call it; and
    it is released once, when nobody owns it any more. After the plan was given up this comes about: while a
    kernel has an owner a worker goes on, and when the workers have gone on for long enough none has. -/
theorem kernels_live_once {Job : Type} {setup : Setup} {m₀ m₁ : Machine Job} {s : Session}
    {events : List LogEvent} (hstart : Session.start setup m₀ = (.ok (s, m₁), events)) (g : Graph) :
    (Plan.inOrder g = [] ∨ (Plan.inOrder g).Perm g.nodes) ∧
    (∀ (m m' : Machine NodeJob) result life, Plan.build s g m = ((result, life), m') →
      Plan.Recorded s g result life) ∧
    ∀ x log, Lives s g x log →
      (x.plan.nodes.length = (Plan.inOrder g).length ∧ Plan.Attempt s (Plan.inOrder g) x.plan.nodes none ∧
        numbered (x.plan.nodes.map fun n => .life n.creation) <+: log) ∧
      (∀ e ∈ log, e.1 < x.plan.nodes.length) ∧
      (∀ (j : Nat) n, x.plan.nodes[j]? = some n → x.Tells log j n) ∧
      (x.held = false →
        (∀ j, x.owned j = true → ∃ w, x.plan.uses w = true ∧ (x.system.execution.workerStep w).isSome) ∧
        ∃ x' more, Lives s g x' (log ++ more) ∧ x'.plan = x.plan ∧ x'.runs = x.runs ∧
          ∀ j, x'.owned j = false) := by
  have hcatalog := Session.start_reachable hstart
  refine ⟨Plan.inOrder_perm g, ?_, ?_⟩
  · intro m m' result life hbuild
    exact Plan.build_record hcatalog hbuild
  · intro x log h
    refine ⟨h.created hcatalog, h.places hcatalog, fun j n hn => h.tells hcatalog hn, fun hgiven => ⟨?_, ?_⟩⟩
    · exact fun j howned => h.sane.goes_on hgiven howned
    · exact h.settles hgiven

/-- A float is handed on once, and the plan is given up: the second kernel is created, called, released. -/
theorem kernels_live_once_relay : ∃ s m₁ events x log n,
    Session.start relaySetup ({} : Machine NodeJob) = (.ok (s, m₁), events) ∧ Lives s relayGraph x log ∧
    x.plan.nodes[1]? = some n ∧
    entriesOf 1 log = [.life n.creation, .called [some relayed], .life n.kernel.release] := by
  have hwhole : ∃ s m₁ events p life m₂ r₀ r,
      Session.start relaySetup ({} : Machine NodeJob) = (.ok (s, m₁), events) ∧
      Plan.build s relayGraph m₁ = ((.ok p, life), m₂) ∧ Run.start p [("x", relayed)] = .ok r₀ ∧
      ((Execution.mk m₂ [r₀]).finish 0).runs[0]? = some r ∧ r.isOver = true ∧ r.result = .ok [relayed] ∧
      r.callsOf 1 = [[some relayed]] :=
    ⟨_, _, _, _, _, _, _, _, rfl, rfl, rfl, rfl, rfl, rfl, rfl⟩
  obtain ⟨s, m₁, events, p, life, m₂, r₀, r, hstart, hbuild, hr₀, hr, hover, hresult, hcalls⟩ := hwhole
  have hsession : Reached { sessions := [s], execution := ⟨m₁, []⟩ } :=
    .step .empty (.session (by simp [relaySetup]) hstart)
  have hprepared := Lives.prepared hsession List.mem_cons_self hbuild
  obtain ⟨log, hlives⟩ := (hprepared.run rfl hr₀).finish 0
  -- The one run is over, and it flushed everything.
  have hends : ∀ i ∈ [0], ∀ r', ((Execution.mk m₂ [r₀]).finish 0).runs[i]? = some r' → r' = r := by
    intro i hi r' hr'
    obtain rfl := List.mem_singleton.mp hi
    exact Option.some.inj (hr'.symm.trans hr)
  have hdropped := hlives.drop rfl fun i hi r' hr' => hends i hi r' hr' ▸ hover
  have hfree := hlives.sane.free_of_flushed
    (fun i hi r' hr' => hends i hi r' hr' ▸ ⟨hover, (Run.result_eq_ok.mp hresult).1.flushError⟩) 1
  obtain ⟨-, -, hall⟩ := kernels_live_once hstart relayGraph
  obtain ⟨⟨hlength, -, -⟩, -, htells, -⟩ := hall _ _ hdropped
  have hlength : p.nodes.length = 2 := hlength
  obtain ⟨n, hn⟩ : ∃ n, p.nodes[1]? = some n := ⟨_, List.getElem?_eq_getElem (by omega)⟩
  obtain ⟨calls, hperm, htold⟩ := htells 1 n hn
  refine ⟨s, m₁, events, _, _, n, hstart, hdropped, hn, ?_⟩
  have hcalled : calls = [[some relayed]] := by
    refine List.perm_singleton.mp (hperm.trans (List.Perm.of_eq ?_))
    show [0].flatMap (fun i =>
      ((((Execution.mk m₂ [r₀]).finish 0).runs[i]?).map (·.callsOf 1)).getD []) = _
    rw [List.flatMap_singleton, hr]
    exact hcalls
  rw [htold, hfree, hcalled]
  rfl

end System

end OpGraph
