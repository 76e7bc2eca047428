import OpGraph.Proofs.Journal
import OpGraph.Proofs.Refinement

/-!
# `Proofs.Progress` — no run is ever stuck

A host that cannot go on waits for a marker whose record is behind a queue of its plan, or for the answer to
a flush that is (`Run.Blocked`). A worker that cannot go on waits for a marker, and of all commands behind
the queues of a plan the oldest is none of these: whatever it could wait for was recorded before it. So as
long as anything is left to be done for a run, somebody can do it (`System.never_stuck`), however many
runs of the plan are in progress.
-/

namespace OpGraph

open Machine

/-! ## Workers -/

/-- Work can always go on. -/
theorem NodeJob.exists_execute (job : NodeJob) (runs : List Run) : ∃ result, job.execute runs = some result := by
  unfold execute
  split
  · exact ⟨_, rfl⟩
  · split <;> exact ⟨_, rfl⟩

/-! ## Hosts -/

/-- What comes right before the wait for the answer to a flush is the question. -/
theorem Plan.flush_before {p : Plan} {a : Instruction} {k : Nat} {rest : List Instruction}
    (h : a :: .flushed k :: rest <:+ p.draining) : a = .flush k := by
  -- Behind the forgetting there are pairs of a question and the wait for its answer.
  have hstreams : ∀ ks : List Nat,
      a :: .flushed k :: rest <:+ (ks.flatMap fun s => [.flush s, .flushed s]) → a = .flush k := by
    intro ks
    induction ks with
    | nil => intro h; simp at h
    | cons s ks ih =>
        intro h
        rw [List.flatMap_cons, List.cons_append, List.cons_append, List.nil_append] at h
        rcases List.suffix_cons_iff.mp h with heq | h
        · injection heq with ha htail
          injection htail with hs
          injection hs with hs
          rw [ha, hs]
        · rcases List.suffix_cons_iff.mp h with heq | h
          · -- The next stream begins with a question.
            injection heq with _ htail
            cases ks with
            | nil => cases htail
            | cons s' ks => cases htail
          · exact ih h
  rcases List.suffix_cons_iff.mp h with heq | h
  · injection heq with _ htail
    cases hstreams' : List.range p.streams.length with
    | nil => rw [hstreams'] at htail; cases htail
    | cons s ks => rw [hstreams'] at htail; cases htail
  · exact hstreams _ h

namespace Run

variable {i : Nat} {r r' q : Run} {m m' : Machine NodeJob} {a : Instruction}
  {more : Worker → List (Command NodeJob)}

/-- Why the host of a run cannot go on. -/
inductive Blocked (m : Machine NodeJob) (r : Run) : Prop
  /-- It waits for a marker of a notification that was activated. -/
  | marker {w : PlannedWait} {who : Waiter} {rest : List Instruction} {n : Notification} {u : Worker} {k : Nat} :
      r.launching = .wait w who :: rest → r.notification? w.producer = some n →
      n.stream.worker? = some u → n.marker? = some k → ¬(m.reachedAt u.timeline k).isSome → Blocked m r
  /-- It waits for the answer to a flush. -/
  | answer {k : Nat} {rest : List Instruction} {s : Stream} {u : Worker} :
      r.draining = .flushed k :: rest → r.plan.streams[k]? = some s → s.worker? = some u →
      (m.queue u).replies[r.asked]? = none → Blocked m r

/-- An admitted wait on a notification that was activated is over, or the marker is not reached yet. -/
theorem complete_eq_none {f : WaitFunction} {consumer : Option Stream} {n : Notification}
    (hready : n.ready = true) (h : f.complete consumer n m = none) :
    ∃ u k, n.stream.worker? = some u ∧ n.marker? = some k ∧ ¬(m.reachedAt u.timeline k).isSome := by
  unfold WaitFunction.complete at h
  rw [hready] at h
  simp only [Bool.not_true, Bool.false_eq_true, if_false] at h
  split at h
  · cases h
  next timeline queue provider k _ hstream hmarker =>
    split at h
    · cases h
    next hreached => exact ⟨⟨timeline, queue⟩, k, by rw [hstream]; rfl, hmarker, hreached⟩
  · cases h

theorem await_eq_none {w : PlannedWait} {who : Waiter}
    (hready : ∀ n, r.notification? w.producer = some n → n.ready = true) (h : r.await m w who = none) :
    ∃ n u k, r.notification? w.producer = some n ∧ n.stream.worker? = some u ∧ n.marker? = some k ∧
      ¬(m.reachedAt u.timeline k).isSome := by
  unfold await at h
  split at h
  · cases h
  next n hn =>
    obtain ⟨k, -, hcounted, -⟩ := WaitFunction.check_snd w.f (r.plan.waitingStream who) n
    simp only [hcounted] at h
    split at h
    · cases h
    · have hcomplete := Option.map_eq_none_iff.mp h
      obtain ⟨u, k', hu, hk', hreached⟩ := complete_eq_none (hready n hn) hcomplete
      exact ⟨n, u, k', hn, hu, hk', hreached⟩

theorem flushReply_eq_none {s : Stream} {number : Nat} (h : s.flushReply? number m = none) :
    ∃ u, s.worker? = some u ∧ (m.queue u).replies[number]? = none := by
  cases s with
  | gpu context => cases h
  | sim timeline queue provider =>
      rw [Stream.flushReply?_eq rfl] at h
      exact ⟨⟨timeline, queue⟩, rfl, Option.map_eq_none_iff.mp h⟩

/-- **A host that cannot go on has come to its end, or waits for a worker.** -/
theorem hostStep_eq_none (hp : r.Placed i m) (hready : ∀ w who rest, r.launching = .wait w who :: rest →
      ∀ n, r.notification? w.producer = some n → n.ready = true)
    (h : r.hostStep i m = none) : r.isOver = true ∨ r.Blocked m := by
  unfold hostStep at h
  split at h
  · cases h
  next a rest hactive hlaunching =>
    have hmem : a ∈ r.plan.launching := hp.launching.subset (by rw [hlaunching]; exact List.mem_cons_self)
    refine Or.inr ?_
    -- Of what a launching host does only a wait can hold it up.
    cases a with
    | wait w who =>
        obtain ⟨n, u, k, hn, hu, hk, hreached⟩ :=
          await_eq_none (r := { r with launching := rest }) (hready w who rest hlaunching) h
        exact .marker hlaunching hn hu hk hreached
    | flush k =>
        simp only [perform] at h
        split at h <;> cases h
    | flushed k => exact absurd hmem Plan.launching_not_flushed
    | _ => cases h
  next a rest hactive hlaunching hdraining =>
    have hmem : a ∈ r.plan.draining := hp.draining.subset (by rw [hdraining]; exact List.mem_cons_self)
    refine Or.inr ?_
    -- Of what a draining host does only the answer to a flush can be missing.
    cases a with
    | wait w who => exact absurd hmem Plan.draining_not_wait
    | flush k =>
        simp only [perform] at h
        split at h <;> cases h
    | flushed k =>
        simp only [perform] at h
        split at h
        · cases h
        next s hs =>
          obtain ⟨u, hu, hnone⟩ := flushReply_eq_none (Option.map_eq_none_iff.mp h)
          exact .answer hdraining hs hu hnone
    | _ => cases h
  next hactive hlaunching hdraining =>
    exact Or.inl (isOver_iff.mpr ⟨hactive, hlaunching, hdraining⟩)

/-! ### Flushes that were asked for -/

/-- The flush whose answer the host waits for was asked for. -/
def Asking (m : Machine NodeJob) (r : Run) : Prop :=
  ∀ k rest s u, r.draining = .flushed k :: rest → r.plan.streams[k]? = some s → s.worker? = some u →
    r.asked < (m.queue u).flushes

/-- A host at the beginning of its draining has no answer to wait for. -/
theorem Asking.of_whole (h : r.draining = r.plan.draining) : r.Asking m := by
  intro k rest s u hdraining
  rw [h] at hdraining
  cases hdraining

theorem Asking.mono (h : r.Asking m) (hplan : r'.plan = r.plan) (hdraining : r'.draining = r.draining)
    (hasked : r'.asked = r.asked) (hflushes : ∀ u, (m.queue u).flushes ≤ (m'.queue u).flushes) :
    r'.Asking m' := by
  intro k rest s u hnext hs hu
  rw [hasked]
  exact Nat.lt_of_lt_of_le (h k rest s u (hdraining ▸ hnext) (hplan ▸ hs) hu) (hflushes u)

theorem Did.draining_or (h : Did i m m' q a r' more) : r'.draining = q.draining ∨ r'.draining = [] := by
  cases h with
  | failed => exact Or.inr rfl
  | check => split <;> exact Or.inl rfl
  | _ => exact Or.inl rfl

theorem Asking.did (hp : r.Placed i m) (hd : r.Drains i m) (hnext : r.Next a q) (hpushes : Pushes m m' more)
    (hdid : Did i m m' q a r' more) : r'.Asking m' := by
  have hplan : r'.plan = r.plan := hdid.plan.trans hnext.plan
  rcases hp.next hnext with ⟨hlaunching, hsuffix, hsame⟩ | ⟨hnil, hnil', hdraining, hsuffix⟩
  · -- Nothing was asked for while launching.
    apply Asking.of_whole
    rw [hplan, hdid.draining, hsame]
    · exact hd.launching.resolve_left (by rw [hlaunching]; simp)
    · rintro k rfl
      exact Plan.launching_not_flushed (hsuffix.subset List.mem_cons_self)
  · intro k rest s u hahead hs hu
    have hq : q.draining = .flushed k :: rest := by
      rcases hdid.draining_or with hsame | hnone
      · exact hsame ▸ hahead
      · rw [hnone] at hahead
        cases hahead
    rw [hq] at hsuffix
    obtain rfl := Plan.flush_before hsuffix
    rw [hdid.plan] at hs
    cases hdid with
    | unflushed hnone =>
        rw [hnone] at hs
        cases hs
    | @flush _ number s' hs' hnumber =>
        obtain rfl : s' = s := Option.some.inj (hs'.symm.trans hs)
        show number < (m'.queue u).flushes
        rw [hpushes.flushes, hnumber u hu, Stream.putting_eq_only hu]
        simp [only, isFlush]

theorem Asking.saw (h : r.Asking m) (hp : r.Placed i m) (hd : r.Drains i m) (hs : r.Saw i m r' m') :
    r'.Asking m' := by
  cases hs with
  | pushed hpushes =>
      refine h.mono rfl rfl rfl fun u => ?_
      rw [hpushes.flushes]
      exact Nat.le_add_right _ _
  | @took _ w c _ _ _ _ hhead _ hpopped htook =>
      refine h.mono rfl rfl rfl fun u => ?_
      by_cases hu : u = w
      · subst hu
        exact Nat.le_of_eq htook.answers.1.symm
      · exact Nat.le_of_eq (by rw [hpopped.others u hu])
  | @worked _ w _ _ _ _ _ _ _ hpopped _ _ _ hflushes =>
      refine h.mono rfl rfl rfl fun u => ?_
      by_cases hu : u = w
      · subst hu
        exact Nat.le_of_eq hflushes.symm
      · exact Nat.le_of_eq (by rw [hpopped.others u hu])
  | proceeded => exact h.mono rfl rfl rfl fun _ => Nat.le_refl _
  | did _ hnext hpushes hdid => exact .did hp hd hnext hpushes hdid

theorem Asking.start {p : Plan} {fed : List (String × Tensor)} (hr : start p fed = .ok r) : r.Asking m := by
  obtain ⟨slots, -, rfl⟩ := Outcome.map_eq_ok.mp hr
  exact .of_whole rfl

end Run

/-! ## Systems -/

/-- The host of a run goes as far as it comes within some steps, and no worker does anything. -/
def Execution.hostAhead (x : Execution) (i : Nat) : Nat → Execution
  | 0 => x
  | n + 1 => ((x.hostStep i).map (·.hostAhead i n)).getD x

namespace System

variable {σ : System} {j : Journal}

theorem Reached.asking (h : Reached σ) {i : Nat} {r : Run} (hr : σ.runs[i]? = some r) : r.Asking σ.machine := by
  obtain ⟨-, -, -, hasking⟩ := Reached.kept (P := fun i _ r m => r.Drains i m ∧ r.Asking m)
    (fun _ _ hstart => ⟨.start hstart, .start hstart⟩)
    (fun hplaced htidy hboth hsaw => ⟨hboth.1.saw hplaced htidy hsaw, hboth.2.saw hplaced hboth.1 hsaw⟩) h hr
  exact hasking

/-- The host never waits for a notification that is missing or was not activated. -/
theorem Reached.activated (h : Reached σ) {i : Nat} {r : Run} (hr : σ.runs[i]? = some r) {w : PlannedWait}
    {who : Waiter} {rest : List Instruction} (hlaunching : r.launching = .wait w who :: rest) :
    ∃ n, r.notification? w.producer = some n ∧ n.ready = true := by
  obtain ⟨fed, hfed⟩ : ∃ fed, σ.feeds[i]? = some fed := by
    have hlt := (List.getElem?_eq_some_iff.mp hr).1
    exact ⟨_, List.getElem?_eq_getElem (h.grounded.feeds ▸ hlt)⟩
  have hlawful := h.lawful hr hfed
  have hgoing : r.Going := hlawful.ordered.going hlaunching
  have hsuffix : .wait w who :: rest <:+ r.plan.launching := hlaunching ▸ hlawful.placed.launching
  obtain ⟨n, hn⟩ := Option.isSome_iff_exists.mp
    (hlawful.notified.wait_ready hlawful.placed.sound hgoing hlaunching hsuffix)
  obtain ⟨_, _, -, -, -, hready, -⟩ := hlawful.notified.made _ n hn
  exact ⟨n, hn, hready⟩

/-- The oldest command behind the queues of a plan is in front of its queue, and its worker goes on. -/
theorem Journaled.oldest_goes_on (hj : Journaled σ j) {p : Plan} (hp : p ∈ σ.plans) {e : Entry}
    (he : j.oldest? p = some e) : (σ.machine.queue e.worker).pending.head? = some e.command ∧
      (σ.execution.workerStep e.worker).isSome := by
  have hfiled := hj.filed
  obtain ⟨huses, before, after, hline, hbefore⟩ := List.find?_eq_some_iff_append.mp he
  have huses : p.uses e.worker = true := huses
  -- Nothing before the entry is for the same worker, so its command is the next one of its queue.
  have hfirst : Journal.commandsFor e.worker before = [] := by
    unfold Journal.commandsFor
    rw [List.map_eq_nil_iff, List.filter_eq_nil_iff]
    intro e' he' hworker
    have hother := hbefore e' he'
    rw [of_decide_eq_true hworker, huses] at hother
    cases hother
  have hhead : (σ.machine.queue e.worker).pending.head? = some e.command := by
    rw [hfiled.pending, hline, Journal.commandsFor_append, hfirst, Journal.commandsFor_cons_self]
    rfl
  have hattended := hj.reached.attended p hp e.worker huses
  -- In the line of the plan nothing is before it either, so what it may wait for was reached.
  have hwait : ∀ k, e.command = .wait k → (σ.machine.reachedAt e.worker.timeline k).isSome := by
    intro k hk
    have hnone : before.filter (fun x => p.uses x.worker) = [] :=
      List.filter_eq_nil_iff.mpr fun e' he' => by simpa using hbefore e' he'
    have hcovered := hfiled.line p hp
    rw [hline, List.filter_append, hnone, List.nil_append, List.filter_cons, if_pos huses] at hcovered
    exact hcovered.1 (e.worker.timeline, k) ⟨rfl, hk⟩
  obtain ⟨result, hstep⟩ := exists_step hattended.here hhead (fun _ job _ => job.exists_execute σ.runs) hwait
  refine ⟨hhead, ?_⟩
  unfold Execution.workerStep
  rw [Option.isSome_map, Option.isSome_iff_exists]
  exact ⟨result, hstep⟩

/-- Somebody works behind the queues of a plan as long as anything waits there. -/
theorem Reached.worker_goes_on (h : Reached σ) {p : Plan} (hp : p ∈ σ.plans) {u : Worker}
    (hu : p.uses u = true) (hne : (σ.machine.queue u).pending ≠ []) :
    ∃ w, p.uses w = true ∧ (σ.execution.workerStep w).isSome := by
  obtain ⟨j, hj⟩ := h.exists_journal
  obtain ⟨c, hc⟩ := List.exists_mem_of_ne_nil _ hne
  rw [hj.filed.pending] at hc
  have hsome : (j.oldest? p).isSome :=
    List.find?_isSome.mpr ⟨_, Journal.mem_commandsFor.mp hc, hu⟩
  obtain ⟨e, he⟩ := Option.isSome_iff_exists.mp hsome
  have huses : p.uses e.worker = true := (List.find?_eq_some_iff_append.mp he).1
  exact ⟨e.worker, huses, (hj.oldest_goes_on hp he).2⟩

/-- What the host of a run waits for is behind a queue of its plan. -/
theorem Reached.blocked (h : Reached σ) {i : Nat} {r : Run} (hr : σ.runs[i]? = some r)
    (hblocked : r.Blocked σ.machine) : ∃ u, r.plan.uses u = true ∧ (σ.machine.queue u).pending ≠ [] := by
  have hg := h.grounded
  cases hblocked with
  | @marker w who rest n u k hlaunching hn hu hk hreached =>
      have hstream : n.stream ∈ r.plan.streams := (hg.placed i r hr).homed _ n hn
      refine ⟨u, Plan.uses_iff.mpr ⟨_, hstream, hu⟩, fun hnil => ?_⟩
      -- Its record is in the queue, as the marker was not reached.
      rcases h.recorded hr _ n u k hn hu hk with hold | hmem
      · exact hreached hold
      · rw [hnil] at hmem
        cases hmem
  | @answer k rest s u hdraining hs hu hnone =>
      refine ⟨u, Plan.uses_iff.mpr ⟨s, List.mem_of_getElem? hs, hu⟩, fun hnil => ?_⟩
      -- The flush was asked for and not answered, so it is in the queue.
      have hasked := h.asking hr k rest s u hdraining hs hu
      have hflushes := hg.tidy.flushes u
      rw [hnil, List.countP_nil, Nat.add_zero] at hflushes
      have hlength := List.getElem?_eq_none_iff.mp hnone
      omega

/-- Neither the host of the run nor a worker of a queue of its plan can take a step. -/
def Stuck (σ : System) (i : Nat) (r : Run) : Prop :=
  σ.execution.hostStep i = none ∧ ∀ w, r.plan.uses w = true → σ.execution.workerStep w = none

/-- A run that goes no further is over. -/
theorem Reached.over_of_stuck (h : Reached σ) {i : Nat} {r : Run} (hr : σ.runs[i]? = some r)
    (hstuck : σ.Stuck i r) : r.isOver = true := by
  obtain ⟨hhost, hworkers⟩ := hstuck
  have hnone : r.hostStep i σ.machine = none := by
    unfold Execution.hostStep at hhost
    change σ.execution.runs[i]? = some r at hr
    rw [hr] at hhost
    exact Option.map_eq_none_iff.mp hhost
  have hready : ∀ w who rest, r.launching = .wait w who :: rest → ∀ n,
      r.notification? w.producer = some n → n.ready = true := by
    intro w who rest hlaunching n hn
    obtain ⟨n', hn', hready⟩ := h.activated hr hlaunching
    obtain rfl := Option.some.inj (hn.symm.trans hn')
    exact hready
  rcases Run.hostStep_eq_none (h.grounded.placed i r hr) hready hnone with hover | hblocked
  · exact hover
  · -- The host waits for something behind a queue of its plan, where somebody goes on.
    obtain ⟨u, hu, hne⟩ := h.blocked hr hblocked
    obtain ⟨w, hw, hsome⟩ := h.worker_goes_on (h.grounded.planned r (List.mem_of_getElem? hr)) hu hne
    rw [hworkers w hw] at hsome
    cases hsome

/-- **No run is ever stuck.** In a journal of the system no wait comes before the record of its marker, and
    the host waits for no notification that was not activated. The oldest command behind the queues of the
    plan of a run goes on. So as long as the run is not over, or anything waits behind these queues, its host
    or one of their workers takes a step, whatever other runs are in progress. -/
theorem never_stuck (h : Reached σ) : (∃ j, Journaled σ j) ∧ ∀ j, Journaled σ j →
    (∀ w, (σ.machine.queue w).pending = Journal.commandsFor w j.line) ∧
    (∀ before w k after, j.put = before ++ ⟨w, .wait k⟩ :: after →
      ∃ u : Worker, u.timeline = w.timeline ∧ ⟨u, .record k⟩ ∈ before) ∧
    ∀ (i : Nat) r, σ.runs[i]? = some r →
      (∀ w who rest, r.launching = .wait w who :: rest →
        ∃ n, r.notification? w.producer = some n ∧ n.ready = true) ∧
      (∀ e, j.oldest? r.plan = some e → (σ.machine.queue e.worker).pending.head? = some e.command ∧
        (σ.execution.workerStep e.worker).isSome) ∧
      ((r.isOver = false ∨ ∃ w, r.plan.uses w = true ∧ (σ.machine.queue w).pending ≠ []) →
        ¬σ.Stuck i r) := by
  have hg := h.grounded
  refine ⟨h.exists_journal, fun j hj => ⟨hj.filed.pending, fun before w k after hput => ?_,
    fun i r hr => ⟨fun w who rest => h.activated hr, fun e he => ?_, fun hleft hstuck => ?_⟩⟩⟩
  · have hcovered := hj.filed.put
    rw [hput, covered_append] at hcovered
    rcases hcovered.2.1 (w.timeline, k) ⟨rfl, rfl⟩ with hno | ⟨e, he, hu, hrecord⟩
    · exact hno.elim
    · obtain ⟨u, c⟩ := e
      have hrecord : c = .record k := hrecord
      exact ⟨u, hu, hrecord ▸ he⟩
  · exact hj.oldest_goes_on (hg.planned r (List.mem_of_getElem? hr)) he
  · have hplan := hg.planned r (List.mem_of_getElem? hr)
    obtain ⟨hhost, hworkers⟩ := hstuck
    -- Something is behind a queue of the plan: the host that goes no further waits for it.
    have hwaiting : ∃ w, r.plan.uses w = true ∧ (σ.machine.queue w).pending ≠ [] := by
      refine hleft.elim (fun hover => h.blocked hr ?_) id
      have hnone : r.hostStep i σ.machine = none := by
        unfold Execution.hostStep at hhost
        change σ.execution.runs[i]? = some r at hr
        rw [hr] at hhost
        exact Option.map_eq_none_iff.mp hhost
      refine (Run.hostStep_eq_none (hg.placed i r hr) (fun w who rest hlaunching n hn => ?_) hnone).resolve_left
        (by rw [hover]; exact Bool.false_ne_true)
      obtain ⟨n', hn', hready⟩ := h.activated hr hlaunching
      obtain rfl := Option.some.inj (hn.symm.trans hn')
      exact hready
    obtain ⟨u, hu, hne⟩ := hwaiting
    obtain ⟨w, hw, hsome⟩ := h.worker_goes_on hplan hu hne
    rw [hworkers w hw] at hsome
    cases hsome

theorem Reached.hostAhead (h : Reached σ) (i n : Nat) :
    Reached { σ with execution := σ.execution.hostAhead i n } := by
  induction n generalizing σ with
  | zero => exact h
  | succ n ih =>
      unfold Execution.hostAhead
      cases hx : σ.execution.hostStep i with
      | none => exact h
      | some x => exact ih (.step h (.host hx))

/-- Two hosts run one plan, and both wait for the device. The device goes on. -/
theorem never_stuck_relay : ∃ (σ : System) (r r' : Run), Reached σ ∧ σ.runs = [r, r'] ∧ r.plan = r'.plan ∧
    r.isOver = false ∧ r'.isOver = false ∧ σ.execution.hostStep 0 = none ∧ σ.execution.hostStep 1 = none ∧
    ∃ w, r.plan.uses w = true ∧ (σ.execution.workerStep w).isSome := by
  have hwhole : ∃ s m₁ events p life m₂ r₀ r r',
      Session.start relaySetup ({} : Machine NodeJob) = (.ok (s, m₁), events) ∧
      Plan.build s relayGraph m₁ = ((.ok p, life), m₂) ∧ Run.start p [("x", relayed)] = .ok r₀ ∧
      (((Execution.mk m₂ [r₀, r₀]).hostAhead 0 40).hostAhead 1 40).runs = [r, r'] ∧ r.plan = r'.plan ∧
      r.isOver = false ∧ r'.isOver = false ∧
      (((Execution.mk m₂ [r₀, r₀]).hostAhead 0 40).hostAhead 1 40).hostStep 0 = none ∧
      (((Execution.mk m₂ [r₀, r₀]).hostAhead 0 40).hostAhead 1 40).hostStep 1 = none :=
    ⟨_, _, _, _, _, _, _, _, _, rfl, rfl, rfl, rfl, rfl, rfl, rfl, rfl, rfl⟩
  obtain ⟨s, m₁, events, p, life, m₂, r₀, r, r', hstart, hbuild, hr₀, hruns, hplan, hover, hover', hhost,
    hhost'⟩ := hwhole
  have hsession : Reached { sessions := [s], execution := ⟨m₁, []⟩ } :=
    .step .empty (.session (by simp [relaySetup]) hstart)
  have hprepare : Reached { sessions := [s], plans := [p], execution := ⟨m₂, []⟩ } :=
    .step hsession (.prepare List.mem_cons_self hbuild)
  have hbegin : Reached { sessions := [s], plans := [p], feeds := [[("x", relayed)]], execution := ⟨m₂, [r₀]⟩ } :=
    .step hprepare (.begin List.mem_cons_self hr₀)
  have hagain : Reached { sessions := [s], plans := [p], feeds := [[("x", relayed)], [("x", relayed)]]
                          execution := ⟨m₂, [r₀, r₀]⟩ } :=
    .step hbegin (.begin List.mem_cons_self hr₀)
  obtain ⟨σ, hreached, hexecution⟩ : ∃ σ, Reached σ ∧
      σ.execution = ((Execution.mk m₂ [r₀, r₀]).hostAhead 0 40).hostAhead 1 40 :=
    ⟨_, (hagain.hostAhead 0 40).hostAhead 1 40, rfl⟩
  rw [← hexecution] at hruns hhost hhost'
  refine ⟨σ, r, r', hreached, hruns, hplan, hover, hover', hhost, hhost', ?_⟩
  have hr : σ.runs[0]? = some r := congrArg (·[0]?) hruns
  obtain ⟨⟨j, hj⟩, hall⟩ := never_stuck hreached
  obtain ⟨-, -, hgoes⟩ := (hall j hj).2.2 0 r hr
  refine Classical.byContradiction fun hnone => hgoes (Or.inl hover) ⟨hhost, fun w hw => ?_⟩
  exact Option.not_isSome_iff_eq_none.mp fun hsome => hnone ⟨w, hw, hsome⟩

end System

end OpGraph
