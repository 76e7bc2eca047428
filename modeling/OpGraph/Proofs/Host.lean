import OpGraph.Plan.Run
import OpGraph.Proofs.Waiting

/-!
# `Proofs.Host` — everything one step of the host of a run can do

The host of a run goes on with the work it is in the middle of, or carries out its next instruction.
`Run.Did` lists what became of an instruction: the run afterwards, and what was put behind the queues.
-/

namespace OpGraph

open Machine

/-- What a flush of a stream fails with that was asked for under some number. -/
inductive Stream.Fails {Job : Type} (m : Machine Job) (number : Nat) (s : Stream) : StreamError → Prop
  /-- A job had panicked. -/
  | panicked {w : Worker} {label : String} : s.worker? = some w →
      (m.queue w).replies[number]? = some (some label) → Fails m number s (.jobPanicked label)
  /-- The device reported something as it was polled. -/
  | reported {e : StreamError} : s.poll = .error e → Fails m number s e

theorem Stream.Fails.ne_overWaited {Job : Type} {m : Machine Job} {number : Nat} {s : Stream} {e : StreamError}
    (h : s.Fails m number e) (p : ProviderId) (k : Nat) : e ≠ .overWaited p k := by
  rintro rfl
  cases h with
  | reported hreport => exact Stream.poll_ne_overWaited p k hreport

/-- No device of the plan has anything to report as it is polled. -/
def Plan.Responsive (p : Plan) : Prop := ∀ s ∈ p.streams, s.poll = .ok ()

/-- Where no device reports anything, a flush that fails tells of a job. -/
theorem Stream.Fails.job {Job : Type} {m : Machine Job} {number : Nat} {s : Stream} {e : StreamError}
    (h : s.Fails m number e) (hpoll : s.poll = .ok ()) :
    ∃ w label, s.worker? = some w ∧ (m.queue w).replies[number]? = some (some label) ∧
      e = .jobPanicked label := by
  cases h with
  | panicked hw hreply => exact ⟨_, _, hw, hreply, rfl⟩
  | reported hreport => cases hpoll.symm.trans hreport

namespace Run

variable {i : Nat} {m m' : Machine NodeJob} {r q r' : Run} {a : Instruction}

/-- All notifications come from streams of the plan. -/
def Homed (r : Run) : Prop := ∀ j n, r.notification? j = some n → n.stream ∈ r.plan.streams

/-- The streams of the plan are there. -/
def On (m : Machine NodeJob) (r : Run) : Prop := ∀ s ∈ r.plan.streams, s.On m

/-- The next instruction, and the run without it. -/
inductive Next (r : Run) : Instruction → Run → Prop
  | launching {a : Instruction} {rest : List Instruction} :
      r.launching = a :: rest → Next r a { r with launching := rest }
  | draining {a : Instruction} {rest : List Instruction} :
      r.launching = [] → r.draining = a :: rest → Next r a { r with draining := rest }

/-- What became of an instruction of run `i`: the run, and what was put behind each queue. -/
inductive Did (i : Nat) (m m' : Machine NodeJob) (r : Run) :
    Instruction → Run → (Worker → List (Command NodeJob)) → Prop
  /-- Nobody announced what is waited for. -/
  | absent {w : PlannedWait} {who : Waiter} : r.notification? w.producer = none →
      Did i m m' r (.wait w who) (r.stop (r.absent who)) nothing
  /-- The wait was refused, or the device reported something. -/
  | refused {w : PlannedWait} {who : Waiter} {n : Notification} {k : Nat} {e : StreamError} :
      r.notification? w.producer = some n → w.f.Fails (r.plan.waitingStream who) n k e →
      Did i m m' r (.wait w who)
        ((r.keep w.producer { n with waits := n.waits + k }).stop (.stream e)) nothing
  /-- The marker had been reached, or a queue has it to wait for. -/
  | waited {w : PlannedWait} {who : Waiter} {n : Notification}
      {more : Worker → List (Command NodeJob)} :
      r.notification? w.producer = some n → w.f.admits (r.plan.waitingStream who) n.stream = true →
      n.waits < n.consumers → n.ready = true →
      (∀ w', ∀ c ∈ more w', ∃ u k, c = .wait k ∧ n.marker? = some k ∧ n.stream.worker? = some u ∧
        w'.timeline = u.timeline ∧ ∃ s, r.plan.waitingStream who = some s ∧ s.worker? = some w') →
      (∀ u k, n.stream.worker? = some u → n.marker? = some k →
        (m.reachedAt u.timeline k).isSome ∨ ∃ s w', r.plan.waitingStream who = some s ∧
          s.worker? = some w' ∧ w'.timeline = u.timeline ∧ .wait k ∈ more w') →
      Did i m m' r (.wait w who) (r.keep w.producer { n with waits := n.waits + 1 }) more
  /-- The work of a node is behind everything on its stream. -/
  | queued {j : Nat} {n : PlannedNode} {s : Stream} {w : Worker} : r.plan.nodes[j]? = some n →
      r.plan.streamOf n = some s → s.worker? = some w →
      Did i m m' r (.launch j) r (only w (.run n.name { run := i, node := j }))
  /-- The host is in the middle of the work of a node. -/
  | inline {j : Nat} {n : PlannedNode} {s : Stream} : r.plan.nodes[j]? = some n →
      r.plan.streamOf n = some s → s.worker? = none →
      Did i m m' r (.launch j) { r with active := some { run := i, node := j } } nothing
  | unlaunched {j : Nat} : (∀ n, r.plan.nodes[j]? = some n → r.plan.streamOf n = none) →
      Did i m m' r (.launch j) r nothing
  | work {j : Nat} : Did i m m' r (.work j) { r with active := some { run := i, node := j } } nothing
  | check : Did i m m' r .check (if r.failure.isSome then { r with launching := [] } else r) nothing
  /-- A new marker is behind everything on the stream of the node. -/
  | announced {j : Nat} {n : PlannedNode} {s : Stream} : r.plan.nodes[j]? = some n →
      r.plan.streamOf n = some s →
      (∀ w, s.worker? = some w → m'.markerCount w.timeline = m.markerCount w.timeline + 1) →
      Did i m m' r (.announce j)
        (r.keep j ⟨s, s.worker?.map fun w => m.markerCount w.timeline, n.consumers, true, 0⟩)
        fun w => if s.worker? = some w then [.record (m.markerCount w.timeline)] else []
  | unannounced {j : Nat} : (∀ n, r.plan.nodes[j]? = some n → r.plan.streamOf n = none) →
      Did i m m' r (.announce j) r nothing
  | forgotten {more : Worker → List (Command NodeJob)} : (∀ w, ∀ c ∈ more w, c = .shutdown) →
      Did i m m' r .forget r more
  /-- A flush was asked for, under the number of those before. -/
  | flush {k number : Nat} {s : Stream} : r.plan.streams[k]? = some s →
      (∀ w, s.worker? = some w → number = (m.queue w).flushes) →
      Did i m m' r (.flush k) { r with asked := number } (s.putting .flush)
  | unflushed {k : Nat} : r.plan.streams[k]? = none → Did i m m' r (.flush k) r nothing
  /-- The flush was answered, no job had panicked, and the device had nothing to report. -/
  | flushed {k : Nat} {s : Stream} : r.plan.streams[k]? = some s →
      (∀ w, s.worker? = some w → (m.queue w).replies[r.asked]? = some none) → s.poll = .ok () →
      Did i m m' r (.flushed k) r nothing
  | failed {k : Nat} {s : Stream} {e : StreamError} : r.plan.streams[k]? = some s →
      s.Fails m r.asked e →
      Did i m m' r (.flushed k) { r with draining := [], flushError := some (.stream e) } nothing
  | unanswered {k : Nat} : r.plan.streams[k]? = none → Did i m m' r (.flushed k) r nothing

/-! ## Waiting -/

theorem streamOf_mem {p : Plan} {n : PlannedNode} {s : Stream} (h : p.streamOf n = some s) :
    s ∈ p.streams := by
  obtain ⟨k, -, hk⟩ := Option.bind_eq_some_iff.mp h
  exact List.mem_of_getElem? hk

theorem waitingStream_mem {who : Waiter} {s : Stream} (h : r.plan.waitingStream who = some s) :
    s ∈ r.plan.streams := by
  cases who with
  | output value => cases h
  | node n =>
      obtain ⟨node, -, hs⟩ := Option.bind_eq_some_iff.mp h
      exact streamOf_mem hs

theorem await_eq_some {w : PlannedWait} {who : Waiter} (hon : r.On m)
    (h : r.await m w who = some (r', m')) :
    ∃ more, Pushes m m' more ∧ Did i m m' r (.wait w who) r' more := by
  unfold await at h
  split at h
  next hnone =>
    obtain ⟨rfl, rfl⟩ := Prod.mk.inj (Option.some.inj h)
    exact ⟨_, Pushes.refl _, .absent hnone⟩
  next n hn =>
    obtain ⟨k, hk, hcounted, hone⟩ := WaitFunction.check_snd w.f (r.plan.waitingStream who) n
    have hok := @WaitFunction.check_eq_ok w.f (r.plan.waitingStream who) n
    simp only [hcounted] at h
    cases hcheck : (w.f.check (r.plan.waitingStream who) n).1 with
    | error e =>
        simp only [hcheck] at h
        obtain ⟨rfl, rfl⟩ := Prod.mk.inj (Option.some.inj h)
        refine ⟨_, Pushes.refl _, .refused hn (.refused hk (fun hadmitted => ?_) hcheck)⟩
        obtain ⟨u, hu⟩ := hok.mpr hadmitted
        rw [hcheck] at hu
        cases hu
    | ok u =>
        obtain rfl := hone u hcheck
        obtain ⟨hadmits, hleft⟩ := hok.mp ⟨u, hcheck⟩
        simp only [hcheck] at h
        obtain ⟨m₁, hcomplete, hpair⟩ := Option.map_eq_some_iff.mp h
        cases houtcome : w.f.outcome { n with waits := n.waits + 1 } with
        | error e =>
            simp only [houtcome] at hpair
            obtain ⟨rfl, rfl⟩ := Prod.mk.inj hpair
            have hpoll : n.stream.poll = .error e := WaitFunction.outcome_eq_error houtcome
            obtain rfl := WaitFunction.complete_eq_self (Stream.worker?_of_poll hpoll) hcomplete
            exact ⟨_, Pushes.refl _, .refused hn (.reported hpoll)⟩
        | ok =>
            simp only [houtcome] at hpair
            obtain ⟨rfl, rfl⟩ := Prod.mk.inj hpair
            obtain ⟨hready, more, hpushes, hsees⟩ :=
              WaitFunction.complete_eq_some (fun s hs => hon s (waitingStream_mem hs)) hadmits hcomplete
            exact ⟨more, hpushes, .waited hn hadmits hleft hready hsees.waits hsees.reached⟩

/-! ## Launching and announcing -/

theorem launch_eq {j : Nat} {n : PlannedNode} {s : Stream} (hn : r.plan.nodes[j]? = some n)
    (hs : r.plan.streamOf n = some s) (hon : s.On m) :
    ∃ more, Pushes m (r.launch i m j n.name s).2 more ∧
      Did i m (r.launch i m j n.name s).2 r (.launch j) (r.launch i m j n.name s).1 more := by
  have hpushes := (Stream.pushes_share hon).trans
    (Stream.pushes_launch (hon.of_pushes (Stream.pushes_share hon)) n.name
      ({ run := i, node := j } : NodeJob))
  cases s with
  | gpu context => exact ⟨_, hpushes, .inline hn hs rfl⟩
  | sim timeline queue provider =>
      exact ⟨_, hpushes, by rw [Stream.putting_eq_only rfl]; exact .queued hn hs rfl⟩

theorem announce_eq {j : Nat} {n : PlannedNode} {s : Stream} (hn : r.plan.nodes[j]? = some n)
    (hs : r.plan.streamOf n = some s) (hon : s.On m) :
    ∃ more, Pushes m (r.announce m j n s).2 more ∧
      Did i m (r.announce m j n s).2 r (.announce j) (r.announce m j n s).1 more := by
  obtain ⟨hmade, hnotification, hmarkers⟩ := Stream.pushes_notification hon n.consumers
  have hpushes := hmade.trans (Notification.pushes_record
    (n := (s.notification n.consumers m).1) (by rw [hnotification]; exact hon.of_pushes hmade))
  refine ⟨_, hpushes, ?_⟩
  have hmore : (fun w => nothing w ++ ((s.notification n.consumers m).1.marker?.map fun k =>
        (s.notification n.consumers m).1.stream.putting (.record k) w).getD []) =
      fun w => if s.worker? = some w then [(.record (m.markerCount w.timeline) : Command NodeJob)]
        else [] := by
    rw [hnotification]
    funext w
    cases hs : s.worker? with
    | none => simp [nothing]
    | some u =>
        simp only [nothing, Option.map_some, List.nil_append, Stream.putting, hs, Option.some.injEq]
        split
        next heq =>
          rw [heq]
          rfl
        · rfl
  rw [hmore]
  have hrun : (r.announce m j n s).1 =
      r.keep j ⟨s, s.worker?.map fun w => m.markerCount w.timeline, n.consumers, true, 0⟩ := by
    show r.keep j { (s.notification n.consumers m).1 with ready := true } = _
    rw [hnotification]
  rw [hrun]
  refine .announced hn hs fun w hw => ?_
  show (((s.notification n.consumers m).1.record (s.notification n.consumers m).2).markerCount _) = _
  rw [Notification.markerCount_record]
  exact hmarkers w hw

/-! ## Instructions -/

theorem forget_eq (hon : ∀ n, some n ∈ r.notifications → n.stream.On m) :
    ∃ more, Pushes m ((r.notifications.filterMap id).foldl (fun m n => n.stream.release m) m) more ∧
      ∀ w, ∀ c ∈ more w, c = .shutdown := by
  have hfold : ∀ (ns : List Notification) (m : Machine NodeJob), (∀ n ∈ ns, n.stream.On m) →
      ∃ more, Pushes m (ns.foldl (fun m n => n.stream.release m) m) more ∧
        ∀ w, ∀ c ∈ more w, c = .shutdown := by
    intro ns
    induction ns with
    | nil => exact fun m _ => ⟨_, Pushes.refl m, by simp [nothing]⟩
    | cons n rest ih =>
        intro m hon
        obtain ⟨more, hmore, hshut⟩ := Stream.pushes_release (hon n List.mem_cons_self)
        obtain ⟨more', hmore', hshut'⟩ := ih _ fun n' hn' =>
          (hon n' (List.mem_cons_of_mem _ hn')).of_pushes hmore
        refine ⟨_, hmore.trans hmore', fun w c hc => ?_⟩
        rcases List.mem_append.mp hc with hc | hc
        · exact hshut w c hc
        · exact hshut' w c hc
  exact hfold _ m fun n hn => hon n (by simpa using hn)

theorem flushReply_eq_some {s : Stream} {number : Nat} {result : Except StreamError Unit}
    (h : s.flushReply? number m = some result) :
    (result = .ok () ∧ (∀ w, s.worker? = some w → (m.queue w).replies[number]? = some none) ∧
      s.poll = .ok ()) ∨ ∃ e, result = .error e ∧ s.Fails m number e := by
  cases s with
  | gpu context =>
      obtain rfl := Option.some.inj h
      cases hpoll : context.poll with
      | ok => exact Or.inl ⟨rfl, nofun, hpoll⟩
      | error e => exact Or.inr ⟨e, rfl, .reported hpoll⟩
  | sim timeline queue provider =>
      rw [Stream.flushReply?_eq rfl] at h
      obtain ⟨reply, hreply, rfl⟩ := Option.map_eq_some_iff.mp h
      cases reply with
      | none =>
          refine Or.inl ⟨rfl, fun w hw => ?_, rfl⟩
          obtain rfl := Option.some.inj hw
          exact hreply
      | some label => exact Or.inr ⟨_, rfl, .panicked rfl hreply⟩

theorem withStream_eq {f : PlannedNode → Stream → Run × Machine NodeJob} {j : Nat}
    {P : Run × Machine NodeJob → Prop}
    (hsome : ∀ n s, r.plan.nodes[j]? = some n → r.plan.streamOf n = some s → P (f n s))
    (hnone : (∀ n, r.plan.nodes[j]? = some n → r.plan.streamOf n = none) → P (r, m)) :
    P (r.withStream m j f) := by
  unfold withStream
  split
  next hn => exact hnone (by simp [hn])
  next n hn =>
    split
    next hs =>
      refine hnone fun n' hn' => ?_
      obtain rfl := Option.some.inj (hn.symm.trans hn')
      exact hs
    next s hs => exact hsome n s hn hs

/-- **Everything that can become of an instruction.** -/
theorem perform_eq_some (hhomed : r.Homed) (hon : r.On m) (h : r.perform i m a = some (r', m')) :
    ∃ more, Pushes m m' more ∧ Did i m m' r a r' more := by
  have hstream : ∀ {n s}, r.plan.streamOf n = some s → s.On m := fun hs => hon _ (streamOf_mem hs)
  cases a with
  | wait w who => exact await_eq_some hon h
  | launch j =>
      obtain heq := Option.some.inj h
      have hdid := withStream_eq (r := r) (m := m) (j := j) (P := fun p => ∃ more, Pushes m p.2 more ∧
          Did i m p.2 r (.launch j) p.1 more) (fun n s hn hs => launch_eq hn hs (hstream hs))
        fun hnone => ⟨_, Pushes.refl m, .unlaunched hnone⟩
      rw [heq] at hdid
      exact hdid
  | work j =>
      obtain ⟨rfl, rfl⟩ := Prod.mk.inj (Option.some.inj h)
      exact ⟨_, Pushes.refl _, .work⟩
  | check =>
      obtain ⟨rfl, rfl⟩ := Prod.mk.inj (Option.some.inj h)
      exact ⟨_, Pushes.refl _, .check⟩
  | announce j =>
      obtain heq := Option.some.inj h
      have hdid := withStream_eq (r := r) (m := m) (j := j) (P := fun p => ∃ more, Pushes m p.2 more ∧
          Did i m p.2 r (.announce j) p.1 more) (fun n s hn hs => announce_eq hn hs (hstream hs))
        fun hnone => ⟨_, Pushes.refl m, .unannounced hnone⟩
      rw [heq] at hdid
      exact hdid
  | forget =>
      obtain ⟨rfl, rfl⟩ := Prod.mk.inj (Option.some.inj h)
      obtain ⟨more, hmore, hshut⟩ := forget_eq (r := r) (m := m) fun n hn => by
        obtain ⟨j, hj⟩ := List.mem_iff_getElem?.mp hn
        exact hon _ (hhomed j n (by simp [notification?, hj]))
      exact ⟨more, hmore, .forgotten hshut⟩
  | flush k =>
      simp only [perform] at h
      split at h
      next hnone =>
        obtain ⟨rfl, rfl⟩ := Prod.mk.inj (Option.some.inj h)
        exact ⟨_, Pushes.refl _, .unflushed hnone⟩
      next s hs =>
        obtain ⟨rfl, rfl⟩ := Prod.mk.inj (Option.some.inj h)
        obtain ⟨hpushes, hnumber⟩ := Stream.pushes_postFlush (hon s (List.mem_of_getElem? hs))
        exact ⟨_, hpushes, .flush hs hnumber⟩
  | flushed k =>
      simp only [perform] at h
      split at h
      next hnone =>
        obtain ⟨rfl, rfl⟩ := Prod.mk.inj (Option.some.inj h)
        exact ⟨_, Pushes.refl _, .unanswered hnone⟩
      next s hs =>
        obtain ⟨result, hreply, hpair⟩ := Option.map_eq_some_iff.mp h
        rcases flushReply_eq_some hreply with ⟨rfl, hanswer, hpoll⟩ | ⟨e, rfl, hfails⟩
        · obtain ⟨rfl, rfl⟩ := Prod.mk.inj hpair
          exact ⟨_, Pushes.refl _, .flushed hs hanswer hpoll⟩
        · obtain ⟨rfl, rfl⟩ := Prod.mk.inj hpair
          exact ⟨_, Pushes.refl _, .failed hs hfails⟩

/-- **Everything a step of the host can do.** -/
theorem hostStep_eq_some (hhomed : r.Homed) (hon : r.On m) (h : r.hostStep i m = some (r', m')) :
    (∃ job, r.active = some job ∧ r' = r.proceed job ∧ m' = m) ∨
      (r.active = none ∧ ∃ a q more, r.Next a q ∧ Pushes m m' more ∧ Did i m m' q a r' more) := by
  unfold hostStep at h
  split at h
  next job hactive =>
    obtain ⟨rfl, rfl⟩ := Prod.mk.inj (Option.some.inj h)
    exact Or.inl ⟨job, hactive, rfl, rfl⟩
  next a rest hactive hlaunching =>
    have hq : ({ r with launching := rest } : Run).Homed := hhomed
    obtain ⟨more, hpushes, hdid⟩ := perform_eq_some hq hon h
    exact Or.inr ⟨hactive, a, _, more, .launching hlaunching, hpushes, hdid⟩
  next a rest hactive hlaunching hdraining =>
    have hq : ({ r with draining := rest } : Run).Homed := hhomed
    obtain ⟨more, hpushes, hdid⟩ := perform_eq_some hq hon h
    exact Or.inr ⟨hactive, a, _, more, .draining hlaunching hdraining, hpushes, hdid⟩
  · cases h

end Run

end OpGraph
