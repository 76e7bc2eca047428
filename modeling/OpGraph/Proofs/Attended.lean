import OpGraph.Proofs.Notified

/-!
# `Proofs.Attended` — queues of plans keep their workers

A queue is open as long as somebody has a share in it: its plan, every notification that a run made on it
and did not give up yet, and all work that waits in it. With the last share the worker is sent home. Here
shares are counted against those who have them (`Queue.Attended`). A plan keeps its own share, so no worker
leaves a queue of a plan (`System.Reached.attended`).
-/

namespace OpGraph

open Machine

/-! ## Shares in a queue -/

namespace Queue

variable {Job : Type} {k k' : Queue Job} {n n' : Nat}

/-- The worker is there and is not told to leave, and there are shares for so many handles, for all work
    that waits, and one more. -/
structure Attended (k : Queue Job) (handles : Nat) : Prop where
  here : k.closed = false
  stays : .shutdown ∉ k.pending
  shares : handles + k.pending.countP isOpen + 1 ≤ k.shares

theorem Attended.fewer (h : k.Attended n) (hle : n' ≤ n) : k.Attended n' :=
  ⟨h.here, h.stays, Nat.le_trans (by omega) h.shares⟩

theorem Attended.shared (h : k.Attended n) : ({ k with shares := k.shares + 1 } : Queue Job).Attended (n + 1) := by
  refine ⟨h.here, h.stays, ?_⟩
  have := h.shares
  show n + 1 + k.pending.countP isOpen + 1 ≤ k.shares + 1
  omega

/-- A command that is no work and does not send the worker home takes no share. -/
theorem Attended.pushed (h : k.Attended n) {c : Command Job} (hopen : isOpen c = false) (hc : c ≠ .shutdown) :
    ({ k with pending := k.pending ++ [c] } : Queue Job).Attended n := by
  refine ⟨h.here, ?_, ?_⟩
  · intro hmem
    rcases List.mem_append.mp hmem with hold | hnew
    · exact h.stays hold
    · exact hc (List.mem_singleton.mp hnew).symm
  · show n + (k.pending ++ [c]).countP isOpen + 1 ≤ k.shares
    rw [List.countP_append, List.countP_singleton, hopen]
    exact h.shares

/-- Work takes over the share of whoever launched it. -/
theorem Attended.launched (h : k.Attended (n + 1)) (label : String) (job : Job) :
    ({ k with pending := k.pending ++ [.run label job] } : Queue Job).Attended n := by
  refine ⟨h.here, ?_, ?_⟩
  · intro hmem
    rcases List.mem_append.mp hmem with hold | hnew
    · exact h.stays hold
    · cases List.mem_singleton.mp hnew
  · have hshares := h.shares
    show n + (k.pending ++ [Command.run label job]).countP isOpen + 1 ≤ k.shares
    rw [List.countP_append, List.countP_singleton]
    show n + (k.pending.countP isOpen + 1) + 1 ≤ k.shares
    omega

/-- The share given up is not the last one. -/
theorem Attended.released (h : k.Attended (n + 1)) : (Timeline.released k).Attended n := by
  have hshares := h.shares
  have hmany : k.shares ≠ 1 := by omega
  unfold Timeline.released
  rw [if_neg hmany]
  refine ⟨h.here, h.stays, ?_⟩
  show n + k.pending.countP isOpen + 1 ≤ k.shares - 1
  omega

/-- A command in front that is no work is taken off. -/
theorem Attended.popped (h : k.Attended n) (hclosed : k'.closed = k.closed)
    (hpending : k'.pending = k.pending.tail) (hshares : k'.shares = k.shares) : k'.Attended n := by
  refine ⟨hclosed.trans h.here, ?_, ?_⟩
  · rw [hpending]
    exact fun hmem => h.stays (List.mem_of_mem_tail hmem)
  · have hle : k.pending.tail.countP isOpen ≤ k.pending.countP isOpen := (List.tail_sublist _).countP_le
    have := h.shares
    rw [hpending, hshares]
    omega

/-! ### Work in front -/

theorem Attended.enqueued (h : k.Attended n) (js : List FixedJob) : (Timeline.enqueued js k).Attended n := by
  refine ⟨h.here, ?_, ?_⟩
  · intro hmem
    rcases List.mem_append.mp hmem with hold | hnew
    · exact h.stays hold
    · obtain ⟨j, -, heq⟩ := List.mem_map.mp hnew
      cases heq
  · have hfixed : (js.map fun j => (.fixed j : Command Job)).countP isOpen = 0 := by
      apply List.countP_eq_zero.mpr
      intro c hc
      obtain ⟨j, -, rfl⟩ := List.mem_map.mp hc
      exact Bool.false_ne_true
    show n + (k.pending ++ js.map Command.fixed).countP isOpen + 1 ≤ k.shares
    rw [List.countP_append, hfixed]
    exact h.shares

theorem Attended.ended (h : k.Attended n) (label : String) (panicked : Bool) :
    (Timeline.ended label panicked k).Attended n := by
  unfold Timeline.ended
  split
  · exact ⟨h.here, h.stays, h.shares⟩
  · exact h

/-- Work that is over leaves its share to be given up. -/
theorem Attended.over (h : k.Attended n) {label : String} {job : Job}
    (hhead : k.pending.head? = some (.run label job)) :
    ({ k with pending := k.pending.tail } : Queue Job).Attended (n + 1) := by
  obtain ⟨rest, hpending⟩ := List.head?_eq_some_iff.mp hhead
  refine ⟨h.here, fun hmem => h.stays (List.mem_of_mem_tail hmem), ?_⟩
  have hshares := h.shares
  rw [hpending, List.countP_cons_of_pos rfl] at hshares
  show n + 1 + k.pending.tail.countP isOpen + 1 ≤ k.shares
  rw [hpending, List.tail_cons]
  omega

/-- What is left of work keeps the share. -/
theorem Attended.resumed (h : k.Attended (n + 1)) (label : String) (job : Job) :
    ({ k with pending := .run label job :: k.pending } : Queue Job).Attended n := by
  refine ⟨h.here, List.not_mem_cons_of_ne_of_not_mem nofun h.stays, ?_⟩
  have hshares := h.shares
  show n + (Command.run label job :: k.pending).countP isOpen + 1 ≤ k.shares
  rw [List.countP_cons_of_pos rfl]
  omega

/-- Work in front goes a step further. -/
theorem Attended.worked (h : k.Attended n) {label : String} {job : Job}
    (hhead : k.pending.head? = some (.run label job)) (e : JobEffect Job) :
    (Timeline.worked label e k).Attended n := by
  have hhead' : (Timeline.enqueued e.launched k).pending.head? = some (.run label job) := by
    obtain ⟨rest, hpending⟩ := List.head?_eq_some_iff.mp hhead
    show (k.pending ++ _).head? = _
    rw [hpending]
    rfl
  have hover := (h.enqueued e.launched).over hhead'
  unfold Timeline.worked
  cases e.rest with
  | some rest => exact hover.resumed label rest
  | none =>
      show (if e.releases then _ else _ : Queue Job).Attended n
      split
      · exact (hover.ended label e.panicked).released
      · exact (hover.ended label e.panicked).fewer (Nat.le_succ n)

end Queue

/-! ## What the host does to shares -/

namespace Stream

variable {s : Stream} {m : Machine NodeJob} {w : Worker} {n : Nat}

/-- So many handles, where the stream's queue is the one asked for. -/
def handles (s : Stream) (w : Worker) (n : Nat) : Nat := if s.worker? = some w then n else 0

variable {timeline queue : Nat} {provider : ProviderId} {f : Timeline NodeJob → Timeline NodeJob}
  {g : Queue NodeJob → Queue NodeJob}

/-- A change to the queue of a stream that takes no share and gives none up. -/
theorem attended_modify (hon : (sim timeline queue provider).On m)
    (hf : ∀ t, (f t).queues = t.queues.modify queue g)
    (hg : ∀ k : Queue NodeJob, k.Attended n → (g k).Attended n) (h : (m.queue w).Attended n) :
    ((m.modify timeline f).queue w).Attended n := by
  have halters := alters_modify (hon ⟨timeline, queue⟩ rfl) hf
  by_cases hw : w = ⟨timeline, queue⟩
  · subst hw
    rw [halters.own]
    exact hg _ h
  · rw [halters.others w hw]
    exact h

/-- A change to the queue of a stream that takes up so many handles and gives out so many. -/
theorem attended_trade {a b : Nat} (hon : (sim timeline queue provider).On m)
    (hf : ∀ t, (f t).queues = t.queues.modify queue g)
    (hg : ∀ k : Queue NodeJob, k.Attended (n + a) → (g k).Attended (n + b))
    (h : (m.queue w).Attended (n + (sim timeline queue provider).handles w a)) :
    ((m.modify timeline f).queue w).Attended (n + (sim timeline queue provider).handles w b) := by
  have halters := alters_modify (hon ⟨timeline, queue⟩ rfl) hf
  unfold handles at h ⊢
  by_cases hw : w = ⟨timeline, queue⟩
  · subst hw
    have hself : (sim timeline queue provider).worker? = some ⟨timeline, queue⟩ := rfl
    rw [if_pos hself] at h ⊢
    rw [halters.own]
    exact hg _ h
  · have hother : (sim timeline queue provider).worker? ≠ some w := fun heq => hw (Option.some.inj heq).symm
    rw [if_neg hother] at h ⊢
    rw [halters.others w hw]
    exact h

theorem handles_zero : s.handles w 0 = 0 := by
  unfold handles
  split <;> rfl

theorem attended_share (hon : s.On m) (h : (m.queue w).Attended n) :
    ((s.share m).queue w).Attended (n + s.handles w 1) := by
  cases s with
  | gpu context => exact h
  | sim timeline queue provider =>
      apply attended_trade (a := 0) hon (fun _ => rfl) fun k hk => hk.shared
      rw [handles_zero]
      exact h

theorem attended_launch (hon : s.On m) (label : String) (job : NodeJob)
    (h : (m.queue w).Attended (n + s.handles w 1)) : ((s.launch label job m).2.queue w).Attended n := by
  cases s with
  | gpu context => exact h
  | sim timeline queue provider =>
      rw [← Nat.add_zero n, ← handles_zero (s := sim timeline queue provider) (w := w)]
      exact attended_trade hon (fun _ => rfl) (fun k hk => hk.launched label job) h

/-- A command that is no work and does not send the worker home. -/
theorem attended_push (hon : (sim timeline queue provider).On m) {c : Command NodeJob}
    (hopen : isOpen c = false) (hc : c ≠ .shutdown) (h : (m.queue w).Attended n) :
    ((m.modify timeline (·.push queue c)).queue w).Attended n :=
  attended_modify hon (fun _ => rfl) (fun _ hk => hk.pushed hopen hc) h

theorem attended_postFlush (hon : s.On m) (h : (m.queue w).Attended n) :
    ((s.postFlush m).2.queue w).Attended n := by
  cases s with
  | gpu context => exact h
  | sim timeline queue provider =>
      refine attended_modify hon (fun t => List.modify_modify_eq ..) (fun k hk => ?_) h
      have hpushed := hk.pushed (c := .flush) rfl nofun
      exact ⟨hpushed.here, hpushed.stays, hpushed.shares⟩

theorem attended_notification (hon : s.On m) (consumers : Nat) (h : (m.queue w).Attended n) :
    ((s.notification consumers m).2.queue w).Attended (n + s.handles w 1) := by
  cases s with
  | gpu context => exact h
  | sim timeline queue provider =>
      apply attended_trade (a := 0) hon (fun _ => rfl) fun k hk => hk.shared
      rw [handles_zero]
      exact h

theorem attended_release (hon : s.On m) (h : (m.queue w).Attended (n + s.handles w 1)) :
    ((s.release m).queue w).Attended n := by
  cases s with
  | gpu context => exact h
  | sim timeline queue provider =>
      rw [← Nat.add_zero n, ← handles_zero (s := sim timeline queue provider) (w := w)]
      exact attended_trade hon (fun _ => rfl) (fun k hk => hk.released) h

end Stream

theorem Notification.attended_record {x : Notification} {m : Machine NodeJob} {w : Worker} {n : Nat}
    (hon : x.stream.On m) (h : (m.queue w).Attended n) : ((x.record m).queue w).Attended n := by
  unfold record
  split
  next timeline queue provider marker hstream hmarker =>
    rw [hstream] at hon
    exact Stream.attended_push hon rfl nofun h
  · exact h

theorem WaitFunction.attended_complete {f : WaitFunction} {consumer : Option Stream} {x : Notification}
    {m m' : Machine NodeJob} {w : Worker} {n : Nat} (hon : ∀ s, consumer = some s → s.On m)
    (hx : x.stream.On m) (hcomplete : f.complete consumer x m = some m') (h : (m.queue w).Attended n) :
    (m'.queue w).Attended n := by
  unfold complete at hcomplete
  split at hcomplete
  · cases hcomplete
  split at hcomplete
  · obtain rfl := Option.some.inj hcomplete
    exact Stream.attended_push (hon _ rfl) rfl nofun h
  next hstream _ =>
    split at hcomplete
    · obtain rfl := Option.some.inj hcomplete
      rw [hstream] at hx
      exact Stream.attended_modify hx (fun _ => (List.modify_id ..).symm) (fun _ hk => hk) h
    · cases hcomplete
  · obtain rfl := Option.some.inj hcomplete
    exact h

namespace Run

variable {i : Nat} {r r' q : Run} {m m' : Machine NodeJob} {a : Instruction} {w : Worker} {n : Nat}

/-- Notifications on a queue that the run made and did not give up. -/
def held (r : Run) (w : Worker) : List Notification :=
  if .forget ∈ r.draining then (r.notifications.filterMap id).filter (·.stream.worker? = some w) else []

theorem held_congr (hdraining : r'.draining = r.draining) (hnotifications : r'.notifications = r.notifications) :
    r'.held w = r.held w := by
  unfold held
  rw [hdraining, hnotifications]

/-- Number of notifications on a queue. -/
theorem length_held (h : .forget ∈ r.draining) : (r.held w).length =
    r.notifications.countP fun n => n.any fun n => n.stream.worker? = some w := by
  unfold held
  rw [if_pos h]
  induction r.notifications with
  | nil => rfl
  | cons n rest ih => cases n with
    | none =>
        rw [List.countP_cons, ← ih]
        rfl
    | some n =>
        show ((n :: rest.filterMap id).filter _).length = _
        rw [List.countP_cons, ← ih, List.filter_cons]
        by_cases hn : n.stream.worker? = some w <;> simp only [Option.any_some, hn] <;> rfl

/-- A notification takes the place of one on the same stream. -/
theorem held_keep {j : Nat} {x x' : Notification} (hx : r.notification? j = some x)
    (hstream : x'.stream = x.stream) : ((r.keep j x').held w).length ≤ (r.held w).length := by
  by_cases hforget : .forget ∈ r.draining
  · have hget : r.notifications[j]? = some (some x) := Option.join_eq_some_iff.mp hx
    obtain ⟨hlt, hget⟩ := List.getElem?_eq_some_iff.mp hget
    rw [length_held hforget, length_held (r := r.keep j x') hforget]
    show (r.notifications.set j (some x')).countP _ ≤ _
    -- The count loses the one that was there, which is on the same stream.
    rw [List.countP_set hlt, hget]
    have hle : (if (some x).any fun n => decide (n.stream.worker? = some w) then 1 else 0) ≤
        r.notifications.countP fun n => n.any fun n => n.stream.worker? = some w := by
      split
      next hany => exact List.countP_pos_iff.mpr ⟨_, hget ▸ List.getElem_mem hlt, hany⟩
      · exact Nat.zero_le _
    simp only [Option.any_some, hstream] at hle ⊢
    omega
  · have hnil : (r.keep j x').held w = [] := if_neg hforget
    rw [hnil]
    exact Nat.zero_le _

/-- A new notification is one more at most. -/
theorem held_keep_new (j : Nat) (x : Notification) :
    ((r.keep j x).held w).length ≤ (r.held w).length + x.stream.handles w 1 := by
  by_cases hforget : .forget ∈ r.draining
  · rw [length_held hforget, length_held (r := r.keep j x) hforget]
    show (r.notifications.set j (some x)).countP _ ≤ _
    by_cases hlt : j < r.notifications.length
    · rw [List.countP_set hlt]
      unfold Stream.handles
      simp only [Option.any_some, decide_eq_true_eq]
      omega
    · rw [List.set_eq_of_length_le (Nat.le_of_not_lt hlt)]
      exact Nat.le_add_right _ _
  · have hnil : (r.keep j x).held w = [] := if_neg hforget
    rw [hnil]
    exact Nat.zero_le _

/-- Giving all notifications up. -/
theorem attended_forget : ∀ (ns : List Notification) {m : Machine NodeJob}, (∀ x ∈ ns, x.stream.On m) →
    (m.queue w).Attended (n + (ns.filter (·.stream.worker? = some w)).length) →
    ((ns.foldl (fun m x => x.stream.release m) m).queue w).Attended n := by
  intro ns
  induction ns with
  | nil => exact fun _ h => h
  | cons x rest ih =>
      intro m hon h
      obtain ⟨more, hpushes, -⟩ := Stream.pushes_release (hon x List.mem_cons_self)
      apply ih fun x' hx' => (hon x' (List.mem_cons_of_mem _ hx')).of_pushes hpushes
      apply Stream.attended_release (hon x List.mem_cons_self)
      refine h.fewer ?_
      unfold Stream.handles
      by_cases hw : x.stream.worker? = some w
      · simp only [hw, if_true, List.filter_cons, decide_true, List.length_cons]
        omega
      · simp [hw]

/-- The forgetting comes before all other draining. -/
theorem Placed.forget_first (hp : r.Placed i m) {rest : List Instruction} (h : r.draining = a :: rest) :
    .forget ∉ rest := by
  have hsuffix : rest <:+ (List.range r.plan.streams.length).flatMap fun s => [.flush s, .flushed s] := by
    have hall := hp.draining
    rw [h] at hall
    rcases List.suffix_cons_iff.mp hall with heq | hlater
    · exact (List.cons.inj heq).2 ▸ List.suffix_refl _
    · exact (List.suffix_cons a rest).trans hlater
  intro hmem
  have := hsuffix.subset hmem
  simp at this

/-- The host waits for a node, or sees that it is not to. -/
theorem await_attended {x : PlannedWait} {who : Waiter} (hhomed : r.Homed) (hon : r.On m)
    (h : r.await m x who = some (r', m')) (hw : (m.queue w).Attended (n + (r.held w).length)) :
    (m'.queue w).Attended (n + (r'.held w).length) := by
  unfold await at h
  split at h
  next =>
    obtain ⟨rfl, rfl⟩ := Prod.mk.inj (Option.some.inj h)
    exact hw
  next x₀ hx₀ =>
    obtain ⟨k, -, hcounted, -⟩ := WaitFunction.check_snd x.f (r.plan.waitingStream who) x₀
    have hkeep : ((r.keep x.producer { x₀ with waits := x₀.waits + k }).held w).length ≤ (r.held w).length :=
      held_keep hx₀ rfl
    simp only [hcounted] at h
    split at h
    · obtain ⟨rfl, rfl⟩ := Prod.mk.inj (Option.some.inj h)
      exact hw.fewer (Nat.add_le_add_left hkeep n)
    · obtain ⟨m₁, hcomplete, hpair⟩ := Option.map_eq_some_iff.mp h
      have hx : x₀.stream.On m := hon _ (hhomed _ _ hx₀)
      have hcompleted :=
        WaitFunction.attended_complete (fun s hs => hon s (waitingStream_mem hs)) hx hcomplete hw
      -- Whatever the wait came to, the run holds what it held.
      split at hpair <;> obtain ⟨rfl, rfl⟩ := Prod.mk.inj hpair <;>
        exact hcompleted.fewer (Nat.add_le_add_left hkeep n)

/-- Work on a stream takes a share of its own. -/
theorem launch_attended {j : Nat} {name : String} {s : Stream} (hs : s.On m)
    (hw : (m.queue w).Attended (n + (r.held w).length)) :
    ((r.launch i m j name s).2.queue w).Attended (n + ((r.launch i m j name s).1.held w).length) := by
  have hon : s.On (s.share m) := hs.of_pushes (Stream.pushes_share hs)
  have hlaunched := Stream.attended_launch hon name ({ run := i, node := j } : NodeJob) (Stream.attended_share hs hw)
  cases s with
  | gpu context => exact hlaunched
  | sim timeline queue provider => exact hlaunched

/-- A notification takes a share, which the run holds from now on. -/
theorem announce_attended {j : Nat} {node : PlannedNode} {s : Stream} (hs : s.On m)
    (hw : (m.queue w).Attended (n + (r.held w).length)) :
    ((r.announce m j node s).2.queue w).Attended (n + ((r.announce m j node s).1.held w).length) := by
  obtain ⟨hpushes, hmade, -⟩ := Stream.pushes_notification hs node.consumers
  have hhome : (s.notification node.consumers m).1.stream = s := by rw [hmade]
  have hon : (s.notification node.consumers m).1.stream.On (s.notification node.consumers m).2 :=
    hhome.symm ▸ hs.of_pushes hpushes
  have hrecorded := Notification.attended_record hon (Stream.attended_notification hs node.consumers hw)
  apply hrecorded.fewer
  have hnew := held_keep_new (r := r) (w := w) j { (s.notification node.consumers m).1 with ready := true }
  change _ ≤ _ + (s.notification node.consumers m).1.stream.handles w 1 at hnew
  rw [hhome] at hnew
  rw [Nat.add_assoc]
  exact Nat.add_le_add_left hnew n

/-- What the host does to the stream of a node. -/
theorem withStream_attended {j : Nat} {f : PlannedNode → Stream → Run × Machine NodeJob} (hon : r.On m)
    (hw : (m.queue w).Attended (n + (r.held w).length))
    (hf : ∀ node s, s.On m → ((f node s).2.queue w).Attended (n + ((f node s).1.held w).length)) :
    ((r.withStream m j f).2.queue w).Attended (n + ((r.withStream m j f).1.held w).length) := by
  apply withStream_eq (P := fun p => (p.2.queue w).Attended (n + (p.1.held w).length))
  · intro node s _ hs
    exact hf node s (hon _ (streamOf_mem hs))
  · intro _
    exact hw

/-- The host waits, launches, works, announces or flushes. -/
theorem perform_attended (hhomed : r.Homed) (hon : r.On m) (hforget : a ≠ .forget)
    (h : r.perform i m a = some (r', m')) (hw : (m.queue w).Attended (n + (r.held w).length)) :
    (m'.queue w).Attended (n + (r'.held w).length) := by
  cases a with
  | wait x who => exact await_attended hhomed hon h hw
  | launch j =>
      have hlaunched := withStream_attended (j := j) hon hw
        (f := fun node s => r.launch i m j node.name s) fun _ _ hs => launch_attended hs hw
      have heq := Option.some.inj h
      rw [heq] at hlaunched
      exact hlaunched
  | work j =>
      obtain ⟨rfl, rfl⟩ := Prod.mk.inj (Option.some.inj h)
      exact hw
  | check =>
      obtain ⟨rfl, rfl⟩ := Prod.mk.inj (Option.some.inj h)
      split <;> exact hw
  | announce j =>
      have hannounced := withStream_attended (j := j) hon hw
        (f := fun node s => r.announce m j node s) fun _ _ hs => announce_attended hs hw
      have heq := Option.some.inj h
      rw [heq] at hannounced
      exact hannounced
  | forget => exact absurd rfl hforget
  | flush k =>
      simp only [perform] at h
      split at h
      · obtain ⟨rfl, rfl⟩ := Prod.mk.inj (Option.some.inj h)
        exact hw
      next s hs =>
        obtain ⟨rfl, rfl⟩ := Prod.mk.inj (Option.some.inj h)
        exact Stream.attended_postFlush (hon s (List.mem_of_getElem? hs)) hw
  | flushed k =>
      simp only [perform] at h
      split at h
      · obtain ⟨rfl, rfl⟩ := Prod.mk.inj (Option.some.inj h)
        exact hw
      next s hs =>
        obtain ⟨result, -, hpair⟩ := Option.map_eq_some_iff.mp h
        cases result with
        | ok u =>
            obtain ⟨rfl, rfl⟩ := Prod.mk.inj hpair
            exact hw
        | error e =>
            obtain ⟨rfl, rfl⟩ := Prod.mk.inj hpair
            exact hw.fewer (Nat.le_add_right n _)

/-- **A step of the host of a run leaves every queue attended**, whatever others hold of it. -/
theorem hostStep_attended (hp : r.Placed i m) (h : r.hostStep i m = some (r', m'))
    (hw : (m.queue w).Attended (n + (r.held w).length)) : (m'.queue w).Attended (n + (r'.held w).length) := by
  unfold hostStep at h
  split at h
  next job hactive =>
    obtain ⟨rfl, rfl⟩ := Prod.mk.inj (Option.some.inj h)
    have hsame : (r.proceed job).held w = r.held w := by
      unfold proceed
      split <;> exact held_congr rfl rfl
    rw [hsame]
    exact hw
  next a rest hactive hlaunching =>
    have hmem : a ∈ r.plan.launching := hp.launching.subset (by rw [hlaunching]; exact List.mem_cons_self)
    -- A host that launches has not forgotten anything yet.
    have hforget : a ≠ .forget := by
      rintro rfl
      exact Plan.launching_not_forget hmem
    exact perform_attended (r := { r with launching := rest }) hp.homed hp.on hforget h hw
  next a rest hactive hlaunching hdraining =>
    -- Forgetting comes first, so afterwards the run holds nothing.
    have hgone := hp.forget_first hdraining
    have hnil : ({ r with draining := rest } : Run).held w = [] := if_neg hgone
    by_cases hforget : a = .forget
    · subst hforget
      obtain ⟨rfl, rfl⟩ := Prod.mk.inj (Option.some.inj h)
      rw [hnil]
      refine attended_forget _ (fun x hx => ?_) ?_
      · have hmem : some x ∈ r.notifications := by simpa using hx
        obtain ⟨j, hj⟩ := List.mem_iff_getElem?.mp hmem
        exact hp.on _ (hp.homed j x (by rw [notification?, hj]; rfl))
      · have hheld : r.held w = (r.notifications.filterMap id).filter (·.stream.worker? = some w) :=
          if_pos (by rw [hdraining]; exact List.mem_cons_self)
        rw [hheld] at hw
        exact hw
    · refine perform_attended (r := { r with draining := rest }) hp.homed hp.on hforget h (hw.fewer ?_)
      rw [hnil]
      exact Nat.add_le_add_left (Nat.zero_le _) n
  · cases h

/-- A run holds nothing on a queue that is not there. -/
theorem Placed.held_eq_nil (hp : r.Placed i m) (hw : ¬m.Has w) : r.held w = [] := by
  unfold held
  split
  · apply List.filter_eq_nil_iff.mpr
    intro x hx hworker
    have hmem : some x ∈ r.notifications := by simpa using hx
    obtain ⟨j, hj⟩ := List.mem_iff_getElem?.mp hmem
    have hon : x.stream.On m := hp.on _ (hp.homed j x (by rw [notification?, hj]; rfl))
    exact hw (hon w (by simpa using hworker))
  · rfl

theorem held_start {p : Plan} {fed : List (String × Tensor)} (hr : start p fed = .ok r) : r.held w = [] := by
  obtain ⟨slots, -, rfl⟩ := Outcome.map_eq_ok.mp hr
  unfold held
  split
  · simp
  · rfl

end Run

/-! ## What workers do to shares -/

/-- **A step of a worker leaves every queue attended.** -/
theorem Machine.step_attended {Job State : Type} {exec : Executor Job State} {w w' : Worker} {s s' : State}
    {m m' : Machine Job} {n : Nat} (h : m.step exec w s = some (s', m')) (hw : (m.queue w').Attended n) :
    (m'.queue w').Attended n := by
  obtain ⟨c, g, -, -, hhead, halters, hg⟩ := step_alters h
  by_cases hsame : w' = w
  · subst hsame
    rw [halters.own]
    rcases hg with ⟨label, job, e, rfl, -, rfl⟩ | ⟨-, hpending, hshares, hclosed⟩
    · exact hw.worked hhead e
    · refine hw.popped ((hclosed _).2 ?_) (hpending _) (hshares _)
      rintro rfl
      exact hw.stays (List.mem_of_mem_head? hhead)
  · rw [halters.others w' hsame]
    exact hw

/-! ## Systems -/

/-- What a list with one entry replaced counts is what the others count, and the new one. -/
theorem length_flatMap_set {α β : Type} (f : α → List β) : ∀ (xs : List α) {i : Nat} {a : α},
    xs[i]? = some a → ∃ others, (xs.flatMap f).length = others + (f a).length ∧
      ∀ b, ((xs.set i b).flatMap f).length = others + (f b).length := by
  intro xs
  induction xs with
  | nil => intro i a h; cases h
  | cons x rest ih =>
      intro i a h
      cases i with
      | zero =>
          obtain rfl : x = a := Option.some.inj h
          refine ⟨(rest.flatMap f).length, ?_, fun b => ?_⟩
          · rw [List.flatMap_cons, List.length_append, Nat.add_comm]
          · rw [List.set_cons_zero, List.flatMap_cons, List.length_append, Nat.add_comm]
      | succ i =>
          obtain ⟨others, hall, hset⟩ := ih h
          refine ⟨(f x).length + others, ?_, fun b => ?_⟩
          · rw [List.flatMap_cons, List.length_append, hall, Nat.add_assoc]
          · rw [List.set_cons_succ, List.flatMap_cons, List.length_append, hset, Nat.add_assoc]


namespace System

variable {σ σ' : System}

/-- Number of handles that runs have on a queue. -/
def handles (σ : System) (w : Worker) : Nat := (σ.runs.flatMap (·.held w)).length

end System

/-- The queue is one of a stream of the plan. -/
def Plan.uses (p : Plan) (w : Worker) : Bool := p.streams.any fun s => s.worker? = some w

theorem Plan.uses_iff {p : Plan} {w : Worker} : p.uses w = true ↔ ∃ s ∈ p.streams, s.worker? = some w := by
  simp [uses]

namespace System

variable {σ σ' : System} {w : Worker}

/-- Work takes nothing up and gives nothing up. -/
theorem handles_execute {job : NodeJob} {runs runs' : List Run} {e : JobEffect NodeJob}
    (h : job.execute runs = some (runs', e)) :
    (runs'.flatMap (·.held w)).length = (runs.flatMap (·.held w)).length := by
  unfold NodeJob.execute at h
  split at h
  · obtain ⟨rfl, -⟩ := Prod.mk.inj (Option.some.inj h)
    rfl
  next r hr =>
    split at h
    · obtain ⟨rfl, -⟩ := Prod.mk.inj (Option.some.inj h)
      rfl
    · obtain ⟨rfl, -⟩ := Prod.mk.inj (Option.some.inj h)
      obtain ⟨others, hall, hset⟩ := length_flatMap_set (·.held w) runs hr
      rw [hset, hall]
      rfl

/-- The queues of a plan are attended, for all handles that runs have on them. -/
def Attended (σ : System) : Prop :=
  ∀ p ∈ σ.plans, ∀ w, p.uses w = true → (σ.machine.queue w).Attended (σ.handles w)

/-- A new plan. Nobody knew of its queues before, so no run has a handle on them. -/
theorem Attended.opened (h : Attended σ) (hg : Grounded σ) {p₀ : Plan} {m : Machine NodeJob}
    (hopened : Plan.Opened σ.machine p₀.streams m) : Attended { σ.onMachine m with plans := p₀ :: σ.plans } := by
  intro p hp w hw
  show (m.queue w).Attended (σ.handles w)
  rw [hopened.same]
  rcases List.mem_cons.mp hp with rfl | hold
  · obtain ⟨s, hs, hworker⟩ := Plan.uses_iff.mp hw
    have hno := (hopened.fresh s hs w hworker).1
    have hnil : σ.runs.flatMap (·.held w) = [] := by
      apply List.flatMap_eq_nil_iff.mpr
      intro r hr
      obtain ⟨i, hi⟩ := List.mem_iff_getElem?.mp hr
      exact (hg.placed i r hi).held_eq_nil hno
    unfold handles
    rw [hnil, queue_of_not_has hno]
    exact ⟨rfl, nofun, Nat.le_refl _⟩
  · exact h p hold w hw

theorem Attended.step (h : Attended σ) (hg : Grounded σ) (hs : Step σ σ') : Attended σ' := by
  have hhas : ∀ p ∈ σ.plans, ∀ w, p.uses w = true → σ.machine.Has w := by
    intro p hp w hw
    obtain ⟨s, hs, hworker⟩ := Plan.uses_iff.mp hw
    exact hg.streams p hp s hs w hworker
  cases hs with
  | device =>
      intro p hp w hw
      show (σ.machine.addTimeline.2.queue w).Attended (σ.handles w)
      rw [(extends_addTimeline σ.machine).same]
      exact h p hp w hw
  | @session _ _ m _ hon hstart =>
      intro p hp w hw
      show (m.queue w).Attended (σ.handles w)
      rw [(Session.start_eq_ok hon hstart).2.same]
      exact h p hp w hw
  | @prepare s g p₀ life m hmem hbuild =>
      exact h.opened hg (Plan.build_opened (hg.devices _ hmem) hbuild)
  | @refuse s g e life m hmem hbuild =>
      obtain ⟨-, -, -, hothers⟩ := Plan.build_eq_error (hg.devices _ hmem) hbuild
      intro p hp w hw
      show (m.queue w).Attended (σ.handles w)
      rw [hothers w (hhas p hp w hw)]
      exact h p hp w hw
  | @begin p₀ fed r hp₀ hstart =>
      intro p hp w hw
      have hsame : ((σ.runs ++ [r]).flatMap (·.held w)).length = σ.handles w := by
        rw [List.flatMap_append, List.length_append, List.flatMap_singleton, Run.held_start hstart]
        rfl
      show (σ.machine.queue w).Attended ((σ.runs ++ [r]).flatMap (·.held w)).length
      rw [hsame]
      exact h p hp w hw
  | @host i x hstep =>
      unfold Execution.hostStep at hstep
      split at hstep
      · cases hstep
      next r hr =>
      obtain ⟨⟨r', m'⟩, hhost, rfl⟩ := Option.map_eq_some_iff.mp hstep
      intro p hp w hw
      obtain ⟨others, hall, hset⟩ := length_flatMap_set (·.held w) σ.runs hr
      have hbefore : (σ.machine.queue w).Attended (others + (r.held w).length) := hall ▸ h p hp w hw
      show (m'.queue w).Attended ((σ.runs.set i r').flatMap (·.held w)).length
      rw [hset]
      exact Run.hostStep_attended (hg.placed i r hr) hhost hbefore
  | @work w₀ x hstep =>
      obtain ⟨⟨runs', m'⟩, hwork, rfl⟩ := Option.map_eq_some_iff.mp hstep
      obtain ⟨c, front, more, -, -, -, -, htook⟩ := step_eq_some hwork
      intro p hp w hw
      have hsame : (runs'.flatMap (·.held w)).length = σ.handles w := by
        cases htook with
        | run hexec => exact handles_execute hexec
        | _ => rfl
      show (m'.queue w).Attended (runs'.flatMap (·.held w)).length
      rw [hsame]
      exact step_attended hwork (h p hp w hw)

/-- **No worker leaves a queue of a plan**, and none is told to. -/
theorem Reached.attended (h : Reached σ) : Attended σ := by
  induction h with
  | empty => intro p hp; cases hp
  | step hreached hs ih => exact ih.step hreached.grounded hs

end System

end OpGraph
