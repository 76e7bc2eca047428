import OpGraph.Proofs.Machine

/-!
# `Proofs.Worker` — everything one step of a worker can do

A worker goes on with the command in front of its queue. `Took` lists the cases with all they do to the
queue, the markers and the user's state; the queues of other workers and the number of markers stay as
they were (`Popped`). Commands may need what others in front of them bring about, and `Covered` says of a
whole queue that each finds it.
-/

namespace OpGraph

variable {Job State : Type}

/-! ## Steps on a timeline -/

namespace Timeline

theorem drop_queues (t : Timeline Job) (q : Nat) :
    (t.drop q).queues = t.queues.modify q fun k => { k with pending := k.pending.tail } := rfl

/-- What the end of a job does to its queue. -/
def ended (label : String) (panicked : Bool) (k : Queue Job) : Queue Job :=
  if panicked then { k with failed := k.failed.or (some label) } else k

/-- The end of a job is at most remembered. -/
theorem ended_eq (label : String) (panicked : Bool) (k : Queue Job) :
    ∃ failed, ended label panicked k = { k with failed } := by
  unfold ended
  split <;> exact ⟨_, rfl⟩

theorem endJob_queues (t : Timeline Job) (q : Nat) (label : String) (panicked : Bool) :
    (t.endJob q label panicked).queues = t.queues.modify q (ended label panicked) := by
  unfold endJob ended
  cases panicked with
  | true => rfl
  | false => exact (List.modify_id ..).symm

theorem endJob_markers (t : Timeline Job) (q : Nat) (label : String) (panicked : Bool) :
    (t.endJob q label panicked).markers = t.markers := by
  unfold endJob
  cases panicked <;> rfl

/-- What a job's own jobs do to its queue. -/
def enqueued (js : List FixedJob) (k : Queue Job) : Queue Job :=
  { k with pending := k.pending ++ js.map .fixed }

theorem launched_queues (q : Nat) : ∀ (js : List FixedJob) (t : Timeline Job),
    (js.foldl (fun t j => t.push q (.fixed j)) t).queues = t.queues.modify q (enqueued js) ∧
      (js.foldl (fun t j => t.push q (.fixed j)) t).markers = t.markers := by
  intro js
  induction js with
  | nil =>
      intro t
      have hid : (enqueued [] : Queue Job → Queue Job) = id := by
        funext k
        simp [enqueued]
      exact ⟨by rw [hid, List.modify_id]; rfl, rfl⟩
  | cons j rest ih =>
      intro t
      obtain ⟨hqueues, hmarkers⟩ := ih (t.push q (.fixed j))
      refine ⟨?_, hmarkers⟩
      rw [List.foldl_cons, hqueues]
      show (t.queues.modify q _).modify q _ = _
      rw [List.modify_modify_eq]
      congr 1
      funext k
      simp [enqueued]

/-- What giving up a share does to a queue. -/
def released (k : Queue Job) : Queue Job :=
  if k.shares = 1 then { k with shares := 0, pending := k.pending ++ [.shutdown] }
  else { k with shares := k.shares - 1 }

/-- What a step of the job in front does to its queue. -/
def worked (label : String) (e : JobEffect Job) (k : Queue Job) : Queue Job :=
  let k := enqueued e.launched k
  match e.rest with
  | some job => { k with pending := .run label job :: k.pending.tail }
  | none =>
      let k := ended label e.panicked { k with pending := k.pending.tail }
      if e.releases then released k else k

/-- Commands left after a step of the job in front: what is left of the job, those that waited behind it,
    its own jobs, and the one that sends the worker home if it gave up the last share. -/
theorem worked_pending_eq (label : String) (e : JobEffect Job) {k : Queue Job} (hk : k.pending ≠ []) :
    (worked label e k).pending = (e.rest.map (Command.run label)).toList ++ k.pending.tail ++
      (e.launched.map .fixed ++
        if e.rest.isNone && e.releases && k.shares = 1 then [.shutdown] else []) := by
  have htail : (enqueued e.launched k).pending.tail = k.pending.tail ++ e.launched.map .fixed := by
    simp [enqueued, List.tail_append_of_ne_nil hk]
  unfold worked
  cases e.rest with
  | some job => simp [htail]
  | none =>
      obtain ⟨failed, hended⟩ := ended_eq label e.panicked
        { enqueued e.launched k with pending := (enqueued e.launched k).pending.tail }
      dsimp only
      rw [hended, htail]
      have hshares : (enqueued e.launched k).shares = k.shares := rfl
      cases e.releases with
      | false => simp
      | true => by_cases hlast : k.shares = 1 <;> simp [released, hshares, hlast]

theorem worked_pending (label : String) (e : JobEffect Job) {k : Queue Job} (hk : k.pending ≠ []) :
    ∃ ends : List (Command Job), (∀ c ∈ ends, c = .shutdown) ∧
      (worked label e k).pending = (e.rest.map (Command.run label)).toList ++ k.pending.tail ++
        (e.launched.map .fixed ++ ends) := by
  refine ⟨_, fun c hc => ?_, worked_pending_eq label e hk⟩
  split at hc
  · exact List.mem_singleton.mp hc
  · cases hc

theorem worked_replies (label : String) (e : JobEffect Job) (k : Queue Job) :
    (worked label e k).replies = k.replies ∧ (worked label e k).flushes = k.flushes := by
  unfold worked ended released enqueued
  cases e.rest with
  | some job => exact ⟨rfl, rfl⟩
  | none => cases e.releases <;> cases e.panicked <;> simp <;> split <;> exact ⟨rfl, rfl⟩

theorem worked_failed (label : String) (e : JobEffect Job) (k : Queue Job) :
    (worked label e k).failed =
      if e.rest.isNone && e.panicked then k.failed.or (some label) else k.failed := by
  unfold worked ended released enqueued
  cases e.rest with
  | some job => rfl
  | none => cases e.releases <;> cases e.panicked <;> simp <;> split <;> rfl

theorem settleJob_queues (t : Timeline Job) (q : Nat) (label : String) (e : JobEffect Job) :
    (t.settleJob q label e).queues = t.queues.modify q (worked label e) ∧
      (t.settleJob q label e).markers = t.markers := by
  obtain ⟨hqueues, hmarkers⟩ := launched_queues q e.launched t
  unfold settleJob worked
  cases hrest : e.rest with
  | some job =>
      refine ⟨?_, hmarkers⟩
      show (List.modify _ q _) = _
      rw [hqueues, List.modify_modify_eq]
      rfl
  | none =>
      simp only [finishJob]
      cases e.releases with
      | true =>
          simp only [if_true]
          refine ⟨?_, (endJob_markers ..).trans hmarkers⟩
          show List.modify _ q released = _
          rw [endJob_queues, drop_queues, hqueues, List.modify_modify_eq, List.modify_modify_eq,
            List.modify_modify_eq]
          rfl
      | false =>
          refine ⟨?_, (endJob_markers ..).trans hmarkers⟩
          show (endJob ..).queues = _
          rw [endJob_queues, drop_queues, hqueues, List.modify_modify_eq, List.modify_modify_eq]
          rfl

/-- What going on with a command does to its queue. -/
theorem perform_queues {exec : Executor Job State} {s s' : State} {t t' : Timeline Job} {q : Nat}
    {c : Command Job} (h : t.perform exec q s c = some (s', t')) :
    ∃ g : Queue Job → Queue Job, t'.queues = t.queues.modify q g ∧
      ((∃ label job e, c = .run label job ∧ exec job s = some (s', e) ∧ g = worked label e) ∨
        (∀ label job, c ≠ .run label job) ∧ (∀ k, (g k).pending = k.pending.tail) ∧
          (∀ k, (g k).shares = k.shares) ∧
          ∀ k, (c = .shutdown → (g k).closed = true) ∧ (c ≠ .shutdown → (g k).closed = k.closed)) := by
  cases c with
  | run label job =>
      obtain ⟨⟨s₁, e⟩, hexec, hpair⟩ := Option.map_eq_some_iff.mp h
      obtain ⟨rfl, rfl⟩ := Prod.mk.inj hpair
      exact ⟨_, (settleJob_queues t q label e).1, Or.inl ⟨label, job, e, rfl, hexec, rfl⟩⟩
  | fixed job =>
      obtain ⟨rfl, rfl⟩ := Prod.mk.inj (Option.some.inj h)
      refine ⟨fun k => ended job.label job.panics { k with pending := k.pending.tail }, ?_,
        Or.inr ⟨nofun, fun k => ?_, fun k => ?_, fun k => ⟨nofun, fun _ => ?_⟩⟩⟩
      · rw [endJob_queues, drop_queues, List.modify_modify_eq]
        rfl
      all_goals
        unfold ended
        split <;> rfl
  | record marker =>
      obtain ⟨rfl, rfl⟩ := Prod.mk.inj (Option.some.inj h)
      exact ⟨_, drop_queues t q, Or.inr ⟨nofun, fun k => rfl, fun k => rfl, fun k => ⟨nofun, fun _ => rfl⟩⟩⟩
  | wait marker =>
      simp only [perform] at h
      split at h
      · obtain ⟨rfl, rfl⟩ := Prod.mk.inj (Option.some.inj h)
        exact ⟨_, drop_queues t q, Or.inr ⟨nofun, fun k => rfl, fun k => rfl, fun k => ⟨nofun, fun _ => rfl⟩⟩⟩
      · cases h
  | flush =>
      obtain ⟨rfl, rfl⟩ := Prod.mk.inj (Option.some.inj h)
      exact ⟨_, List.modify_modify_eq ..,
        Or.inr ⟨nofun, fun k => rfl, fun k => rfl, fun k => ⟨nofun, fun _ => rfl⟩⟩⟩
  | shutdown =>
      obtain ⟨rfl, rfl⟩ := Prod.mk.inj (Option.some.inj h)
      exact ⟨_, List.modify_modify_eq ..,
        Or.inr ⟨nofun, fun k => rfl, fun k => rfl, fun k => ⟨fun _ => rfl, fun hne => absurd rfl hne⟩⟩⟩

end Timeline

/-! ## Steps on a machine -/

namespace Machine

/-- A machine that differs from another at the front and the back of one queue, and perhaps by markers
    that were reached. -/
structure Popped (m m' : Machine Job) (w : Worker) (front more : List (Command Job)) : Prop where
  pending : (m'.queue w).pending = front ++ (m.queue w).pending.tail ++ more
  others : ∀ w', w' ≠ w → m'.queue w' = m.queue w'
  has : ∀ w', m'.Has w' ↔ m.Has w'
  timelines : m'.timelines.length = m.timelines.length
  markers : ∀ t, m'.markerCount t = m.markerCount t

/-- What a step of a worker did, by the command it went on with: the user's state afterwards, what it put in
    front of the queue in the command's place, and what behind all others. -/
inductive Took (exec : Executor Job State) (w : Worker) (s : State) (m m' : Machine Job) :
    Command Job → State → List (Command Job) → List (Command Job) → Prop
  /-- A step of a job. -/
  | run {label : String} {job : Job} {e : JobEffect Job} {s' : State} {ends : List (Command Job)} :
      exec job s = some (s', e) → (∀ c ∈ ends, c = .shutdown) →
      (∀ t k, m'.reachedAt t k = m.reachedAt t k) →
      (m'.queue w).replies = (m.queue w).replies →
      (m'.queue w).flushes = (m.queue w).flushes →
      (m'.queue w).failed =
        (if e.rest.isNone && e.panicked then (m.queue w).failed.or (some label)
          else (m.queue w).failed) →
      Took exec w s m m' (.run label job) s' ((e.rest.map (.run label)).toList)
        (e.launched.map .fixed ++ ends)
  /-- A job with a settled outcome. -/
  | fixed {job : FixedJob} :
      (∀ t k, m'.reachedAt t k = m.reachedAt t k) →
      (m'.queue w).replies = (m.queue w).replies →
      (m'.queue w).flushes = (m.queue w).flushes →
      (m'.queue w).failed =
        (if job.panics then (m.queue w).failed.or (some job.label) else (m.queue w).failed) →
      Took exec w s m m' (.fixed job) s [] []
  /-- A marker was reached. -/
  | record {k : Nat} :
      (∀ t i, (m'.reachedAt t i).isSome ↔
        (m.reachedAt t i).isSome ∨ (t = w.timeline ∧ i = k ∧ k < m.markerCount t)) →
      (m'.queue w).replies = (m.queue w).replies →
      (m'.queue w).flushes = (m.queue w).flushes →
      (m'.queue w).failed = (m.queue w).failed →
      Took exec w s m m' (.record k) s [] []
  /-- A marker that was waited for had been reached. -/
  | wait {k : Nat} :
      (m.reachedAt w.timeline k).isSome →
      (∀ t k, m'.reachedAt t k = m.reachedAt t k) →
      (m'.queue w).replies = (m.queue w).replies →
      (m'.queue w).flushes = (m.queue w).flushes →
      (m'.queue w).failed = (m.queue w).failed →
      Took exec w s m m' (.wait k) s [] []
  /-- A flush was answered. -/
  | flush :
      (∀ t k, m'.reachedAt t k = m.reachedAt t k) →
      (m'.queue w).replies = (m.queue w).replies ++ [(m.queue w).failed] →
      (m'.queue w).flushes = (m.queue w).flushes →
      (m'.queue w).failed = none →
      Took exec w s m m' .flush s [] []
  /-- The worker left. -/
  | shutdown :
      (∀ t k, m'.reachedAt t k = m.reachedAt t k) →
      (m'.queue w).replies = (m.queue w).replies →
      (m'.queue w).flushes = (m.queue w).flushes →
      (m'.queue w).failed = (m.queue w).failed →
      Took exec w s m m' .shutdown s [] []

section Change

variable {m : Machine Job} {w : Worker} {t t' : Timeline Job} {f : Queue Job → Queue Job}

/-- The queues after a worker changed its own. -/
theorem queue_set (ht : m.timelines[w.timeline]? = some t) (hqueues : t'.queues = t.queues.modify w.queue f)
    (w' : Worker) :
    (⟨m.timelines.set w.timeline t'⟩ : Machine Job).queue? w' =
      if w = w' then (m.queue? w').map f else m.queue? w' := by
  obtain ⟨hlt, hget⟩ := List.getElem?_eq_some_iff.mp ht
  unfold queue?
  simp only [List.getElem?_set]
  by_cases htl : w.timeline = w'.timeline
  · by_cases hq : w.queue = w'.queue
    · obtain rfl : w = w' := by
        cases w
        cases w'
        simp_all
      simp [hlt, hqueues, hget]
    · have hne : w ≠ w' := fun h => hq (h ▸ rfl)
      simp only [htl] at hlt hget
      simp [htl, hlt, hne, hqueues, hget, hq]
  · have hne : w ≠ w' := fun h => htl (h ▸ rfl)
    simp [htl, hne]

theorem timeline_set (ht : m.timelines[w.timeline]? = some t) (i : Nat) :
    (⟨m.timelines.set w.timeline t'⟩ : Machine Job).timeline i =
      if w.timeline = i then t' else m.timeline i := by
  have hlt := (List.getElem?_eq_some_iff.mp ht).1
  unfold timeline
  simp only [List.getD_eq_getElem?_getD, List.getElem?_set]
  by_cases h : w.timeline = i
  · subst h
    simp [hlt]
  · simp [h]

theorem queue_set_self (hw : m.Has w) (ht : m.timelines[w.timeline]? = some t)
    (hqueues : t'.queues = t.queues.modify w.queue f) :
    (⟨m.timelines.set w.timeline t'⟩ : Machine Job).queue w = f (m.queue w) := by
  obtain ⟨k, hk⟩ := Option.isSome_iff_exists.mp hw
  unfold queue
  rw [queue_set ht hqueues]
  simp [hk]

theorem Popped.of_set (hw : m.Has w) (ht : m.timelines[w.timeline]? = some t)
    (hqueues : t'.queues = t.queues.modify w.queue f) (hmarkers : t'.markers.length = t.markers.length)
    {front more : List (Command Job)}
    (hpending : (f (m.queue w)).pending = front ++ (m.queue w).pending.tail ++ more) :
    Popped m ⟨m.timelines.set w.timeline t'⟩ w front more where
  pending := by
    rw [queue_set_self hw ht hqueues]
    exact hpending
  others w' hne := by
    unfold queue
    rw [queue_set ht hqueues, if_neg (Ne.symm hne)]
  has w' := by
    unfold Has
    rw [queue_set ht hqueues]
    by_cases h : w = w' <;> simp [h]
  timelines := by simp
  markers i := by
    unfold markerCount
    rw [timeline_set ht]
    by_cases h : w.timeline = i
    · subst h
      simp [hmarkers, timeline, ht]
    · simp [h]

theorem reachedAt_set (ht : m.timelines[w.timeline]? = some t) (hmarkers : t'.markers = t.markers)
    (i k : Nat) :
    (⟨m.timelines.set w.timeline t'⟩ : Machine Job).reachedAt i k = m.reachedAt i k := by
  unfold reachedAt
  rw [timeline_set ht]
  by_cases h : w.timeline = i
  · subst h
    simp [Timeline.reachedAt, hmarkers, timeline, ht]
  · simp [h]

end Change

/-- A step of a worker: it performs the command in front of its queue, which is open. -/
theorem step_inv {exec : Executor Job State} {w : Worker} {s s' : State} {m m' : Machine Job}
    (h : m.step exec w s = some (s', m')) :
    ∃ t t' k c, m.timelines[w.timeline]? = some t ∧ t.queues[w.queue]? = some k ∧ m.Has w ∧ m.queue w = k ∧
      k.closed = false ∧ k.pending.head? = some c ∧ t.perform exec w.queue s c = some (s', t') ∧
      m' = ⟨m.timelines.set w.timeline t'⟩ := by
  unfold step at h
  split at h
  · cases h
  next t ht =>
  obtain ⟨⟨s₁, t₁⟩, hstep, hpair⟩ := Option.map_eq_some_iff.mp h
  obtain ⟨rfl, rfl⟩ := Prod.mk.inj hpair
  unfold Timeline.step at hstep
  obtain ⟨c, hfront, hperform⟩ := Option.bind_eq_some_iff.mp hstep
  unfold Timeline.front? at hfront
  split at hfront
  case h_2 => cases hfront
  next k hk =>
  have hqueue? : m.queue? w = some k := by simp [queue?, ht, hk]
  split at hfront
  · cases hfront
  next hclosed =>
  exact ⟨t, t₁, k, c, ht, hk, by simp [Has, hqueue?], by simp [queue, hqueue?], by simpa using hclosed, hfront,
    hperform, rfl⟩

/-! ### Going on with a command -/

/-- What a worker does that goes on with a command. -/
def Performed (exec : Executor Job State) (w : Worker) (s : State) (m m' : Machine Job) (c : Command Job)
    (s' : State) : Prop :=
  ∃ front more, Popped m m' w front more ∧ Took exec w s m m' c s' front more

section Performing

variable {exec : Executor Job State} {w : Worker} {s s' : State} {m : Machine Job} {t t' : Timeline Job}

theorem performed_run {label : String} {job : Job} (hw : m.Has w) (ht : m.timelines[w.timeline]? = some t)
    (hne : (m.queue w).pending ≠ []) (h : t.perform exec w.queue s (.run label job) = some (s', t')) :
    Performed exec w s m ⟨m.timelines.set w.timeline t'⟩ (.run label job) s' := by
  obtain ⟨⟨s₂, e⟩, hexec, hpair⟩ := Option.map_eq_some_iff.mp h
  obtain ⟨rfl, rfl⟩ := Prod.mk.inj hpair
  obtain ⟨hqueues, hmarkers⟩ := Timeline.settleJob_queues t w.queue label e
  have hself := queue_set_self hw ht hqueues
  obtain ⟨ends, hends, hpending⟩ := Timeline.worked_pending label e hne
  refine ⟨_, _, Popped.of_set hw ht hqueues (by rw [hmarkers]) hpending,
    .run hexec hends (reachedAt_set ht hmarkers) ?_ ?_ ?_⟩
  · rw [hself, (Timeline.worked_replies label e _).1]
  · rw [hself, (Timeline.worked_replies label e _).2]
  · rw [hself, Timeline.worked_failed]

theorem performed_fixed {job : FixedJob} (hw : m.Has w) (ht : m.timelines[w.timeline]? = some t)
    (h : t.perform exec w.queue s (.fixed job) = some (s', t')) :
    Performed exec w s m ⟨m.timelines.set w.timeline t'⟩ (.fixed job) s' := by
  obtain ⟨rfl, rfl⟩ := Prod.mk.inj (Option.some.inj h)
  have hqueues : ((t.drop w.queue).endJob w.queue job.label job.panics).queues =
      t.queues.modify w.queue fun k =>
        Timeline.ended job.label job.panics { k with pending := k.pending.tail } := by
    rw [Timeline.endJob_queues, Timeline.drop_queues, List.modify_modify_eq]
    rfl
  have hmarkers : ((t.drop w.queue).endJob w.queue job.label job.panics).markers = t.markers :=
    Timeline.endJob_markers ..
  have hself := queue_set_self hw ht hqueues
  refine ⟨[], [], Popped.of_set hw ht hqueues (by rw [hmarkers]) ?_,
    .fixed (reachedAt_set ht hmarkers) ?_ ?_ ?_⟩
  · cases hp : job.panics <;> simp [Timeline.ended]
  · rw [hself]
    cases hp : job.panics <;> simp [Timeline.ended]
  · rw [hself]
    cases hp : job.panics <;> simp [Timeline.ended]
  · rw [hself]
    cases hp : job.panics <;> simp [Timeline.ended]

/-- A marker that was reached is the one new thing about markers. -/
theorem reachedAt_reach (ht : m.timelines[w.timeline]? = some t) (k i j : Nat) :
    ((⟨m.timelines.set w.timeline ((t.drop w.queue).reach w.queue k)⟩ : Machine Job).reachedAt i j).isSome ↔
      (m.reachedAt i j).isSome ∨ (i = w.timeline ∧ j = k ∧ k < m.markerCount i) := by
  have htimeline : m.timeline w.timeline = t := by simp [timeline, ht]
  unfold reachedAt markerCount
  rw [timeline_set ht]
  by_cases hi : w.timeline = i
  · subst hi
    rw [if_pos rfl, htimeline]
    simp only [Timeline.reachedAt, Timeline.reach, Timeline.drop, Timeline.modifyQueue,
      List.getElem?_set, true_and]
    by_cases hj : k = j
    · subst hj
      by_cases hlt : k < t.markers.length
      · simp [hlt]
      · have hnone : t.markers[k]? = none := by simpa using hlt
        simp [hlt]
    · simp [hj, Ne.symm hj]
  · simp [hi, Ne.symm hi]

theorem performed_record {k : Nat} (hw : m.Has w) (ht : m.timelines[w.timeline]? = some t)
    (h : t.perform exec w.queue s (.record k) = some (s', t')) :
    Performed exec w s m ⟨m.timelines.set w.timeline t'⟩ (.record k) s' := by
  obtain ⟨rfl, rfl⟩ := Prod.mk.inj (Option.some.inj h)
  have hqueues : ((t.drop w.queue).reach w.queue k).queues =
      t.queues.modify w.queue fun k => { k with pending := k.pending.tail } :=
    Timeline.drop_queues t w.queue
  have hself := queue_set_self hw ht hqueues
  have hmarkers : ((t.drop w.queue).reach w.queue k).markers.length = t.markers.length := by
    simp [Timeline.reach, Timeline.drop, Timeline.modifyQueue]
  refine ⟨[], [], Popped.of_set hw ht hqueues hmarkers (by simp), .record (reachedAt_reach ht k) ?_ ?_ ?_⟩
  · rw [hself]
  · rw [hself]
  · rw [hself]

theorem performed_wait {k : Nat} (hw : m.Has w) (ht : m.timelines[w.timeline]? = some t)
    (h : t.perform exec w.queue s (.wait k) = some (s', t')) :
    Performed exec w s m ⟨m.timelines.set w.timeline t'⟩ (.wait k) s' := by
  simp only [Timeline.perform] at h
  split at h
  next hreached =>
    obtain ⟨rfl, rfl⟩ := Prod.mk.inj (Option.some.inj h)
    have hself := queue_set_self hw ht (Timeline.drop_queues t w.queue)
    have hnow : (m.reachedAt w.timeline k).isSome := by
      unfold reachedAt timeline
      rw [List.getD_eq_getElem?_getD, ht]
      exact hreached
    refine ⟨[], [], Popped.of_set hw ht (Timeline.drop_queues t w.queue) rfl (by simp),
      .wait hnow (reachedAt_set ht rfl) ?_ ?_ ?_⟩
    · rw [hself]
    · rw [hself]
    · rw [hself]
  · cases h

theorem performed_flush (hw : m.Has w) (ht : m.timelines[w.timeline]? = some t)
    (h : t.perform exec w.queue s .flush = some (s', t')) :
    Performed exec w s m ⟨m.timelines.set w.timeline t'⟩ .flush s' := by
  obtain ⟨rfl, rfl⟩ := Prod.mk.inj (Option.some.inj h)
  have hqueues : ((t.drop w.queue).reply w.queue).queues = t.queues.modify w.queue fun k =>
      { k with pending := k.pending.tail, replies := k.replies ++ [k.failed], failed := none } := by
    show List.modify _ _ _ = _
    rw [Timeline.drop_queues, List.modify_modify_eq]
    rfl
  have hself := queue_set_self hw ht hqueues
  refine ⟨[], [], Popped.of_set hw ht hqueues rfl (by simp), .flush (reachedAt_set ht rfl) ?_ ?_ ?_⟩
  · rw [hself]
  · rw [hself]
  · rw [hself]

theorem performed_shutdown (hw : m.Has w) (ht : m.timelines[w.timeline]? = some t)
    (h : t.perform exec w.queue s .shutdown = some (s', t')) :
    Performed exec w s m ⟨m.timelines.set w.timeline t'⟩ .shutdown s' := by
  obtain ⟨rfl, rfl⟩ := Prod.mk.inj (Option.some.inj h)
  have hqueues : ((t.drop w.queue).modifyQueue w.queue fun k => { k with closed := true }).queues =
      t.queues.modify w.queue fun k => { k with pending := k.pending.tail, closed := true } := by
    show List.modify _ _ _ = _
    rw [Timeline.drop_queues, List.modify_modify_eq]
    rfl
  have hself := queue_set_self hw ht hqueues
  refine ⟨[], [], Popped.of_set hw ht hqueues rfl (by simp), .shutdown (reachedAt_set ht rfl) ?_ ?_ ?_⟩
  · rw [hself]
  · rw [hself]
  · rw [hself]

end Performing

/-- **Everything a step of a worker can do.** -/
theorem step_eq_some {exec : Executor Job State} {w : Worker} {s s' : State} {m m' : Machine Job}
    (h : m.step exec w s = some (s', m')) :
    ∃ c front more, m.Has w ∧ (m.queue w).closed = false ∧ (m.queue w).pending.head? = some c ∧
      Popped m m' w front more ∧ Took exec w s m m' c s' front more := by
  obtain ⟨t, t₁, k, c, ht, hk, hw, hqueue, hclosed, hfront, hperform, rfl⟩ := step_inv h
  have hopen : (m.queue w).closed = false := by simpa [hqueue] using hclosed
  have hhead : (m.queue w).pending.head? = some c := by rw [hqueue]; exact hfront
  have hne : (m.queue w).pending ≠ [] := fun hnil => by simp [hnil] at hhead
  have hperformed : Performed exec w s m ⟨m.timelines.set w.timeline t₁⟩ c s' := by
    cases c with
    | run label job => exact performed_run hw ht hne hperform
    | fixed job => exact performed_fixed hw ht hperform
    | record k => exact performed_record hw ht hperform
    | wait k => exact performed_wait hw ht hperform
    | flush => exact performed_flush hw ht hperform
    | shutdown => exact performed_shutdown hw ht hperform
  obtain ⟨front, more, hpopped, htook⟩ := hperformed
  exact ⟨c, front, more, hw, hopen, hhead, hpopped, htook⟩

/-- A step of a worker changes its own queue, and no other. -/
theorem step_alters {exec : Executor Job State} {w : Worker} {s s' : State} {m m' : Machine Job}
    (h : m.step exec w s = some (s', m')) :
    ∃ c g, m.Has w ∧ (m.queue w).closed = false ∧ (m.queue w).pending.head? = some c ∧ Alters m m' w g ∧
      ((∃ label job e, c = .run label job ∧ exec job s = some (s', e) ∧ g = Timeline.worked label e) ∨
        (∀ label job, c ≠ .run label job) ∧ (∀ k, (g k).pending = k.pending.tail) ∧
          (∀ k, (g k).shares = k.shares) ∧
          ∀ k, (c = .shutdown → (g k).closed = true) ∧ (c ≠ .shutdown → (g k).closed = k.closed)) := by
  obtain ⟨_, _, _, -, -, -, hpopped, -⟩ := step_eq_some h
  obtain ⟨t, t', k, c, ht, -, hhas, hqueue, hclosed, hfront, hperform, rfl⟩ := step_inv h
  obtain ⟨g, hqueues, hg⟩ := Timeline.perform_queues hperform
  exact ⟨c, g, hhas, by rw [hqueue]; exact hclosed, by rw [hqueue]; exact hfront,
    ⟨hpopped.has, queue_set_self hhas ht hqueues, hpopped.others⟩, hg⟩

/-- A worker that is there goes on with the command in front, unless that waits for a marker that nobody
    reached or is a job that cannot go on. -/
theorem exists_step {exec : Executor Job State} {w : Worker} {s : State} {m : Machine Job} {c : Command Job}
    (hopen : (m.queue w).closed = false) (hhead : (m.queue w).pending.head? = some c)
    (hrun : ∀ label job, c = .run label job → ∃ r, exec job s = some r)
    (hwait : ∀ k, c = .wait k → (m.reachedAt w.timeline k).isSome) :
    ∃ result, m.step exec w s = some result := by
  have hhas : m.Has w := Has.of_mem (List.mem_of_mem_head? hhead)
  obtain ⟨t, k, ht, hk, hqueue⟩ := hhas.timeline
  have htimeline : m.timeline w.timeline = t := by simp [timeline, ht]
  have hfront : t.front? w.queue = some c := by
    unfold Timeline.front?
    rw [hk]
    rw [hqueue] at hopen hhead
    simp only [hopen, Bool.false_eq_true, if_false]
    exact hhead
  have hperform : ∃ result, t.perform exec w.queue s c = some result := by
    cases c with
    | run label job =>
        obtain ⟨r, hexec⟩ := hrun label job rfl
        exact ⟨_, by rw [Timeline.perform, hexec]; rfl⟩
    | wait i =>
        have hreached := hwait i rfl
        rw [reachedAt, htimeline] at hreached
        exact ⟨_, if_pos hreached⟩
    | _ => exact ⟨_, rfl⟩
  obtain ⟨⟨s', t'⟩, hperform⟩ := hperform
  refine ⟨(s', ⟨m.timelines.set w.timeline t'⟩), ?_⟩
  unfold step
  rw [ht]
  simp only [Timeline.step, hfront, Option.bind_some, hperform, Option.map_some]

/-! ## Flushes and markers -/

variable {exec : Executor Job State} {w : Worker} {s s' : State} {m m' : Machine Job} {c : Command Job}
  {front more : List (Command Job)}

/-- A worker puts only what is left of a job, jobs of its own and the end of the queue anywhere. -/
theorem Took.put (h : Took exec w s m m' c s' front more) : ∀ c' ∈ front ++ more,
    isFlush c' = false ∧ ∀ k, c' ≠ .record k ∧ c' ≠ .wait k := by
  intro c' hc'
  cases h with
  | @run label job e _ ends _ hends =>
      rcases List.mem_append.mp hc' with hc' | hc'
      · obtain ⟨job', -, rfl⟩ := List.mem_map.mp (by simpa using hc' : c' ∈ e.rest.toList.map (.run label))
        exact ⟨rfl, fun k => ⟨nofun, nofun⟩⟩
      · rcases List.mem_append.mp hc' with hc' | hc'
        · obtain ⟨job', -, rfl⟩ := List.mem_map.mp hc'
          exact ⟨rfl, fun k => ⟨nofun, nofun⟩⟩
        · rw [hends c' hc']
          exact ⟨rfl, fun k => ⟨nofun, nofun⟩⟩
  | fixed => cases hc'
  | record => cases hc'
  | wait => cases hc'
  | flush => cases hc'
  | shutdown => cases hc'

/-- A worker answers a flush, and nothing but flushes. -/
theorem Took.answers (h : Took exec w s m m' c s' front more) :
    (m'.queue w).flushes = (m.queue w).flushes ∧
      (m'.queue w).replies.length = (m.queue w).replies.length + if isFlush c then 1 else 0 := by
  cases h with
  | run _ _ _ hreplies hflushes => exact ⟨hflushes, by simp [hreplies, isFlush]⟩
  | fixed _ hreplies hflushes => exact ⟨hflushes, by simp [hreplies, isFlush]⟩
  | record _ hreplies hflushes => exact ⟨hflushes, by simp [hreplies, isFlush]⟩
  | wait _ _ hreplies hflushes => exact ⟨hflushes, by simp [hreplies, isFlush]⟩
  | flush _ hreplies hflushes => exact ⟨hflushes, by simp [hreplies, isFlush]⟩
  | shutdown _ hreplies hflushes => exact ⟨hflushes, by simp [hreplies, isFlush]⟩

/-- Markers that were reached stay so. -/
theorem Took.reached (h : Took exec w s m m' c s' front more) {t k : Nat}
    (hk : (m.reachedAt t k).isSome) : (m'.reachedAt t k).isSome := by
  cases h with
  | record hreached => exact (hreached t k).mpr (Or.inl hk)
  | run _ _ hsame => rw [hsame]; exact hk
  | fixed hsame => rw [hsame]; exact hk
  | wait _ hsame => rw [hsame]; exact hk
  | flush hsame => rw [hsame]; exact hk
  | shutdown hsame => rw [hsame]; exact hk

/-- What waits after a step of a worker waited before, in the same place but for the first, or was put
    there by the step. -/
theorem Popped.pending_eq (hp : Popped m m' w front more) (hc : (m.queue w).pending.head? = some c) :
    ∃ rest, (m.queue w).pending = c :: rest ∧ (m'.queue w).pending = front ++ rest ++ more := by
  cases hpending : (m.queue w).pending with
  | nil => simp [hpending] at hc
  | cons c' rest =>
      obtain rfl : c' = c := by simpa [hpending] using hc
      exact ⟨rest, rfl, by rw [hp.pending, hpending]; rfl⟩

/-- What waits after a step of a worker waited before, or was put in its queue by the step. -/
theorem Popped.mem_cases (hp : Popped m m' w front more) {u : Worker} {d : Command Job}
    (hd : d ∈ (m'.queue u).pending) : d ∈ (m.queue u).pending ∨ u = w ∧ d ∈ front ++ more := by
  by_cases hu : u = w
  · subst hu
    rw [hp.pending, List.append_assoc] at hd
    rcases List.mem_append.mp hd with hfront | hd
    · exact Or.inr ⟨rfl, List.mem_append_left _ hfront⟩
    · exact (List.mem_append.mp hd).imp List.mem_of_mem_tail fun hmore =>
        ⟨rfl, List.mem_append_right _ hmore⟩
  · exact Or.inl (hp.others u hu ▸ hd)

/-- What waited before a step of a worker waits after it, unless it is what the worker went on with. -/
theorem Popped.mem_or_head (hp : Popped m m' w front more) (hc : (m.queue w).pending.head? = some c)
    {u : Worker} {d : Command Job} (hd : d ∈ (m.queue u).pending) :
    d ∈ (m'.queue u).pending ∨ u = w ∧ d = c := by
  by_cases hu : u = w
  · subst hu
    obtain ⟨rest, hbefore, hafter⟩ := hp.pending_eq hc
    rw [hbefore] at hd
    rw [hafter]
    rcases List.mem_cons.mp hd with heq | hrest
    · exact Or.inr ⟨rfl, heq⟩
    · exact Or.inl (List.mem_append_left _ (List.mem_append_right _ hrest))
  · exact Or.inl (hp.others u hu ▸ hd)

/-- What is recorded was made, and flushes are answered or waiting. -/
structure Tidy (m : Machine Job) : Prop where
  records : ∀ w k, .record k ∈ (m.queue w).pending → k < m.markerCount w.timeline
  flushes : ∀ w, (m.queue w).flushes =
    (m.queue w).replies.length + (m.queue w).pending.countP isFlush

theorem Tidy.empty : Tidy ({} : Machine Job) where
  records w k h := by
    have hw := Has.of_mem h
    cases hw
  flushes w := rfl

theorem Tidy.pushes {more : Worker → List (Command Job)} (h : Tidy m) (hp : Pushes m m' more)
    (hmore : ∀ w k, .record k ∈ more w → k < m'.markerCount w.timeline) : Tidy m' where
  records w k hk := by
    rw [hp.pending] at hk
    rcases List.mem_append.mp hk with hk | hk
    · exact Nat.lt_of_lt_of_le (h.records w k hk) (hp.markers _)
    · exact hmore w k hk
  flushes w := by
    rw [hp.flushes, hp.replies, hp.pending, List.countP_append, h.flushes, Nat.add_assoc]

theorem Tidy.took (h : Tidy m) (hc : (m.queue w).pending.head? = some c) (hp : Popped m m' w front more)
    (ht : Took exec w s m m' c s' front more) : Tidy m' := by
  obtain ⟨rest, hbefore, hafter⟩ := hp.pending_eq hc
  have hput := ht.put
  refine ⟨fun w' k hk => ?_, fun w' => ?_⟩
  · rw [hp.markers]
    rcases hp.mem_cases hk with hold | ⟨-, hnew⟩
    · exact h.records w' k hold
    · exact absurd rfl ((hput _ hnew).2 k).1
  · by_cases hw : w' = w
    · subst hw
      obtain ⟨hflushes, hreplies⟩ := ht.answers
      have hzero : ∀ cs : List (Command Job), (∀ c' ∈ cs, isFlush c' = false) → cs.countP isFlush = 0 :=
        fun cs hcs => List.countP_eq_zero.mpr fun c' hc' => by simp [hcs c' hc']
      have hfront := hzero front fun c' hc' => (hput c' (List.mem_append_left _ hc')).1
      have hmore := hzero more fun c' hc' => (hput c' (List.mem_append_right _ hc')).1
      have hold := h.flushes w'
      rw [hbefore, List.countP_cons] at hold
      rw [hflushes, hreplies, hafter, List.countP_append, List.countP_append, hfront, hmore]
      omega
    · rw [hp.others w' hw]
      exact h.flushes w'

end Machine

/-! ## Commands that find what they need -/

section Covered

variable {C F : Type} {needs needs' grants grants' : C → F → Prop} {known known' : F → Prop}

/-- Whatever a command needs is known, or is granted by a command in front of it. -/
def Covered (needs grants : C → F → Prop) (known : F → Prop) : List C → Prop
  | [] => True
  | c :: rest => (∀ u, needs c u → known u) ∧ Covered needs grants (fun u => known u ∨ grants c u) rest

theorem Covered.mono {cs : List C} (h : Covered needs grants known cs)
    (hneeds : ∀ c ∈ cs, ∀ u, needs' c u → needs c u) (hgrants : ∀ c ∈ cs, ∀ u, grants c u → grants' c u)
    (hknown : ∀ u, known u → known' u) : Covered needs' grants' known' cs := by
  induction cs generalizing known known' with
  | nil => trivial
  | cons c rest ih =>
      refine ⟨fun u hu => hknown u (h.1 u (hneeds c List.mem_cons_self u hu)), ih h.2
        (fun c' hc' => hneeds c' (List.mem_cons_of_mem _ hc'))
        (fun c' hc' => hgrants c' (List.mem_cons_of_mem _ hc')) fun u hu => ?_⟩
      exact hu.imp (hknown u) (hgrants c List.mem_cons_self u)

theorem covered_append {cs ds : List C} : Covered needs grants known (cs ++ ds) ↔
    Covered needs grants known cs ∧
      Covered needs grants (fun u => known u ∨ ∃ c ∈ cs, grants c u) ds := by
  induction cs generalizing known with
  | nil => simp [Covered]
  | cons c rest ih =>
      rw [List.cons_append, Covered, Covered, ih, and_assoc]
      have hknown : (fun u => (known u ∨ grants c u) ∨ ∃ c' ∈ rest, grants c' u) =
          fun u => known u ∨ ∃ c' ∈ c :: rest, grants c' u := by
        funext u
        simp [or_assoc]
      rw [hknown]

theorem covered_of_known {cs : List C} (h : ∀ c ∈ cs, ∀ u, needs c u → known u) :
    Covered needs grants known cs := by
  induction cs generalizing known with
  | nil => trivial
  | cons c rest ih =>
      exact ⟨h c List.mem_cons_self,
        ih fun c' hc' u hu => Or.inl (h c' (List.mem_cons_of_mem _ hc') u hu)⟩

/-- Commands put behind the others. -/
theorem Covered.pushed {cs more : List C} (h : Covered needs grants known cs)
    (hmore : ∀ c ∈ more, ∀ u, needs c u → known u ∨ ∃ c' ∈ cs, grants c' u) :
    Covered needs grants known (cs ++ more) :=
  covered_append.mpr ⟨h, covered_of_known hmore⟩

/-- The command in front gone, or others in its place. -/
theorem Covered.popped {c : C} {rest front more : List C} (h : Covered needs grants known (c :: rest))
    (hfront : ∀ c' ∈ front, ∀ u, needs c' u → known' u)
    (hmore : ∀ c' ∈ more, ∀ u, needs c' u → known' u)
    (hknown : ∀ u, known u ∨ grants c u → known' u ∨ ∃ c' ∈ front, grants c' u) :
    Covered needs grants known' (front ++ rest ++ more) := by
  refine covered_append.mpr ⟨covered_append.mpr ⟨covered_of_known hfront, ?_⟩,
    covered_of_known fun c' hc' u hu => Or.inl (hmore c' hc' u hu)⟩
  exact h.2.mono (fun _ _ _ => id) (fun _ _ _ => id) hknown

end Covered

end OpGraph
