import OpGraph.Proofs.Waiting
import OpGraph.Proofs.Worker

/-!
# `Proofs.Stamps` — what is stamped on a timeline, and when

A step of a worker adds at most one event to the trace of its timeline, a wait of the host that returns
adds one, and nothing else does. Ticks count the events of a timeline from one, and a marker is reached at
the tick of its event.
-/

namespace OpGraph

variable {Job State : Type}

namespace Machine

/-- The trace of a timeline. -/
def events (m : Machine Job) (t : Nat) : List TraceEvent := (m.timeline t).events

/-- The tick of the next event. -/
def nextTick (m : Machine Job) (t : Nat) : Nat := (m.timeline t).nextTick

/-- Nothing is stamped. -/
def Silent (m m' : Machine Job) : Prop := ∀ t, m'.events t = m.events t

theorem Silent.refl (m : Machine Job) : Silent m m := fun _ => rfl

theorem Silent.trans {m m' m'' : Machine Job} (h : Silent m m') (h' : Silent m' m'') : Silent m m'' :=
  fun t => (h' t).trans (h t)

theorem silent_modify {m : Machine Job} {t : Nat} {f : Timeline Job → Timeline Job}
    (hf : ∀ t, (f t).events = t.events) : Silent m (m.modify t f) := by
  intro t'
  unfold events
  rw [timeline_modify]
  split
  · exact hf _
  · rfl

theorem silent_addTimeline (m : Machine Job) : Silent m m.addTimeline.2 := by
  intro t
  simp only [events, timeline, addTimeline, List.getD_eq_getElem?_getD]
  rcases Nat.lt_trichotomy t m.timelines.length with hlt | rfl | hgt
  · rw [List.getElem?_append_left hlt]
  · simp
  · have h1 : m.timelines[t]? = none := List.getElem?_eq_none (Nat.le_of_lt hgt)
    rw [List.getElem?_eq_none (by simp; omega), h1]

/-- What a worker stamps as it goes on with a command. -/
def stamped (exec : Executor Job State) (s : State) : Command Job → List Occurrence
  | .run label job =>
      match exec job s with
      | some (_, e) => if e.rest.isNone && !e.panicked then [.job label] else []
      | none => []
  | .fixed job => if job.panics then [] else [.job job.label]
  | .record k => [.marker k]
  | _ => []

end Machine

/-! ## Steps of workers -/

namespace Timeline

theorem endJob_events (t : Timeline Job) (q : Nat) (label : String) (panicked : Bool) :
    (t.endJob q label panicked).events =
      t.events ++ (if panicked then [] else [⟨t.nextTick, some q, .job label⟩]) := by
  unfold endJob
  cases panicked with
  | true => exact (List.append_nil _).symm
  | false => rfl

theorem settleJob_events (t : Timeline Job) (q : Nat) (label : String) (e : JobEffect Job) :
    (t.settleJob q label e).events = t.events ++
      if e.rest.isNone && !e.panicked then [⟨t.nextTick, some q, .job label⟩] else [] := by
  have hlaunched : ∀ (js : List FixedJob) (t : Timeline Job),
      (js.foldl (fun t j => t.push q (.fixed j)) t).events = t.events := by
    intro js
    induction js with
    | nil => exact fun _ => rfl
    | cons j rest ih => exact fun t => ih (t.push q (.fixed j))
  unfold settleJob
  cases hrest : e.rest with
  | some job =>
      show (e.launched.foldl _ t).events = _
      rw [hlaunched]
      simp
  | none =>
      have hfinish : ∀ t : Timeline Job, (t.finishJob q label e).events = ((t.drop q).endJob q label e.panicked).events := by
        intro t
        unfold finishJob
        cases e.releases <;> rfl
      have hdrop : ∀ t : Timeline Job, (t.drop q).nextTick = t.nextTick ∧ (t.drop q).events = t.events :=
        fun _ => ⟨rfl, rfl⟩
      dsimp only
      rw [hfinish, endJob_events, (hdrop _).1, (hdrop _).2, nextTick, hlaunched]
      cases e.panicked <;> rfl

/-- What a step of the worker of a queue adds to the trace. -/
theorem perform_events {exec : Executor Job State} {q : Nat} {s s' : State} {t t' : Timeline Job}
    {c : Command Job} (h : t.perform exec q s c = some (s', t')) :
    t'.events = t.events ++ (Machine.stamped exec s c).map fun what => ⟨t.nextTick, some q, what⟩ := by
  cases c with
  | run label job =>
      obtain ⟨⟨s₁, e⟩, hexec, hpair⟩ := Option.map_eq_some_iff.mp h
      obtain ⟨rfl, rfl⟩ := Prod.mk.inj hpair
      rw [settleJob_events, Machine.stamped, hexec]
      dsimp only
      split <;> rfl
  | fixed job =>
      obtain ⟨rfl, rfl⟩ := Prod.mk.inj (Option.some.inj h)
      rw [endJob_events, Machine.stamped]
      cases job.panics <;> rfl
  | record k =>
      obtain ⟨rfl, rfl⟩ := Prod.mk.inj (Option.some.inj h)
      rfl
  | wait k =>
      simp only [perform] at h
      split at h
      · obtain ⟨rfl, rfl⟩ := Prod.mk.inj (Option.some.inj h)
        exact (List.append_nil _).symm
      · cases h
  | flush =>
      obtain ⟨rfl, rfl⟩ := Prod.mk.inj (Option.some.inj h)
      exact (List.append_nil _).symm
  | shutdown =>
      obtain ⟨rfl, rfl⟩ := Prod.mk.inj (Option.some.inj h)
      exact (List.append_nil _).symm

/-- A marker is reached at the tick of its event. -/
theorem perform_reachedAt {exec : Executor Job State} {q : Nat} {s s' : State} {t t' : Timeline Job}
    {c : Command Job} (h : t.perform exec q s c = some (s', t')) (k : Nat) :
    t'.reachedAt k = t.reachedAt k ∨ c = .record k ∧ t'.reachedAt k = some t.nextTick := by
  cases c with
  | run label job =>
      obtain ⟨⟨s₁, e⟩, hexec, hpair⟩ := Option.map_eq_some_iff.mp h
      obtain ⟨rfl, rfl⟩ := Prod.mk.inj hpair
      exact Or.inl (by rw [reachedAt, (settleJob_queues t q label e).2]; rfl)
  | fixed job =>
      obtain ⟨rfl, rfl⟩ := Prod.mk.inj (Option.some.inj h)
      exact Or.inl (by rw [reachedAt, endJob_markers]; rfl)
  | record k' =>
      obtain ⟨rfl, rfl⟩ := Prod.mk.inj (Option.some.inj h)
      by_cases hk : k' = k
      · subst hk
        by_cases hlt : k' < t.markers.length
        · refine Or.inr ⟨rfl, ?_⟩
          simp [reachedAt, reach, drop, modifyQueue, stamp, nextTick, hlt]
        · refine Or.inl ?_
          simp [reachedAt, reach, drop, modifyQueue, hlt]
      · refine Or.inl ?_
        simp [reachedAt, reach, drop, modifyQueue, hk]
  | wait k' =>
      simp only [perform] at h
      split at h
      · obtain ⟨rfl, rfl⟩ := Prod.mk.inj (Option.some.inj h)
        exact Or.inl rfl
      · cases h
  | flush =>
      obtain ⟨rfl, rfl⟩ := Prod.mk.inj (Option.some.inj h)
      exact Or.inl rfl
  | shutdown =>
      obtain ⟨rfl, rfl⟩ := Prod.mk.inj (Option.some.inj h)
      exact Or.inl rfl

end Timeline

namespace Machine

/-- The command a worker takes next is in front of its queue. -/
theorem head?_of_front? {m : Machine Job} {w : Worker} {c : Command Job} (h : m.front? w = some c) :
    (m.queue w).pending.head? = some c := by
  obtain ⟨t, ht, hfront⟩ := Option.bind_eq_some_iff.mp h
  unfold Timeline.front? at hfront
  split at hfront
  next k hk =>
    split at hfront
    · cases hfront
    · simpa [queue, queue?, ht, hk] using hfront
  · cases hfront

/-- A worker that goes on has a command to take. -/
theorem exists_front? {exec : Executor Job State} {m : Machine Job} {w : Worker} {s : State}
    {r : State × Machine Job} (h : m.step exec w s = some r) : ∃ c, m.front? w = some c := by
  unfold step at h
  split at h
  · cases h
  next t ht =>
  obtain ⟨r', hstep, -⟩ := Option.map_eq_some_iff.mp h
  obtain ⟨c, hfront, -⟩ := Option.bind_eq_some_iff.mp hstep
  exact ⟨c, Option.bind_eq_some_iff.mpr ⟨t, ht, hfront⟩⟩

/-- **What a step of a worker stamps**: at most one event, on its own timeline; and the marker it reaches,
    if it does, has the tick of that event. -/
theorem step_stamps {exec : Executor Job State} {w : Worker} {s s' : State} {m m' : Machine Job}
    {c : Command Job} (hc : m.front? w = some c) (h : m.step exec w s = some (s', m')) :
    (∀ t, m'.events t = m.events t ++
      if t = w.timeline then (stamped exec s c).map fun what => ⟨m.nextTick t, some w.queue, what⟩
      else []) ∧
    ∀ t k, m'.reachedAt t k = m.reachedAt t k ∨
      t = w.timeline ∧ c = .record k ∧ m'.reachedAt t k = some (m.nextTick t) := by
  obtain ⟨t₀, t₁, k₀, c', ht₀, -, -, hqueue, -, hhead, hperform, rfl⟩ := step_inv h
  obtain rfl : c' = c := by
    have hfront := head?_of_front? hc
    rw [hqueue] at hfront
    exact Option.some.inj (hhead.symm.trans hfront)
  have htimeline : m.timeline w.timeline = t₀ := by simp [timeline, ht₀]
  refine ⟨fun t => ?_, fun t k => ?_⟩
  · unfold events nextTick
    rw [timeline_set ht₀]
    by_cases ht : w.timeline = t
    · subst ht
      rw [if_pos rfl, if_pos rfl, htimeline]
      exact Timeline.perform_events hperform
    · rw [if_neg ht, if_neg (Ne.symm ht), List.append_nil]
  · unfold reachedAt nextTick
    rw [timeline_set ht₀]
    by_cases ht : w.timeline = t
    · subst ht
      rw [if_pos rfl, htimeline]
      exact (Timeline.perform_reachedAt hperform k).imp id fun hk => ⟨rfl, hk⟩
    · rw [if_neg ht]
      exact Or.inl rfl

end Machine

/-! ## What the host does -/

namespace Stream

open Machine

theorem silent_share (s : Stream) (m : Machine Job) : Silent m (s.share m) := by
  cases s with
  | gpu context => exact .refl m
  | sim timeline queue provider => exact silent_modify fun _ => rfl

theorem silent_release (s : Stream) (m : Machine Job) : Silent m (s.release m) := by
  cases s with
  | gpu context => exact .refl m
  | sim timeline queue provider => exact silent_modify fun _ => rfl

theorem silent_launch (s : Stream) (label : String) (job : Job) (m : Machine Job) :
    Silent m (s.launch label job m).2 := by
  cases s with
  | gpu context => exact .refl m
  | sim timeline queue provider => exact silent_modify fun _ => rfl

/-- A job is launched, and comes with a share in its queue or without. -/
theorem pushes_launch_only {s : Stream} {m : Machine Job} {w : Worker} (hw : s.worker? = some w) (h : m.Has w)
    (label : String) (job : Job) (shares : Bool) :
    Pushes m (s.launch label job (if shares then s.share m else m)).2 (only w (.run label job)) ∧
      Silent m (s.launch label job (if shares then s.share m else m)).2 := by
  have hon : s.On m := .of_has hw h
  rw [← putting_eq_only hw]
  cases shares with
  | false => exact ⟨s.pushes_launch hon label job, s.silent_launch label job m⟩
  | true =>
      have hshared := s.pushes_share hon
      exact ⟨hshared.trans (s.pushes_launch (hon.of_pushes hshared) label job),
        (s.silent_share m).trans (s.silent_launch label job _)⟩

theorem silent_postFlush (s : Stream) (m : Machine Job) : Silent m (s.postFlush m).2 := by
  cases s with
  | gpu context => exact .refl m
  | sim timeline queue provider => exact silent_modify fun _ => rfl

theorem silent_notification (s : Stream) (consumers : Nat) (m : Machine Job) :
    Silent m (s.notification consumers m).2 := by
  cases s with
  | gpu context => exact .refl m
  | sim timeline queue provider => exact silent_modify fun _ => rfl

end Stream

theorem Device.silent_openStream {d : Device} {provider : ProviderId} {m m' : Machine Job} {s : Stream}
    (h : d.openStream provider m = .ok (s, m')) : m.Silent m' := by
  unfold openStream at h
  split at h
  · cases h
  cases d with
  | gpu context =>
      obtain ⟨-, rfl⟩ := Prod.mk.inj (Except.ok.inj h)
      exact .refl m
  | sim timeline p =>
      obtain ⟨-, rfl⟩ := Prod.mk.inj (Except.ok.inj h)
      exact Machine.silent_modify fun _ => rfl

theorem Notification.silent_record (n : Notification) (m : Machine Job) : m.Silent (n.record m) := by
  unfold record
  split
  · exact Machine.silent_modify fun _ => rfl
  · exact .refl m

end OpGraph
