import OpGraph.Stream.Host

/-!
# `Proofs.Machine` — queues and markers of a machine, one change at a time

A machine is seen through its queues, by worker, and through the ticks at which markers were reached. Every
operation of the host only puts commands behind those that wait (`Pushes`), and every step of a worker goes
on with the command in front (`Took`). Whatever is said about executions is said in these terms.
-/

namespace OpGraph

variable {Job State : Type}

namespace Machine

/-! ## Queues and markers -/

/-- The queue of a worker. -/
def queue? (m : Machine Job) (w : Worker) : Option (Queue Job) :=
  (m.timelines[w.timeline]?).bind (·.queues[w.queue]?)

/-- The queue of a worker; a fresh one where there is none. -/
def queue (m : Machine Job) (w : Worker) : Queue Job := (m.queue? w).getD {}

/-- There is such a worker. -/
def Has (m : Machine Job) (w : Worker) : Prop := (m.queue? w).isSome

/-- The tick at which a marker was reached. -/
def reachedAt (m : Machine Job) (t marker : Nat) : Option Nat := (m.timeline t).reachedAt marker

/-- Number of markers made on a timeline. -/
def markerCount (m : Machine Job) (t : Nat) : Nat := (m.timeline t).markers.length

/-- Only markers that were made are reached. -/
theorem reachedAt_lt {m : Machine Job} {t k : Nat} (h : (m.reachedAt t k).isSome) : k < m.markerCount t := by
  refine Nat.lt_of_not_le fun hle => ?_
  have hnone : (m.timeline t).markers[k]? = none := List.getElem?_eq_none hle
  simp [reachedAt, Timeline.reachedAt, hnone] at h

/-- Where there is no such worker nothing waits. -/
theorem queue_of_not_has {m : Machine Job} {w : Worker} (h : ¬m.Has w) : m.queue w = {} := by
  have hnone : m.queue? w = none := by simpa [Has] using h
  simp [queue, hnone]

theorem Has.of_mem {m : Machine Job} {w : Worker} {c : Command Job} (h : c ∈ (m.queue w).pending) :
    m.Has w := by
  by_cases hw : m.Has w
  · exact hw
  · rw [queue_of_not_has hw] at h
    cases h

theorem Has.timeline {m : Machine Job} {w : Worker} (h : m.Has w) :
    ∃ t k, m.timelines[w.timeline]? = some t ∧ t.queues[w.queue]? = some k ∧ m.queue w = k := by
  obtain ⟨k, hk⟩ := Option.isSome_iff_exists.mp h
  obtain ⟨t, ht, hq⟩ := Option.bind_eq_some_iff.mp hk
  exact ⟨t, k, ht, hq, by simp [queue, hk]⟩

theorem mem_workers {m : Machine Job} {w : Worker} : w ∈ m.workers ↔ m.Has w := by
  unfold workers Has queue?
  simp only [List.mem_flatMap, List.mem_map, List.mem_range, Prod.exists, Option.isSome_iff_exists]
  constructor
  · rintro ⟨t, i, ht, q, hq, rfl⟩
    rw [List.mem_zipIdx_iff_getElem?.mp ht]
    exact ⟨_, List.getElem?_eq_getElem hq⟩
  · rintro ⟨k, hk⟩
    obtain ⟨t, ht, hq⟩ := Option.bind_eq_some_iff.mp hk
    exact ⟨t, w.timeline, List.mem_zipIdx_iff_getElem?.mpr ht, w.queue, (List.getElem?_eq_some_iff.mp hq).1, rfl⟩

theorem timeline_modify (m : Machine Job) (t t' : Nat) (f : Timeline Job → Timeline Job) :
    (m.modify t f).timeline t' =
      if t = t' ∧ t < m.timelines.length then f (m.timeline t') else m.timeline t' := by
  unfold modify timeline
  simp only [List.getD_eq_getElem?_getD, List.getElem?_modify]
  by_cases h : t = t'
  · subst h
    by_cases hlt : t < m.timelines.length
    · simp [hlt]
    · simp [hlt]
  · simp [h]

/-! ## Changing a queue -/

section ModifyQueue

variable {m : Machine Job} {w : Worker}

theorem queue?_modifyQueue (m : Machine Job) (w w' : Worker) (f : Queue Job → Queue Job) :
    (m.modify w.timeline (·.modifyQueue w.queue f)).queue? w' =
      if w = w' then (m.queue? w').map f else m.queue? w' := by
  unfold queue? modify Timeline.modifyQueue
  simp only [List.getElem?_modify]
  by_cases ht : w.timeline = w'.timeline
  · by_cases hq : w.queue = w'.queue
    · obtain rfl : w = w' := by
        cases w
        cases w'
        simp_all
      cases m.timelines[w.timeline]? <;> simp
    · have hne : w ≠ w' := fun h => hq (h ▸ rfl)
      cases m.timelines[w'.timeline]? <;> simp [ht, hq, hne]
  · have hne : w ≠ w' := fun h => ht (h ▸ rfl)
    simp [ht, hne]

/-- A queue after a change to it, and every other queue. -/
theorem queue_modifyQueue (h : m.Has w) (w' : Worker) (f : Queue Job → Queue Job) :
    (m.modify w.timeline (·.modifyQueue w.queue f)).queue w' =
      if w = w' then f (m.queue w') else m.queue w' := by
  unfold queue
  rw [queue?_modifyQueue]
  by_cases hw : w = w'
  · subst hw
    obtain ⟨k, hk⟩ := Option.isSome_iff_exists.mp h
    simp [hk]
  · simp [hw]

theorem has_modifyQueue (m : Machine Job) (w w' : Worker) (f : Queue Job → Queue Job) :
    (m.modify w.timeline (·.modifyQueue w.queue f)).Has w' ↔ m.Has w' := by
  unfold Has
  rw [queue?_modifyQueue]
  by_cases hw : w = w' <;> simp [hw]

/-- A change to a queue by way of its timeline. -/
theorem queue?_modify (m : Machine Job) (w : Worker) {f : Timeline Job → Timeline Job}
    {g : Queue Job → Queue Job} (hf : ∀ t, (f t).queues = t.queues.modify w.queue g) (w' : Worker) :
    (m.modify w.timeline f).queue? w' = if w = w' then (m.queue? w').map g else m.queue? w' := by
  rw [← queue?_modifyQueue m w w' g]
  unfold queue? modify
  simp only [List.getElem?_modify]
  by_cases ht : w.timeline = w'.timeline
  · cases m.timelines[w'.timeline]? <;> simp [ht, hf, Timeline.modifyQueue]
  · simp [ht]

/-- A machine that has the queues of another, one of them changed. -/
structure Alters (m m' : Machine Job) (u : Worker) (g : Queue Job → Queue Job) : Prop where
  has : ∀ w, m'.Has w ↔ m.Has w
  own : m'.queue u = g (m.queue u)
  others : ∀ w, w ≠ u → m'.queue w = m.queue w

theorem Alters.trans {m' m'' : Machine Job} {g g' : Queue Job → Queue Job} (h : Alters m m' w g)
    (h' : Alters m' m'' w g') : Alters m m'' w (g' ∘ g) where
  has w' := (h'.has w').trans (h.has w')
  own := by
    rw [h'.own, h.own]
    rfl
  others w' hne := (h'.others w' hne).trans (h.others w' hne)

theorem alters_modify (h : m.Has w) {f : Timeline Job → Timeline Job} {g : Queue Job → Queue Job}
    (hf : ∀ t, (f t).queues = t.queues.modify w.queue g) : Alters m (m.modify w.timeline f) w g where
  has w' := by
    unfold Has
    rw [queue?_modify m w hf]
    by_cases hw : w = w' <;> simp [hw]
  own := by
    obtain ⟨k, hk⟩ := Option.isSome_iff_exists.mp h
    unfold queue
    rw [queue?_modify m w hf, if_pos rfl, hk]
    rfl
  others w' hne := by
    unfold queue
    rw [queue?_modify m w hf, if_neg (Ne.symm hne)]

theorem reachedAt_modifyQueue (m : Machine Job) (t q : Nat) (f : Queue Job → Queue Job) (t' k : Nat) :
    (m.modify t (·.modifyQueue q f)).reachedAt t' k = m.reachedAt t' k := by
  unfold reachedAt
  rw [timeline_modify]
  split <;> rfl

theorem markerCount_modifyQueue (m : Machine Job) (t q : Nat) (f : Queue Job → Queue Job) (t' : Nat) :
    (m.modify t (·.modifyQueue q f)).markerCount t' = m.markerCount t' := by
  unfold markerCount
  rw [timeline_modify]
  split <;> rfl

end ModifyQueue

/-! ## Commands put behind all others -/

/-- Whether a command is a flush. -/
def isFlush : Command Job → Bool
  | .flush => true
  | _ => false

/-- A machine that differs from another by commands behind those of each queue, by new markers, and in
    nothing else that bears on what the workers do. -/
structure Pushes (m m' : Machine Job) (more : Worker → List (Command Job)) : Prop where
  pending : ∀ w, (m'.queue w).pending = (m.queue w).pending ++ more w
  has : ∀ w, m.Has w → m'.Has w
  timelines : m.timelines.length ≤ m'.timelines.length
  reached : ∀ t k, m'.reachedAt t k = m.reachedAt t k
  markers : ∀ t, m.markerCount t ≤ m'.markerCount t
  failed : ∀ w, (m'.queue w).failed = (m.queue w).failed
  replies : ∀ w, (m'.queue w).replies = (m.queue w).replies
  /-- Flushes are counted as they are asked for. -/
  flushes : ∀ w, (m'.queue w).flushes = (m.queue w).flushes + (more w).countP isFlush

/-- Nothing is put anywhere. -/
def nothing : Worker → List (Command Job) := fun _ => []

/-- One command is put behind a queue. -/
def only (w : Worker) (c : Command Job) : Worker → List (Command Job) :=
  fun w' => if w' = w then [c] else []

theorem Pushes.refl (m : Machine Job) : Pushes m m nothing := by
  constructor <;> simp [nothing]

theorem Pushes.trans {m m' m'' : Machine Job} {more more' : Worker → List (Command Job)}
    (h : Pushes m m' more) (h' : Pushes m' m'' more') :
    Pushes m m'' fun w => more w ++ more' w where
  pending w := by rw [h'.pending, h.pending, List.append_assoc]
  has w hw := h'.has w (h.has w hw)
  timelines := Nat.le_trans h.timelines h'.timelines
  reached t k := (h'.reached t k).trans (h.reached t k)
  markers t := Nat.le_trans (h.markers t) (h'.markers t)
  failed w := (h'.failed w).trans (h.failed w)
  replies w := (h'.replies w).trans (h.replies w)
  flushes w := by rw [h'.flushes, h.flushes, List.countP_append, Nat.add_assoc]

/-- A change that leaves the commands, the failure, the answers and the number of flushes alone. -/
theorem Pushes.of_modifyQueue {m : Machine Job} {w : Worker} {f : Queue Job → Queue Job}
    (h : m.Has w) {more : List (Command Job)}
    (hpending : (f (m.queue w)).pending = (m.queue w).pending ++ more)
    (hfailed : (f (m.queue w)).failed = (m.queue w).failed)
    (hreplies : (f (m.queue w)).replies = (m.queue w).replies)
    (hflushes : (f (m.queue w)).flushes = (m.queue w).flushes + more.countP isFlush) :
    Pushes m (m.modify w.timeline (·.modifyQueue w.queue f))
      fun w' => if w' = w then more else [] := by
  have hqueue : ∀ w', (m.modify w.timeline (·.modifyQueue w.queue f)).queue w' =
      if w = w' then f (m.queue w') else m.queue w' := fun w' => queue_modifyQueue h w' f
  constructor
  · intro w'
    rw [hqueue]
    by_cases hw : w = w'
    · subst hw
      simpa using hpending
    · simp [hw, Ne.symm hw]
  · exact fun w' hw' => (has_modifyQueue m w w' f).mpr hw'
  · simp [modify]
  · exact reachedAt_modifyQueue m w.timeline w.queue f
  · exact fun t => Nat.le_of_eq (markerCount_modifyQueue m w.timeline w.queue f t).symm
  · intro w'
    rw [hqueue]
    by_cases hw : w = w'
    · subst hw
      simpa using hfailed
    · simp [hw]
  · intro w'
    rw [hqueue]
    by_cases hw : w = w'
    · subst hw
      simpa using hreplies
    · simp [hw]
  · intro w'
    rw [hqueue]
    by_cases hw : w = w'
    · subst hw
      simpa using hflushes
    · simp [hw, Ne.symm hw]

/-- A change that leaves all of this alone. -/
theorem Pushes.of_inert {m : Machine Job} {w : Worker} {f : Queue Job → Queue Job} (h : m.Has w)
    (hpending : (f (m.queue w)).pending = (m.queue w).pending)
    (hfailed : (f (m.queue w)).failed = (m.queue w).failed)
    (hreplies : (f (m.queue w)).replies = (m.queue w).replies)
    (hflushes : (f (m.queue w)).flushes = (m.queue w).flushes) :
    Pushes m (m.modify w.timeline (·.modifyQueue w.queue f)) nothing := by
  have hpush := Pushes.of_modifyQueue h (by rw [hpending, List.append_nil]) hfailed hreplies
    (by rw [hflushes]; rfl)
  have hnothing : (fun w' => if w' = w then ([] : List (Command Job)) else []) = nothing := by
    funext w'
    simp [nothing]
  rwa [hnothing] at hpush

/-- A change to a timeline that leaves its queues and the ticks of its markers alone. -/
theorem Pushes.of_modify {m : Machine Job} {t : Nat} {f : Timeline Job → Timeline Job}
    (hqueues : ∀ t, (f t).queues = t.queues) (hreached : ∀ t k, (f t).reachedAt k = t.reachedAt k)
    (hmarkers : ∀ t, t.markers.length ≤ (f t).markers.length) : Pushes m (m.modify t f) nothing := by
  have hqueue? : ∀ w, (m.modify t f).queue? w = m.queue? w := by
    intro w
    unfold queue? modify
    simp only [List.getElem?_modify]
    by_cases h : t = w.timeline
    · cases m.timelines[w.timeline]? <;> simp [h, hqueues]
    · simp [h]
  have hqueue : ∀ w, (m.modify t f).queue w = m.queue w := fun w => by rw [queue, hqueue?]; rfl
  constructor
  · intro w
    simp [hqueue, nothing]
  · intro w hw
    rw [Has, hqueue?]
    exact hw
  · simp [modify]
  · intro t' k
    unfold reachedAt
    rw [timeline_modify]
    split
    · exact hreached _ k
    · rfl
  · intro t'
    unfold markerCount
    rw [timeline_modify]
    split
    · exact hmarkers _
    · exact Nat.le_refl _
  · exact fun w => by rw [hqueue]
  · exact fun w => by rw [hqueue]
  · intro w
    simp [hqueue, nothing]

theorem queue?_addTimeline (m : Machine Job) (w : Worker) : m.addTimeline.2.queue? w = m.queue? w := by
  simp only [queue?, addTimeline]
  rcases Nat.lt_trichotomy w.timeline m.timelines.length with hlt | heq | hgt
  · rw [List.getElem?_append_left hlt]
  · rw [heq]
    simp
  · have h1 : m.timelines[w.timeline]? = none := List.getElem?_eq_none (Nat.le_of_lt hgt)
    rw [List.getElem?_eq_none (by simp; omega), h1]

/-- A new timeline changes nothing about those that are there. -/
theorem pushes_addTimeline (m : Machine Job) : Pushes m m.addTimeline.2 nothing := by
  have htimeline : ∀ t, m.addTimeline.2.timeline t = m.timeline t := by
    intro t
    simp only [timeline, addTimeline, List.getD_eq_getElem?_getD]
    rcases Nat.lt_trichotomy t m.timelines.length with hlt | rfl | hgt
    · rw [List.getElem?_append_left hlt]
    · simp
    · have h1 : m.timelines[t]? = none := List.getElem?_eq_none (Nat.le_of_lt hgt)
      rw [List.getElem?_eq_none (by simp; omega), h1]
  have hqueue : ∀ w, m.addTimeline.2.queue w = m.queue w := fun w => by
    rw [queue, queue?_addTimeline]
    rfl
  constructor
  · intro w
    simp [hqueue, nothing]
  · intro w hw
    rw [Has, queue?_addTimeline]
    exact hw
  · simp [addTimeline]
  · intro t k
    rw [reachedAt, htimeline]
    rfl
  · intro t
    exact Nat.le_of_eq (by rw [markerCount, markerCount, htimeline])
  · exact fun w => by rw [hqueue]
  · exact fun w => by rw [hqueue]
  · intro w
    simp [hqueue, nothing]

/-- A machine that has every queue of another as it was, and perhaps more of them. -/
structure Extends (m m' : Machine Job) : Prop where
  pushes : Pushes m m' nothing
  same : ∀ w, m'.queue w = m.queue w

theorem Extends.refl (m : Machine Job) : Extends m m := ⟨Pushes.refl m, fun _ => rfl⟩

theorem Extends.trans {m m' m'' : Machine Job} (h : Extends m m') (h' : Extends m' m'') : Extends m m'' where
  pushes := h.pushes.trans h'.pushes
  same w := (h'.same w).trans (h.same w)

theorem extends_addTimeline (m : Machine Job) : Extends m m.addTimeline.2 where
  pushes := pushes_addTimeline m
  same w := by rw [queue, queue?_addTimeline, queue]

/-- A new queue changes nothing about those that are there. -/
theorem pushes_addQueue {m : Machine Job} {i : Nat} {t : Timeline Job} (ht : m.timelines[i]? = some t) :
    Pushes m (m.modify i fun t => { t with queues := t.queues ++ [{}] }) nothing ∧
      ∀ w, (m.modify i fun t => { t with queues := t.queues ++ [{}] }).queue? w =
        if w = ⟨i, t.queues.length⟩ then some {} else m.queue? w := by
  have hqueue? : ∀ w, (m.modify i fun t => { t with queues := t.queues ++ [{}] }).queue? w =
      if w = ⟨i, t.queues.length⟩ then some {} else m.queue? w := by
    rintro ⟨i', q⟩
    unfold queue? modify
    simp only [List.getElem?_modify, Worker.mk.injEq]
    by_cases hi : i = i'
    · subst hi
      rcases Nat.lt_trichotomy q t.queues.length with hlt | rfl | hgt
      · simp [ht, List.getElem?_append_left hlt, Nat.ne_of_lt hlt]
      · simp [ht]
      · have h1 : t.queues[q]? = none := List.getElem?_eq_none (Nat.le_of_lt hgt)
        have h2 : (t.queues ++ [({} : Queue Job)])[q]? = none := List.getElem?_eq_none (by simp; omega)
        simp [ht, h1, h2, Nat.ne_of_gt hgt]
    · simp [hi, Ne.symm hi]
  have hqueue : ∀ w, (m.modify i fun t => { t with queues := t.queues ++ [{}] }).queue w =
      m.queue w := by
    intro w
    rw [queue, hqueue?]
    split
    next heq =>
      rw [heq]
      simp [queue, queue?, ht]
    · rfl
  refine ⟨?_, hqueue?⟩
  constructor
  · intro w
    simp [hqueue, nothing]
  · intro w hw
    rw [Has, hqueue?]
    split
    · rfl
    · exact hw
  · simp [modify]
  · intro t' k
    unfold reachedAt
    rw [timeline_modify]
    split <;> rfl
  · intro t'
    unfold markerCount
    rw [timeline_modify]
    split <;> exact Nat.le_refl _
  · exact fun w => by rw [hqueue]
  · exact fun w => by rw [hqueue]
  · intro w
    simp [hqueue, nothing]

end Machine

/-! ## What the host does -/

namespace Stream

open Machine

/-- The worker of a stream; none on a graphics device. -/
def worker? : Stream → Option Worker
  | sim timeline queue _ => some ⟨timeline, queue⟩
  | gpu _ => none

/-- Only graphics devices report anything when they are polled. -/
theorem worker?_of_poll {s : Stream} {e : StreamError} (h : s.poll = .error e) : s.worker? = none := by
  cases s with
  | gpu context => rfl
  | sim timeline queue provider => cases h

/-- Streams of other providers than that of graphics devices have nothing to report. -/
theorem poll_of_provider {s : Stream} (h : s.provider ≠ .gpu) : s.poll = .ok () := by
  cases s with
  | gpu context => exact absurd rfl h
  | sim timeline queue provider => rfl

/-- What a device reports is never that there were too many waits. -/
theorem poll_ne_overWaited {s : Stream} (p : ProviderId) (k : Nat) : s.poll ≠ .error (.overWaited p k) := by
  cases s with
  | gpu context =>
      intro h
      change context.poll = _ at h
      unfold GraphicsContext.poll at h
      split at h <;> cases h
  | sim timeline queue provider => exact nofun

/-- The queue of a stream is there. -/
def On (s : Stream) (m : Machine Job) : Prop := ∀ w, s.worker? = some w → m.Has w

/-- A command put behind the queue of a stream. -/
def putting (s : Stream) (c : Command Job) : Worker → List (Command Job) :=
  fun w => if s.worker? = some w then [c] else []

theorem On.of_has {s : Stream} {m : Machine Job} {w : Worker} (hw : s.worker? = some w) (h : m.Has w) :
    s.On m := fun _ hu => Option.some.inj (hw.symm.trans hu) ▸ h

theorem On.of_pushes {s : Stream} {m m' : Machine Job} {more : Worker → List (Command Job)}
    (h : s.On m) (hp : Pushes m m' more) : s.On m' := fun w hw => hp.has w (h w hw)

theorem putting_sim (timeline queue : Nat) (provider : ProviderId) (c : Command Job) :
    (sim timeline queue provider).putting c =
      fun w => if w = ⟨timeline, queue⟩ then [c] else [] := by
  funext w
  simp [putting, worker?, eq_comm]

theorem putting_eq_only {s : Stream} {w : Worker} (h : s.worker? = some w) (c : Command Job) :
    s.putting c = only w c := by
  funext w'
  simp [putting, only, h, eq_comm]

theorem putting_gpu (context : GraphicsContext) (c : Command Job) : (gpu context).putting c = nothing := by
  funext w
  simp [putting, worker?, nothing]

theorem pushes_share {s : Stream} {m : Machine Job} (h : s.On m) : Pushes m (s.share m) nothing := by
  cases s with
  | gpu context => exact Pushes.refl m
  | sim timeline queue provider => exact Pushes.of_inert (h ⟨timeline, queue⟩ rfl) rfl rfl rfl rfl

/-- Giving up the last share sends the worker home, and giving up a share does nothing else. -/
theorem pushes_release_eq {s : Stream} {m : Machine Job} {w : Worker} (hs : s.worker? = some w)
    (hw : m.Has w) : Pushes m (s.release m)
      fun w' => if w' = w then (if (m.queue w).shares = 1 then [.shutdown] else []) else [] := by
  cases s with
  | gpu context => cases hs
  | sim timeline queue provider =>
      obtain rfl := Option.some.inj hs
      by_cases hlast : (m.queue ⟨timeline, queue⟩).shares = 1
      · exact Pushes.of_modifyQueue hw (by simp [hlast]) (by simp [hlast]) (by simp [hlast])
          (by simp [hlast, isFlush])
      · exact Pushes.of_modifyQueue hw (by simp [hlast]) (by simp [hlast]) (by simp [hlast]) (by simp [hlast])

theorem pushes_release {s : Stream} {m : Machine Job} (h : s.On m) :
    ∃ more, Pushes m (s.release m) more ∧ ∀ w, ∀ c ∈ more w, c = .shutdown := by
  cases hs : s.worker? with
  | none =>
      cases s with
      | gpu context => exact ⟨nothing, Pushes.refl m, nofun⟩
      | sim timeline queue provider => cases hs
  | some w =>
      refine ⟨_, pushes_release_eq hs (h w hs), fun w' c hc => ?_⟩
      split at hc
      · split at hc
        · exact List.mem_singleton.mp hc
        · cases hc
      · cases hc

/-- Giving up a share in one queue leaves the others alone. -/
theorem queue_release_of_ne {s : Stream} {m : Machine Job} {w : Worker} (h : s.worker? ≠ some w) :
    (s.release m).queue w = m.queue w := by
  cases s with
  | gpu context => rfl
  | sim timeline queue provider =>
      have hne : (⟨timeline, queue⟩ : Worker) ≠ w := fun heq => h (congrArg some heq)
      show ((m.modify timeline (·.modifyQueue queue _)).queue? w).getD {} = _
      rw [queue?_modifyQueue m ⟨timeline, queue⟩ w, if_neg hne]
      rfl

/-- Putting a command that is no flush behind a queue. -/
theorem pushes_push {m : Machine Job} {w : Worker} (h : m.Has w) {c : Command Job}
    (hc : isFlush c = false) :
    Pushes m (m.modify w.timeline (·.push w.queue c)) fun w' => if w' = w then [c] else [] := by
  exact Pushes.of_modifyQueue h rfl rfl rfl (by simp [hc])

theorem pushes_launch {s : Stream} {m : Machine Job} (h : s.On m) (label : String) (job : Job) :
    Pushes m (s.launch label job m).2 (s.putting (.run label job)) := by
  cases s with
  | gpu context =>
      rw [putting_gpu]
      exact Pushes.refl m
  | sim timeline queue provider =>
      rw [putting_sim]
      exact pushes_push (h ⟨timeline, queue⟩ rfl) rfl

/-- Asking for a flush puts one behind the queue; its number is that of flushes asked for before. -/
theorem pushes_postFlush {s : Stream} {m : Machine Job} (h : s.On m) :
    Pushes m (s.postFlush m).2 (s.putting .flush) ∧
      ∀ w, s.worker? = some w → (s.postFlush m).1 = (m.queue w).flushes := by
  cases s with
  | gpu context =>
      rw [putting_gpu]
      exact ⟨Pushes.refl m, by simp [worker?]⟩
  | sim timeline queue provider =>
      have hw : m.Has ⟨timeline, queue⟩ := h _ rfl
      refine ⟨?_, ?_⟩
      · rw [putting_sim]
        have hboth : (sim timeline queue provider).postFlush m =
            (((m.timeline timeline).queues[queue]?.map (·.flushes)).getD 0,
              m.modify timeline (·.modifyQueue queue fun k =>
                { k with pending := k.pending ++ [.flush], flushes := k.flushes + 1 })) := by
          simp only [postFlush, Timeline.push, Timeline.modifyQueue, List.modify_modify_eq]
          rfl
        rw [hboth]
        exact Pushes.of_modifyQueue hw rfl rfl rfl rfl
      · rintro w hw'
        obtain rfl : (⟨timeline, queue⟩ : Worker) = w := Option.some.inj hw'
        obtain ⟨t, k, ht, hq, hk⟩ := hw.timeline
        have htimeline : m.timeline timeline = t := by simp [Machine.timeline, ht]
        simp [postFlush, hk, htimeline, hq]

/-- What a flush returns, given the first job that panicked. -/
def verdict : Option String → Except StreamError Unit
  | none => .ok ()
  | some label => .error (.jobPanicked label)

/-- A flush returns with the answer of its number, once the queue has one. -/
theorem flushReply?_eq {s : Stream} {w : Worker} (hs : s.worker? = some w) (number : Nat) (m : Machine Job) :
    s.flushReply? number m = ((m.queue w).replies[number]?).map verdict := by
  cases s with
  | gpu context => cases hs
  | sim timeline queue provider =>
      obtain rfl := Option.some.inj hs
      have hqueue : (m.timeline timeline).queues[queue]? = m.queue? ⟨timeline, queue⟩ := by
        unfold Machine.timeline Machine.queue?
        rw [List.getD_eq_getElem?_getD]
        cases m.timelines[timeline]? <;> rfl
      show (((m.timeline timeline).queues[queue]?).bind (·.replies[number]?)).map _ = _
      rw [hqueue, Machine.queue]
      cases m.queue? ⟨timeline, queue⟩ with
      | none => rfl
      | some k => exact congrArg (Option.map · _) (funext fun reply => by cases reply <;> rfl)

/-- Making a notification makes a marker that was not reached. -/
theorem pushes_notification {s : Stream} {m : Machine Job} (h : s.On m) (consumers : Nat) :
    Pushes m (s.notification consumers m).2 nothing ∧
      (s.notification consumers m).1 = ⟨s, s.worker?.map fun w => m.markerCount w.timeline,
        consumers, false, 0⟩ ∧
      ∀ w, s.worker? = some w →
        (s.notification consumers m).2.markerCount w.timeline = m.markerCount w.timeline + 1 := by
  cases s with
  | gpu context => exact ⟨Pushes.refl m, rfl, by simp [worker?]⟩
  | sim timeline queue provider =>
      have hw : m.Has ⟨timeline, queue⟩ := h _ rfl
      let m₁ : Machine Job := m.modify timeline fun t => { t with markers := t.markers ++ [none] }
      have hmade : ((sim timeline queue provider).notification consumers m).2 =
          m₁.modify timeline (·.modifyQueue queue fun k => { k with shares := k.shares + 1 }) := by
        simp only [notification, m₁, Machine.modify, List.modify_modify_eq]
        rfl
      have hmarker : Pushes m m₁ nothing := by
        refine Pushes.of_modify (fun _ => rfl) (fun t k => ?_) (fun t => by simp)
        simp only [Timeline.reachedAt, List.getElem?_append]
        split
        · rfl
        · rcases Nat.lt_trichotomy k t.markers.length with hlt | rfl | hgt
          · omega
          · simp
          · have h1 : t.markers[k]? = none := List.getElem?_eq_none (Nat.le_of_lt hgt)
            have h2 : [(none : Option Nat)][k - t.markers.length]? = none :=
              List.getElem?_eq_none (by simp; omega)
            simp [h1, h2]
      refine ⟨?_, rfl, ?_⟩
      · rw [hmade]
        exact hmarker.trans (Pushes.of_inert (hmarker.has _ hw) rfl rfl rfl rfl)
      · rintro w hw'
        obtain rfl : (⟨timeline, queue⟩ : Worker) = w := Option.some.inj hw'
        obtain ⟨t, k, ht, -, -⟩ := hw.timeline
        rw [hmade, markerCount_modifyQueue]
        have hlt : timeline < m.timelines.length := (List.getElem?_eq_some_iff.mp ht).1
        simp [markerCount, m₁, timeline_modify, hlt]

end Stream

namespace Notification

open Machine

theorem markerCount_record (n : Notification) (m : Machine Job) (t : Nat) :
    (n.record m).markerCount t = m.markerCount t := by
  unfold record
  split
  · exact markerCount_modifyQueue ..
  · rfl

theorem pushes_record {n : Notification} {m : Machine Job} (h : n.stream.On m) :
    Pushes m (n.record m)
      fun w => (n.marker?.map fun k => n.stream.putting (.record k) w).getD [] := by
  obtain ⟨s, marker, consumers, ready, waits⟩ := n
  cases marker with
  | none => cases s <;> exact Pushes.refl m
  | some k =>
      cases s with
      | gpu context =>
          simp only [Stream.putting_gpu]
          exact Pushes.refl m
      | sim timeline queue provider =>
          simp only [Stream.putting_sim]
          exact Stream.pushes_push (h ⟨timeline, queue⟩ rfl) rfl

theorem pushes_record_only {n : Notification} {m : Machine Job} {w : Worker} {k : Nat}
    (hw : n.stream.worker? = some w) (hk : n.marker? = some k) (h : m.Has w) :
    Pushes m (n.record m) (only w (.record k)) := by
  have hpushes := pushes_record (.of_has hw h)
  simp only [hk, Option.map_some, Option.getD_some, Stream.putting_eq_only hw] at hpushes
  exact hpushes

end Notification

end OpGraph
