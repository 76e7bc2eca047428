import Mathlib.Data.List.Nodup
import Mathlib.Data.List.Pairwise
import Mathlib.Tactic.Choose
import OpGraph.Proofs.Dispatch

/-!
# `Proofs.Reports` — what a trace and its flushes tell

Whatever is enqueued on the queues of a device and its peers, and however their workers take turns, the trace
tells of each queue what its worker did, in order; a marker has the tick of its event; and a flush returns
once everything before it is done, with the first job that panicked since the flush before it
(`Dispatch.InOrder`). So of each lot of jobs between two flushes one failure is reported, to one caller.
-/

namespace OpGraph

open Machine

variable {Job State : Type}

/-! ## Commands that are recorded once -/

/-- Two commands that are not records of one marker. -/
def Slip.Apart (a b : Slip) : Prop :=
  a.worker.timeline = b.worker.timeline → ∀ k, a.command = .record k → b.command ≠ .record k

instance : Std.Symm Slip.Apart where
  symm _ _ h ht k hb ha := h ht.symm k ha hb

namespace Dispatch

variable {exec : Executor Job State} {x x' : Dispatch Job State} {w : Worker}
  {c : Command (Ticketed Job)} {s s' : State} {m' : Machine (Ticketed Job)}

/-- A worker puts no flushes and no records behind its queue. -/
theorem of_mem_adds {k : Queue (Ticketed Job)} {a : Command Nat} (h : a ∈ adds exec s k c) :
    isFlush a = false ∧ ∀ i, a ≠ .record i := by
  cases c with
  | run label job =>
      simp only [adds] at h
      split at h
      · rcases List.mem_append.mp h with hlaunched | hlast
        · obtain ⟨j, -, rfl⟩ := List.mem_map.mp hlaunched
          exact ⟨rfl, by simp⟩
        · split at hlast
          · obtain rfl := Queue.mem_farewell hlast
            exact ⟨rfl, by simp⟩
          · cases hlast
      · cases h
  | _ => cases h

theorem length_done_le (exec : Executor Job State) (s : State) (w : Worker) (c : Command (Ticketed Job)) :
    (done exec s w c).length ≤ 1 := by
  cases c with
  | run label job =>
      simp only [done]
      split
      · split <;> simp
      · simp
  | _ => exact Nat.le_refl 1

/-- Markers are recorded once, and only those that were made. -/
structure Marked (x : Dispatch Job State) : Prop where
  once : x.put.Pairwise Slip.Apart
  made : ∀ w k, ⟨w, .record k⟩ ∈ x.put → k < x.machine.markerCount w.timeline

theorem Marked.start (state : State) : ({ state } : Dispatch Job State).Marked := ⟨.nil, nofun⟩

theorem Marked.step (h : x.Marked) (hs : Step exec x x') : x'.Marked := by
  rcases hs.hosted_or_worked with ⟨slips, hhosted⟩ | ⟨w, c, s', m', -, hstep, rfl⟩
  · obtain ⟨more, hpushes, -⟩ := hhosted.pushes
    refine ⟨?_, fun w k hmem => ?_⟩
    · rw [hhosted.put]
      refine List.pairwise_append.mpr ⟨h.once, ?_, fun a ha b hb ht k hak hbk => ?_⟩
      · -- One command is apart from itself.
        have hone := hhosted.one
        match slips, hone with
        | [], _ => exact .nil
        | [a], _ => exact List.pairwise_singleton _ a
      · obtain ⟨u, d⟩ := b
        obtain rfl : d = .record k := hbk
        refine (hhosted.records u k hb).2 a.worker ht ?_
        rw [← hak]
        exact ha
    · rw [hhosted.put] at hmem
      refine Nat.lt_of_lt_of_le ?_ (hpushes.markers w.timeline)
      rcases List.mem_append.mp hmem with hold | hnew
      · exact h.made w k hold
      · exact (hhosted.records w k hnew).1
  · obtain ⟨_, _, _, -, -, -, hpopped, -⟩ := step_eq_some hstep
    have hnone : ∀ a ∈ (adds exec x.state (x.machine.queue w) c).map (Slip.mk w),
        ∀ k, a.command ≠ .record k := by
      intro a ha k
      obtain ⟨d, hd, rfl⟩ := List.mem_map.mp ha
      exact (of_mem_adds hd).2 k
    refine ⟨?_, fun u k hmem => ?_⟩
    · refine List.pairwise_append.mpr ⟨h.once, ?_, fun a _ b hb _ k _ => hnone b hb k⟩
      exact List.pairwise_of_forall_mem_list fun a _ b hb _ k _ => hnone b hb k
    · rw [hpopped.markers]
      rcases List.mem_append.mp hmem with hold | hnew
      · exact h.made u k hold
      · exact absurd rfl (hnone _ hnew k)

/-- The record in front of a queue is one that no worker is done with. -/
theorem Marked.undone (h : x.Marked) (ha : x.Accounted) {k : Nat}
    (hfront : x.machine.front? w = some (.record k)) {d : Deed} (hd : d ∈ x.deeds)
    (ht : d.worker.timeline = w.timeline) : d.command ≠ .record k := by
  intro hk
  obtain ⟨rest, hpending⟩ := List.head?_eq_some_iff.mp (head?_of_front? hfront)
  have hwaits : (.record k : Command Nat) ∈ (x.machine.queue w).pending.map Command.face :=
    List.mem_map.mpr ⟨.record k, hpending ▸ List.mem_cons_self, rfl⟩
  have hdone : ∀ {u : Worker}, d.worker = u →
      (.record k : Command Nat) ∈ (Deed.behind u x.deeds).map (·.command) :=
    fun hu => List.mem_map.mpr ⟨d, Deed.mem_behind.mpr ⟨hd, hu⟩, hk⟩
  by_cases hu : d.worker = w
  · -- It is done and waits, so it is twice in one queue.
    have hbehind : (Slip.behind w x.put).Pairwise fun a b => ∀ k, a = .record k → b ≠ .record k := by
      refine h.once.filterMap _ fun a b hab a' ha' b' hb' i hi hj => ?_
      simp only [Option.ite_none_right_eq_some, Option.some.injEq] at ha' hb'
      exact hab (by rw [ha'.1, hb'.1]) i (ha'.2.trans hi) (hb'.2.trans hj)
    rw [(ha w).commands] at hbehind
    exact (List.pairwise_append.mp hbehind).2.2 _ (hdone hu) _ hwaits k rfl rfl
  · -- It is done behind another queue, and waits here.
    have hput : ⟨w, .record k⟩ ∈ x.put := by
      rw [← Slip.mem_behind, (ha w).commands]
      exact List.mem_append_right _ hwaits
    have hput' : ⟨d.worker, .record k⟩ ∈ x.put := by
      rw [← Slip.mem_behind, (ha d.worker).commands]
      exact List.mem_append_left _ (hdone rfl)
    have hne : (⟨d.worker, .record k⟩ : Slip) ≠ ⟨w, .record k⟩ := fun heq => hu (Slip.mk.inj heq).1
    exact h.once.forall hput' hput hne ht k rfl rfl

/-! ## The trace -/

/-- The trace tells what was done. -/
structure Traced (x : Dispatch Job State) : Prop where
  told : ∀ w, ((x.machine.events w.timeline).filter fun e => e.queue = some w.queue).map (·.what) =
    (Deed.behind w x.deeds).filterMap Deed.occurrence?
  ticks : ∀ t, (x.machine.events t).map (·.tick) = List.range' 1 (x.machine.events t).length
  reached : ∀ t k tick, x.machine.reachedAt t k = some tick ↔
    ∃ q, ⟨tick, some q, .marker k⟩ ∈ x.machine.events t

theorem Traced.start (state : State) : ({ state } : Dispatch Job State).Traced where
  told _ := rfl
  ticks _ := rfl
  reached t k tick := by
    constructor
    · intro h
      cases h
    · rintro ⟨q, h⟩
      cases h

/-- At most one event is stamped at a time, by the host or as its worker is done with a command. -/
theorem Traced.grown (h : x.Traced) (news : Nat → List (Option Nat × Occurrence)) (ds : Worker → List Deed)
    (hone : ∀ t, (news t).length ≤ 1)
    (hevents : ∀ t, x'.machine.events t =
      x.machine.events t ++ (news t).map fun n => ⟨x.machine.nextTick t, n.1, n.2⟩)
    (hdeeds : ∀ w, Deed.behind w x'.deeds = Deed.behind w x.deeds ++ ds w)
    (htold : ∀ w, ((news w.timeline).filter fun n => n.1 = some w.queue).map (·.2) =
      (ds w).filterMap Deed.occurrence?)
    (hreached : ∀ t k tick, x'.machine.reachedAt t k = some tick ↔ x.machine.reachedAt t k = some tick ∨
      tick = x.machine.nextTick t ∧ ∃ q, (some q, .marker k) ∈ news t) : x'.Traced where
  told w := by
    rw [hevents, List.filter_append, List.map_append, h.told, hdeeds, List.filterMap_append, ← htold,
      List.filter_map, List.map_map]
    rfl
  ticks t := by
    have hnext : x.machine.nextTick t = 1 + 1 * (x.machine.events t).length := by
      unfold nextTick Timeline.nextTick events
      omega
    rw [hevents, List.map_append, h.ticks, List.length_append, List.length_map, List.range'_append.symm]
    have hnew := hone t
    match news t, hnew with
    | [], _ => rfl
    | [n], _ => simp [hnext]
  reached t k tick := by
    rw [hreached, h.reached, hevents]
    simp only [List.mem_append, exists_or]
    refine or_congr Iff.rfl ?_
    constructor
    · rintro ⟨rfl, q, hmem⟩
      exact ⟨q, List.mem_map.mpr ⟨_, hmem, rfl⟩⟩
    · rintro ⟨q, hmem⟩
      obtain ⟨⟨q', what⟩, hmem, heq⟩ := List.mem_map.mp hmem
      injection heq with htick hq hwhat
      subst hq hwhat
      exact ⟨htick.symm, q, hmem⟩

theorem Traced.hosted {slips : List Slip} (h : x.Traced) (hs : Hosted x x' slips) : x'.Traced := by
  obtain ⟨more, hpushes, -⟩ := hs.pushes
  choose resumed hone hevents using hs.events
  refine h.grown (fun t => (resumed t).map fun k => (none, .resume k)) (fun _ => [])
    (fun t => ?_) (fun t => ?_) (fun w => ?_) (fun w => ?_) fun t k tick => ?_
  · rw [List.length_map]
    exact hone t
  · rw [hevents, List.map_map]
    rfl
  · rw [hs.deeds, List.append_nil]
  · rw [List.filter_map]
    simp
  · rw [hpushes.reached]
    simp

/-- What a worker stamps is what its deed leaves in the trace. -/
theorem stamped_eq (s : State) (w : Worker) (c : Command (Ticketed Job)) :
    stamped (Ticketed.run exec) s c = (done exec s w c).filterMap Deed.occurrence? := by
  cases c with
  | run label job =>
      simp only [stamped, done, Ticketed.run]
      cases exec job.job s with
      | none => rfl
      | some r =>
          obtain ⟨s', e⟩ := r
          cases hrest : e.rest <;> cases hpanicked : e.panicked <;>
            simp [hrest, hpanicked, Deed.occurrence?]
  | fixed job => cases hp : job.panics <;> simp [stamped, done, Deed.occurrence?, hp]
  | _ => rfl

theorem marker_mem_stamped {k : Nat} : .marker k ∈ stamped (Ticketed.run exec) s c ↔ c = .record k := by
  cases c with
  | run label job =>
      simp only [stamped]
      split
      · split <;> simp
      · simp
  | fixed job =>
      simp only [stamped]
      split <;> simp
  | record i => simp [stamped, eq_comm]
  | _ => simp [stamped]

/-- The marker in front of a queue was not reached. -/
theorem Traced.fresh (h : x.Traced) (hm : x.Marked) (ha : x.Accounted) {k : Nat}
    (hfront : x.machine.front? w = some (.record k)) : x.machine.reachedAt w.timeline k = none := by
  refine Option.eq_none_iff_forall_ne_some.mpr fun tick htick => ?_
  obtain ⟨q, hevent⟩ := (h.reached _ _ _).mp htick
  have htold : .marker k ∈ (Deed.behind ⟨w.timeline, q⟩ x.deeds).filterMap Deed.occurrence? := by
    rw [← h.told]
    exact List.mem_map.mpr ⟨_, List.mem_filter.mpr ⟨hevent, decide_eq_true rfl⟩, rfl⟩
  obtain ⟨d, hd, hoccurrence⟩ := List.mem_filterMap.mp htold
  obtain ⟨hmem, hworker⟩ := Deed.mem_behind.mp hd
  exact hm.undone ha hfront hmem (by rw [hworker]) (Deed.command_of_occurrence? hoccurrence)

/-- A worker that goes on with a record reaches the marker. -/
theorem Marked.reaches (hm : x.Marked) (ha : x.Accounted) {k : Nat}
    (hfront : x.machine.front? w = some (.record k))
    (hstep : x.machine.step (Ticketed.run exec) w x.state = some (s', m')) :
    (m'.reachedAt w.timeline k).isSome := by
  have hput : ⟨w, .record k⟩ ∈ x.put := by
    rw [← Slip.mem_behind, (ha w).commands]
    refine List.mem_append_right _ (List.mem_map.mpr ⟨.record k, ?_, rfl⟩)
    exact List.mem_of_mem_head? (head?_of_front? hfront)
  obtain ⟨c', _, _, -, -, hhead, -, htook⟩ := step_eq_some hstep
  obtain rfl : .record k = c' := Option.some.inj ((head?_of_front? hfront).symm.trans hhead)
  cases htook with
  | record hreached => exact (hreached _ _).mpr (Or.inr ⟨rfl, rfl, hm.made w k hput⟩)

theorem Traced.worked (h : x.Traced) (hm : x.Marked) (ha : x.Accounted)
    (hfront : x.machine.front? w = some c)
    (hstep : x.machine.step (Ticketed.run exec) w x.state = some (s', m'))
    (hmachine : x'.machine = m') (hdeeds : x'.deeds = x.deeds ++ done exec x.state w c) : x'.Traced := by
  obtain ⟨hevents, hreached⟩ := step_stamps hfront hstep
  -- What is new on the worker's timeline is stamped by its queue, for what the worker is done with.
  refine h.grown
    (fun t => if t = w.timeline then
      (stamped (Ticketed.run exec) x.state c).map fun what => (some w.queue, what) else [])
    (fun u => if u = w then done exec x.state w c else [])
    (fun t => ?_) (fun t => ?_) (fun u => ?_) (fun u => ?_) fun t k tick => ?_
  · split
    · rw [List.length_map, stamped_eq x.state w]
      exact Nat.le_trans (List.length_filterMap_le ..) (length_done_le exec x.state w c)
    · exact Nat.zero_le 1
  · rw [hmachine, hevents]
    split
    · rw [List.map_map]
      rfl
    · rfl
  · rw [hdeeds, Deed.behind_append]
    split
    next hu => rw [hu, Deed.behind_own fun d hd => done_worker hd]
    next hu => rw [Deed.behind_other (fun d hd => done_worker hd) (Ne.symm hu)]
  · by_cases hu : u = w
    · subst hu
      rw [if_pos rfl, if_pos rfl, ← stamped_eq x.state u, List.filter_map, List.map_map]
      simp [Function.comp_def]
    · rw [if_neg hu]
      by_cases ht : u.timeline = w.timeline
      · have hq : u.queue ≠ w.queue := fun hq => hu (by cases u; cases w; simp_all)
        rw [if_pos ht, List.filter_map]
        simp [Function.comp_def, Ne.symm hq]
      · rw [if_neg ht]
        rfl
  · have hnews : (∃ q, (some q, Occurrence.marker k) ∈ if t = w.timeline then
        (stamped (Ticketed.run exec) x.state c).map fun what => (some w.queue, what) else []) ↔
        t = w.timeline ∧ c = .record k := by
      by_cases ht : t = w.timeline
      · simp [ht, marker_mem_stamped]
      · simp [ht]
    rw [hnews, hmachine]
    by_cases hmark : t = w.timeline ∧ c = .record k
    · -- The marker was not reached before, so its tick is the one of this event.
      obtain ⟨rfl, rfl⟩ := hmark
      have hnone := h.fresh hm ha hfront
      have hsome := hm.reaches ha hfront hstep
      rcases hreached w.timeline k with hsame | ⟨-, -, hnext⟩
      · rw [hsame, hnone] at hsome
        cases hsome
      · rw [hnext, hnone]
        simp [eq_comm]
    · have hsame : m'.reachedAt t k = x.machine.reachedAt t k :=
        (hreached t k).resolve_right fun ⟨ht, hc, _⟩ => hmark ⟨ht, hc⟩
      rw [hsame]
      exact (or_iff_left fun hboth => hmark hboth.2).symm

theorem Traced.step (h : x.Traced) (hm : x.Marked) (ha : x.Accounted) (hs : Step exec x x') : x'.Traced := by
  rcases hs.hosted_or_worked with ⟨slips, hhosted⟩ | ⟨w, c, s', m', hfront, hstep, rfl⟩
  · exact h.hosted hhosted
  · exact h.worked hm ha hfront hstep rfl rfl

theorem Reached.traced (h : Reached exec x) : x.Marked ∧ x.Traced := by
  induction h with
  | start state => exact ⟨.start state, .start state⟩
  | step hx hs ih => exact ⟨ih.1.step hs, ih.2.step ih.1 hx.accounted hs⟩

/-! ## Flushes -/

/-- The calls for flushes of a queue. -/
def callsOf (x : Dispatch Job State) (w : Worker) : List FlushCall :=
  x.calls.filter fun c => c.stream.worker? = some w

/-- Calls for flushes go by number, each behind what was put in before it, and what one returned it would
    return again. -/
structure Numbered (x : Dispatch Job State) : Prop where
  numbers : ∀ w, (x.callsOf w).map (·.number) = List.range ((Slip.behind w x.put).countP isFlush)
  calls : ∀ c ∈ x.calls, ∃ w later, c.stream.worker? = some w ∧
    Slip.behind w x.put = c.earlier ++ .flush :: later ∧ c.number = c.earlier.countP isFlush ∧
    ∀ r, c.answer = some r → c.stream.flushReply? c.number x.machine = some r

theorem Numbered.start (state : State) : ({ state } : Dispatch Job State).Numbered := ⟨fun _ => rfl, nofun⟩

/-- Other commands are put behind queues, and perhaps more flushes are answered. -/
theorem Numbered.kept (h : x.Numbered) {slips : List Slip} (hcalls : x'.calls = x.calls)
    (hput : x'.put = x.put ++ slips) (hslips : ∀ a ∈ slips, isFlush a.command = false)
    (hreplies : ∀ w, (x.machine.queue w).replies <+: (x'.machine.queue w).replies) : x'.Numbered where
  numbers w := by
    have hnone : (Slip.behind w slips).countP isFlush = 0 :=
      List.countP_eq_zero.mpr fun c hc => by simp [hslips _ (Slip.mem_behind.mp hc)]
    unfold callsOf
    rw [hcalls, hput, Slip.behind_append, List.countP_append, hnone]
    exact h.numbers w
  calls c hc := by
    obtain ⟨w, later, hw, hbehind, hnumber, hanswer⟩ := h.calls c (hcalls ▸ hc)
    refine ⟨w, later ++ Slip.behind w slips, hw, ?_, hnumber, fun r hr => ?_⟩
    · rw [hput, Slip.behind_append, hbehind, List.append_assoc, List.cons_append]
    · have hreply := hanswer r hr
      rw [Stream.flushReply?_eq hw] at hreply ⊢
      obtain ⟨reply, hget, rfl⟩ := Option.map_eq_some_iff.mp hreply
      obtain ⟨more, hmore⟩ := hreplies w
      rw [← hmore, List.getElem?_append_left (List.getElem?_eq_some_iff.mp hget).1, hget]
      rfl

/-- An entry of a list is replaced by one that counts the same. -/
theorem map_filter_set {α β : Type} {l : List α} {i : Nat} {a a' : α} {p : α → Bool} {f : α → β}
    (hget : l[i]? = some a) (hp : p a' = p a) (hf : f a' = f a) :
    ((l.set i a').filter p).map f = (l.filter p).map f := by
  induction l generalizing i with
  | nil => rfl
  | cons b rest ih =>
      cases i with
      | zero =>
          obtain rfl : b = a := by simpa using hget
          rw [List.set_cons_zero, List.filter_cons, List.filter_cons, hp]
          split
          · rw [List.map_cons, List.map_cons, hf]
          · rfl
      | succ i =>
          have hrest := ih (by simpa using hget)
          rw [List.set_cons_succ, List.filter_cons, List.filter_cons]
          split
          · rw [List.map_cons, List.map_cons, hrest]
          · exact hrest

/-- A flush is asked for, behind everything that was put in. -/
theorem Numbered.asked (h : x.Numbered) (ha : x.Accounted) {st : Stream} (hw : st.worker? = some w)
    (hcalls : x'.calls = x.calls ++ [⟨st, (x.machine.queue w).flushes, Slip.behind w x.put, none⟩])
    (hput : x'.put = x.put ++ [⟨w, .flush⟩])
    (hreplies : ∀ u, (x'.machine.queue u).replies = (x.machine.queue u).replies) : x'.Numbered where
  numbers u := by
    have hold := h.numbers u
    unfold callsOf at hold ⊢
    rw [hcalls, hput, List.filter_append, List.map_append, hold, Slip.behind_append, List.countP_append]
    by_cases hu : w = u
    · subst hu
      have hflush : (Slip.behind w [⟨w, .flush⟩]).countP isFlush = 1 := by simp [Slip.behind, isFlush]
      rw [hflush, List.range_succ, ← (ha w).flushes]
      simp [hw]
    · simp [hw, hu, Slip.behind]
  calls c hc := by
    rw [hcalls] at hc
    rcases List.mem_append.mp hc with hold | hnew
    · obtain ⟨u, later, hu, hbehind, hnumber, hanswer⟩ := h.calls c hold
      refine ⟨u, later ++ Slip.behind u [⟨w, .flush⟩], hu, ?_, hnumber, fun r hr => ?_⟩
      · rw [hput, Slip.behind_append, hbehind, List.append_assoc, List.cons_append]
      · rw [← hanswer r hr, Stream.flushReply?_eq hu, Stream.flushReply?_eq hu, hreplies]
    · obtain rfl := List.mem_singleton.mp hnew
      refine ⟨w, [], hw, ?_, (ha w).flushes, by simp⟩
      rw [hput, Slip.behind_append, Slip.behind_cons_own]
      rfl

/-- A flush returns. -/
theorem Numbered.answered (h : x.Numbered) {i : Nat} {c : FlushCall} {r : Except StreamError Unit}
    (hget : x.calls[i]? = some c) (hreply : c.stream.flushReply? c.number x.machine = some r)
    (hcalls : x'.calls = x.calls.set i { c with answer := some r }) (hput : x'.put = x.put)
    (hreplies : ∀ u, (x'.machine.queue u).replies = (x.machine.queue u).replies) : x'.Numbered where
  numbers u := by
    unfold callsOf
    rw [hcalls, hput]
    refine (map_filter_set hget ?_ ?_).trans (h.numbers u) <;> rfl
  calls c' hc' := by
    rw [hcalls] at hc'
    rw [hput]
    rcases List.mem_or_eq_of_mem_set hc' with hold | rfl
    · obtain ⟨u, later, hu, hbehind, hnumber, hanswer⟩ := h.calls c' hold
      refine ⟨u, later, hu, hbehind, hnumber, fun r hr => ?_⟩
      rw [← hanswer r hr, Stream.flushReply?_eq hu, Stream.flushReply?_eq hu, hreplies]
    · obtain ⟨u, later, hu, hbehind, hnumber, -⟩ := h.calls c (List.mem_of_getElem? hget)
      refine ⟨u, later, hu, hbehind, hnumber, fun r' hr' => ?_⟩
      obtain rfl := Option.some.inj hr'
      rw [← hreply, Stream.flushReply?_eq hu, Stream.flushReply?_eq hu, hreplies]

theorem Numbered.hosted {slips : List Slip} (h : x.Numbered) (ha : x.Accounted) (hs : Hosted x x' slips) :
    x'.Numbered := by
  obtain ⟨more, hpushes, -⟩ := hs.pushes
  have hput := hs.put
  have hheard := hs.calls
  generalize hcalls : x'.calls = calls at hheard
  cases hheard with
  | nothing hnone => exact h.kept hcalls hput hnone fun w => hpushes.replies w ▸ List.prefix_rfl
  | asked hw => exact h.asked ha hw hcalls hput hpushes.replies
  | answered hget _ hreply =>
      rw [List.append_nil] at hput
      exact h.answered hget hreply hcalls hput hpushes.replies

/-- A worker answers at most one flush more. -/
theorem replies_grow (hstep : x.machine.step (Ticketed.run exec) w x.state = some (s', m')) (u : Worker) :
    (x.machine.queue u).replies <+: (m'.queue u).replies := by
  obtain ⟨_, _, _, -, -, -, hpopped, htook⟩ := step_eq_some hstep
  by_cases hu : u = w
  · subst hu
    cases htook with
    | flush _ hreplies => exact hreplies ▸ List.prefix_append _ _
    | run _ _ _ hreplies => exact hreplies ▸ List.prefix_rfl
    | fixed _ hreplies => exact hreplies ▸ List.prefix_rfl
    | record _ hreplies => exact hreplies ▸ List.prefix_rfl
    | wait _ _ hreplies => exact hreplies ▸ List.prefix_rfl
    | shutdown _ hreplies => exact hreplies ▸ List.prefix_rfl
  · exact hpopped.others u hu ▸ List.prefix_rfl

theorem Numbered.step (h : x.Numbered) (ha : x.Accounted) (hs : Step exec x x') : x'.Numbered := by
  rcases hs.hosted_or_worked with ⟨slips, hhosted⟩ | ⟨w, c, s', m', -, hstep, rfl⟩
  · exact h.hosted ha hhosted
  · refine h.kept rfl rfl (fun a ha => ?_) (replies_grow hstep)
    obtain ⟨d, hd, rfl⟩ := List.mem_map.mp ha
    exact (of_mem_adds hd).1

theorem Reached.numbered (h : Reached exec x) : x.Numbered := by
  induction h with
  | start state => exact .start state
  | step hx hs ih => exact ih.step hx.accounted hs

/-! ## Everything in order -/

/-- What is put in queues is done in order, and the trace and the flushes tell so. -/
structure InOrder (x : Dispatch Job State) : Prop where
  /-- Of what was put in a queue a beginning is done, and the rest waits. -/
  processed : ∀ w, Slip.behind w x.put =
    (Deed.behind w x.deeds).map (·.command) ++ (x.machine.queue w).pending.map Command.face
  /-- The trace of a queue is that of the jobs that returned and of the markers that were reached on it. -/
  told : ∀ w, ((x.machine.events w.timeline).filter fun e => e.queue = some w.queue).map (·.what) =
    (Deed.behind w x.deeds).filterMap Deed.occurrence?
  /-- Ticks count the events of all queues of a timeline, and those of the host. -/
  ticks : ∀ t, (x.machine.events t).map (·.tick) = List.range' 1 (x.machine.events t).length
  /-- A marker was reached at the tick of its event. -/
  reached : ∀ t k tick, x.machine.reachedAt t k = some tick ↔
    ∃ q, ⟨tick, some q, .marker k⟩ ∈ x.machine.events t
  /-- A flush returns only once all that had been put in the queue before it is done, with the first job that
      panicked since the flush before it. -/
  returned : ∀ w, ∀ c ∈ x.callsOf w, ∀ r, c.answer = some r → ∃ before d after,
    Deed.behind w x.deeds = before ++ d :: after ∧ before.map (·.command) = c.earlier ∧ d.command = .flush ∧
      r = Stream.verdict (Deed.sinceFlush? before)
  /-- A flush that is done is somebody's, and nobody else's, and what it has to tell can be told. -/
  reported : ∀ w before d after, Deed.behind w x.deeds = before ++ d :: after → d.command = .flush →
    ∃ c, (x.callsOf w).filter (fun c => c.number = before.countP Deed.flushes) = [c] ∧
      c.earlier = before.map (·.command) ∧
      c.stream.flushReply? c.number x.machine = some (Stream.verdict (Deed.sinceFlush? before))

theorem mem_callsOf {c : FlushCall} : c ∈ x.callsOf w ↔ c ∈ x.calls ∧ c.stream.worker? = some w := by
  simp [callsOf]

/-- The flush of a call. -/
theorem Numbered.call (h : x.Numbered) {c : FlushCall} (hc : c ∈ x.callsOf w) : ∃ later,
    Slip.behind w x.put = c.earlier ++ .flush :: later ∧ c.number = c.earlier.countP isFlush ∧
      ∀ r, c.answer = some r → c.stream.flushReply? c.number x.machine = some r := by
  obtain ⟨hmem, hw⟩ := mem_callsOf.mp hc
  obtain ⟨u, later, hu, hrest⟩ := h.calls c hmem
  obtain rfl := Option.some.inj (hw.symm.trans hu)
  exact ⟨later, hrest⟩

/-- Each number is that of one call. -/
theorem Numbered.unique (h : x.Numbered) {n : Nat} (hn : n < (Slip.behind w x.put).countP isFlush) :
    ∃ c, (x.callsOf w).filter (fun c => c.number = n) = [c] := by
  have hone : (((x.callsOf w).filter fun c => c.number = n).map (·.number)).length = 1 := by
    have hfilter : ((x.callsOf w).filter fun c => c.number = n).map (·.number) =
        (List.range ((Slip.behind w x.put).countP isFlush)).filter (· = n) := by
      rw [← h.numbers w, List.filter_map]
      rfl
    rw [hfilter, ← List.countP_eq_length_filter]
    exact List.count_eq_one_of_mem List.nodup_range (List.mem_range.mpr hn)
  rw [List.length_map] at hone
  exact List.length_eq_one_iff.mp hone

theorem Reached.returned (h : Reached exec x) {c : FlushCall} (hc : c ∈ x.callsOf w)
    {r : Except StreamError Unit} (hr : c.answer = some r) : ∃ before d after,
    Deed.behind w x.deeds = before ++ d :: after ∧ before.map (·.command) = c.earlier ∧ d.command = .flush ∧
      r = Stream.verdict (Deed.sinceFlush? before) := by
  obtain ⟨later, hput, hnumber, hanswer⟩ := h.numbered.call hc
  have hreply := hanswer r hr
  rw [Stream.flushReply?_eq (mem_callsOf.mp hc).2, hnumber] at hreply
  obtain ⟨reply, hget, rfl⟩ := Option.map_eq_some_iff.mp hreply
  obtain ⟨before, d, after, hdeeds, hbefore, hd⟩ := (h.accounted w).answered hput hget
  refine ⟨before, d, after, hdeeds, hbefore, hd, ?_⟩
  have hreport := (h.accounted w).report hdeeds (Deed.flushes_of_command hd)
  rw [← hbefore, Deed.countP_command, hreport] at hget
  rw [Option.some.inj hget]

theorem Reached.reported (h : Reached exec x) {before after : List Deed} {d : Deed}
    (hdeeds : Deed.behind w x.deeds = before ++ d :: after) (hd : d.command = .flush) :
    ∃ c, (x.callsOf w).filter (fun c => c.number = before.countP Deed.flushes) = [c] ∧
      c.earlier = before.map (·.command) ∧
      c.stream.flushReply? c.number x.machine = some (Stream.verdict (Deed.sinceFlush? before)) := by
  have hflush := Deed.flushes_of_command hd
  have hreport := (h.accounted w).report hdeeds hflush
  have hn : before.countP Deed.flushes < (Slip.behind w x.put).countP isFlush := by
    rw [(h.accounted w).commands, hdeeds, List.countP_append, Deed.countP_command, List.countP_append,
      List.countP_cons_of_pos hflush]
    omega
  obtain ⟨c, hfilter⟩ := h.numbered.unique hn
  obtain ⟨hc, hnumber⟩ := List.mem_filter.mp (hfilter ▸ List.mem_singleton_self c)
  have hnumber : c.number = before.countP Deed.flushes := of_decide_eq_true hnumber
  obtain ⟨later, hput, hearlier, -⟩ := h.numbered.call hc
  refine ⟨c, hfilter, ?_, ?_⟩
  · -- The call is behind what is before a deed that has its number, and that deed is the one given.
    rw [← hnumber, hearlier] at hreport
    obtain ⟨before', d', after', hdeeds', hbefore', hd'⟩ := (h.accounted w).answered hput hreport
    have hcount : before.countP Deed.flushes = before'.countP Deed.flushes := by
      rw [← hnumber, hearlier, ← hbefore', Deed.countP_command]
    rw [Deed.before_unique (hdeeds.symm.trans hdeeds') hflush (Deed.flushes_of_command hd') hcount, hbefore']
  · rw [Stream.flushReply?_eq (mem_callsOf.mp hc).2, hnumber, hreport]
    rfl

/-- **Everything that can come about is in order.** -/
theorem Reached.inOrder (h : Reached exec x) : x.InOrder where
  processed w := (h.accounted w).commands
  told := h.traced.2.told
  ticks := h.traced.2.ticks
  reached := h.traced.2.reached
  returned _ _ hc _ hr := h.returned hc hr
  reported _ _ _ _ hdeeds hd := h.reported hdeeds hd

/-- Jobs that do nothing, or panic. -/
def panicking : Executor Bool Unit := fun panics s => some (s, { panicked := panics })

/-- A queue of a peer waits for a marker that the first queue records only later, behind three jobs of which
    two panic. Of the two flushes behind the record the first tells of the first panic, the second of none; the
    flush of the peer is not answered yet. -/
theorem inOrder_peers : ∃ x : Dispatch Bool Unit, Reached panicking x ∧
    x.machine.events 0 = [⟨1, some 0, .job "fine"⟩, ⟨2, some 0, .marker 0⟩, ⟨3, some 1, .job "late"⟩,
      ⟨4, none, .resume 0⟩] ∧
    x.machine.reachedAt 0 0 = some 2 ∧
    x.calls.map (·.answer) = [some (.error (.jobPanicked "boom")), some (.ok ()), none] ∧ x.InOrder := by
  let first : Stream := .sim 0 0 .sim
  let second : Stream := .sim 0 1 ⟨"PeerExecutionProvider"⟩
  let n : Notification := ⟨first, some 0, 1, true, 0⟩
  have h : Reached panicking { state := () } := .start ()
  -- What the host does.
  have h := h.step .device
  have h := h.step (@Step.stream _ _ _ _ 0 .sim _ _ (by decide) rfl)
  have h := h.step (@Step.stream _ _ _ _ 0 ⟨"PeerExecutionProvider"⟩ _ _ (by decide) rfl)
  have h := h.step (@Step.marker _ _ _ _ first ⟨0, 0⟩ 1 rfl rfl)
  have h := h.step (@Step.wait _ _ _ _ second n ⟨0, 1⟩ ⟨0, 0⟩ 0 _ rfl rfl rfl rfl rfl)
  have h := h.step (@Step.launch _ _ _ _ second ⟨0, 1⟩ "late" false false rfl rfl)
  have h := h.step (@Step.launch _ _ _ _ first ⟨0, 0⟩ "boom" true false rfl rfl)
  have h := h.step (@Step.launch _ _ _ _ first ⟨0, 0⟩ "again" true false rfl rfl)
  have h := h.step (@Step.launch _ _ _ _ first ⟨0, 0⟩ "fine" false false rfl rfl)
  have h := h.step (@Step.record _ _ _ _ n ⟨0, 0⟩ 0 rfl rfl rfl (by decide) (by simp))
  have h := h.step (@Step.flush _ _ _ _ first ⟨0, 0⟩ rfl rfl)
  have h := h.step (@Step.flush _ _ _ _ first ⟨0, 0⟩ rfl rfl)
  have h := h.step (@Step.flush _ _ _ _ second ⟨0, 1⟩ rfl rfl)
  have h : Reached panicking {
      machine := ⟨[{
        markers := [none]
        queues := [
          { pending := [.run "boom" ⟨1, true, false⟩, .run "again" ⟨2, true, false⟩,
              .run "fine" ⟨3, false, false⟩, .record 0, .flush, .flush]
            flushes := 2, shares := 2 },
          { pending := [.wait 0, .run "late" ⟨0, false, false⟩, .flush], flushes := 1 }] }]⟩
      state := (), jobs := 4, put := _, calls := _ } := h
  -- The first worker gets as far as the marker, then the other one goes on, and then the first again.
  have h := h.step (@Step.work _ _ _ _ ⟨0, 0⟩ _ _ _ rfl rfl)
  have h := h.step (@Step.work _ _ _ _ ⟨0, 0⟩ _ _ _ rfl rfl)
  have h := h.step (@Step.work _ _ _ _ ⟨0, 0⟩ _ _ _ rfl rfl)
  have h := h.step (@Step.work _ _ _ _ ⟨0, 0⟩ _ _ _ rfl rfl)
  have h := h.step (@Step.work _ _ _ _ ⟨0, 1⟩ _ _ _ rfl rfl)
  have h := h.step (@Step.work _ _ _ _ ⟨0, 1⟩ _ _ _ rfl rfl)
  have h := h.step (@Step.work _ _ _ _ ⟨0, 0⟩ _ _ _ rfl rfl)
  have h := h.step (@Step.work _ _ _ _ ⟨0, 0⟩ _ _ _ rfl rfl)
  have h : Reached panicking {
      machine := ⟨[{
        events := [⟨1, some 0, .job "fine"⟩, ⟨2, some 0, .marker 0⟩, ⟨3, some 1, .job "late"⟩]
        markers := [some 2]
        queues := [
          { replies := [some "boom", none], flushes := 2, shares := 2 },
          { pending := [.flush], flushes := 1 }] }]⟩
      state := (), jobs := 4, put := _, deeds := _, calls := _ } := h
  -- Flushes return in another order than they were asked for.
  have h := h.step (@Step.answer _ _ _ _ 1 _ _ rfl rfl rfl)
  have h := h.step (@Step.answer _ _ _ _ 0 _ _ rfl rfl rfl)
  have h := h.step (@Step.resume _ _ _ _ n ⟨0, 0⟩ 0 _ rfl rfl rfl)
  exact ⟨_, h, rfl, rfl, rfl, Reached.inOrder h⟩

end Dispatch

end OpGraph
