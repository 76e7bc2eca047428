import OpGraph.Proofs.Attended

/-!
# `Proofs.Journal` — commands in the order in which they were put behind queues

A system has many queues and no clock. To speak of the oldest command of all, a journal is kept along with
it (`System.Journaled`): everything that was put behind any queue, in order, and of that the line of what
no worker is done with. In a journal no wait comes before the record of its marker, since the host waits
only for what it recorded; in the line of a plan the record of a marker that is not reached yet is still
there (`Journal.Filed`).
-/

namespace OpGraph

open Machine

/-- A command, with the worker behind whose queue it was put. -/
structure Entry where
  worker : Worker
  command : Command NodeJob

namespace Entry

/-- The entry is a wait for a marker, given by its timeline and its number. -/
def Awaits (e : Entry) (x : Nat × Nat) : Prop := e.worker.timeline = x.1 ∧ e.command = .wait x.2

/-- The entry is the record of a marker. -/
def Records (e : Entry) (x : Nat × Nat) : Prop := e.worker.timeline = x.1 ∧ e.command = .record x.2

end Entry

/-- Everything that was put behind queues, in order, and what is left of it. -/
structure Journal where
  put : List Entry := []
  /-- Commands that no worker is done with. -/
  line : List Entry := []

namespace Journal

variable {w w' : Worker} {es es' : List Entry} {c : Command NodeJob} {cs rest : List (Command NodeJob)}

/-- The commands for one worker. -/
def commandsFor (w : Worker) (es : List Entry) : List (Command NodeJob) := (es.filter (·.worker = w)).map (·.command)

/-- The oldest command in any queue of a plan that its worker is not done with. -/
def oldest? (j : Journal) (p : Plan) : Option Entry := j.line.find? (p.uses ·.worker)

@[simp]
theorem commandsFor_nil : commandsFor w [] = [] := rfl

@[simp]
theorem commandsFor_append : commandsFor w (es ++ es') = commandsFor w es ++ commandsFor w es' := by
  simp [commandsFor]

theorem commandsFor_cons_self : commandsFor w (⟨w, c⟩ :: es) = c :: commandsFor w es := by
  simp [commandsFor]

theorem commandsFor_cons_of_ne (h : w' ≠ w) : commandsFor w (⟨w', c⟩ :: es) = commandsFor w es := by
  simp [commandsFor, h]

theorem commandsFor_map_self : commandsFor w (cs.map (Entry.mk w)) = cs := by
  induction cs with
  | nil => rfl
  | cons c rest ih => rw [List.map_cons, commandsFor_cons_self, ih]

theorem commandsFor_map_of_ne (h : w' ≠ w) : commandsFor w (cs.map (Entry.mk w')) = [] := by
  induction cs with
  | nil => rfl
  | cons c rest ih => rw [List.map_cons, commandsFor_cons_of_ne h, ih]

theorem mem_commandsFor : c ∈ commandsFor w es ↔ ⟨w, c⟩ ∈ es := by
  unfold commandsFor
  constructor
  · intro h
    obtain ⟨⟨w', c'⟩, hmem, rfl⟩ := List.mem_map.mp h
    obtain ⟨hin, hw⟩ := List.mem_filter.mp hmem
    have heq : w' = w := by simpa using hw
    exact heq ▸ hin
  · intro h
    exact List.mem_map.mpr ⟨⟨w, c⟩, List.mem_filter.mpr ⟨h, by simp⟩, rfl⟩

/-- The first entry of a worker. -/
theorem exists_split (h : commandsFor w es = c :: rest) : ∃ before after,
    es = before ++ ⟨w, c⟩ :: after ∧ commandsFor w before = [] ∧ commandsFor w after = rest := by
  induction es with
  | nil => cases h
  | cons e es ih =>
      obtain ⟨w', c'⟩ := e
      by_cases hw : w' = w
      · subst hw
        rw [commandsFor_cons_self] at h
        obtain ⟨rfl, rfl⟩ := List.cons.inj h
        exact ⟨[], es, rfl, rfl, rfl⟩
      · rw [commandsFor_cons_of_ne hw] at h
        obtain ⟨before, after, rfl, hbefore, hafter⟩ := ih h
        exact ⟨⟨w', c'⟩ :: before, after, rfl, by rw [commandsFor_cons_of_ne hw, hbefore], hafter⟩

/-- The commands for a worker after one went on with its first entry. -/
theorem commandsFor_worked {before after : List Entry} {left more : List (Command NodeJob)}
    (hbefore : commandsFor w before = []) (w' : Worker) :
    commandsFor w' (before ++ left.map (Entry.mk w) ++ after ++ more.map (Entry.mk w)) =
      if w = w' then left ++ commandsFor w after ++ more
      else commandsFor w' (before ++ ⟨w, c⟩ :: after) := by
  simp only [commandsFor_append]
  split
  next hw =>
    subst hw
    rw [commandsFor_map_self, commandsFor_map_self, hbefore, List.nil_append]
  next hw =>
    rw [commandsFor_map_of_ne hw, commandsFor_map_of_ne hw, commandsFor_cons_of_ne hw, List.append_nil,
      List.append_nil]

/-- The entries of one worker in the line of a plan: all of them, or none. -/
theorem filter_map_mk (p : Plan) (w : Worker) (cs : List (Command NodeJob)) :
    (cs.map (Entry.mk w)).filter (p.uses ·.worker) = if p.uses w then cs.map (Entry.mk w) else [] := by
  split
  next huses =>
    apply List.filter_eq_self.mpr
    intro e he
    obtain ⟨c₁, -, rfl⟩ := List.mem_map.mp he
    exact huses
  next huses =>
    apply List.filter_eq_nil_iff.mpr
    intro e he
    obtain ⟨c₁, -, rfl⟩ := List.mem_map.mp he
    exact huses

/-- Commands for finitely many workers can be put in an order. -/
theorem exists_entries : ∀ (ws : List Worker) (more : Worker → List (Command NodeJob)),
    (∀ w, more w ≠ [] → w ∈ ws) → ∃ es, ∀ w, commandsFor w es = more w := by
  intro ws
  induction ws with
  | nil =>
      intro more h
      refine ⟨[], fun w => ?_⟩
      by_cases hw : more w = []
      · exact hw.symm
      · cases h w hw
  | cons u ws ih =>
      intro more h
      obtain ⟨es, hes⟩ := ih (fun w => if w = u then [] else more w) fun w hw => by
        by_cases heq : w = u
        · rw [if_pos heq] at hw
          exact absurd rfl hw
        · rw [if_neg heq] at hw
          exact (List.mem_cons.mp (h w hw)).resolve_left heq
      refine ⟨(more u).map (Entry.mk u) ++ es, fun w => ?_⟩
      rw [commandsFor_append, hes]
      by_cases heq : w = u
      · rw [heq, if_pos rfl, commandsFor_map_self, List.append_nil]
      · rw [if_neg heq, commandsFor_map_of_ne (Ne.symm heq), List.nil_append]

end Journal

/-! ## Keeping a journal -/

/-- What is left of a command after one step of the worker that has it in front. -/
def Command.left (runs : List Run) : Command NodeJob → List (Command NodeJob)
  | .run label job => ((job.execute runs).bind (·.2.rest)).toList.map (.run label)
  | _ => []

namespace System

variable {σ σ' : System} {j : Journal}

/-- A system that came about, with the journal of what was put behind queues on the way. -/
inductive Journaled : System → Journal → Prop
  | empty : Journaled {} {}
  /-- A step of somebody who is no worker. Whatever it put behind queues comes last. -/
  | put {σ σ' : System} {j : Journal} {news : List Entry} : Journaled σ j → Step σ σ' →
      (∀ w x, σ.execution.workerStep w = some x → σ' ≠ { σ with execution := x }) →
      (∀ w, (σ'.machine.queue w).pending =
        (σ.machine.queue w).pending ++ Journal.commandsFor w news) →
      Journaled σ' { put := j.put ++ news, line := j.line ++ news }
  /-- A step of a worker, which goes on with its first entry in line. What is left of the command keeps
      its place, and what a job enqueued comes last. -/
  | worked {σ : System} {j : Journal} {w : Worker} {x : Execution} {c : Command NodeJob}
      {before after : List Entry} {more : List (Command NodeJob)} : Journaled σ j →
      σ.execution.workerStep w = some x → j.line = before ++ ⟨w, c⟩ :: after →
      Journal.commandsFor w before = [] →
      (x.machine.queue w).pending = c.left σ.runs ++ Journal.commandsFor w after ++ more →
      Journaled { σ with execution := x }
        { put := j.put ++ more.map (Entry.mk w)
          line := before ++ (c.left σ.runs).map (Entry.mk w) ++ after ++ more.map (Entry.mk w) }

theorem Journaled.reached (h : Journaled σ j) : Reached σ := by
  induction h with
  | empty => exact .empty
  | put _ hs _ _ ih => exact .step ih hs
  | worked _ hstep _ _ _ ih => exact .step ih (.work hstep)

end System

/-- What a worker leaves in the place of the command it went on with. -/
theorem Machine.Took.front_eq {w : Worker} {runs runs' : List Run} {m m' : Machine NodeJob}
    {c : Command NodeJob} {front more : List (Command NodeJob)}
    (h : Took NodeJob.execute w runs m m' c runs' front more) : front = c.left runs := by
  cases h with
  | @run label job e _ ends hexec =>
      show _ = ((job.execute runs).bind (·.2.rest)).toList.map (Command.run label)
      rw [hexec, Option.bind_some]
      cases e.rest <;> rfl
  | _ => rfl

/-- What a worker puts anywhere neither awaits nor records a marker. -/
theorem Machine.Took.calm {w : Worker} {runs runs' : List Run} {m m' : Machine NodeJob}
    {c : Command NodeJob} {front more : List (Command NodeJob)}
    (h : Took NodeJob.execute w runs m m' c runs' front more) (cs : List (Command NodeJob))
    (hcs : ∀ c₁ ∈ cs, c₁ ∈ front ++ more) :
    ∀ e ∈ cs.map (Entry.mk w), ∀ x, ¬e.Awaits x ∧ ¬e.Records x := by
  intro e he x
  obtain ⟨c₁, hc₁, rfl⟩ := List.mem_map.mp he
  obtain ⟨-, hcalm⟩ := h.put c₁ (hcs c₁ hc₁)
  exact ⟨fun hawaits => (hcalm x.2).2 hawaits.2, fun hrecords => (hcalm x.2).1 hrecords.2⟩

/-! ## Markers that were recorded -/

namespace Machine

variable {m m' : Machine NodeJob} {u w : Worker} {k : Nat} {c : Command NodeJob}
  {front more : List (Command NodeJob)} {runs runs' : List Run}

/-- The marker was reached, or its record waits behind the queue. -/
def Recorded (m : Machine NodeJob) (u : Worker) (k : Nat) : Prop :=
  (m.reachedAt u.timeline k).isSome ∨ .record k ∈ (m.queue u).pending

theorem Recorded.pushed {more : Worker → List (Command NodeJob)} (h : m.Recorded u k) (hp : Pushes m m' more) :
    m'.Recorded u k := by
  rcases h with hreached | hmem
  · exact Or.inl (by rw [hp.reached]; exact hreached)
  · exact Or.inr (by rw [hp.pending]; exact List.mem_append_left _ hmem)

/-- A record leaves its queue only by reaching the marker. -/
theorem Recorded.popped (h : m.Recorded u k) (hhead : (m.queue w).pending.head? = some c)
    (hp : Popped m m' w front more) (hreached : ∀ t i, (m.reachedAt t i).isSome → (m'.reachedAt t i).isSome)
    (hdone : ∀ i, c = .record i → (m'.reachedAt w.timeline i).isSome) : m'.Recorded u k := by
  rcases h with hold | hmem
  · exact Or.inl (hreached _ _ hold)
  rcases hp.mem_or_head hhead hmem with hstill | ⟨rfl, heq⟩
  · exact Or.inr hstill
  · exact Or.inl (hdone k heq.symm)

/-- A worker that takes a record off its queue reaches the marker. -/
theorem Took.reaches (h : Took NodeJob.execute w runs m m' c runs' front more) (htidy : m.Tidy)
    (hhead : (m.queue w).pending.head? = some c) : ∀ i, c = .record i → (m'.reachedAt w.timeline i).isSome := by
  rintro i rfl
  cases h with
  | record hreached =>
      exact (hreached _ _).mpr (Or.inr ⟨rfl, rfl, htidy.records w i (List.mem_of_mem_head? hhead)⟩)

end Machine

namespace Run

variable {i : Nat} {r r' : Run} {m m' : Machine NodeJob}

/-- The markers of all notifications were recorded. -/
def Recorded (m : Machine NodeJob) (r : Run) : Prop :=
  ∀ j n u k, r.notification? j = some n → n.stream.worker? = some u → n.marker? = some k → m.Recorded u k

/-- A notification of a run after a step was there before, as far as its marker goes, or its record was
    put behind the queue by the step. -/
theorem Did.notification {q : Run} {a : Instruction} {more : Worker → List (Command NodeJob)}
    (h : Did i m m' q a r' more) {v : Nat} {x : Notification} (hx : r'.notification? v = some x) :
    (∃ x₀, q.notification? v = some x₀ ∧ x.stream = x₀.stream ∧ x.marker? = x₀.marker?) ∨
      ∀ u k, x.stream.worker? = some u → x.marker? = some k → .record k ∈ more u := by
  cases h with
  | @refused w who n k e hn _ =>
      change (q.keep w.producer { n with waits := n.waits + k }).notification? v = some x at hx
      rw [notification?_keep] at hx
      split at hx
      next heq =>
        obtain rfl := Option.some.inj hx
        exact Or.inl ⟨n, heq.1 ▸ hn, rfl, rfl⟩
      · exact Or.inl ⟨x, hx, rfl, rfl⟩
  | @waited w who n _ hn =>
      rw [notification?_keep] at hx
      split at hx
      next heq =>
        obtain rfl := Option.some.inj hx
        exact Or.inl ⟨n, heq.1 ▸ hn, rfl, rfl⟩
      · exact Or.inl ⟨x, hx, rfl, rfl⟩
  | @announced j n s hn hs hcount =>
      rw [notification?_keep] at hx
      split at hx
      next heq =>
        obtain rfl := Option.some.inj hx
        refine Or.inr fun u k hu hk => ?_
        have hu : s.worker? = some u := hu
        have hk : s.worker?.map (fun w => m.markerCount w.timeline) = some k := hk
        rw [hu] at hk
        obtain rfl := Option.some.inj hk
        show _ ∈ if s.worker? = some u then _ else _
        rw [if_pos hu]
        exact List.mem_singleton_self _
      · exact Or.inl ⟨x, hx, rfl, rfl⟩
  | check =>
      split at hx
      · exact Or.inl ⟨x, hx, rfl, rfl⟩
      · exact Or.inl ⟨x, hx, rfl, rfl⟩
  | _ => exact Or.inl ⟨x, hx, rfl, rfl⟩

theorem Recorded.saw (h : r.Recorded m) (htidy : m.Tidy) (hs : r.Saw i m r' m') : r'.Recorded m' := by
  intro v x u k hx hu hk
  cases hs with
  | pushed hp => exact (h v x u k hx hu hk).pushed hp
  | took hhead _ hp ht =>
      exact (h v x u k hx hu hk).popped hhead hp (fun t i => ht.reached) (ht.reaches htidy hhead)
  | worked hhead _ _ hp _ hreached =>
      exact (h v x u k hx hu hk).popped hhead hp (fun t i hi => by rw [hreached]; exact hi) nofun
  | proceeded => exact h v x u k hx hu hk
  | did _ hnext hp hdid =>
      rcases hdid.notification hx with ⟨x₀, hx₀, hstream, hmarker⟩ | hnew
      · rw [hnext.notification?] at hx₀
        exact (h v x₀ u k hx₀ (hstream ▸ hu) (hmarker ▸ hk)).pushed hp
      · refine Or.inr ?_
        rw [hp.pending]
        exact List.mem_append_right _ (hnew u k hu hk)

theorem Recorded.start {p : Plan} {fed : List (String × Tensor)} (hr : start p fed = .ok r) : r.Recorded m := by
  intro v x u k hx
  rw [notification?_start hr] at hx
  cases hx

end Run

namespace System

variable {σ σ' : System} {j : Journal}

theorem Reached.recorded (h : Reached σ) {i : Nat} {r : Run} (hr : σ.runs[i]? = some r) :
    r.Recorded σ.machine := by
  obtain ⟨-, -, hrecorded⟩ := Reached.kept (P := fun _ _ r m => r.Recorded m)
    (fun _ _ hstart => .start hstart) (fun _ htidy hrecorded hsaw => hrecorded.saw htidy hsaw) h hr
  exact hrecorded

/-! ## What is so of every journal -/

/-- The markers that were reached. -/
def Known (m : Machine NodeJob) (x : Nat × Nat) : Prop := (m.reachedAt x.1 x.2).isSome

/-- A journal and its system agree. -/
structure Filed (σ : System) (j : Journal) : Prop where
  /-- What waits behind a queue is in line. -/
  pending : ∀ w, (σ.machine.queue w).pending = Journal.commandsFor w j.line
  /-- Markers are reached by being recorded. -/
  reached : ∀ x, Known σ.machine x → ∃ e ∈ j.put, e.Records x
  records : ∀ e ∈ j.line, ∀ x, e.Records x → e ∈ j.put
  /-- No wait comes before the record of its marker. -/
  put : Covered Entry.Awaits Entry.Records (fun _ => False) j.put
  /-- The record that a wait in line is for is in front of it, or the marker was reached. -/
  line : ∀ p ∈ σ.plans, Covered Entry.Awaits Entry.Records (Known σ.machine) (j.line.filter (p.uses ·.worker))

theorem Filed.empty : Filed {} {} where
  pending w := by
    have hno : ¬({} : Machine NodeJob).Has w := fun hw => by cases hw
    exact congrArg Queue.pending (queue_of_not_has hno)
  reached x hx := by cases hx
  records e he := by cases he
  put := trivial
  line p hp := by cases hp

/-- The record that a wait put behind a queue now is for: it is in line, or the marker was reached. -/
theorem Filed.awaited (h : Filed σ j) (hreached : Reached σ) {w : Worker} {m' : Machine NodeJob} {k : Nat}
    (hmay : HostMayPut σ.runs m' w (.wait k)) : ∃ u : Worker, u.timeline = w.timeline ∧
      (Known σ.machine (w.timeline, k) ∨ ⟨u, .record k⟩ ∈ j.line) ∧
      ∀ p ∈ σ.plans, p.uses w = true → p.uses u = true := by
  have hg := hreached.grounded
  obtain ⟨r, hr, v, n, s, u, hn, hmarker, hu, htimeline, hs, hw⟩ := hmay
  obtain ⟨i, hi⟩ := List.mem_iff_getElem?.mp hr
  refine ⟨u, htimeline, ?_, fun p hp hpw => ?_⟩
  · rcases hreached.recorded hi v n u k hn hu hmarker with hknown | hmem
    · exact Or.inl (htimeline ▸ hknown)
    · rw [h.pending] at hmem
      exact Or.inr (Journal.mem_commandsFor.mp hmem)
  · -- The queue belongs to one plan only, that of the run.
    obtain ⟨s', hs', hw'⟩ := Plan.uses_iff.mp hpw
    obtain rfl := hg.owner p hp r.plan (hg.planned r hr) s' hs' s hs w hw' hw
    exact Plan.uses_iff.mpr ⟨_, (hg.placed i r hi).homed v n hn, hu⟩

/-- Nothing waits behind the queues of a new plan. -/
theorem filter_line_opened {p : Plan} {m m' : Machine NodeJob} (hopened : Plan.Opened m p.streams m')
    {line : List Entry} (hpending : ∀ w, (m'.queue w).pending = Journal.commandsFor w line) :
    line.filter (p.uses ·.worker) = [] := by
  apply List.filter_eq_nil_iff.mpr
  intro e he huses
  obtain ⟨s, hs, hw⟩ := Plan.uses_iff.mp huses
  have hc : e.command ∈ (m'.queue e.worker).pending := by
    rw [hpending]
    exact Journal.mem_commandsFor.mpr he
  rw [hopened.same, queue_of_not_has (hopened.fresh s hs e.worker hw).1] at hc
  cases hc

/-- Somebody put commands behind queues. -/
theorem Filed.news (h : Filed σ j) (hreached : Reached σ) (hs : Step σ σ') {news : List Entry}
    (hno : ∀ w x, σ.execution.workerStep w = some x → σ' ≠ { σ with execution := x })
    (hnews : ∀ w, (σ'.machine.queue w).pending =
      (σ.machine.queue w).pending ++ Journal.commandsFor w news) :
    Filed σ' { put := j.put ++ news, line := j.line ++ news } := by
  have hg := hreached.grounded
  obtain ⟨more, hp, hmay⟩ : ∃ more, Pushes σ.machine σ'.machine more ∧
      ∀ w, ∀ c ∈ more w, HostMayPut σ.runs σ'.machine w c := by
    rcases hs.moved hg with hput | ⟨w, x, -, -, -, hstep, heq, -⟩
    · exact hput
    · exact absurd heq (hno w x hstep)
  -- The entries are what the step pushed, in some order.
  have hmem : ∀ w c, ⟨w, c⟩ ∈ news → c ∈ more w := by
    intro w c hc
    have hboth := (hnews w).symm.trans (hp.pending w)
    exact List.append_cancel_left hboth ▸ Journal.mem_commandsFor.mpr hc
  have hknown : ∀ x, Known σ'.machine x ↔ Known σ.machine x := by
    intro x
    unfold Known
    rw [hp.reached]
  have hpending : ∀ w, (σ'.machine.queue w).pending = Journal.commandsFor w (j.line ++ news) := by
    intro w
    rw [hnews, h.pending, Journal.commandsFor_append]
  have hawaited : ∀ e ∈ news, ∀ x, e.Awaits x → ∃ u : Worker, u.timeline = x.1 ∧
      (Known σ.machine x ∨ ⟨u, .record x.2⟩ ∈ j.line) ∧
      ∀ p ∈ σ.plans, p.uses e.worker = true → p.uses u = true := by
    rintro ⟨w, c⟩ he ⟨t, k⟩ ⟨ht, hc⟩
    have ht : w.timeline = t := ht
    have hc : c = .wait k := hc
    subst ht hc
    exact h.awaited hreached (hmay w _ (hmem w _ he))
  refine ⟨hpending, fun x hx => ?_, fun e he x hx => ?_, ?_, fun p hplan => ?_⟩
  · obtain ⟨e, he, hrecords⟩ := h.reached x ((hknown x).mp hx)
    exact ⟨e, List.mem_append_left _ he, hrecords⟩
  · rcases List.mem_append.mp he with hold | hnew
    · exact List.mem_append_left _ (h.records e hold x hx)
    · exact List.mem_append_right _ hnew
  · refine h.put.pushed fun e he x hx => Or.inr ?_
    obtain ⟨u, hu, hfound, -⟩ := hawaited e he x hx
    rcases hfound with hold | hline
    · exact h.reached x hold
    · exact ⟨_, h.records _ hline x ⟨hu, rfl⟩, hu, rfl⟩
  · show Covered _ _ _ ((j.line ++ news).filter (p.uses ·.worker))
    have hold : p ∈ σ.plans → Covered Entry.Awaits Entry.Records (Known σ'.machine)
        ((j.line ++ news).filter (p.uses ·.worker)) := by
      intro hplan
      rw [List.filter_append]
      refine ((h.line p hplan).mono (fun _ _ _ => id) (fun _ _ _ => id) fun x => (hknown x).mpr).pushed
        fun e he x hx => ?_
      obtain ⟨he, hpe⟩ := List.mem_filter.mp he
      obtain ⟨u, hu, hfound, huses⟩ := hawaited e he x hx
      rcases hfound with hknown' | hline
      · exact Or.inl ((hknown x).mpr hknown')
      · exact Or.inr ⟨_, List.mem_filter.mpr ⟨hline, huses p hplan hpe⟩, hu, rfl⟩
    rcases hs.prepared hg with hsame | ⟨p', hcons, -, hopened⟩
    · exact hold (hsame ▸ hplan)
    · rw [hcons] at hplan
      rcases List.mem_cons.mp hplan with rfl | hplan
      · rw [filter_line_opened hopened hpending]
        trivial
      · exact hold hplan

/-- Markers that are reached after a step of a worker were reached before, or it took their record. -/
theorem known_of_took {w : Worker} {m' : Machine NodeJob} {runs' : List Run} {c : Command NodeJob}
    {front more : List (Command NodeJob)} (ht : Took NodeJob.execute w σ.runs σ.machine m' c runs' front more)
    {x : Nat × Nat} (hx : Known m' x) : Known σ.machine x ∨ Entry.Records ⟨w, c⟩ x := by
  unfold Known at hx ⊢
  cases ht with
  | record hreached =>
      rcases (hreached _ _).mp hx with hold | ⟨htimeline, hk, -⟩
      · exact Or.inl hold
      · exact Or.inr ⟨htimeline.symm, by rw [hk]⟩
  | run _ _ hsame => exact Or.inl (by rw [← hsame]; exact hx)
  | fixed hsame => exact Or.inl (by rw [← hsame]; exact hx)
  | wait _ hsame => exact Or.inl (by rw [← hsame]; exact hx)
  | flush hsame => exact Or.inl (by rw [← hsame]; exact hx)
  | shutdown hsame => exact Or.inl (by rw [← hsame]; exact hx)

/-- The line of a plan after a worker went on with its first entry. Whatever that entry recorded is known by
    then, and what came in its place or last awaits nothing. -/
theorem covered_worked {p : Plan} {w : Worker} {c : Command NodeJob} {before after : List Entry}
    {left more : List (Command NodeJob)} {known known' : Nat × Nat → Prop}
    (h : Covered Entry.Awaits Entry.Records known ((before ++ ⟨w, c⟩ :: after).filter (p.uses ·.worker)))
    (hknown : ∀ x, known x ∨ Entry.Records ⟨w, c⟩ x → known' x)
    (hleft : ∀ e ∈ left.map (Entry.mk w), ∀ x, ¬e.Awaits x)
    (hmore : ∀ e ∈ more.map (Entry.mk w), ∀ x, ¬e.Awaits x) :
    Covered Entry.Awaits Entry.Records known'
      ((before ++ left.map (Entry.mk w) ++ after ++ more.map (Entry.mk w)).filter (p.uses ·.worker)) := by
  rw [List.filter_append, covered_append] at h
  obtain ⟨hfirst, hthen⟩ := h
  rw [List.append_assoc, List.append_assoc, List.filter_append]
  apply covered_append.mpr
  refine ⟨hfirst.mono (fun _ _ _ => id) (fun _ _ _ => id) fun x hx => hknown x (Or.inl hx), ?_⟩
  rw [← List.append_assoc, List.filter_append, List.filter_append, Journal.filter_map_mk, Journal.filter_map_mk]
  rw [List.filter_cons] at hthen
  by_cases huses : p.uses w = true
  · rw [if_pos huses] at hthen
    rw [if_pos huses, if_pos huses]
    apply hthen.popped
    · exact fun e he x hx => absurd hx (hleft e he x)
    · exact fun e he x hx => absurd hx (hmore e he x)
    · rintro x ((hold | hgranted) | hrecords)
      · exact Or.inl (Or.inl (hknown x (Or.inl hold)))
      · exact Or.inl (Or.inr hgranted)
      · exact Or.inl (Or.inl (hknown x (Or.inr hrecords)))
  · -- The queue is none of the plan's.
    rw [if_neg huses] at hthen
    rw [if_neg huses, if_neg huses, List.nil_append, List.append_nil]
    apply hthen.mono (fun _ _ _ => id) (fun _ _ _ => id)
    exact fun x hx => hx.imp (fun hold => hknown x (Or.inl hold)) id

/-- A worker went on with its first entry in line. -/
theorem Filed.worked (h : Filed σ j) (hreached : Reached σ) {w : Worker} {x : Execution}
    {c : Command NodeJob} {before after : List Entry} {more : List (Command NodeJob)}
    (hstep : σ.execution.workerStep w = some x) (hline : j.line = before ++ ⟨w, c⟩ :: after)
    (hbefore : Journal.commandsFor w before = [])
    (hpending : (x.machine.queue w).pending = c.left σ.runs ++ Journal.commandsFor w after ++ more) :
    Filed { σ with execution := x }
      { put := j.put ++ more.map (Entry.mk w)
        line := before ++ (c.left σ.runs).map (Entry.mk w) ++ after ++ more.map (Entry.mk w) } := by
  have htidy := hreached.grounded.tidy
  obtain ⟨⟨runs', m'⟩, hwork, rfl⟩ := Option.map_eq_some_iff.mp hstep
  obtain ⟨c', front, more', -, -, hhead, hp, ht⟩ := step_eq_some hwork
  -- The first entry of the worker is what it has in front.
  have hqueue : (σ.machine.queue w).pending = c :: Journal.commandsFor w after := by
    rw [h.pending, hline, Journal.commandsFor_append, hbefore, Journal.commandsFor_cons_self]
    rfl
  obtain rfl : c' = c := by
    change (σ.machine.queue w).pending.head? = some c' at hhead
    rw [hqueue] at hhead
    exact (Option.some.inj hhead).symm
  have hfront := ht.front_eq
  obtain rfl : more' = more := by
    have hafter := hp.pending
    change (m'.queue w).pending = front ++ (σ.machine.queue w).pending.tail ++ more' at hafter
    rw [hqueue, List.tail_cons, hfront] at hafter
    exact List.append_cancel_left (hafter.symm.trans hpending)
  have hleft := ht.calm (c'.left σ.runs) fun c₁ hc₁ => List.mem_append_left _ (hfront ▸ hc₁)
  have hmore := ht.calm more' fun c₁ => List.mem_append_right _
  have hinline : ⟨w, c'⟩ ∈ j.line := by
    rw [hline]
    exact List.mem_append_right _ List.mem_cons_self
  refine ⟨fun w' => ?_, fun y hy => ?_, fun e he y hy => ?_, ?_, fun p hplan => ?_⟩
  · show (m'.queue w').pending = Journal.commandsFor w' _
    rw [Journal.commandsFor_worked (c := c') hbefore, ← hline]
    split
    next hw => exact hw ▸ hpending
    next hw =>
      rw [hp.others w' (Ne.symm hw)]
      exact h.pending w'
  · rcases known_of_took ht hy with hold | hrecords
    · obtain ⟨e, he, hrecords⟩ := h.reached y hold
      exact ⟨e, List.mem_append_left _ he, hrecords⟩
    · exact ⟨⟨w, c'⟩, List.mem_append_left _ (h.records _ hinline y hrecords), hrecords⟩
  · have hold : e ∈ j.line → e ∈ j.put ++ more'.map (Entry.mk w) :=
      fun he => List.mem_append_left _ (h.records e he y hy)
    rw [hline] at hold
    simp only [List.mem_append] at he
    rcases he with ((hfirst | hrest) | hafter) | hnew
    · exact hold (List.mem_append_left _ hfirst)
    · exact absurd hy (hleft e hrest y).2
    · exact hold (List.mem_append_right _ (List.mem_cons_of_mem _ hafter))
    · exact List.mem_append_right _ hnew
  · exact h.put.pushed fun e he y hy => absurd hy (hmore e he y).1
  · have hold := h.line p hplan
    rw [hline] at hold
    refine covered_worked hold ?_ (fun e he y => (hleft e he y).1) fun e he y => (hmore e he y).1
    rintro ⟨t, k⟩ (hknown | ⟨htimeline, hrecord⟩)
    · exact ht.reached hknown
    · have htimeline : w.timeline = t := htimeline
      exact htimeline ▸ ht.reaches htidy hhead k hrecord

theorem Journaled.filed (h : Journaled σ j) : Filed σ j := by
  induction h with
  | empty => exact .empty
  | put hj hs hno hnews ih => exact ih.news hj.reached hs hno hnews
  | worked hj hstep hline hbefore hpending ih => exact ih.worked hj.reached hstep hline hbefore hpending

/-! ## Every system has a journal -/

theorem Reached.exists_journal (h : Reached σ) : ∃ j, Journaled σ j := by
  induction h with
  | empty => exact ⟨_, .empty⟩
  | @step σ σ' hreached hs ih =>
      obtain ⟨j, hj⟩ := ih
      have hg := hreached.grounded
      have hfiled := hj.filed
      -- Whoever is no worker pushed onto finitely many queues, so that can be put in an order.
      by_cases hworker : ∃ w x, σ.execution.workerStep w = some x ∧ σ' = { σ with execution := x }
      · obtain ⟨w, x, hstep, rfl⟩ := hworker
        obtain ⟨⟨runs', m'⟩, hwork, rfl⟩ := Option.map_eq_some_iff.mp hstep
        obtain ⟨c, front, more, -, -, hhead, hp, ht⟩ := step_eq_some hwork
        obtain ⟨rest, hbefore, hafter⟩ := hp.pending_eq hhead
        change (σ.machine.queue w).pending = _ at hbefore
        rw [hfiled.pending] at hbefore
        obtain ⟨first, after, hline, hnone, hrest⟩ := Journal.exists_split hbefore
        exact ⟨_, .worked hj hstep hline hnone (by show (m'.queue w).pending = _; rw [hrest, hafter, ht.front_eq]; rfl)⟩
      · rcases hs.moved hg with ⟨more, hp, -⟩ | ⟨w, x, -, -, -, hstep, heq, -⟩
        · have hfinite : ∀ w, more w ≠ [] → w ∈ σ'.machine.workers := by
            intro w hw
            apply mem_workers.mpr
            by_cases hhas : σ'.machine.Has w
            · exact hhas
            · have hnil := hp.pending w
              rw [queue_of_not_has hhas] at hnil
              exact absurd (List.append_eq_nil_iff.mp hnil.symm).2 hw
          obtain ⟨news, hnews⟩ := Journal.exists_entries σ'.machine.workers more hfinite
          exact ⟨_, .put hj hs (fun w x hstep heq => hworker ⟨w, x, hstep, heq⟩) fun w => by
            rw [hnews]
            exact hp.pending w⟩
        · exact absurd ⟨w, x, hstep, heq⟩ hworker

end System

end OpGraph
