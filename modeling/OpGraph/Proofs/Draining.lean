import OpGraph.Proofs.Grounded

/-!
# `Proofs.Draining` — a run that ended well left no work behind

In the end the host asks every stream for a flush, one after the other, and waits for each answer. All work
of the run is enqueued by then, so it is in front of the flush, and a flush is answered only after everything
in front of it. Hence a host that got all its answers has no work left in any queue.
-/

namespace OpGraph

open Machine

namespace Run

variable {i k : Nat} {r r' q : Run} {m m' : Machine NodeJob} {a : Instruction} {w : Worker}
  {more : Worker → List (Command NodeJob)}

/-- There is no work of run `i` among these commands. -/
def Idle (i : Nat) (cs : List (Command NodeJob)) : Prop :=
  ∀ label job, .run label job ∈ cs → job.run ≠ i

theorem Idle.append {cs ds : List (Command NodeJob)} (h : Idle i cs) (h' : Idle i ds) : Idle i (cs ++ ds) := by
  intro label job hmem
  rcases List.mem_append.mp hmem with hmem | hmem
  · exact h label job hmem
  · exact h' label job hmem

theorem Idle.tail {c : Command NodeJob} {cs : List (Command NodeJob)} (h : Idle i (c :: cs)) : Idle i cs :=
  fun label job hmem => h label job (List.mem_cons_of_mem _ hmem)

theorem idle_of_alien (h : ∀ c ∈ more w, c.IsAlien i m w) : Idle i (more w) :=
  fun _ _ hmem => h _ hmem

theorem Idle.pushed (h : Idle i (m.queue w).pending) (hp : Pushes m m' more) (hmore : Idle i (more w)) :
    Idle i (m'.queue w).pending := by
  rw [hp.pending]
  exact h.append hmore

/-- A worker puts no work of the run anywhere unless it did some. -/
theorem Idle.popped {front more : List (Command NodeJob)} {w' : Worker} {c : Command NodeJob}
    (h : Idle i (m.queue w).pending) (hhead : (m.queue w').pending.head? = some c)
    (hp : Popped m m' w' front more) (hown : Idle i [c] → Idle i front) (hmore : Idle i more) :
    Idle i (m'.queue w).pending := by
  by_cases hw : w = w'
  · subst hw
    obtain ⟨rest, hbefore, hafter⟩ := hp.pending_eq hhead
    rw [hbefore] at h
    rw [hafter]
    refine (Idle.append (hown fun label job hmem => ?_) h.tail).append hmore
    obtain rfl := List.mem_singleton.mp hmem
    exact h label job List.mem_cons_self
  · rw [hp.others w hw]
    exact h

/-- All work of run `i` in a queue is in front of the flush that was asked for. -/
def Asked (i : Nat) (m : Machine NodeJob) (r : Run) (w : Worker) : Prop :=
  ∃ before behind, (m.queue w).pending = before ++ behind ∧
    (m.queue w).replies.length + before.countP isFlush ≤ r.asked ∧ Idle i behind

/-- How far the host has come with flushing the stream with number `k`. -/
inductive Flushing (i : Nat) (m : Machine NodeJob) (r : Run) (k : Nat) (w : Worker) : Prop
  /-- It is yet to ask. -/
  | ahead : .flush k ∈ r.draining → Flushing i m r k w
  /-- It waits for the answer. -/
  | asked : r.draining.head? = some (.flushed k) → r.Asked i m w → Flushing i m r k w
  /-- It stopped at a flush that failed. -/
  | stopped : r.flushError.isSome → Flushing i m r k w
  /-- No work is left in the queue. -/
  | idle : Idle i (m.queue w).pending → Flushing i m r k w

/-- The answer of the stream with number `k` is still ahead, or a flush failed, or the device of the stream
    had nothing to report. -/
def Polled (r : Run) (k : Nat) (s : Stream) : Prop :=
  .flushed k ∈ r.draining ∨ r.flushError ≠ none ∨ s.poll = .ok ()

/-- The host flushes all streams, and does not begin before everything is launched. -/
structure Drains (i : Nat) (m : Machine NodeJob) (r : Run) : Prop where
  launching : r.launching = [] ∨ r.draining = r.plan.draining
  streams : ∀ (k : Nat) s w, r.plan.streams[k]? = some s → s.worker? = some w → r.Flushing i m k w
  polled : ∀ (k : Nat) s, r.plan.streams[k]? = some s → r.Polled k s

/-! ## Going on -/

/-- The answer comes after all work in front of the flush. -/
theorem Asked.unanswered (h : r.Asked i m w) : (m.queue w).replies[r.asked]? = none := by
  obtain ⟨before, behind, -, hle, -⟩ := h
  exact List.getElem?_eq_none (by omega)

/-- Others put commands behind a queue. -/
theorem Flushing.pushed (h : r.Flushing i m k w) (hp : Pushes m m' more) (hmore : Idle i (more w)) :
    r.Flushing i m' k w := by
  cases h with
  | ahead hmem => exact .ahead hmem
  | stopped herror => exact .stopped herror
  | idle hidle => exact .idle (hidle.pushed hp hmore)
  | asked hhead hasked =>
      obtain ⟨before, behind, hpending, hle, hbehind⟩ := hasked
      refine .asked hhead ⟨before, behind ++ more w, ?_, ?_, hbehind.append hmore⟩
      · rw [hp.pending, hpending, List.append_assoc]
      · rw [hp.replies]
        exact hle

/-- A worker went on with the command in front of its queue. -/
theorem Flushing.popped {front more : List (Command NodeJob)} {w' : Worker} {c : Command NodeJob}
    (h : r.Flushing i m k w) (hhead : (m.queue w').pending.head? = some c)
    (hp : Popped m m' w' front more) (hdraining : r'.draining = r.draining)
    (hasked : r'.asked = r.asked) (herror : r'.flushError = r.flushError)
    (hreplies : (m'.queue w').replies.length = (m.queue w').replies.length + if isFlush c then 1 else 0)
    (hfront : front.countP isFlush = 0) (hown : Idle i [c] → Idle i front) (hmore : Idle i more) :
    r'.Flushing i m' k w := by
  by_cases hw : w = w'
  · subst hw
    obtain ⟨rest, hbefore, hafter⟩ := hp.pending_eq hhead
    cases h with
    | ahead hmem => exact .ahead (hdraining ▸ hmem)
    | stopped hsome => exact .stopped (herror ▸ hsome)
    | idle hnone => exact .idle (hnone.popped hhead hp hown hmore)
    | asked hnext hsplit =>
        obtain ⟨before, behind, hpending, hle, hbehind⟩ := hsplit
        rw [hbefore] at hpending
        cases before with
        | nil =>
            -- Nothing was in front of the flush any more.
            rw [List.nil_append] at hpending
            have hnone : Idle i (m.queue w).pending := by
              rw [hbefore, hpending]
              exact hbehind
            exact .idle (hnone.popped hhead hp hown hmore)
        | cons c' before =>
            obtain ⟨rfl, rfl⟩ := List.cons.inj hpending
            refine .asked (hdraining ▸ hnext) ⟨front ++ before, behind ++ more, ?_, ?_,
              hbehind.append hmore⟩
            · rw [hafter]
              simp
            · rw [List.countP_cons] at hle
              rw [hreplies, List.countP_append, hfront, hasked]
              omega
  · cases h with
    | ahead hmem => exact .ahead (hdraining ▸ hmem)
    | stopped hsome => exact .stopped (herror ▸ hsome)
    | idle hnone => exact .idle (hnone.popped hhead hp hown hmore)
    | asked hnext hsplit =>
        refine .asked (hdraining ▸ hnext) ?_
        unfold Asked
        rw [hp.others w hw, hasked]
        exact hsplit

/-- What launching puts behind queues is put there before the host asks for any flush. -/
theorem Did.draining (h : Did i m m' r a r' more) (ha : ∀ k, a ≠ .flushed k) : r'.draining = r.draining := by
  cases h with
  | check => split <;> rfl
  | flushed => exact absurd rfl (ha _)
  | failed => exact absurd rfl (ha _)
  | unanswered => exact absurd rfl (ha _)
  | _ => rfl

/-- An instruction that has nothing to do with the stream. -/
theorem Flushing.other (h : r.Flushing i m k w) (hdraining : r.draining = a :: r'.draining)
    (herror : r'.flushError = r.flushError) (hpushes : Pushes m m' more) (hmore : Idle i (more w))
    (hflush : a ≠ .flush k) (hflushed : a ≠ .flushed k) : r'.Flushing i m' k w := by
  cases h with
  | ahead hmem =>
      rw [hdraining] at hmem
      exact .ahead ((List.mem_cons.mp hmem).resolve_left hflush.symm)
  | asked hhead => exact absurd (by simpa [hdraining] using hhead) hflushed
  | stopped hsome => exact .stopped (by rw [herror]; exact hsome)
  | idle hnone => exact .idle (hnone.pushed hpushes hmore)

/-- The flush goes behind everything in the queue. -/
theorem Flushing.did_flush {s : Stream} {number : Nat} (htidy : m.Tidy) (hw : s.worker? = some w)
    (hnumber : ∀ w, s.worker? = some w → number = (m.queue w).flushes)
    (hsuffix : .flush k :: r.draining <:+ r.plan.draining) (hpushes : Pushes m m' (s.putting .flush)) :
    ({ r with asked := number } : Run).Flushing i m' k w := by
  refine .asked (Plan.flushed_next hsuffix) ⟨(m.queue w).pending, [.flush], ?_, ?_, by simp [Idle]⟩
  · rw [hpushes.pending, Stream.putting_eq_only hw]
    simp [only]
  · rw [hpushes.replies]
    exact Nat.le_of_eq (by rw [hnumber w hw, htidy.flushes])

/-- Once the flush is answered nothing is left in front of it. -/
theorem Flushing.did_flushed (h : r.Flushing i m k w) (hdraining : r.draining = .flushed k :: r'.draining)
    (herror : r'.flushError = r.flushError) (hpushes : Pushes m m' more) (hmore : Idle i (more w))
    (hreply : (m.queue w).replies[r.asked]? = some none) : r'.Flushing i m' k w := by
  cases h with
  | ahead hmem =>
      rw [hdraining] at hmem
      exact .ahead ((List.mem_cons.mp hmem).resolve_left (by simp))
  | asked _ hsplit =>
      rw [hsplit.unanswered] at hreply
      cases hreply
  | stopped hsome => exact .stopped (by rw [herror]; exact hsome)
  | idle hnone => exact .idle (hnone.pushed hpushes hmore)

/-- **What an instruction does to the flushing of a stream.** -/
theorem Flushing.did (h : r.Flushing i m k w) (htidy : m.Tidy)
    (hplan : ∀ s, r.plan.streams[k]? = some s → s.worker? = some w) (hlt : k < r.plan.streams.length)
    (hdraining : r.draining = a :: q.draining) (hsuffix : a :: q.draining <:+ r.plan.draining)
    (hq : q = { r with draining := q.draining }) (hpushes : Pushes m m' more)
    (hd : Did i m m' q a r' more) : r'.Flushing i m' k w := by
  have hsame : q.plan = r.plan := by rw [hq]
  have hasked : q.asked = r.asked := by rw [hq]
  have herror : q.flushError = r.flushError := by rw [hq]
  have hstream : ∀ s, q.plan.streams[k]? = some s → s.worker? = some w := hsame ▸ hplan
  have hthere : q.plan.streams[k]? ≠ none := by
    rw [hsame]
    simp [Nat.not_le.mpr hlt]
  have hmem : a ∈ r.plan.draining := hsuffix.subset List.mem_cons_self
  have hmore : Idle i (more w) := by
    intro label job hput hrun
    have := (hd.put hput).1
    subst this
    exact Plan.draining_not_launch hmem
  rcases Plan.mem_draining.mp hmem with rfl | ⟨k', hk', rfl | rfl⟩
  · cases hd with
    | forgotten => exact h.other hdraining herror hpushes hmore (by simp) (by simp)
  · by_cases hk : k' = k
    · subst hk
      cases hd with
      | unflushed hnone => exact absurd hnone hthere
      | flush hs hnumber => exact did_flush htidy (hstream _ hs) hnumber (hsame ▸ hsuffix) hpushes
    · have hne : Instruction.flush k' ≠ .flush k := fun heq => hk (by injection heq)
      cases hd with
      | unflushed => exact h.other hdraining herror hpushes hmore hne (by simp)
      | flush => exact h.other hdraining herror hpushes hmore hne (by simp)
  · by_cases hk : k' = k
    · subst hk
      cases hd with
      | unanswered hnone => exact absurd hnone hthere
      | failed => exact .stopped rfl
      | flushed hs hanswer =>
          exact h.did_flushed hdraining herror hpushes hmore (hasked ▸ hanswer w (hstream _ hs))
    · have hne : Instruction.flushed k' ≠ .flushed k := fun heq => hk (by injection heq)
      cases hd with
      | unanswered => exact h.other hdraining herror hpushes hmore (by simp) hne
      | failed => exact .stopped rfl
      | flushed => exact h.other hdraining herror hpushes hmore (by simp) hne

/-- Whoever gets the answer of a stream knows what its device reported. -/
theorem Polled.did {s : Stream} (h : r.Polled k s) (hs : r.plan.streams[k]? = some s) (hnext : r.Next a q)
    (hd : Did i m m' q a r' more) : r'.Polled k s := by
  have herror : q.flushError = r.flushError := hnext.host.2.2.2
  rcases h with hahead | hfailed | hpoll
  · by_cases ha : a = .flushed k
    · subst ha
      cases hd with
      | flushed hs' _ hpoll =>
          obtain rfl := Option.some.inj ((hnext.plan ▸ hs').symm.trans hs)
          exact Or.inr (Or.inr hpoll)
      | failed => exact Or.inr (Or.inl nofun)
      | unanswered hnone =>
          rw [hnext.plan, hs] at hnone
          cases hnone
    · have hstill : .flushed k ∈ q.draining := by
        cases hnext with
        | launching => exact hahead
        | draining _ heq =>
            rw [heq] at hahead
            exact (List.mem_cons.mp hahead).resolve_left (Ne.symm ha)
      rcases hd.dropped.2 with hsame | ⟨-, hfailed⟩
      · exact Or.inl (hsame ▸ hstill)
      · exact Or.inr (Or.inl hfailed)
  · exact Or.inr (Or.inl (hd.errors.2 (herror ▸ hfailed)))
  · exact Or.inr (Or.inr hpoll)

theorem Drains.saw (hp : r.Placed i m) (htidy : m.Tidy) (h : r.Drains i m) (hs : r.Saw i m r' m') :
    r'.Drains i m' := by
  have hplan := hs.plan
  cases hs with
  | pushed hpushes halien =>
      exact ⟨h.launching, fun k s w hk hw =>
        (h.streams k s w hk hw).pushed hpushes (idle_of_alien (halien w)), h.polled⟩
  | @took _ w' c runs runs' front more hhead halien hpopped htook hput =>
      have hanswers := htook.answers.2
      refine ⟨h.launching, fun k s w hk hw => (h.streams k s w hk hw).popped hhead hpopped rfl rfl rfl
        hanswers ?_ (fun _ label job hmem => hput label job (List.mem_append_left _ hmem))
        fun label job hmem => hput label job (List.mem_append_right _ hmem), h.polled⟩
      exact List.countP_eq_zero.mpr fun c hc => by simp [(htook.put c (List.mem_append_left _ hc)).1]
  | @worked _ w' label job n more hhead hown hn hpopped hcalm hreached hreplies =>
      refine ⟨h.launching, fun k s w hk hw => (h.streams k s w hk hw).popped hhead hpopped rfl rfl rfl
        (by simp [hreplies, isFlush]) ?_ (fun hidle => ?_) fun label job hmem => (hcalm _ hmem).elim,
        h.polled⟩
      · unfold restOf
        cases (r.stepOf n job).rest <;> rfl
      · exact absurd hown (hidle label job (List.mem_singleton_self _))
  | proceeded =>
      refine ⟨h.launching, fun k s w hk hw => ?_, h.polled⟩
      cases h.streams k s w hk hw with
      | ahead hmem => exact .ahead hmem
      | asked hhead hsplit => exact .asked hhead hsplit
      | stopped hsome => exact .stopped hsome
      | idle hnone => exact .idle hnone
  | @did _ q _ a more hactive hnext hpushes hdid =>
      have hpolled : ∀ (k : Nat) s, r'.plan.streams[k]? = some s → r'.Polled k s := by
        intro k s hk
        rw [hplan] at hk
        exact (h.polled k s hk).did hk hnext hdid
      rcases hp.next hnext with ⟨heq, hsuffix, hdraining⟩ | ⟨hnil, hnil', hdraining, hsuffix⟩
      · -- Everything is still to be flushed.
        have hall : r'.draining = r'.plan.draining := by
          rw [hplan, hdid.draining, hdraining]
          · exact h.launching.resolve_left (by simp [heq])
          · rintro k rfl
            exact Plan.launching_not_flushed (hsuffix.subset List.mem_cons_self)
        refine ⟨Or.inr hall, fun k s w hk hw => .ahead ?_, hpolled⟩
        rw [hall]
        exact Plan.mem_draining.mpr (Or.inr ⟨k, (List.getElem?_eq_some_iff.mp hk).1, Or.inl rfl⟩)
      · have hq : q = { r with draining := q.draining } := by
          cases hnext with
          | launching heq => rw [hnil] at heq; cases heq
          | draining => rfl
        refine ⟨Or.inl (List.suffix_nil.mp (hnil' ▸ hdid.ahead.1)), fun k s w hk hw => ?_, hpolled⟩
        rw [hplan] at hk
        refine (h.streams k s w hk hw).did htidy (fun s' hs' => ?_)
          (List.getElem?_eq_some_iff.mp hk).1 hdraining hsuffix hq hpushes hdid
        rw [hk] at hs'
        exact Option.some.inj hs' ▸ hw

theorem Drains.start {p : Plan} {fed : List (String × Tensor)} (hr : start p fed = .ok r) :
    r.Drains i m := by
  obtain ⟨slots, -, rfl⟩ := Outcome.map_eq_ok.mp hr
  have hlt : ∀ {k : Nat} {s}, p.streams[k]? = some s → k < p.streams.length :=
    fun hk => (List.getElem?_eq_some_iff.mp hk).1
  exact ⟨Or.inr rfl, fun k s w hk _ => .ahead (Plan.mem_draining.mpr (Or.inr ⟨k, hlt hk, Or.inl rfl⟩)),
    fun k s hk => Or.inl (Plan.mem_draining.mpr (Or.inr ⟨k, hlt hk, Or.inr rfl⟩))⟩

/-- **A host at its end that saw no flush fail left no work in any queue.** -/
theorem Drains.idle (h : r.Drains i m) (hp : r.Placed i m) (hover : r.isOver = true)
    (herror : r.flushError = none) (w : Worker) : Idle i (m.queue w).pending := by
  intro label job hmem hrun
  have hhome := hp.jobs w label job hmem hrun
  obtain ⟨s, hs, hw⟩ := Option.bind_eq_some_iff.mp hhome
  obtain ⟨n, -, hn⟩ := Option.bind_eq_some_iff.mp hs
  obtain ⟨k, hk⟩ := List.mem_iff_getElem?.mp (streamOf_mem hn)
  obtain ⟨-, -, hnil⟩ := isOver_iff.mp hover
  cases h.streams k s w hk hw with
  | ahead hmem => rw [hnil] at hmem; cases hmem
  | asked hhead => rw [hnil] at hhead; cases hhead
  | stopped hsome => rw [herror] at hsome; cases hsome
  | idle hnone => exact hnone label job hmem hrun

/-- **A host at its end that found every stream well polled every device**, and none reported anything. -/
theorem Drains.responsive (h : r.Drains i m) (hover : r.isOver = true) (herror : r.flushError = none) :
    r.plan.Responsive := by
  intro s hs
  obtain ⟨k, hk⟩ := List.mem_iff_getElem?.mp hs
  rcases h.polled k s hk with hahead | hfailed | hpoll
  · rw [(isOver_iff.mp hover).2.2] at hahead
    cases hahead
  · exact absurd herror hfailed
  · exact hpoll

end Run

end OpGraph
