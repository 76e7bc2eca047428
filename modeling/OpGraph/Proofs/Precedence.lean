import OpGraph.Proofs.Booking
import OpGraph.Stream.Gate

/-!
# `Proofs.Precedence` — what notifications promise across queues

Every queue keeps the order in which commands were put in it. A marker in a queue stands behind the jobs
launched there before the notification was activated, and a job stands behind the markers its stream waits
for. So each command finds what it needs by the time it is in front (`Workshop.Sequenced`), and jobs that a
notification stands between start one after the other, whatever threads and workers do
(`Workshop.notifications_order`).
-/

namespace OpGraph

open Machine

variable {Job State : Type}

namespace Workshop

variable {exec : Executor Job State} {x x' : Workshop Job State}

/-! ## Before and after -/

/-- The one happened, and later the other. -/
def Before (x : Workshop Job State) (a b : Happening) : Prop := [a, b].Sublist x.log

theorem Before.mem (h : x.Before a b) : a ∈ x.log ∧ b ∈ x.log :=
  ⟨h.subset List.mem_cons_self, h.subset (List.mem_cons_of_mem _ List.mem_cons_self)⟩

/-- What came before something did so before the step, or that something became known just now. -/
theorem Went.before_cases (h : Went x x') {a b : Happening} (hb : x'.Before a b) :
    x.Before a b ∨ a ∈ x.log ∧ IsNew x b := by
  rcases h.log with hsame | ⟨c, happend, hnew⟩
  · rw [Before, hsame] at hb
    exact Or.inl hb
  · rw [Before, happend] at hb
    obtain ⟨front, back, heq, hfront, hback⟩ := List.sublist_append_iff.mp hb
    have hlen := hback.length_le
    match front, heq with
    | [], heq =>
        obtain rfl : back = [a, b] := heq.symm
        exact absurd hlen (by simp)
    | [a'], heq =>
        obtain ⟨rfl, rfl⟩ : a = a' ∧ back = [b] := by
          injection heq with ha hback
          exact ⟨ha, hback.symm⟩
        have hb := hback.subset (List.mem_singleton_self b)
        rw [List.mem_singleton.mp hb]
        exact Or.inr ⟨hfront.subset (List.mem_singleton_self _), hnew⟩
    | [a', b'], heq =>
        obtain ⟨rfl, rfl⟩ : a = a' ∧ b = b' := by
          injection heq with ha htail
          injection htail with hb
          exact ⟨ha, hb⟩
        exact Or.inl hfront
    | a' :: b' :: c' :: rest, heq => exact absurd (congrArg List.length heq) (by simp)

/-- What is in front of something was known before the step. -/
theorem Went.mem_of_before (h : Went x x') {a b : Happening} (hb : x'.Before a b) : a ∈ x.log :=
  (h.before_cases hb).elim (fun hold => hold.mem.1) fun hnew => hnew.1

/-! ## What commands need -/

/-- What a command needs: a marker the jobs launched before it, a job the markers waited for before. -/
def Needs (x : Workshop Job State) (w : Worker) : Command (Ticketed Job) → Nat ⊕ Nat → Prop
  | .record k, .inl j => ∃ i label, x.mark? i = some (w, k) ∧ x.home? j = some (w, label) ∧
      x.Before (.launched j) (.recorded i)
  | .run _ job, .inr k => ∃ i u c label, x.mark? i = some (u, k) ∧
      x.jobs[job.ticket]? = some (c, label) ∧ x.Before (.waited i c) (.launched job.ticket)
  | _, _ => False

/-- What is so once a command is gone. -/
def Grants : Command (Ticketed Job) → Nat ⊕ Nat → Prop
  | .run _ job, .inl j => job.ticket = j
  | .wait k, .inr k' => k = k'
  | _, _ => False

/-- What is so already, as seen from a queue. -/
def Known (x : Workshop Job State) (w : Worker) : Nat ⊕ Nat → Prop
  | .inl j => x.Ended j
  | .inr k => (x.machine.reachedAt w.timeline k).isSome

/-- Everything happens after what it needs. -/
structure Sequenced (x : Workshop Job State) : Prop where
  covered : ∀ w, Covered (Needs x w) Grants (Known x w) (x.machine.queue w).pending
  /-- A stream that waits for a marker has it in its queue. -/
  waits : ∀ i c, .waited i c ∈ x.log → .activated i ∈ x.log ∧ ∃ w u k, c.worker? = some w ∧
    x.mark? i = some (u, k) ∧ u.timeline = w.timeline ∧
    ((x.machine.reachedAt w.timeline k).isSome ∨ .wait k ∈ (x.machine.queue w).pending)
  /-- Jobs in front of a marker ended before it was reached. -/
  settled : ∀ i u k j label tick, x.mark? i = some (u, k) → x.home? j = some (u, label) →
    x.Before (.launched j) (.recorded i) → x.machine.reachedAt u.timeline k = some tick →
    ∃ a, .ended j a ∈ x.log ∧ ∀ t, a = some t → t < tick
  /-- Jobs behind a marker ended after it was reached. -/
  admitted : ∀ i u k j c label a, x.mark? i = some (u, k) → x.jobs[j]? = some (c, label) →
    x.Before (.waited i c) (.launched j) → .ended j a ∈ x.log →
    ∃ tick, x.machine.reachedAt u.timeline k = some tick ∧ ∀ t, a = some t → tick < t

theorem Sequenced.empty (state : State) (strict : Bool) :
    ({ state, strict } : Workshop Job State).Sequenced := by
  have hpending : ∀ w, (({} : Machine (Ticketed Job)).queue w).pending = [] := fun w => rfl
  constructor <;> simp [hpending, Covered, mark?]

/-- What the command in front needs is so. -/
theorem Sequenced.front (h : x.Sequenced) {w : Worker} {c : Command (Ticketed Job)}
    (hhead : (x.machine.queue w).pending.head? = some c) {f : Nat ⊕ Nat} (hneeds : Needs x w c f) :
    Known x w f := by
  have hcovered := h.covered w
  cases hpending : (x.machine.queue w).pending with
  | nil => simp [hpending] at hhead
  | cons c' rest =>
      obtain rfl : c' = c := by simpa [hpending] using hhead
      rw [hpending] at hcovered
      exact hcovered.1 f hneeds

/-- Everything known stays known. -/
theorem Went.known (h : Went x x') (hb : x.Booked) {w : Worker} {f : Nat ⊕ Nat} (hf : Known x w f) :
    Known x' w f := by
  cases f with
  | inl j => exact h.ended hf
  | inr k =>
      obtain ⟨tick, htick⟩ := Option.isSome_iff_exists.mp hf
      exact Option.isSome_iff_exists.mpr ⟨tick, hb.reachedAt h htick⟩

/-! ## Steps -/

section Step

variable (hf : x.Filed) (hb : x.Booked) (hs : x.Sequenced) (hw : Went x x')

include hw in
/-- What is known of a job that was launched was known before. -/
theorem Went.jobs_before {j : Nat} {p : Stream × String} (hlt : j < x.jobs.length)
    (hp : x'.jobs[j]? = some p) : x.jobs[j]? = some p := by
  rcases hw.jobs with hsame | ⟨s, label, w, -, happend⟩
  · rw [← hsame]
    exact hp
  · rw [happend, List.getElem?_append_left hlt] at hp
    exact hp

include hs hw in
/-- Where a notification that was waited for tells was known before. -/
theorem Sequenced.mark_before {i : Nat} {c : Stream} {p : Worker × Nat} (hwait : .waited i c ∈ x.log)
    (hp : x'.mark? i = some p) : x.mark? i = some p := by
  obtain ⟨-, w, u, k, -, hmark, -⟩ := hs.waits i c hwait
  rw [hmark, ← hw.mark hmark, hp]

include hf hw in
theorem Filed.mark_before {i : Nat} {p : Worker × Nat} (hrecorded : .recorded i ∈ x.log)
    (hp : x'.mark? i = some p) : x.mark? i = some p := by
  obtain ⟨q, hq⟩ := Option.isSome_iff_exists.mp (hf.recorded i hrecorded)
  rw [hq, ← hw.mark hq, hp]

include hf hb hs hw in
/-- A command that waits needs what it needed before. -/
theorem Sequenced.needs_before (hf' : x'.Filed) {w : Worker} {c : Command (Ticketed Job)} {f : Nat ⊕ Nat}
    (hc : c ∈ (x.machine.queue w).pending) (hneeds : Needs x' w c f) : Needs x w c f := by
  cases c with
  | record k =>
      cases f with
      | inr k' => exact hneeds
      | inl j =>
          obtain ⟨i, label, hmark, hhome, hbefore⟩ := hneeds
          obtain ⟨⟨i₀, hmark₀, hrecorded⟩, -⟩ := hb.records w k (inr_mem_keys.mpr hc)
          obtain rfl := hf'.marks i i₀ w w k hmark (hw.mark hmark₀) rfl
          rcases hw.before_cases hbefore with hold | ⟨-, hnew⟩
          · have hlt := hf.launched j hold.mem.1
            exact ⟨i, label, hmark₀,
              (hw.home_before hhome).resolve_right (fun heq => Nat.ne_of_lt hlt heq), hold⟩
          · exact absurd hrecorded hnew
  | run label job =>
      cases f with
      | inl j => exact hneeds
      | inr k =>
          obtain ⟨i, u, c, label', hmark, hjob, hbefore⟩ := hneeds
          have hlt : job.ticket < x.jobs.length :=
            home?_lt (Option.isSome_iff_exists.mpr ⟨_, hb.home w label job hc⟩)
          rcases hw.before_cases hbefore with hold | ⟨-, hnew⟩
          · exact ⟨i, u, c, label', hs.mark_before hw hold.mem.1 hmark, hw.jobs_before hlt hjob, hold⟩
          · exact absurd hnew (Nat.ne_of_lt hlt)
  | _ => cases f <;> exact hneeds

include hf hb hs hw in
/-- Commands that threads put behind a queue find what they need. -/
theorem Sequenced.covered_pushed (hf' : x'.Filed) {more : Worker → List (Command (Ticketed Job))}
    (hp : Pushes x.machine x'.machine more) (hfresh : ∀ w, ∀ c ∈ more w, Fresh x x' w c) (w : Worker) :
    Covered (Needs x' w) Grants (Known x' w) (x'.machine.queue w).pending := by
  rw [hp.pending]
  refine ((hs.covered w).mono (fun c hc f => hs.needs_before hf hb hw hf' hc) (fun _ _ _ => id)
    fun f => hw.known hb).pushed fun c hc f hneeds => ?_
  have hnew := hfresh w c hc
  cases c with
  | record k =>
      cases f with
      | inr k' => exact hneeds.elim
      | inl j =>
          obtain ⟨i, label, hmark, hhome, hbefore⟩ := hneeds
          have hlt := hf.launched j (hw.mem_of_before hbefore)
          have hold := (hw.home_before hhome).resolve_right fun heq => Nat.ne_of_lt hlt heq
          rcases hb.waiting j w label hold with hend | hwait
          · exact Or.inl (hw.ended hend)
          · obtain ⟨label', job, hmem, hticket⟩ := inl_mem_keys.mp hwait
            exact Or.inr ⟨_, hmem, hticket⟩
  | run label job =>
      cases f with
      | inl j => exact hneeds.elim
      | inr k =>
          obtain ⟨i, u, c, label', hmark, hjob, hbefore⟩ := hneeds
          obtain ⟨-, w', u', k', hworker, hmark', ht, hthere⟩ := hs.waits i c (hw.mem_of_before hbefore)
          obtain ⟨rfl, rfl⟩ := Prod.mk.inj (Option.some.inj (hmark.symm.trans (hw.mark hmark')))
          -- The job is on the queue that waits.
          obtain ⟨s, hs', hworker'⟩ := home?_eq_some.mp hnew.2
          obtain ⟨rfl, -⟩ := Prod.mk.inj (Option.some.inj (hs'.symm.trans hjob))
          obtain rfl := Option.some.inj (hworker.symm.trans hworker')
          rcases hthere with hreached | hwait
          · exact Or.inl (hw.known hb (f := .inr k) hreached)
          · exact Or.inr ⟨_, hwait, rfl⟩
  | _ => cases f <;> exact hneeds.elim

include hf hb hs hw in
/-- What the command in front needs is so, also if the step makes more of it known. -/
theorem Sequenced.front_before (hf' : x'.Filed) {w : Worker} {c : Command (Ticketed Job)}
    (hhead : (x.machine.queue w).pending.head? = some c) {f : Nat ⊕ Nat} (hneeds : Needs x' w c f) :
    Known x w f :=
  hs.front hhead (hs.needs_before hf hb hw hf' (List.mem_of_mem_head? hhead) hneeds)

include hf hb hs hw in
/-- Commands still find what they need after a step of a worker. -/
theorem Sequenced.covered_worked (hf' : x'.Filed) {w : Worker} {c : Command (Ticketed Job)}
    {front more : List (Command (Ticketed Job))} {news : List Happening} {stamps : List Occurrence}
    (hwork : Worked x x' w c front more news stamps) (w' : Worker) :
    Covered (Needs x' w') Grants (Known x' w') (x'.machine.queue w').pending := by
  have hmono := (hs.covered w').mono (fun c hc f => hs.needs_before hf hb hw hf' hc)
    (fun _ _ _ => id) fun f => hw.known hb
  by_cases hsame : w' = w
  · subst hsame
    obtain ⟨rest, hbefore, hafter⟩ := hwork.popped.pending_eq hwork.head
    rw [hbefore] at hmono
    rw [hafter]
    have hprogress := hwork.progress
    refine hmono.popped (fun c' hc' f hneeds => ?_) (fun c' hc' f hneeds => ?_) fun f hf₀ => ?_
    · -- What is left of a job needs what the job needed.
      cases hprogress with
      | @on label job job' hticket =>
          obtain rfl := List.mem_singleton.mp hc'
          refine hw.known hb (hs.front_before hf hb hw hf' hwork.head ?_)
          cases f with
          | inl j => exact hneeds
          | inr k =>
              simp only [Needs, hticket] at hneeds
              exact hneeds
      | _ => cases hc'
    · rcases hwork.more c' hc' with rfl | ⟨job, rfl⟩ <;> cases f <;> exact hneeds.elim
    · rcases hf₀ with hknown | hgrant
      · exact Or.inl hknown
      · -- What the command in front granted is known once it is over, or granted by its rest.
        cases hprogress with
        | @on label job job' hticket =>
            cases f with
            | inl j => exact Or.inr ⟨_, List.mem_singleton_self _, hticket.trans hgrant⟩
            | inr k => exact hgrant.elim
        | ended =>
            cases f with
            | inl j =>
                obtain rfl : _ = j := hgrant
                exact Or.inl ⟨_, by rw [hwork.log]; exact List.mem_append_right _ (List.mem_singleton_self _)⟩
            | inr k => exact hgrant.elim
        | panicked =>
            cases f with
            | inl j =>
                obtain rfl : _ = j := hgrant
                exact Or.inl ⟨_, by rw [hwork.log]; exact List.mem_append_right _ (List.mem_singleton_self _)⟩
            | inr k => exact hgrant.elim
        | wait hreached =>
            cases f with
            | inl j => exact hgrant.elim
            | inr k =>
                obtain rfl : _ = k := hgrant
                exact Or.inl (hw.known hb (f := .inr _) hreached)
        | _ => cases f <;> exact hgrant.elim
  · rw [hwork.popped.others w' hsame]
    exact hmono

include hb hs hw in
/-- Waits that returned have put their markers where they belong. -/
theorem Sequenced.waits_kept (hf : x.Filed) : ∀ i c, .waited i c ∈ x'.log → .activated i ∈ x'.log ∧
    ∃ w u k, c.worker? = some w ∧ x'.mark? i = some (u, k) ∧ u.timeline = w.timeline ∧
      ((x'.machine.reachedAt w.timeline k).isSome ∨ .wait k ∈ (x'.machine.queue w).pending) := by
  intro i c hwait
  rcases hw.news hb.once hwait with hold | ⟨w, u, k, n, hworker, hmark, ht, hn, hready, hmem⟩
  · obtain ⟨hactivated, w, u, k, hworker, hmark, ht, hthere⟩ := hs.waits i c hold
    refine ⟨hw.mem_log hactivated, w, u, k, hworker, hw.mark hmark, ht, ?_⟩
    rcases hthere with hreached | hmem
    · exact Or.inl (hw.known hb (f := .inr k) hreached)
    · rcases hw.moved with ⟨more, hp, -⟩ | ⟨w', c', front, more, news, stamps, hwork⟩
      · exact Or.inr (by rw [hp.pending]; exact List.mem_append_left _ hmem)
      · rcases hwork.popped.mem_or_head hwork.head hmem with hstill | ⟨rfl, rfl⟩
        · exact Or.inr hstill
        · -- The wait is over, so the marker was reached.
          have hprogress := hwork.progress
          cases hprogress with
          | wait hreached => exact Or.inl (hw.known hb (f := .inr k) hreached)
  · exact ⟨hw.mem_log (hf.ready i n hn hready), w, u, k, hworker, hw.mark hmark, ht, Or.inr hmem⟩

include hf hb hs hw in
/-- Jobs in front of a marker that is reached just now are over. -/
theorem Sequenced.settled_kept (ht : x.Timed) (hf' : x'.Filed) : ∀ i u k j label tick,
    x'.mark? i = some (u, k) → x'.home? j = some (u, label) → x'.Before (.launched j) (.recorded i) →
    x'.machine.reachedAt u.timeline k = some tick →
    ∃ a, .ended j a ∈ x'.log ∧ ∀ t, a = some t → t < tick := by
  intro i u k j label tick hmark hhome hbefore hreached
  have hlt := hf.launched j (hw.mem_of_before hbefore)
  have hhome' := (hw.home_before hhome).resolve_right fun heq => Nat.ne_of_lt hlt heq
  have hold : x.machine.reachedAt u.timeline k = some tick →
      ∃ a, .ended j a ∈ x'.log ∧ ∀ t, a = some t → t < tick := by
    intro hold
    rcases hw.before_cases hbefore with hbefore' | ⟨-, hnew⟩
    · have hmark' := hf.mark_before hw hbefore'.mem.2 hmark
      obtain ⟨a, ha, hlt⟩ := hs.settled i u k j label tick hmark' hhome' hbefore' hold
      exact ⟨a, hw.mem_log ha, hlt⟩
    · -- A marker is not reached before it is recorded.
      obtain ⟨v, hv, i', hmark', hrecorded⟩ :=
        hb.reached u.timeline k (Option.isSome_iff_exists.mpr ⟨tick, hold⟩)
      obtain rfl := hf'.marks i i' u v k hmark (hw.mark hmark') hv.symm
      exact absurd hrecorded hnew
  rcases hw.moved with ⟨more, hp, -⟩ | ⟨w, c, front, more, news, stamps, hwork⟩
  · exact hold (by rw [← hp.reached, hreached])
  · rcases hwork.reached u.timeline k with hsame | ⟨htimeline, rfl, hnext⟩
    · exact hold (by rw [← hsame, hreached])
    · -- The marker is reached by its record, which was in front and needed the job to be over.
      have hhead : .inr k ∈ x.keys w := hwork.head_mem_keys rfl
      obtain ⟨i', hmark', hrecorded⟩ := (hb.records w k hhead).1
      obtain rfl := hf'.marks i i' u w k hmark (hw.mark hmark') htimeline
      obtain rfl : u = w := (Prod.mk.inj (Option.some.inj (hmark.symm.trans (hw.mark hmark')))).1
      have hneeds : Needs x' u (.record k) (.inl j) := ⟨i, label, hmark, hhome, hbefore⟩
      obtain ⟨a, ha⟩ := hs.front_before hf hb hw hf' hwork.head hneeds
      refine ⟨a, hw.mem_log ha, fun t hta => ?_⟩
      subst hta
      obtain ⟨w', label', hhome'', hmem⟩ := ht.ended j t ha
      obtain ⟨rfl, rfl⟩ := Prod.mk.inj (Option.some.inj (hhome'.symm.trans hhome''))
      obtain rfl := Option.some.inj (hreached.symm.trans hnext)
      exact ht.tick_lt hmem

include hf hb hs hw in
/-- A job that ends just now found the markers reached that its stream waited for. -/
theorem Sequenced.admitted_kept (ht : x.Timed) (hf' : x'.Filed) : ∀ i u k j c label a,
    x'.mark? i = some (u, k) → x'.jobs[j]? = some (c, label) → x'.Before (.waited i c) (.launched j) →
    .ended j a ∈ x'.log → ∃ tick, x'.machine.reachedAt u.timeline k = some tick ∧
      ∀ t, a = some t → tick < t := by
  intro i u k j c label a hmark hjob hbefore hended
  rcases hw.news hb.once hended with hold | ⟨w, label', job, hhead, rfl, -, hevent⟩
  · have hlt := home?_lt (hb.ended j ⟨a, hold⟩)
    rcases hw.before_cases hbefore with hbefore' | ⟨-, hnew⟩
    · have hmark' := hs.mark_before hw hbefore'.mem.1 hmark
      obtain ⟨tick, htick, hlt'⟩ :=
        hs.admitted i u k j c label a hmark' (hw.jobs_before hlt hjob) hbefore' hold
      exact ⟨tick, hb.reachedAt hw htick, hlt'⟩
    · exact absurd hnew (Nat.ne_of_lt hlt)
  · have hneeds : Needs x' w (.run label' job) (.inr k) := ⟨i, u, c, label, hmark, hjob, hbefore⟩
    obtain ⟨i', u', c', label'', hmark', hjob', hbefore'⟩ :=
      hs.needs_before hf hb hw hf' (List.mem_of_mem_head? hhead) hneeds
    obtain ⟨tick, htick⟩ := Option.isSome_iff_exists.mp (hs.front_before hf hb hw hf' hhead hneeds)
    -- The stream that waits is the one of the worker, on the timeline of the marker.
    have hhome := hb.home w label' job (List.mem_of_mem_head? hhead)
    obtain ⟨s, hs', hworker⟩ := home?_eq_some.mp hhome
    have hlt : job.ticket < x.jobs.length := (List.getElem?_eq_some_iff.mp hs').1
    obtain ⟨rfl, -⟩ := Prod.mk.inj (Option.some.inj (hs'.symm.trans (hw.jobs_before hlt hjob)))
    obtain ⟨-, w', v, k', hworker', hmark'', htimeline, -⟩ := hs.waits i s (hw.mem_of_before hbefore)
    obtain rfl := Option.some.inj (hworker.symm.trans hworker')
    obtain ⟨rfl, rfl⟩ := Prod.mk.inj (Option.some.inj (hmark.symm.trans (hw.mark hmark'')))
    refine ⟨tick, by rw [htimeline]; exact hb.reachedAt hw htick, fun t hta => ?_⟩
    obtain ⟨rfl, -⟩ := hevent t hta
    obtain ⟨u', -, -, hmem⟩ := ht.reached _ _ tick htick
    exact ht.tick_lt hmem

include hf hb hs hw in
theorem Sequenced.step (ht : x.Timed) (hf' : x'.Filed) : x'.Sequenced where
  covered w := by
    rcases hw.moved with ⟨more, hp, hfresh, -⟩ | ⟨w', c, front, more, news, stamps, hwork⟩
    · exact hs.covered_pushed hf hb hw hf' hp hfresh w
    · exact hs.covered_worked hf hb hw hf' hwork w
  waits := hs.waits_kept hb hw hf
  settled := hs.settled_kept hf hb hw ht hf'
  admitted := hs.admitted_kept hf hb hw ht hf'

end Step

theorem Reached.sequenced (h : Reached exec x) : x.Sequenced := by
  have hall := h.kept (P := fun x => ((x.Filed ∧ x.Booked) ∧ x.Timed) ∧ x.Sequenced)
    (fun state strict =>
      ⟨⟨⟨.empty state strict, .empty state strict⟩, .empty state strict⟩, .empty state strict⟩)
    fun hst hall hw => by
      obtain ⟨⟨⟨hf, hb⟩, ht⟩, hs⟩ := hall
      have hf' := hf.step hst hb.once hw
      exact ⟨⟨⟨hf', hb.step hf hw⟩, ht.step hf hb hw⟩, hs.step hf hb hw ht hf'⟩
  exact hall.2

/-! ## Notifications -/

/-- The job is in front of its queue, where its worker may start it or go on with it. -/
def InFront (x : Workshop Job State) (j : Nat) : Prop :=
  ∃ w label job, x.machine.front? w = some (.run label job) ∧ job.ticket = j

theorem reachedAt_eq {n : Notification} {u : Worker} {k : Nat} {m : Machine (Ticketed Job)}
    (hu : n.stream.worker? = some u) (hk : n.marker? = some k) :
    n.reachedAt m = m.reachedAt u.timeline k := by
  unfold Notification.reachedAt
  cases hs : n.stream with
  | gpu context => rw [hs] at hu; cases hu
  | sim timeline queue provider =>
      rw [hs] at hu
      obtain rfl := Option.some.inj hu
      rw [hk]
      rfl

/-- A wait of a stream puts the marker in front of the jobs launched after it. -/
theorem Sequenced.reached_of_inFront (h : x.Sequenced) (hb : x.Booked) {i j k : Nat} {u : Worker}
    {c : Stream} {label : String} (hmark : x.mark? i = some (u, k)) (hjob : x.jobs[j]? = some (c, label))
    (hbefore : x.Before (.waited i c) (.launched j)) (hfront : x.InFront j) :
    (x.machine.reachedAt u.timeline k).isSome := by
  obtain ⟨w, label', job, hhead, rfl⟩ := hfront
  have hhead := head?_of_front? hhead
  have hreached := h.front hhead (f := .inr k) ⟨i, u, c, label, hmark, hjob, hbefore⟩
  obtain ⟨-, w', v, k', hworker, hmark', htimeline, -⟩ := h.waits i c hbefore.mem.1
  obtain ⟨rfl, rfl⟩ := Prod.mk.inj (Option.some.inj (hmark.symm.trans hmark'))
  obtain ⟨s, hs, hworker'⟩ := home?_eq_some.mp (hb.home w label' job (List.mem_of_mem_head? hhead))
  obtain ⟨rfl, -⟩ := Prod.mk.inj (Option.some.inj (hs.symm.trans hjob))
  obtain rfl := Option.some.inj (hworker.symm.trans hworker')
  rw [htimeline]
  exact hreached

/-- **What a notification stands between happens in order.** Let a job be launched on the stream of a
    notification before that is activated, and another on a stream after a wait of it for the notification
    returned. When the second may start, or is over, the first is over and the marker was reached, and the
    ticks of the three are in this order. A wait of the host returned after the marker was reached, with a
    later tick, and no wait returned before the notification was activated. The ticks are those of the
    trace. -/
theorem notifications_order (h : Reached exec x) :
    (∀ (n : Nat) note j k consumer label label', x.notifications[n]? = some note →
      x.jobs[j]? = some (note.stream, label) → x.jobs[k]? = some (consumer, label') →
      x.Before (.launched j) (.recorded n) → x.Before (.waited n consumer) (.launched k) →
      (x.InFront k ∨ x.Ended k → x.Ended j ∧ (note.reachedAt x.machine).isSome) ∧
      ∀ tj tn tk, .ended j (some tj) ∈ x.log → note.reachedAt x.machine = some tn →
        .ended k (some tk) ∈ x.log → tj < tn ∧ tn < tk) ∧
    (∀ (n : Nat) note tick, x.notifications[n]? = some note → .resumed n tick ∈ x.log →
      ∃ tn, note.reachedAt x.machine = some tn ∧ tn < tick) ∧
    (∀ n, (∃ consumer, .waited n consumer ∈ x.log) ∨ (∃ tick, .resumed n tick ∈ x.log) →
      .activated n ∈ x.log) ∧
    x.Timed := by
  obtain ⟨hf, hb⟩ := h.booked
  have hs := h.sequenced
  have ht := h.timed
  refine ⟨fun n note j k consumer label label' hn hj hk hbefore hafter => ?_,
    fun n note tick hn hresumed => ?_, fun n hwait => ?_, ht⟩
  · obtain ⟨u, marker, hu, hmarker, -, hmark⟩ := h.stocked.notification hn
    have hhome : x.home? j = some (u, label) := home?_eq_some.mpr ⟨_, hj, hu⟩
    rw [reachedAt_eq hu hmarker]
    refine ⟨fun hstarts => ?_, fun tj tn tk htj htn htk => ?_⟩
    · have hreached : (x.machine.reachedAt u.timeline marker).isSome := by
        rcases hstarts with hfront | ⟨a, ha⟩
        · exact hs.reached_of_inFront hb hmark hk hafter hfront
        · obtain ⟨tick, htick, -⟩ := hs.admitted n u marker k consumer label' a hmark hk hafter ha
          rw [htick]
          rfl
      obtain ⟨tick, htick⟩ := Option.isSome_iff_exists.mp hreached
      obtain ⟨a, ha, -⟩ := hs.settled n u marker j label tick hmark hhome hbefore htick
      exact ⟨⟨a, ha⟩, hreached⟩
    · obtain ⟨a, ha, hlt⟩ := hs.settled n u marker j label tn hmark hhome hbefore htn
      obtain ⟨tick, htick, hlt'⟩ := hs.admitted n u marker k consumer label' _ hmark hk hafter htk
      obtain rfl := Option.some.inj (htn.symm.trans htick)
      exact ⟨hlt tj (hb.endedOnce j a _ ha htj), hlt' tk rfl⟩
  · obtain ⟨-, u, marker, tn, hmark, htn, hlt, -⟩ := ht.resumed n tick hresumed
    obtain ⟨note', hn', hu, hmarker⟩ := mark?_eq_some.mp hmark
    obtain rfl := Option.some.inj (hn.symm.trans hn')
    exact ⟨tn, by rw [reachedAt_eq hu hmarker]; exact htn, hlt⟩
  · rcases hwait with ⟨consumer, hwaited⟩ | ⟨tick, hresumed⟩
    · exact (hs.waits n consumer hwaited).1
    · exact (ht.resumed n tick hresumed).1

theorem Reached.run (h : Reached exec x) (moves : List (Move Job State))
    (hr : x.run exec moves = some x') : Reached exec x' := by
  induction moves generalizing x with
  | nil => exact Option.some.inj hr ▸ h
  | cons a rest ih =>
      obtain ⟨x₁, hstep, hrest⟩ := Option.bind_eq_some_iff.mp hr
      exact ih (.step h hstep) hrest

/-- Two streams of one device. -/
def producer : Stream := .sim 0 0 .sim

/-- The stream that waits for the other. -/
def waiter : Stream := .sim 0 1 .sim

/-- Two threads hand over from one stream to the other; the first job ends when a gate is opened. -/
def handover : List (Move GatedJob (List String)) :=
  [.device, .thread, .thread, .stream 0 0 .sim, .stream 0 0 .sim,
    .launch 0 producer "make" { gate := some "go" } false, .notify 0 producer 2,
    .waitOnDevice 1 waiter 0, .activate 0 0, .proceed 0, .waitOnHost 0 0, .proceed 1,
    .launch 1 waiter "use" {} false, .touch 1 ["go"], .work ⟨0, 0⟩, .work ⟨0, 0⟩, .work ⟨0, 1⟩,
    .proceed 0, .work ⟨0, 1⟩]

/-- The first job ended, the marker was reached, the host went on, and the second job ended. -/
theorem notifications_order_handover : ∃ x : Workshop GatedJob (List String),
    Reached GatedJob.run x ∧ x.Before (.launched 0) (.recorded 0) ∧
    x.Before (.waited 0 waiter) (.launched 1) ∧ x.Ended 1 ∧ x.Ended 0 ∧
    (∃ n, x.notifications[0]? = some n ∧ (n.reachedAt x.machine).isSome) ∧ .activated 0 ∈ x.log := by
  have hrun : ∃ x n, Workshop.run GatedJob.run { state := [] } handover = some x ∧
      x.notifications[0]? = some n ∧ x.jobs[0]? = some (n.stream, "make") ∧
      x.jobs[1]? = some (waiter, "use") ∧
      x.log = [.launched 0, .recorded 0, .activated 0, .waited 0 waiter, .launched 1,
        .ended 0 (some 1), .resumed 0 3, .ended 1 (some 4)] :=
    ⟨_, _, rfl, rfl, rfl, rfl, rfl⟩
  obtain ⟨x, n, hrun, hn, hmake, huse, hlog⟩ := hrun
  have hreached := (Reached.empty [] true).run handover hrun
  have hbefore : x.Before (.launched 0) (.recorded 0) := by
    rw [Before, hlog]
    decide
  have hafter : x.Before (.waited 0 waiter) (.launched 1) := by
    rw [Before, hlog]
    decide
  have hended : x.Ended 1 := ⟨some 4, by rw [hlog]; decide⟩
  have hwaited : .waited 0 waiter ∈ x.log := by
    rw [hlog]
    decide
  obtain ⟨horder, -, hactivated, -⟩ := notifications_order hreached
  obtain ⟨hjob, hmarker⟩ := (horder 0 n 0 1 waiter "make" "use" hn hmake huse hbefore hafter).1 (Or.inr hended)
  exact ⟨x, hreached, hbefore, hafter, hended, hjob, ⟨n, hn, hmarker⟩,
    hactivated 0 (Or.inl ⟨waiter, hwaited⟩)⟩

end Workshop

end OpGraph
