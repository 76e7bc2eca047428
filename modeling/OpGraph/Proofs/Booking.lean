import OpGraph.Proofs.Workshop

/-!
# `Proofs.Booking` — jobs and markers wait once, and end once

Every job that was launched waits on its own queue until it is over, and every marker that was recorded
until it is reached, each at one place only (`Workshop.Booked`). So a job ends once, a marker is reached
once, and the ticks in the log are those of events in the trace.
-/

namespace OpGraph

open Machine

variable {Job State : Type}

/-- What a command brings about that happens only once: the end of a job, or a marker. -/
def Command.once? : Command (Ticketed Job) → Option (Nat ⊕ Nat)
  | .run _ job => some (.inl job.ticket)
  | .record k => some (.inr k)
  | _ => none

namespace Workshop

variable {exec : Executor Job State} {x x' : Workshop Job State}

/-- The job is over. -/
def Ended (x : Workshop Job State) (j : Nat) : Prop := ∃ tick, .ended j tick ∈ x.log

/-- The marker was recorded behind the queue of the worker. -/
def Recorded (x : Workshop Job State) (u : Worker) (k : Nat) : Prop :=
  ∃ i, x.mark? i = some (u, k) ∧ .recorded i ∈ x.log

/-- A command that a thread puts behind the queue of a worker. -/
def Fresh (x x' : Workshop Job State) (w : Worker) : Command (Ticketed Job) → Prop
  | .run label job => job.ticket = x.jobs.length ∧ x'.home? job.ticket = some (w, label)
  | .fixed _ => False
  | .record k => ∃ i, x.mark? i = some (w, k) ∧ .recorded i ∉ x.log ∧ .recorded i ∈ x'.log
  | _ => True

/-! ## What waits -/

/-- What waits in a queue that happens only once. -/
def keys (x : Workshop Job State) (w : Worker) : List (Nat ⊕ Nat) :=
  (x.machine.queue w).pending.filterMap Command.once?

theorem inl_mem_keys {w : Worker} {j : Nat} : .inl j ∈ x.keys w ↔
    ∃ label job, .run label job ∈ (x.machine.queue w).pending ∧ job.ticket = j := by
  unfold keys
  rw [List.mem_filterMap]
  constructor
  · rintro ⟨c, hc, hkey⟩
    cases c with
    | run label job =>
        simp only [Command.once?, Option.some.injEq, Sum.inl.injEq] at hkey
        exact ⟨label, job, hc, hkey⟩
    | record k => simp [Command.once?] at hkey
    | _ => cases hkey
  · rintro ⟨label, job, hc, rfl⟩
    exact ⟨_, hc, rfl⟩

theorem inr_mem_keys {w : Worker} {k : Nat} : .inr k ∈ x.keys w ↔
    .record k ∈ (x.machine.queue w).pending := by
  unfold keys
  rw [List.mem_filterMap]
  constructor
  · rintro ⟨c, hc, hkey⟩
    cases c with
    | record k' =>
        simp only [Command.once?, Option.some.injEq, Sum.inr.injEq] at hkey
        exact hkey ▸ hc
    | run label job => simp [Command.once?] at hkey
    | _ => cases hkey
  · exact fun hc => ⟨_, hc, rfl⟩

theorem keys_of_pushes {w : Worker} {more : Worker → List (Command (Ticketed Job))}
    (hp : Pushes x.machine x'.machine more) :
    x'.keys w = x.keys w ++ (more w).filterMap Command.once? := by
  unfold keys
  rw [hp.pending, List.filterMap_append]

/-! ## Threads and workers -/

theorem home?_last {s : Stream} {w : Worker} {label : String} {m : Machine (Ticketed Job)}
    {log : List Happening} (hw : s.worker? = some w) :
    ({ x with machine := m, jobs := x.jobs ++ [(s, label)], log } : Workshop Job State).home?
      x.jobs.length = some (w, label) :=
  home?_eq_some.mpr ⟨s, by simp, hw⟩

/-- A step put commands behind queues and told of no end, or a worker went on. -/
theorem Went.moved (h : Went x x') :
    (∃ more, Pushes x.machine x'.machine more ∧ (∀ w, ∀ c ∈ more w, Fresh x x' w c) ∧
      (∀ w, ((more w).filterMap Command.once?).Nodup) ∧
      (∀ w label, x'.home? x.jobs.length = some (w, label) → .inl x.jobs.length ∈ x'.keys w) ∧
      ∀ j tick, .ended j tick ∈ x'.log → .ended j tick ∈ x.log) ∨
    ∃ w c front more news stamps, Worked x x' w c front more news stamps := by
  have honly : ∀ (w : Worker) (c : Command (Ticketed Job)) (w' : Worker),
      ((only w c w').filterMap Command.once?).Nodup := by
    intro w c w'
    unfold only
    split
    · cases hc : c.once? <;> simp [hc]
    · simp
  have hmem : ∀ {w w' : Worker} {c c' : Command (Ticketed Job)}, c' ∈ only w c w' → w' = w ∧ c' = c := by
    intro w w' c c' hc'
    unfold only at hc'
    split at hc'
    next heq => exact ⟨heq, List.mem_singleton.mp hc'⟩
    · cases hc'
  have hnone : x'.jobs = x.jobs → ∀ w label, x'.home? x.jobs.length = some (w, label) →
      .inl x.jobs.length ∈ x'.keys w := by
    intro hsame w label hhome
    unfold home? at hhome
    rw [hsame, List.getElem?_eq_none (Nat.le_refl _)] at hhome
    cases hhome
  have hlog : ∀ {a : Happening} {j : Nat} {tick : Option Nat}, a ≠ .ended j tick →
      .ended j tick ∈ x.log ++ [a] → .ended j tick ∈ x.log := by
    intro a j tick hne ha
    exact (List.mem_append.mp ha).resolve_right fun hnew => hne (List.mem_singleton.mp hnew).symm
  cases h with
  | calm h =>
      obtain ⟨more, hp, hmore⟩ := h.pushes
      refine Or.inl ⟨more, hp, fun w c hc => ?_, fun w => ?_, hnone h.jobs, fun j tick ha => ?_⟩
      · rcases hmore w c hc with rfl | rfl <;> trivial
      · have hnil : (more w).filterMap Command.once? = [] := by
          refine List.filterMap_eq_nil_iff.mpr fun c hc => ?_
          rcases hmore w c hc with rfl | rfl <;> rfl
        rw [hnil]
        exact List.nodup_nil
      · rcases h.log with hsame | ⟨a, happend, hanswer⟩
        · exact hsame ▸ ha
        · exact hlog (by rintro rfl; exact hanswer) (happend ▸ ha)
  | acted h => cases h with
    | launched hw hticket hp =>
        refine Or.inl ⟨_, hp, fun w c hc => ?_, honly _ _, fun w label hhome => ?_, fun j tick => hlog (by simp)⟩
        · obtain ⟨rfl, rfl⟩ := hmem hc
          exact ⟨hticket, by rw [hticket]; exact home?_last hw⟩
        · rw [home?_last hw] at hhome
          obtain ⟨rfl, rfl⟩ := Prod.mk.inj (Option.some.inj hhome)
          rw [keys_of_pushes hp]
          exact List.mem_append_right _ (by simp [only, Command.once?, hticket])
    | notified _ _ _ _ hp =>
        exact Or.inl ⟨_, hp, by simp [nothing], by simp [nothing], hnone rfl, fun j tick ha => ha⟩
    | recorded hmark hnew hp =>
        refine Or.inl ⟨_, hp, fun w c hc => ?_, honly _ _, hnone rfl, fun j tick => hlog (by simp)⟩
        obtain ⟨rfl, rfl⟩ := hmem hc
        exact ⟨_, hmark, hnew, List.mem_append_right _ (List.mem_singleton_self _)⟩
    | activated =>
        exact Or.inl ⟨_, Pushes.refl _, by simp [nothing], by simp [nothing], hnone rfl,
          fun j tick => hlog (by simp)⟩
    | waited _ _ _ _ _ hp =>
        refine Or.inl ⟨_, hp, fun w c hc => ?_, honly _ _, hnone rfl, fun j tick => hlog (by simp)⟩
        obtain ⟨rfl, rfl⟩ := hmem hc
        trivial
    | resumed _ _ _ _ hp =>
        exact Or.inl ⟨_, hp, by simp [nothing], by simp [nothing], hnone rfl, fun j tick => hlog (by simp)⟩
  | worked h => exact Or.inr ⟨_, _, _, _, _, _, h⟩

section Worked

variable {w : Worker} {c : Command (Ticketed Job)} {front more : List (Command (Ticketed Job))}
  {news : List Happening} {stamps : List Occurrence}

/-- The command in front is gone with what it brings about, or both are still there. -/
theorem Progress.once {m : Machine (Ticketed Job)} (h : Progress m w c front news stamps) :
    (front.filterMap Command.once? = [] ∨ front.filterMap Command.once? = c.once?.toList ∧ news = []) := by
  cases h with
  | on hticket => exact Or.inr ⟨by simp [Command.once?, hticket], rfl⟩
  | _ => exact Or.inl rfl

/-- A job that ends just now was the command in front, and nothing else happens with it. -/
theorem Progress.ended_only {m : Machine (Ticketed Job)} (h : Progress m w c front news stamps) {j : Nat}
    {tick : Option Nat} (ha : .ended j tick ∈ news) :
    c.once? = some (.inl j) ∧ front = [] ∧ news = [.ended j tick] := by
  cases h with
  | ended =>
      have heq := List.mem_singleton.mp ha
      injection heq with hj htick
      subst hj htick
      exact ⟨rfl, rfl, rfl⟩
  | panicked =>
      have heq := List.mem_singleton.mp ha
      injection heq with hj htick
      subst hj htick
      exact ⟨rfl, rfl, rfl⟩
  | _ => cases ha

theorem Worked.keys (h : Worked x x' w c front more news stamps) : ∃ rest,
    x.keys w = c.once?.toList ++ rest ∧ x'.keys w = front.filterMap Command.once? ++ rest := by
  obtain ⟨rest, hbefore, hafter⟩ := h.popped.pending_eq h.head
  refine ⟨rest.filterMap Command.once?, ?_, ?_⟩
  · unfold Workshop.keys
    rw [hbefore, List.filterMap_cons]
    cases c.once? <;> rfl
  · have hmore : more.filterMap Command.once? = [] := by
      refine List.filterMap_eq_nil_iff.mpr fun c' hc' => ?_
      rcases h.more c' hc' with rfl | ⟨job, rfl⟩ <;> rfl
    unfold Workshop.keys
    rw [hafter, List.filterMap_append, List.filterMap_append, hmore, List.append_nil]

theorem Worked.head_mem_keys (h : Worked x x' w c front more news stamps) {key : Nat ⊕ Nat}
    (hkey : c.once? = some key) : key ∈ x.keys w := by
  obtain ⟨rest, hbefore, -⟩ := h.keys
  rw [hbefore, hkey]
  exact List.mem_cons_self

theorem Worked.keys_other (h : Worked x x' w c front more news stamps) {w' : Worker} (hne : w' ≠ w) :
    x'.keys w' = x.keys w' := by
  unfold Workshop.keys
  rw [h.popped.others w' hne]

/-- What waits after a step of a worker waited before. -/
theorem Worked.mem_keys (h : Worked x x' w c front more news stamps) {w' : Worker} {key : Nat ⊕ Nat}
    (hkey : key ∈ x'.keys w') : key ∈ x.keys w' := by
  by_cases hw : w' = w
  · subst hw
    obtain ⟨rest, hbefore, hafter⟩ := h.keys
    rw [hafter] at hkey
    rw [hbefore]
    rcases List.mem_append.mp hkey with hfront | hrest
    · rcases h.progress.once with hnone | ⟨hsame, -⟩
      · rw [hnone] at hfront
        cases hfront
      · exact List.mem_append_left _ (hsame ▸ hfront)
    · exact List.mem_append_right _ hrest
  · exact h.keys_other hw ▸ hkey

/-- What a step of a worker brings about waits no longer. -/
theorem Worked.not_mem_keys (h : Worked x x' w c front more news stamps) (honce : (x.keys w).Nodup)
    {key : Nat ⊕ Nat} (hkey : c.once? = some key) (hfront : front = []) : key ∉ x'.keys w := by
  obtain ⟨rest, hbefore, hafter⟩ := h.keys
  rw [hbefore, hkey] at honce
  rw [hafter, hfront]
  exact (List.nodup_cons.mp honce).1

/-- A job that ended did so before, or it was in front and waits no longer. -/
theorem Worked.ended_cases (h : Worked x x' w c front more news stamps) (honce : (x.keys w).Nodup) {j : Nat}
    {tick : Option Nat} (ha : .ended j tick ∈ x'.log) : .ended j tick ∈ x.log ∨
      .inl j ∈ x.keys w ∧ .inl j ∉ x'.keys w ∧ news = [.ended j tick] := by
  rw [h.log] at ha
  refine (List.mem_append.mp ha).imp id fun hnew => ?_
  obtain ⟨hkey, hfront, hone⟩ := h.progress.ended_only hnew
  exact ⟨h.head_mem_keys hkey, h.not_mem_keys honce hkey hfront, hone⟩

/-- A job that waited for a worker ends with its step, or waits on. -/
theorem Worked.ended_or_waits (h : Worked x x' w c front more news stamps) {j : Nat}
    (hwait : .inl j ∈ x.keys w) : x'.Ended j ∨ .inl j ∈ x'.keys w := by
  obtain ⟨rest, hbefore, hafter⟩ := h.keys
  rw [hbefore] at hwait
  rw [hafter]
  rcases List.mem_append.mp hwait with hfront | hrest
  · have hprogress := h.progress
    cases hprogress with
    | on hticket =>
        refine Or.inr (List.mem_append_left _ ?_)
        simpa [Command.once?, hticket] using hfront
    | ended =>
        obtain rfl : j = _ := by simpa [Command.once?] using hfront
        exact Or.inl ⟨_, by rw [h.log]; exact List.mem_append_right _ (List.mem_singleton_self _)⟩
    | panicked =>
        obtain rfl : j = _ := by simpa [Command.once?] using hfront
        exact Or.inl ⟨_, by rw [h.log]; exact List.mem_append_right _ (List.mem_singleton_self _)⟩
    | record => simp [Command.once?] at hfront
    | _ => cases hfront
  · exact Or.inr (List.mem_append_right _ hrest)

theorem Worked.nodup (h : Worked x x' w c front more news stamps) (honce : (x.keys w).Nodup) :
    (x'.keys w).Nodup := by
  obtain ⟨rest, hbefore, hafter⟩ := h.keys
  rw [hbefore] at honce
  rw [hafter]
  rcases h.progress.once with hnone | ⟨hsame, -⟩
  · rw [hnone]
    exact (List.nodup_append.mp honce).2.1
  · rw [hsame]
    exact honce

/-- A job that waits after a step of a worker waited before, perhaps less far. -/
theorem Worked.run_mem (h : Worked x x' w c front more news stamps) {w' : Worker} {label : String}
    {job : Ticketed Job} (hmem : .run label job ∈ (x'.machine.queue w').pending) :
    ∃ job', .run label job' ∈ (x.machine.queue w').pending ∧ job'.ticket = job.ticket := by
  rcases h.popped.mem_cases hmem with hold | ⟨rfl, hnew⟩
  · exact ⟨job, hold, rfl⟩
  rcases List.mem_append.mp hnew with hfront | hmore
  · have hprogress := h.progress
    have hhead := List.mem_of_mem_head? h.head
    cases hprogress with
    | @on label' job₁ job₂ hticket =>
        have heq := List.mem_singleton.mp hfront
        injection heq with hlabel hjob
        subst hlabel
        subst hjob
        exact ⟨job₁, hhead, hticket.symm⟩
    | _ => cases hfront
  · rcases h.more _ hmore with heq | ⟨job', heq⟩ <;> cases heq

end Worked

/-! ## What becomes known -/

/-- What stands behind something that a step makes known. -/
def News (x x' : Workshop Job State) : Happening → Prop
  | .launched j => j = x.jobs.length ∧ x'.jobs.length = x.jobs.length + 1
  | .ended j tick => ∃ w label job, (x.machine.queue w).pending.head? = some (.run label job) ∧
      job.ticket = j ∧ .inl j ∉ x'.keys w ∧ ∀ t, tick = some t →
        t = x.machine.nextTick w.timeline ∧ ⟨t, some w.queue, .job label⟩ ∈ x'.machine.events w.timeline
  | .recorded i => ∃ u k, x.mark? i = some (u, k) ∧ .record k ∈ (x'.machine.queue u).pending
  | .activated i => .recorded i ∈ x.log
  | .waited i c => ∃ w u k n, c.worker? = some w ∧ x.mark? i = some (u, k) ∧ u.timeline = w.timeline ∧
      x.notifications[i]? = some n ∧ n.ready = true ∧ .wait k ∈ (x'.machine.queue w).pending
  | .resumed i tick => ∃ u k n, x.mark? i = some (u, k) ∧ x.notifications[i]? = some n ∧ n.ready = true ∧
      (x.machine.reachedAt u.timeline k).isSome ∧ tick = x.machine.nextTick u.timeline ∧
      ⟨tick, none, .resume k⟩ ∈ x'.machine.events u.timeline
  | _ => True

theorem Worked.news_ended {w : Worker} {c : Command (Ticketed Job)}
    {front more : List (Command (Ticketed Job))} {news : List Happening} {stamps : List Occurrence}
    (h : Worked x x' w c front more news stamps) (honce : (x.keys w).Nodup) {a : Happening}
    (ha : a ∈ news) : News x x' a := by
  have hprogress := h.progress
  have hevents := h.events w.timeline
  rw [if_pos rfl] at hevents
  cases hprogress with
  | @ended label job =>
      obtain rfl := List.mem_singleton.mp ha
      refine ⟨w, label, job, h.head, rfl, h.not_mem_keys honce rfl rfl, fun t ht => ?_⟩
      obtain rfl := Option.some.inj ht
      exact ⟨rfl, by rw [hevents]; simp⟩
  | @panicked label job =>
      obtain rfl := List.mem_singleton.mp ha
      exact ⟨w, label, job, h.head, rfl, h.not_mem_keys honce rfl rfl, nofun⟩
  | _ => cases ha

theorem Went.news (h : Went x x') (honce : ∀ w, (x.keys w).Nodup) {a : Happening} (ha : a ∈ x'.log) :
    a ∈ x.log ∨ News x x' a := by
  have hlast : ∀ {b : Happening}, a ∈ x.log ++ [b] → News x x' b → a ∈ x.log ∨ News x x' a := by
    intro b hb hnews
    rcases List.mem_append.mp hb with hold | hnew
    · exact Or.inl hold
    · rw [List.mem_singleton.mp hnew]
      exact Or.inr hnews
  cases h with
  | calm h =>
      rcases h.log with hsame | ⟨b, happend, hanswer⟩
      · exact Or.inl (hsame ▸ ha)
      · refine hlast (happend ▸ ha) ?_
        cases b <;> trivial
  | acted h => cases h with
    | launched => exact hlast ha ⟨rfl, by simp⟩
    | notified => exact Or.inl ha
    | recorded hmark _ hp =>
        refine hlast ha ⟨_, _, hmark, ?_⟩
        show _ ∈ (Machine.queue _ _).pending
        rw [hp.pending]
        exact List.mem_append_right _ (by simp [only])
    | activated _ hrecorded => exact hlast ha hrecorded
    | waited hn hready hmark hw htimeline hp =>
        refine hlast ha ⟨_, _, _, _, hw, hmark, htimeline, hn, hready, ?_⟩
        show _ ∈ (Machine.queue _ _).pending
        rw [done, hp.pending]
        exact List.mem_append_right _ (by simp [only])
    | resumed hn hready hmark hreached _ hevents =>
        refine hlast ha ⟨_, _, _, hmark, hn, hready, hreached, rfl, ?_⟩
        show _ ∈ Machine.events _ _
        rw [done, hevents, if_pos rfl]
        simp
  | worked h =>
      rw [h.log] at ha
      exact (List.mem_append.mp ha).imp id fun hnew => h.news_ended (honce _) hnew

/-- What the log tells is in order. -/
structure Filed (x : Workshop Job State) : Prop where
  launched : ∀ j, .launched j ∈ x.log → j < x.jobs.length
  recorded : ∀ i, .recorded i ∈ x.log → (x.mark? i).isSome
  activated : ∀ i, .activated i ∈ x.log → .recorded i ∈ x.log
  ready : ∀ (i : Nat) n, x.notifications[i]? = some n → n.ready = true → .activated i ∈ x.log
  /-- No two notifications have one marker. -/
  marks : ∀ i j u v k, x.mark? i = some (u, k) → x.mark? j = some (v, k) → u.timeline = v.timeline → i = j

theorem Filed.empty (state : State) (strict : Bool) : ({ state, strict } : Workshop Job State).Filed := by
  constructor <;> simp [mark?]

/-- A notification that is ready was so before, or was activated just now. -/
theorem Went.ready (h : Went x x') {i : Nat} {n' : Notification} (hn' : x'.notifications[i]? = some n')
    (hready : n'.ready = true) :
    (∃ n, x.notifications[i]? = some n ∧ n.ready = true) ∨ .activated i ∈ x'.log := by
  cases h with
  | calm h =>
      have hsame := h.notifications.ready i
      rw [hn', Option.map_some, hready] at hsame
      obtain ⟨n, hn, hr⟩ := Option.map_eq_some_iff.mp hsame.symm
      exact Or.inl ⟨n, hn, hr⟩
  | acted h => cases h with
    | notified _ _ hnot =>
        rcases List.mem_append.mp (List.mem_of_getElem? hn') with hold | hnew
        · refine Or.inl ?_
          by_cases hlt : i < x.notifications.length
          · exact ⟨n', by rw [← hn', List.getElem?_append_left hlt], hready⟩
          · rw [List.getElem?_append_right (Nat.le_of_not_lt hlt)] at hn'
            obtain rfl := List.mem_singleton.mp (List.mem_of_getElem? hn')
            rw [hnot] at hready
            cases hready
        · rw [List.mem_singleton.mp hnew, hnot] at hready
          cases hready
    | @activated t j n hn =>
        by_cases hij : j = i
        · subst hij
          exact Or.inr (List.mem_append_right _ (List.mem_singleton_self _))
        · have hsame : (x.notifications.set j { n with ready := true })[i]? = x.notifications[i]? :=
            List.getElem?_set_ne hij
          exact Or.inl ⟨n', hsame.symm.trans hn', hready⟩
    | _ => exact Or.inl ⟨n', hn', hready⟩
  | worked h => exact Or.inl ⟨n', h.notifications ▸ hn', hready⟩

theorem Filed.step (h : x.Filed) (hst : x.Stocked) (honce : ∀ w, (x.keys w).Nodup) (hw : Went x x') :
    x'.Filed where
  launched j hj := by
    rcases hw.news honce hj with hold | ⟨rfl, hlen⟩
    · refine Nat.lt_of_lt_of_le (h.launched j hold) ?_
      rcases hw.jobs with hsame | ⟨s, label, w, -, happend⟩
      · exact Nat.le_of_eq (by rw [hsame])
      · rw [happend]
        simp
    · rw [hlen]
      exact Nat.lt_succ_self _
  recorded i hi := by
    have hmark : (x.mark? i).isSome := by
      rcases hw.news honce hi with hold | ⟨u, k, hnew, -⟩
      · exact h.recorded i hold
      · rw [hnew]
        rfl
    obtain ⟨p, hp⟩ := Option.isSome_iff_exists.mp hmark
    rw [hw.mark hp]
    rfl
  activated i hi := by
    rcases hw.news honce hi with hold | hnew
    · exact hw.mem_log (h.activated i hold)
    · exact hw.mem_log hnew
  ready i n' hn' hready := by
    rcases hw.ready hn' hready with ⟨n, hn, hr⟩ | hnew
    · exact hw.mem_log (h.ready i n hn hr)
    · exact hnew
  marks i j u v k hi hj htimeline := by
    rcases hw.notifications with hsame | ⟨n, u₀, hu, hk, -, -, happend, -⟩
    · rw [mark?_of_place (hsame i)] at hi
      rw [mark?_of_place (hsame j)] at hj
      exact h.marks i j u v k hi hj htimeline
    · -- The marker of the new notification was not made before.
      have hcase : ∀ {i u k}, x'.mark? i = some (u, k) → x.mark? i = some (u, k) ∧
          k < x.machine.markerCount u.timeline ∨
          i = x.notifications.length ∧ u = u₀ ∧ k = x.machine.markerCount u₀.timeline := by
        intro i u k hi
        obtain ⟨n', hn', hu', hk'⟩ := mark?_eq_some.mp hi
        rw [happend] at hn'
        by_cases hlt : i < x.notifications.length
        · rw [List.getElem?_append_left hlt] at hn'
          obtain ⟨u₁, k₁, hu₁, hk₁, -, hmade⟩ := hst.notifications n' (List.mem_of_getElem? hn')
          obtain rfl := Option.some.inj (hu'.symm.trans hu₁)
          obtain rfl := Option.some.inj (hk'.symm.trans hk₁)
          exact Or.inl ⟨mark?_eq_some.mpr ⟨n', hn', hu', hk'⟩, hmade⟩
        · have hle := Nat.le_of_not_lt hlt
          have hlast : i < (x.notifications ++ [n]).length := (List.getElem?_eq_some_iff.mp hn').1
          rw [List.length_append, List.length_singleton] at hlast
          obtain rfl : i = x.notifications.length := by omega
          rw [List.getElem?_append_right (Nat.le_refl _), Nat.sub_self] at hn'
          obtain rfl : n = n' := Option.some.inj hn'
          rw [hu] at hu'
          rw [hk] at hk'
          exact Or.inr ⟨rfl, (Option.some.inj hu').symm, (Option.some.inj hk').symm⟩
      rcases hcase hi with ⟨hi', hlt⟩ | ⟨rfl, rfl, rfl⟩ <;> rcases hcase hj with ⟨hj', hlt'⟩ | ⟨rfl, rfl, hk'⟩
      · exact h.marks i j u v k hi' hj' htimeline
      · rw [htimeline, hk'] at hlt
        exact absurd hlt (Nat.lt_irrefl _)
      · rw [← htimeline] at hlt'
        exact absurd hlt' (Nat.lt_irrefl _)
      · rfl

/-! ## Once -/

/-- Jobs and markers wait where they belong, once, until they are over or reached. -/
structure Booked (x : Workshop Job State) : Prop where
  once : ∀ w, (x.keys w).Nodup
  /-- A job that waits waits on the queue it was launched for. -/
  home : ∀ w label job, .run label job ∈ (x.machine.queue w).pending →
    x.home? job.ticket = some (w, label)
  jobs : ∀ w j, .inl j ∈ x.keys w → ¬x.Ended j
  records : ∀ w k, .inr k ∈ x.keys w → x.Recorded w k ∧ x.machine.reachedAt w.timeline k = none
  waiting : ∀ j w label, x.home? j = some (w, label) → x.Ended j ∨ .inl j ∈ x.keys w
  ended : ∀ j, x.Ended j → (x.home? j).isSome
  /-- A job ends once. -/
  endedOnce : ∀ j a b, .ended j a ∈ x.log → .ended j b ∈ x.log → a = b
  reached : ∀ t k, (x.machine.reachedAt t k).isSome → ∃ u, u.timeline = t ∧ x.Recorded u k

theorem Booked.empty (state : State) (strict : Bool) : ({ state, strict } : Workshop Job State).Booked := by
  have hpending : ∀ w, (({} : Machine (Ticketed Job)).queue w).pending = [] := fun w => rfl
  have hreached : ∀ t k, ({} : Machine (Ticketed Job)).reachedAt t k = none := fun t k => rfl
  constructor <;> simp [keys, home?, Ended, hpending, hreached]

theorem Went.ended (h : Went x x') {j : Nat} (hj : x.Ended j) : x'.Ended j := by
  obtain ⟨tick, htick⟩ := hj
  exact ⟨tick, h.mem_log htick⟩

theorem Went.recorded (h : Went x x') {u : Worker} {k : Nat} (hr : x.Recorded u k) : x'.Recorded u k := by
  obtain ⟨i, hmark, hlog⟩ := hr
  exact ⟨i, h.mark hmark, h.mem_log hlog⟩

/-- A marker of one timeline is recorded behind one queue. -/
theorem Filed.recorded_unique (h : x.Filed) {u v : Worker} {k : Nat} (hu : x.Recorded u k)
    (hv : x.Recorded v k) (ht : u.timeline = v.timeline) : u = v := by
  obtain ⟨i, hi, -⟩ := hu
  obtain ⟨j, hj, -⟩ := hv
  obtain rfl := h.marks i j u v k hi hj ht
  exact (Prod.mk.inj (Option.some.inj (hi.symm.trans hj))).1

theorem home?_lt {j : Nat} (h : (x.home? j).isSome) : j < x.jobs.length := by
  obtain ⟨⟨w, label⟩, hp⟩ := Option.isSome_iff_exists.mp h
  obtain ⟨s, hs, -⟩ := home?_eq_some.mp hp
  exact (List.getElem?_eq_some_iff.mp hs).1

theorem Booked.home_of_mem (h : x.Booked) {w : Worker} {j : Nat} (hj : .inl j ∈ x.keys w) :
    ∃ label, x.home? j = some (w, label) := by
  obtain ⟨label, job, hmem, rfl⟩ := inl_mem_keys.mp hj
  exact ⟨label, h.home w label job hmem⟩

/-- Where a job has its home after a step, it had it before, or was launched just now. -/
theorem Went.home_before (h : Went x x') {j : Nat} {p : Worker × String} (hp : x'.home? j = some p) :
    x.home? j = some p ∨ j = x.jobs.length := by
  rcases h.jobs with hsame | ⟨s, label, w, -, happend⟩
  · refine Or.inl ?_
    rw [home?, ← hsame]
    exact hp
  · by_cases hlt : j < x.jobs.length
    · refine Or.inl ?_
      rw [← hp, home?, home?, happend, List.getElem?_append_left hlt]
    · have hlast := home?_lt (Option.isSome_iff_exists.mpr ⟨p, hp⟩)
      rw [happend, List.length_append, List.length_singleton] at hlast
      exact Or.inr (by omega)

/-- A job that a thread puts behind a queue is the one launched just now. -/
theorem Fresh.job {w : Worker} {cs : List (Command (Ticketed Job))} (hfresh : ∀ c ∈ cs, Fresh x x' w c) {j : Nat}
    (hj : .inl j ∈ cs.filterMap Command.once?) : j = x.jobs.length := by
  obtain ⟨c, hc, hkey⟩ := List.mem_filterMap.mp hj
  cases c with
  | run label job =>
      simp only [Command.once?, Option.some.injEq, Sum.inl.injEq] at hkey
      exact hkey ▸ (hfresh _ hc).1
  | record k => simp [Command.once?] at hkey
  | _ => cases hkey

/-- A marker that a thread puts behind a queue is recorded just now. -/
theorem Fresh.record {w : Worker} {cs : List (Command (Ticketed Job))} (hfresh : ∀ c ∈ cs, Fresh x x' w c)
    {k : Nat} (hk : .inr k ∈ cs.filterMap Command.once?) : Fresh x x' w (.record k) := by
  obtain ⟨c, hc, hkey⟩ := List.mem_filterMap.mp hk
  cases c with
  | record k' =>
      simp only [Command.once?, Option.some.injEq, Sum.inr.injEq] at hkey
      exact hkey ▸ hfresh _ hc
  | run label job => simp [Command.once?] at hkey
  | _ => cases hkey

/-- A marker that is recorded just now was not recorded before. -/
theorem Filed.unrecorded (hf : x.Filed) {w w' : Worker} {k : Nat} (hfresh : Fresh x x' w (.record k))
    (ht : w'.timeline = w.timeline) : ¬x.Recorded w' k := by
  rintro ⟨i', hmark', hold⟩
  obtain ⟨i, hmark, hnew, -⟩ := hfresh
  obtain rfl := hf.marks i' i w' w k hmark' hmark ht
  exact hnew hold

/-- A step of a thread keeps jobs and markers in order. -/
theorem Booked.pushed (h : x.Booked) (hf : x.Filed) (hw : Went x x')
    {more : Worker → List (Command (Ticketed Job))} (hp : Pushes x.machine x'.machine more)
    (hfresh : ∀ w, ∀ c ∈ more w, Fresh x x' w c)
    (honce : ∀ w, ((more w).filterMap Command.once?).Nodup)
    (hended : ∀ j tick, .ended j tick ∈ x'.log → .ended j tick ∈ x.log)
    (hjobs : ∀ w label, x'.home? x.jobs.length = some (w, label) → .inl x.jobs.length ∈ x'.keys w) :
    x'.Booked := by
  have hback : ∀ {j}, x'.Ended j → x.Ended j := fun ⟨tick, htick⟩ => ⟨tick, hended _ tick htick⟩
  have hkeys : ∀ w, x'.keys w = x.keys w ++ (more w).filterMap Command.once? := fun w => keys_of_pushes hp
  have hunended : ¬x.Ended x.jobs.length := fun hend => Nat.lt_irrefl _ (home?_lt (h.ended _ hend))
  refine ⟨fun w => ?_, fun w label job hmem => ?_, fun w j hj => ?_, fun w k hk => ?_,
    fun j w label hhome => ?_, fun j hj => ?_, fun j a b ha hb => ?_, fun t k hk => ?_⟩
  · rw [hkeys]
    refine List.nodup_append.mpr ⟨h.once w, honce w, fun key hold key' hnew heq => ?_⟩
    subst heq
    cases key with
    | inl j =>
        obtain rfl := Fresh.job (hfresh w) hnew
        obtain ⟨label, hhome⟩ := h.home_of_mem hold
        exact Nat.lt_irrefl _ (home?_lt (Option.isSome_iff_exists.mpr ⟨_, hhome⟩))
    | inr k => exact hf.unrecorded (Fresh.record (hfresh w) hnew) rfl (h.records w k hold).1
  · rw [hp.pending] at hmem
    rcases List.mem_append.mp hmem with hold | hnew
    · exact hw.home (h.home w label job hold)
    · exact (hfresh w _ hnew).2
  · rw [hkeys] at hj
    rcases List.mem_append.mp hj with hold | hnew
    · exact fun hend => h.jobs w j hold (hback hend)
    · exact fun hend => hunended (Fresh.job (hfresh w) hnew ▸ hback hend)
  · rw [hp.reached]
    rw [hkeys] at hk
    rcases List.mem_append.mp hk with hold | hnew
    · obtain ⟨hrecorded, hnone⟩ := h.records w k hold
      exact ⟨hw.recorded hrecorded, hnone⟩
    · have hthere := Fresh.record (hfresh w) hnew
      refine ⟨?_, Option.not_isSome_iff_eq_none.mp fun hsome => ?_⟩
      · obtain ⟨i, hmark, -, hlog⟩ := hthere
        exact ⟨i, hw.mark hmark, hlog⟩
      · obtain ⟨u, ht, hrecorded⟩ := h.reached _ k hsome
        exact hf.unrecorded hthere ht hrecorded
  · rcases hw.home_before hhome with hold | rfl
    · rcases h.waiting j w label hold with hend | hwait
      · exact Or.inl (hw.ended hend)
      · exact Or.inr (by rw [hkeys]; exact List.mem_append_left _ hwait)
    · exact Or.inr (hjobs w label hhome)
  · obtain ⟨p, hp'⟩ := Option.isSome_iff_exists.mp (h.ended j (hback hj))
    rw [hw.home hp']
    rfl
  · exact h.endedOnce j a b (hended j a ha) (hended j b hb)
  · rw [hp.reached] at hk
    obtain ⟨u, ht, hrecorded⟩ := h.reached t k hk
    exact ⟨u, ht, hw.recorded hrecorded⟩

/-- A step of a worker keeps jobs and markers in order. -/
theorem Booked.worked (h : x.Booked) (hf : x.Filed) (hw : Went x x') {w : Worker}
    {c : Command (Ticketed Job)} {front more : List (Command (Ticketed Job))} {news : List Happening}
    {stamps : List Occurrence} (hwork : Worked x x' w c front more news stamps) : x'.Booked := by
  have hsamejobs : ∀ {j p}, x'.home? j = some p → x.home? j = some p := by
    intro j p hp
    rw [home?, ← hwork.jobs]
    exact hp
  refine ⟨fun w' => ?_, fun w' label job hmem => ?_, fun w' j hj => ?_, fun w' k hk => ?_,
    fun j w' label hhome => ?_, fun j hj => ?_, fun j a b ha hb => ?_, fun t k hk => ?_⟩
  · by_cases hsame : w' = w
    · exact hsame ▸ hwork.nodup (h.once w)
    · rw [hwork.keys_other hsame]
      exact h.once w'
  · obtain ⟨job', hmem', hticket⟩ := hwork.run_mem hmem
    exact hticket ▸ hw.home (h.home w' label job' hmem')
  · rintro ⟨tick, ha⟩
    rcases hwork.ended_cases (h.once w) ha with hold | ⟨hmem, hnot, -⟩
    · exact h.jobs w' j (hwork.mem_keys hj) ⟨tick, hold⟩
    · obtain ⟨label, hhome⟩ := h.home_of_mem hmem
      obtain ⟨label', hhome'⟩ := h.home_of_mem (hwork.mem_keys hj)
      rw [hhome] at hhome'
      obtain ⟨rfl, -⟩ := Prod.mk.inj (Option.some.inj hhome')
      exact hnot hj
  · have hold := hwork.mem_keys hk
    obtain ⟨hrecorded, hnone⟩ := h.records w' k hold
    refine ⟨hw.recorded hrecorded, ?_⟩
    rcases hwork.reached w'.timeline k with hsame | ⟨ht, rfl, -⟩
    · rw [hsame, hnone]
    · -- The marker would have to be recorded behind the worker's own queue.
      have hhead : .inr k ∈ x.keys w := hwork.head_mem_keys rfl
      obtain rfl := hf.recorded_unique hrecorded (h.records w k hhead).1 ht
      have hprogress := hwork.progress
      cases hprogress with
      | record => exact absurd hk (hwork.not_mem_keys (h.once _) rfl rfl)
  · rcases h.waiting j w' label (hsamejobs hhome) with hend | hwait
    · exact Or.inl (hw.ended hend)
    · by_cases hsame : w' = w
      · subst hsame
        exact hwork.ended_or_waits hwait
      · rw [hwork.keys_other hsame]
        exact Or.inr hwait
  · obtain ⟨tick, ha⟩ := hj
    have hhome : (x.home? j).isSome := by
      rcases hwork.ended_cases (h.once w) ha with hold | ⟨hmem, -⟩
      · exact h.ended j ⟨tick, hold⟩
      · obtain ⟨label, hhome⟩ := h.home_of_mem hmem
        rw [hhome]
        rfl
    obtain ⟨p, hp⟩ := Option.isSome_iff_exists.mp hhome
    rw [hw.home hp]
    rfl
  · -- Two ends of a job are both old, or both the one that happened just now.
    rcases hwork.ended_cases (h.once w) ha with hold | ⟨hmem, -, hone⟩ <;>
      rcases hwork.ended_cases (h.once w) hb with hold' | ⟨hmem', -, hone'⟩
    · exact h.endedOnce j a b hold hold'
    · exact absurd ⟨a, hold⟩ (h.jobs w j hmem')
    · exact absurd ⟨b, hold'⟩ (h.jobs w j hmem)
    · rw [hone] at hone'
      simpa using hone'
  · rcases hwork.reached t k with hsame | ⟨rfl, rfl, -⟩
    · rw [hsame] at hk
      obtain ⟨u, ht, hrecorded⟩ := h.reached t k hk
      exact ⟨u, ht, hw.recorded hrecorded⟩
    · have hhead : .inr k ∈ x.keys w := hwork.head_mem_keys rfl
      exact ⟨w, rfl, hw.recorded (h.records w k hhead).1⟩

theorem Booked.step (h : x.Booked) (hf : x.Filed) (hw : Went x x') : x'.Booked := by
  rcases hw.moved with ⟨more, hp, hfresh, honce, hjobs, hended⟩ | ⟨w, c, front, more, news, stamps, hwork⟩
  · exact h.pushed hf hw hp hfresh honce hended hjobs
  · exact h.worked hf hw hwork

theorem Reached.booked (h : Reached exec x) : x.Filed ∧ x.Booked :=
  h.kept (P := fun x => x.Filed ∧ x.Booked)
    (fun state strict => ⟨.empty state strict, .empty state strict⟩)
    fun hst hboth hw => ⟨hboth.1.step hst hboth.2.once hw, hboth.2.step hboth.1 hw⟩

/-! ## Ticks -/

/-- A step stamps at most one event on a timeline, with the next tick. -/
theorem Went.events (h : Went x x') (t : Nat) : x'.machine.events t = x.machine.events t ∨
    ∃ q what, x'.machine.events t = x.machine.events t ++ [⟨x.machine.nextTick t, q, what⟩] := by
  cases h with
  | calm h => exact Or.inl (h.silent t)
  | acted h => cases h with
    | launched _ _ _ hsilent => exact Or.inl (hsilent t)
    | notified _ _ _ _ _ _ hsilent => exact Or.inl (hsilent t)
    | recorded _ _ _ hsilent => exact Or.inl (hsilent t)
    | activated => exact Or.inl rfl
    | waited _ _ _ _ _ _ hsilent => exact Or.inl (hsilent t)
    | @resumed _ _ _ _ u m _ _ _ _ _ hevents =>
        show m.events t = _ ∨ ∃ q what, m.events t = _
        rw [hevents]
        by_cases ht : t = u.timeline
        · rw [if_pos ht]
          exact Or.inr ⟨_, _, rfl⟩
        · rw [if_neg ht]
          exact Or.inl (List.append_nil _)
  | @worked w _ _ _ _ stamps h =>
      have hevents := h.events t
      by_cases ht : t = w.timeline
      · rw [if_pos ht] at hevents
        have hone : stamps = [] ∨ ∃ what, stamps = [what] := by
          have hprogress := h.progress
          cases hprogress with
          | @fixed job => cases job.panics <;> simp
          | ended => exact Or.inr ⟨_, rfl⟩
          | record => exact Or.inr ⟨_, rfl⟩
          | _ => exact Or.inl rfl
        rcases hone with rfl | ⟨what, rfl⟩
        · exact Or.inl (by rw [hevents]; exact List.append_nil _)
        · exact Or.inr ⟨_, what, hevents⟩
      · rw [if_neg ht, List.append_nil] at hevents
        exact Or.inl hevents

theorem Went.mem_events (h : Went x x') {t : Nat} {e : TraceEvent} (he : e ∈ x.machine.events t) :
    e ∈ x'.machine.events t := by
  rcases h.events t with hsame | ⟨q, what, happend⟩
  · rw [hsame]
    exact he
  · rw [happend]
    exact List.mem_append_left _ he

/-- **A marker that was reached keeps its tick.** -/
theorem Booked.reachedAt (h : x.Booked) (hw : Went x x') {t k tick : Nat}
    (hk : x.machine.reachedAt t k = some tick) : x'.machine.reachedAt t k = some tick := by
  rcases hw.moved with ⟨more, hp, -⟩ | ⟨w, c, front, more, news, stamps, hwork⟩
  · rw [hp.reached, hk]
  · rcases hwork.reached t k with hsame | ⟨rfl, rfl, -⟩
    · rw [hsame, hk]
    · have hhead : .inr k ∈ x.keys w := hwork.head_mem_keys rfl
      rw [(h.records w k hhead).2] at hk
      cases hk

/-- Ticks count events, and those in the log are in the trace. -/
structure Timed (x : Workshop Job State) : Prop where
  numbered : ∀ t (i : Nat) e, (x.machine.events t)[i]? = some e → e.tick = i + 1
  ended : ∀ j tick, .ended j (some tick) ∈ x.log → ∃ w label, x.home? j = some (w, label) ∧
    ⟨tick, some w.queue, .job label⟩ ∈ x.machine.events w.timeline
  reached : ∀ t k tick, x.machine.reachedAt t k = some tick → ∃ u, u.timeline = t ∧ x.Recorded u k ∧
    ⟨tick, some u.queue, .marker k⟩ ∈ x.machine.events t
  /-- A wait of the host returned after the marker was reached. -/
  resumed : ∀ i tick, .resumed i tick ∈ x.log → .activated i ∈ x.log ∧ ∃ u k tick',
    x.mark? i = some (u, k) ∧ x.machine.reachedAt u.timeline k = some tick' ∧ tick' < tick ∧
    ⟨tick, none, .resume k⟩ ∈ x.machine.events u.timeline

theorem Timed.empty (state : State) (strict : Bool) : ({ state, strict } : Workshop Job State).Timed := by
  have hevents : ∀ t, ({} : Machine (Ticketed Job)).events t = [] := fun t => rfl
  have hreached : ∀ t k, ({} : Machine (Ticketed Job)).reachedAt t k = none := fun t k => rfl
  constructor <;> simp [hevents, hreached]

/-- What was stamped has an earlier tick than what comes next. -/
theorem Timed.tick_lt (h : x.Timed) {t : Nat} {e : TraceEvent} (he : e ∈ x.machine.events t) :
    e.tick < x.machine.nextTick t := by
  obtain ⟨i, hi⟩ := List.mem_iff_getElem?.mp he
  rw [h.numbered t i e hi]
  exact Nat.succ_lt_succ (List.getElem?_eq_some_iff.mp hi).1

theorem Timed.step (h : x.Timed) (hf : x.Filed) (hb : x.Booked) (hw : Went x x') : x'.Timed where
  numbered t i e he := by
    rcases hw.events t with hsame | ⟨q, what, happend⟩
    · exact h.numbered t i e (hsame ▸ he)
    · rw [happend] at he
      by_cases hlt : i < (x.machine.events t).length
      · rw [List.getElem?_append_left hlt] at he
        exact h.numbered t i e he
      · rw [List.getElem?_append_right (Nat.le_of_not_lt hlt)] at he
        obtain ⟨hzero, hget⟩ := List.getElem?_eq_some_iff.mp he
        rw [List.length_singleton] at hzero
        obtain rfl : i = (x.machine.events t).length := by omega
        obtain rfl := List.mem_singleton.mp (List.mem_of_getElem? he)
        rfl
  ended j tick ha := by
    rcases hw.news hb.once ha with hold | ⟨w, label, job, hhead, rfl, -, hevent⟩
    · obtain ⟨w, label, hhome, hmem⟩ := h.ended j tick hold
      exact ⟨w, label, hw.home hhome, hw.mem_events hmem⟩
    · exact ⟨w, label, hw.home (hb.home w label job (List.mem_of_mem_head? hhead)), (hevent tick rfl).2⟩
  reached t k tick hk := by
    have hold : x.machine.reachedAt t k = some tick → ∃ u, u.timeline = t ∧ x'.Recorded u k ∧
        ⟨tick, some u.queue, .marker k⟩ ∈ x'.machine.events t := by
      intro hk
      obtain ⟨u, ht, hrecorded, hmem⟩ := h.reached t k tick hk
      exact ⟨u, ht, hw.recorded hrecorded, hw.mem_events hmem⟩
    rcases hw.moved with ⟨more, hp, -⟩ | ⟨w, c, front, more, news, stamps, hwork⟩
    · exact hold (by rw [← hp.reached, hk])
    · rcases hwork.reached t k with hsame | ⟨rfl, rfl, hnew⟩
      · exact hold (by rw [← hsame, hk])
      · have hhead : .inr k ∈ x.keys w := hwork.head_mem_keys rfl
        refine ⟨w, rfl, hw.recorded (hb.records w k hhead).1, ?_⟩
        obtain rfl := Option.some.inj (hk.symm.trans hnew)
        have hprogress := hwork.progress
        cases hprogress with
        | record =>
            rw [hwork.events, if_pos rfl]
            exact List.mem_append_right _ (List.mem_singleton_self _)
  resumed i tick ha := by
    rcases hw.news hb.once ha with hold | ⟨u, k, n, hmark, hn, hready, hreached, rfl, hevent⟩
    · obtain ⟨hactivated, u, k, tick', hmark, hreached, hlt, hmem⟩ := h.resumed i tick hold
      exact ⟨hw.mem_log hactivated, u, k, tick', hw.mark hmark, hb.reachedAt hw hreached, hlt,
        hw.mem_events hmem⟩
    · obtain ⟨tick', htick'⟩ := Option.isSome_iff_exists.mp hreached
      obtain ⟨u', ht, -, hmem⟩ := h.reached _ k tick' htick'
      exact ⟨hw.mem_log (hf.ready i n hn hready), u, k, tick', hw.mark hmark, hb.reachedAt hw htick',
        h.tick_lt hmem, hevent⟩

theorem Reached.timed (h : Reached exec x) : x.Timed :=
  (h.kept (P := fun x => (x.Filed ∧ x.Booked) ∧ x.Timed)
    (fun state strict => ⟨⟨.empty state strict, .empty state strict⟩, .empty state strict⟩)
    fun hst hall hw => ⟨⟨hall.1.1.step hst hall.1.2.once hw, hall.1.2.step hall.1.1 hw⟩,
      hall.2.step hall.1.1 hall.1.2 hw⟩).2

end Workshop

end OpGraph
