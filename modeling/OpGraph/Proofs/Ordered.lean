import OpGraph.Proofs.Notified

/-!
# `Proofs.Ordered` — nodes run after the nodes they read from

Work that waits in a queue needs what other nodes make. By the time it is in front, each of them is settled:
its work was in front of it in the same queue, or the queue waited for its marker, or it was over before the
work was enqueued. `Run.Ordered` says so of a run: the commands in every queue are covered, markers that were
reached tell of settled nodes, and a host that is about to launch a node has waited for everything the node
reads.
-/

namespace OpGraph

open Machine

/-- The node at the second place reads what the one at the first makes. -/
def Plan.Feeds (p : Plan) (u j : Nat) : Prop :=
  ∃ n v, p.nodes[j]? = some n ∧ some v ∈ n.inputs ∧ p.Makes u v

namespace Run

variable {i j u : Nat} {r r' q : Run} {m m' : Machine NodeJob} {n : PlannedNode} {a : Instruction}
  {more : Worker → List (Command NodeJob)}

/-! ## What a run knows -/

/-- Everything the node makes is there, or something failed. -/
def Settled (r : Run) (u : Nat) : Prop :=
  (∀ v, r.plan.Makes u v → (r.slots.get? v).isSome) ∨ r.failure ≠ none

/-- The marker tells of the node. -/
def Marked (r : Run) (u t k : Nat) : Prop :=
  ∃ n w, r.notification? u = some n ∧ n.marker? = some k ∧ n.stream.worker? = some w ∧ w.timeline = t

/-- Which nodes have to be settled before a command in a queue is worked off. -/
def Needs (i : Nat) (r : Run) (w : Worker) : Command NodeJob → Nat → Prop
  | .run _ job, u => job.run = i ∧ r.plan.Feeds u job.node
  | .record k, u => r.Marked u w.timeline k
  | _, _ => False

/-- Which nodes are settled once it is. -/
def Grants (i : Nat) (r : Run) (w : Worker) : Command NodeJob → Nat → Prop
  | .run _ job, u => job.run = i ∧ job.node = u
  | .wait k, u => r.Marked u w.timeline k
  | _, _ => False

/-- The node is settled before anything is worked off that is put in the queue of another now. -/
def Assured (i : Nat) (m : Machine NodeJob) (r : Run) (j u : Nat) : Prop :=
  r.Settled u ∨ ∃ w, r.plan.home j = some w ∧ ∃ c ∈ (m.queue w).pending, Grants i r w c u

/-- Nodes run after those they read from. -/
structure Ordered (i : Nat) (m : Machine NodeJob) (r : Run) : Prop where
  stopped : r.launchError ≠ none → r.launching = []
  bound : ∀ u t k, r.Marked u t k → k < m.markerCount t
  reached : ∀ u t k, r.Marked u t k → (m.reachedAt t k).isSome → r.Settled u
  covered : ∀ w, Covered (Needs i r w) (Grants i r w) r.Settled (m.queue w).pending
  active : ∀ job u, r.active = some job → r.plan.Feeds u job.node → r.Settled u
  waited : r.Going → ∀ (j : Nat) n w, r.plan.nodes[j]? = some n → w ∈ n.waits →
    .wait w (.node j) ∈ r.launching ∨ r.Assured i m j w.producer

/-! ## Growing -/

theorem Settled.mono (h : r.Settled u) (hplan : r'.plan = r.plan) (hg : r.slots.Grows r'.slots)
    (hf : r.failure ≠ none → r'.failure ≠ none) : r'.Settled u := by
  refine h.imp (fun hmade v hv => ?_) hf
  obtain ⟨t, ht⟩ := Option.isSome_iff_exists.mp (hmade v (hplan ▸ hv))
  rw [hg v t ht]
  rfl

theorem Saw.settled (hs : r.Saw i m r' m') (h : r.Settled u) : r'.Settled u :=
  h.mono hs.plan hs.slots.2 hs.failure

/-- Runs with the same notifications have the same markers. -/
theorem marked_congr (h : r'.notifications = r.notifications) (u t k : Nat) :
    r'.Marked u t k ↔ r.Marked u t k := by
  unfold Marked notification?
  rw [h]

/-- Counting waits leaves the markers alone. -/
theorem marked_keep {n : Notification} (hn : r.notification? u = some n) (waits v t k : Nat) :
    (r.keep u { n with waits }).Marked v t k ↔ r.Marked v t k := by
  unfold Marked
  rw [notification?_keep]
  by_cases hv : u = v ∧ v < r.notifications.length
  · obtain ⟨rfl, -⟩ := id hv
    rw [if_pos hv, hn]
    constructor
    · rintro ⟨n', w, heq, hmarker, hw, ht⟩
      obtain rfl := Option.some.inj heq
      exact ⟨n, w, rfl, hmarker, hw, ht⟩
    · rintro ⟨n', w, heq, hmarker, hw, ht⟩
      obtain rfl := Option.some.inj heq
      exact ⟨_, w, rfl, hmarker, hw, ht⟩
  · rw [if_neg hv]

/-- Announcing a node gives it the next marker of its timeline, and changes nothing for other nodes. -/
theorem marked_announced {s : Stream} {consumers v t k : Nat} (hlt : u < r.notifications.length)
    (hnone : r.notification? u = none) :
    (r.keep u ⟨s, s.worker?.map fun w => m.markerCount w.timeline, consumers, true, 0⟩).Marked v t k ↔
      r.Marked v t k ∨ v = u ∧ ∃ w, s.worker? = some w ∧ w.timeline = t ∧ k = m.markerCount t := by
  unfold Marked
  rw [notification?_keep]
  by_cases hv : u = v
  · subst hv
    rw [if_pos ⟨rfl, hlt⟩, hnone]
    constructor
    · rintro ⟨n, w, heq, hmarker, hw, rfl⟩
      obtain rfl := Option.some.inj heq
      have hw : s.worker? = some w := hw
      have hmarker : (s.worker?.map fun w => m.markerCount w.timeline) = some k := hmarker
      rw [hw] at hmarker
      exact Or.inr ⟨rfl, w, hw, rfl, (Option.some.inj hmarker).symm⟩
    · rintro (⟨n, w, heq, -⟩ | ⟨-, w, hw, rfl, rfl⟩)
      · cases heq
      · exact ⟨_, w, rfl, by simp [hw], hw, rfl⟩
  · rw [if_neg fun h => hv h.1]
    simp [Ne.symm hv]

theorem Needs.congr {w : Worker} {c : Command NodeJob} (h : Needs i r' w c u) (hplan : r'.plan = r.plan)
    (hmarks : ∀ k, c = .record k → r'.Marked u w.timeline k → r.Marked u w.timeline k) : Needs i r w c u := by
  cases c with
  | run label job => exact ⟨h.1, hplan ▸ h.2⟩
  | record k => exact hmarks k rfl h
  | _ => exact h

theorem Grants.congr {w : Worker} {c : Command NodeJob} (h : Grants i r w c u)
    (hmarks : ∀ t k, r.Marked u t k → r'.Marked u t k) : Grants i r' w c u := by
  cases c with
  | wait k => exact hmarks _ k h
  | run label job => exact h
  | _ => exact h

/-! ## Nodes that were launched -/

/-- Work that stands somewhere is in the queue of its node, or the host is in the middle of it. -/
theorem stages_source {stage : Stage} (h : stage ∈ r.stages i m j) :
    (∃ w label job, r.plan.home j = some w ∧ .run label job ∈ (m.queue w).pending ∧ job.run = i ∧
      job.node = j) ∨ ∃ job, r.active = some job ∧ job.node = j := by
  cases hhome : r.plan.home j with
  | some w =>
      rw [stages_of_some rfl hhome] at h
      obtain ⟨c, hc, hstage⟩ := List.mem_filterMap.mp h
      cases c with
      | run label job =>
          simp only [Command.stage?] at hstage
          split at hstage
          next hjob => exact Or.inl ⟨w, label, job, rfl, hc, hjob.1, hjob.2⟩
          · cases hstage
      | _ => cases hstage
  | none =>
      rw [stages_of_none rfl hhome] at h
      obtain ⟨job, hjob, -⟩ := List.mem_map.mp h
      obtain ⟨hactive, hnode⟩ := Option.filter_eq_some_iff.mp (Option.mem_toList.mp hjob)
      exact Or.inr ⟨job, hactive, by simpa using hnode⟩

/-- A node that was launched is settled, or its work waits in its queue. -/
theorem Stands.past (h : r.Stands i m) (hs : r.plan.Sound) (hn : r.plan.nodes[u]? = some n)
    (hg : r.Going) (hahead : ¬r.Ahead u) (hactive : r.active = none) :
    r.Settled u ∨ ∃ w label job, r.plan.home u = some w ∧ .run label job ∈ (m.queue w).pending ∧
      job.run = i ∧ job.node = u := by
  have hwaits : ∀ {stage}, r.stages i m u = [stage] → ∃ w label job, r.plan.home u = some w ∧
      .run label job ∈ (m.queue w).pending ∧ job.run = i ∧ job.node = u := by
    intro stage hone
    rcases stages_source (hone ▸ List.mem_singleton_self stage) with hqueued | ⟨job, hjob, -⟩
    · exact hqueued
    · rw [hactive] at hjob
      cases hjob
  cases h.nodes u n hn with
  | waiting hwait => exact absurd (hwait hg) hahead
  | taking _ hone => exact Or.inr (hwaits hone)
  | publishing _ hone => exact Or.inr (hwaits hone)
  | failing _ hone => exact Or.inr (hwaits hone)
  | failed _ _ _ hbad => exact Or.inl (Or.inr hbad)
  | done _ _ _ hran =>
      refine Or.inl (Or.inl fun v hv => ?_)
      obtain ⟨n', hn', hmem⟩ := hv
      obtain rfl := Option.some.inj (hn.symm.trans hn')
      exact Plan.ran_fills hs (List.mem_of_getElem? hn) hran hmem

/-- A node is not ahead of a host that went past its place. -/
theorem not_ahead_of_place {rest : List Instruction} {x : Nat} (hlaunching : r.launching = a :: rest)
    (hsuffix : a :: rest <:+ r.plan.launching) (ha : a.place r.plan = some x) (hlt : 3 * u + 1 < x) :
    ¬r.Ahead u := by
  unfold Ahead
  rw [hlaunching]
  exact not_or.mpr ⟨Plan.passed hsuffix ha rfl hlt, Plan.passed hsuffix ha rfl hlt⟩

/-- A host with instructions ahead of it goes on. -/
theorem Ordered.going {rest : List Instruction} (h : r.Ordered i m) (hlaunching : r.launching = a :: rest) :
    r.Going := by
  refine ⟨Classical.not_not.mp fun hne => ?_, Or.inr (by simp [hlaunching])⟩
  have hnil := h.stopped hne
  rw [hlaunching] at hnil
  cases hnil

/-- What the command in front of a queue needs is settled. -/
theorem Ordered.front {w : Worker} {c : Command NodeJob} (h : r.Ordered i m)
    (hhead : (m.queue w).pending.head? = some c) (hneeds : Needs i r w c u) : r.Settled u := by
  obtain ⟨rest, hpending⟩ := List.head?_eq_some_iff.mp hhead
  have hcovered := h.covered w
  rw [hpending] at hcovered
  exact hcovered.1 u hneeds

/-- **Whatever a node reads is assured by the time the node is launched.** -/
theorem Ordered.ready (h : r.Ordered i m) (hp : r.Placed i m) (hst : r.Stands i m) (hactive : r.active = none)
    (hnext : r.Next a q) (ha : a = .launch j ∨ a = .work j) (hfeeds : r.plan.Feeds u j) :
    r.Assured i m j u := by
  obtain ⟨n, v, hn, hv, hmakes⟩ := hfeeds
  have hs := hp.sound
  obtain ⟨n', hn', hv'⟩ := id hmakes
  have hlt : u < j := by
    rcases hs.reads hn hv with hgiven | ⟨u', hu', hmakes'⟩
    · exact absurd hgiven (hs.makes_new hmakes)
    · exact hs.makes_once hmakes' hmakes ▸ hu'
  obtain ⟨heq, hsuffix, -⟩ := hp.next_launching hnext (by
    rcases ha with rfl | rfl
    · exact Plan.draining_not_launch
    · exact Plan.draining_not_work)
  have hplace : a.place r.plan = some (3 * j + 1) := by
    rcases ha with rfl | rfl
    · rfl
    · rfl
  have hgoing : r.Going := h.going heq
  have hahead : ¬r.Ahead u := not_ahead_of_place heq hsuffix hplace (by omega)
  rcases hst.past hs hn' hgoing hahead hactive with hsettled | ⟨w, label, job, hhome, hmem, hrun, hnode⟩
  · exact Or.inl hsettled
  rcases hs.waits hn hv hn' hv' with hnone | hsame | ⟨w', hw', rfl⟩
  · simp [Plan.home_eq hn', Plan.streamOf, hnone] at hhome
  · have hhome' : r.plan.home j = some w := by
      rw [Plan.home_eq hn', Plan.streamOf, hsame] at hhome
      rw [Plan.home_eq hn, Plan.streamOf]
      exact hhome
    exact Or.inr ⟨w, hhome', _, hmem, hrun, hnode⟩
  · -- The waits of the node come before its launch, so this one is over.
    refine (h.waited hgoing j n w' hn hw').resolve_left ?_
    rw [heq]
    exact Plan.passed hsuffix hplace (y := 3 * j) rfl (Nat.lt_succ_self _)

/-- The host has no queue to wait in. -/
theorem Assured.settled (h : r.Assured i m j u) (hhome : r.plan.home j = none) : r.Settled u := by
  rcases h with hsettled | ⟨w, hw, -⟩
  · exact hsettled
  · rw [hhome] at hw
    cases hw

/-- **Whatever was waited for is assured.** -/
theorem Ordered.assured (h : r.Ordered i m) (hp : r.Placed i m) (hst : r.Stands i m) (hnot : r.Notified)
    (hactive : r.active = none) (hpushes : Pushes m m' more) {w : PlannedWait} {rest : List Instruction}
    {n : Notification} (hlaunching : r.launching = .wait w (.node j) :: rest)
    (hsuffix : .wait w (.node j) :: rest <:+ r.plan.launching) (hn : r.notification? w.producer = some n)
    (heffect : ∀ u k, n.stream.worker? = some u → n.marker? = some k →
      (m.reachedAt u.timeline k).isSome ∨ ∃ s w', r.plan.waitingStream (.node j) = some s ∧
        s.worker? = some w' ∧ w'.timeline = u.timeline ∧ .wait k ∈ more w') :
    r.Assured i m' j w.producer := by
  obtain ⟨node, s, hnode, hs, hstream, -, -, hmarker⟩ := hnot.made _ n hn
  cases hw : s.worker? with
  | none =>
      -- The node ran on the host, which went past it.
      obtain ⟨n', hn', hw'⟩ := Plan.node_of_wait (hsuffix.subset List.mem_cons_self)
      have hlt : w.producer < j := (hp.sound.wait_back hn' hw').1
      have hahead : ¬r.Ahead w.producer :=
        not_ahead_of_place (x := 3 * j) hlaunching hsuffix rfl (by omega)
      rcases hst.past hp.sound hnode (h.going hlaunching) hahead hactive with hdone | ⟨w', -, -, hhome, -⟩
      · exact Or.inl hdone
      · rw [Plan.home_eq hnode, hs, Option.bind_some, hw] at hhome
        cases hhome
  | some u =>
      obtain ⟨k, hk⟩ := Option.isSome_iff_exists.mp (hmarker (by rw [hw]; rfl))
      have hmarked : r.Marked w.producer u.timeline k := ⟨n, u, hn, hk, hstream ▸ hw, rfl⟩
      rcases heffect u k (hstream ▸ hw) hk with hreached | ⟨s', w', hs', hw', htimeline, hmem⟩
      · exact Or.inl (h.reached _ _ _ hmarked hreached)
      · refine Or.inr ⟨w', ?_, .wait k, ?_, ?_⟩
        · unfold Plan.home
          rw [show (r.plan.nodes[j]?).bind r.plan.streamOf = some s' from hs', Option.bind_some, hw']
        · rw [hpushes.pending]
          exact List.mem_append_right _ hmem
        · show r.Marked _ w'.timeline k
          rw [htimeline]
          exact hmarked

/-- Work that is over leaves its node settled. -/
theorem Stands.finished (h : r.Stands i m) (hs : r.plan.Sound) {job : NodeJob}
    (hn : r.plan.nodes[job.node]? = some n) (hstage : job.stage ∈ r.stages i m job.node)
    (hrest : (r.stepOf n job).rest = none) :
    (∀ v, r.plan.Makes job.node v → ((r.stepOf n job).slots.get? v).isSome) ∨
      (r.stepOf n job).failure ≠ none := by
  have hadv := n.advanced (r.plan.streamOf n) r.slots job.stage
  have hworking := h.working hn hstage
  unfold stepOf at hrest ⊢
  generalize n.advance (r.plan.streamOf n) r.slots job.stage = w at hadv hrest ⊢
  generalize job.stage = stage at hadv hworking
  cases hadv with
  | told => exact Or.inr (by simp)
  | finished =>
      refine Or.inl fun v hv => ?_
      obtain ⟨n', hn', hmem⟩ := hv
      obtain rfl := Option.some.inj (hn.symm.trans hn')
      cases hworking with
      | publishing _ hran => exact Plan.ran_fills hs (List.mem_of_getElem? hn) hran hmem
  | _ => cases hrest

/-! ## Going on -/

/-- Commands are put behind queues that find what they need in front of them. -/
theorem Ordered.pushed (h : r.Ordered i m) (hpushes : Pushes m m' more)
    (hneeds : ∀ w, ∀ c ∈ more w, ∀ u, Needs i r w c u →
      r.Settled u ∨ ∃ c' ∈ (m.queue w).pending, Grants i r w c' u) : r.Ordered i m' := by
  refine ⟨h.stopped, fun u t k hk => Nat.lt_of_lt_of_le (h.bound u t k hk) (hpushes.markers t),
    fun u t k hk hreached => h.reached u t k hk (hpushes.reached t k ▸ hreached), fun w => ?_, h.active,
    fun hg j n w hn hw => (h.waited hg j n w hn hw).imp id ?_⟩
  · rw [hpushes.pending]
    exact (h.covered w).pushed (hneeds w)
  · exact Or.imp id fun ⟨w', hhome, c, hc, hgrants⟩ =>
      ⟨w', hhome, c, by rw [hpushes.pending]; exact List.mem_append_left _ hc, hgrants⟩

/-- Commands of others need nothing of a run. -/
theorem Ordered.needless (h : r.Ordered i m) {w : Worker} {c : Command NodeJob} (hc : c.IsAlien i m w) :
    ¬Needs i r w c u := by
  cases c with
  | run label job => exact fun hneeds => hc hneeds.1
  | record k => exact fun hneeds => Nat.not_lt.mpr hc (h.bound u _ k hneeds)
  | _ => exact id

/-- The run went on without a change to what it knows of markers. -/
theorem Ordered.changed (h : r.Ordered i m) (hplan : r'.plan = r.plan)
    (hmarks : ∀ u t k, r'.Marked u t k ↔ r.Marked u t k) (hsettled : ∀ u, r.Settled u → r'.Settled u)
    (hstopped : r'.launchError ≠ none → r'.launching = [])
    (hactive : ∀ job u, r'.active = some job → r.plan.Feeds u job.node → r'.Settled u)
    (hgoing : r'.Going → r.Going ∧ ∀ (j : Nat) w, .wait w (.node j) ∈ r.launching →
      .wait w (.node j) ∈ r'.launching ∨ r.Assured i m j w.producer) : r'.Ordered i m := by
  have hgrants : ∀ {w c u}, Grants i r w c u → Grants i r' w c u :=
    fun hgrant => hgrant.congr fun t k => (hmarks _ t k).mpr
  refine ⟨hstopped, fun u t k hk => h.bound u t k ((hmarks u t k).mp hk),
    fun u t k hk hreached => hsettled u (h.reached u t k ((hmarks u t k).mp hk) hreached), fun w => ?_,
    fun job u hjob hfeeds => hactive job u hjob (hplan ▸ hfeeds), fun hg j n w hn hw => ?_⟩
  · exact (h.covered w).mono (fun c _ u hneeds => hneeds.congr hplan fun k _ => (hmarks u _ k).mp)
      (fun c _ u => hgrants) hsettled
  · obtain ⟨hg, hwaits⟩ := hgoing hg
    have hassured : r.Assured i m j w.producer → r'.Assured i m j w.producer := by
      rintro (hold | ⟨w', hhome, c, hc, hgrant⟩)
      · exact Or.inl (hsettled _ hold)
      · exact Or.inr ⟨w', hplan ▸ hhome, c, hc, hgrants hgrant⟩
    rcases h.waited hg j n w (hplan ▸ hn) hw with hmem | hold
    · exact (hwaits j w hmem).imp id hassured
    · exact Or.inr (hassured hold)

/-- A worker went on: what the command in front granted is known now, or granted in its place. -/
theorem Ordered.popped {w : Worker} {c : Command NodeJob} {front more : List (Command NodeJob)}
    (h : r.Ordered i m) (hhead : (m.queue w).pending.head? = some c) (hp : Popped m m' w front more)
    (hplan : r'.plan = r.plan) (hmarks : ∀ u t k, r'.Marked u t k ↔ r.Marked u t k)
    (hstopped : r'.launchError ≠ none → r'.launching = [])
    (hsettled : ∀ u, r.Settled u → r'.Settled u)
    (hreached : ∀ u t k, r.Marked u t k → (m'.reachedAt t k).isSome → r'.Settled u)
    (hfront : ∀ c' ∈ front, ∀ u, Needs i r w c' u → r'.Settled u)
    (hmore : ∀ c' ∈ more, ∀ u, Needs i r w c' u → r'.Settled u)
    (hknown : ∀ u, Grants i r w c u → r'.Settled u ∨ ∃ c' ∈ front, Grants i r w c' u)
    (hactive : ∀ job u, r'.active = some job → r.plan.Feeds u job.node → r'.Settled u)
    (hgoing : r'.Going → r.Going) (hlaunching : r'.launching = r.launching) : r'.Ordered i m' := by
  obtain ⟨rest, hbefore, hafter⟩ := hp.pending_eq hhead
  have hgrants : ∀ {w c u}, Grants i r w c u → Grants i r' w c u :=
    fun hgrant => hgrant.congr fun t k => (hmarks _ t k).mpr
  refine ⟨hstopped, fun u t k hk => ?_, fun u t k hk => hreached u t k ((hmarks u t k).mp hk), fun w' => ?_,
    fun job u hjob hfeeds => hactive job u hjob (hplan ▸ hfeeds), fun hg j n w' hn hw' => ?_⟩
  · rw [hp.markers]
    exact h.bound u t k ((hmarks u t k).mp hk)
  · have hnow : Covered (Needs i r w') (Grants i r w') r'.Settled (m'.queue w').pending := by
      by_cases hw : w' = w
      · subst hw
        rw [hafter]
        have hcovered := h.covered w'
        rw [hbefore] at hcovered
        exact hcovered.popped hfront hmore fun u hu => hu.elim (fun hu => Or.inl (hsettled u hu)) (hknown u)
      · rw [hp.others w' hw]
        exact (h.covered w').mono (fun _ _ _ => id) (fun _ _ _ => id) hsettled
    exact hnow.mono (fun c _ u hneeds => hneeds.congr hplan fun k _ => (hmarks u _ k).mp) (fun c _ u => hgrants)
      fun _ => id
  · rw [hplan] at hn
    rw [hlaunching]
    refine (h.waited (hgoing hg) j n w' hn hw').imp id fun hassured => ?_
    rcases hassured with hold | ⟨w₁, hhome, c₁, hc₁, hgrant⟩
    · exact Or.inl (hsettled _ hold)
    have hhome' : r'.plan.home j = some w₁ := hplan ▸ hhome
    rcases hp.mem_or_head hhead hc₁ with hstill | ⟨rfl, rfl⟩
    · exact Or.inr ⟨w₁, hhome', c₁, hstill, hgrants hgrant⟩
    -- What granted it was in front: it is known now, or what took its place grants it.
    rcases hknown _ hgrant with hknown | ⟨c', hc', hgrant'⟩
    · exact Or.inl hknown
    · refine Or.inr ⟨w₁, hhome', c', ?_, hgrants hgrant'⟩
      rw [hafter]
      exact List.mem_append_left _ (List.mem_append_left _ hc')

/-- A worker went on with a command that is no work of the run. -/
theorem Ordered.took {w : Worker} {c : Command NodeJob} {runs runs' : List Run}
    {front more : List (Command NodeJob)} (h : r.Ordered i m) (hhead : (m.queue w).pending.head? = some c)
    (halien : ∀ label job, c = .run label job → job.run ≠ i) (hp : Popped m m' w front more)
    (ht : Took NodeJob.execute w runs m m' c runs' front more)
    (hput : ∀ label job, .run label job ∈ front ++ more → job.run ≠ i) : r.Ordered i m' := by
  have hneedless : ∀ c' ∈ front ++ more, ∀ u, ¬Needs i r w c' u := by
    intro c' hc' u hneeds
    cases c' with
    | run label job => exact hput label job hc' hneeds.1
    | record k => exact ((ht.put _ hc').2 k).1 rfl
    | _ => exact hneeds
  refine h.popped hhead hp rfl (fun _ _ _ => Iff.rfl) h.stopped (fun _ => id) (fun u t k hk hreached => ?_)
    (fun c' hc' u hneeds => absurd hneeds (hneedless c' (List.mem_append_left _ hc') u))
    (fun c' hc' u hneeds => absurd hneeds (hneedless c' (List.mem_append_right _ hc') u))
    (fun u hgrant => ?_) h.active id rfl
  · have hsame : (∀ t k, m'.reachedAt t k = m.reachedAt t k) → r.Settled u :=
      fun heq => h.reached u t k hk (heq t k ▸ hreached)
    cases ht with
    | record hnow =>
        rcases (hnow t k).mp hreached with hold | ⟨rfl, rfl, -⟩
        · exact h.reached u t k hk hold
        · exact h.front hhead hk
    | run _ _ heq => exact hsame heq
    | fixed heq => exact hsame heq
    | wait _ heq => exact hsame heq
    | flush heq => exact hsame heq
    | shutdown heq => exact hsame heq
  · cases ht with
    | run => exact absurd hgrant.1 (halien _ _ rfl)
    | wait hreached => exact Or.inl (h.reached u _ _ hgrant hreached)
    | _ => exact hgrant.elim

/-- By the time a node is announced it is settled, or its work waits in its queue. -/
theorem Ordered.launched (h : r.Ordered i m) (hp : r.Placed i m) (hst : r.Stands i m) (hactive : r.active = none)
    {s : Stream} {rest : List Instruction} (hlaunching : r.launching = .announce u :: rest)
    (hn : r.plan.nodes[u]? = some n) (hs : r.plan.streamOf n = some s) {w : Worker} (hw : s.worker? = some w) :
    r.Settled u ∨ ∃ c ∈ (m.queue w).pending, Grants i r w c u := by
  have hsuffix : .announce u :: rest <:+ r.plan.launching := hlaunching ▸ hp.launching
  have hahead : ¬r.Ahead u :=
    not_ahead_of_place (x := 3 * u + 2) hlaunching hsuffix rfl (Nat.lt_succ_self _)
  rcases hst.past hp.sound hn (h.going hlaunching) hahead hactive with
    hdone | ⟨w', label, job, hhome, hmem, hrun, hnode⟩
  · exact Or.inl hdone
  · obtain rfl : w = w' := by
      rw [Plan.home_eq hn, hs] at hhome
      exact Option.some.inj (hw.symm.trans hhome)
    exact Or.inr ⟨_, hmem, hrun, hnode⟩

/-- The queues stay covered by an announcement: what is new is the record of the marker, and the work of
    its node is in front of it. -/
theorem Ordered.covered_announced {s : Stream} (h : r.Ordered i m) (htidy : m.Tidy) (hplan : r'.plan = r.plan)
    (hmarks : ∀ v t k, r'.Marked v t k ↔ r.Marked v t k ∨
      v = u ∧ ∃ w, s.worker? = some w ∧ w.timeline = t ∧ k = m.markerCount t)
    (hsettled : ∀ v, r.Settled v → r'.Settled v)
    (hlaunched : ∀ w, s.worker? = some w → r.Settled u ∨ ∃ c ∈ (m.queue w).pending, Grants i r w c u)
    (hpushes : Pushes m m' fun w =>
      if s.worker? = some w then [.record (m.markerCount w.timeline)] else []) (w : Worker) :
    Covered (Needs i r' w) (Grants i r' w) r'.Settled (m'.queue w).pending := by
  have hgrants : ∀ {c v}, Grants i r w c v → Grants i r' w c v :=
    fun hgrant => hgrant.congr fun t k hk => (hmarks _ t k).mpr (Or.inl hk)
  rw [hpushes.pending]
  have hold : Covered (Needs i r' w) (Grants i r' w) r'.Settled (m.queue w).pending := by
    refine (h.covered w).mono (fun c hc v hneeds => hneeds.congr hplan fun k heq hk => ?_)
      (fun c _ v => hgrants) hsettled
    -- No record of the new marker can wait in a queue already.
    subst heq
    refine ((hmarks v _ k).mp hk).resolve_right ?_
    rintro ⟨-, -, -, -, rfl⟩
    exact absurd (htidy.records w _ hc) (Nat.lt_irrefl _)
  refine hold.pushed fun c hc v hneeds => ?_
  split at hc
  next hw =>
    obtain rfl := List.mem_singleton.mp hc
    rcases (hmarks v _ _).mp hneeds with hk | ⟨rfl, -⟩
    · exact absurd (h.bound v _ _ hk) (Nat.lt_irrefl _)
    · rcases hlaunched w hw with hdone | ⟨c, hc, hgrant⟩
      · exact Or.inl (hsettled v hdone)
      · exact Or.inr ⟨c, hc, hgrants hgrant⟩
  · cases hc

/-- A new marker, behind the work of its node. -/
theorem Ordered.announced (h : r.Ordered i m) (hp : r.Placed i m) (htidy : m.Tidy) (hst : r.Stands i m)
    (hnot : r.Notified) (hactive : r.active = none) {s : Stream} {rest : List Instruction}
    (hlaunching : r.launching = .announce u :: rest) (hn : r.plan.nodes[u]? = some n)
    (hs : r.plan.streamOf n = some s)
    (hcount : ∀ w, s.worker? = some w → m'.markerCount w.timeline = m.markerCount w.timeline + 1)
    (hpushes : Pushes m m' fun w =>
      if s.worker? = some w then [.record (m.markerCount w.timeline)] else []) :
    (({ r with launching := rest } : Run).keep u
      ⟨s, s.worker?.map fun w => m.markerCount w.timeline, n.consumers, true, 0⟩).Ordered i m' := by
  have hgoing : r.Going := h.going hlaunching
  have hlt : u < r.notifications.length := by
    rw [hnot.length]
    exact (List.getElem?_eq_some_iff.mp hn).1
  have hnone : r.notification? u = none := Option.not_isSome_iff_eq_none.mp fun hsome =>
    hnot.once u hsome (by rw [hlaunching]; exact List.mem_cons_self)
  generalize hr' : ({ r with launching := rest } : Run).keep u
    ⟨s, s.worker?.map fun w => m.markerCount w.timeline, n.consumers, true, 0⟩ = r'
  have hmarks : ∀ v t k, r'.Marked v t k ↔ r.Marked v t k ∨
      v = u ∧ ∃ w, s.worker? = some w ∧ w.timeline = t ∧ k = m.markerCount t := by
    intro v t k
    rw [← hr']
    exact marked_announced (r := { r with launching := rest }) hlt hnone
  have hplan : r'.plan = r.plan := by rw [← hr']; rfl
  have hsettled : ∀ v, r.Settled v → r'.Settled v := fun v hv => by
    rw [← hr']
    exact hv
  -- All that is new is the marker: it was not reached, and the one command about it is its record.
  refine ⟨?_, fun v t k hk => ?_, fun v t k hk hreached => ?_, fun w => ?_, ?_, fun hg j n' w hn' hw => ?_⟩
  · rw [← hr']
    exact fun hne => absurd hgoing.1 hne
  · rcases (hmarks v t k).mp hk with hold | ⟨-, w, hw, rfl, rfl⟩
    · exact Nat.lt_of_lt_of_le (h.bound v t k hold) (hpushes.markers t)
    · rw [hcount w hw]
      exact Nat.lt_succ_self _
  · rw [hpushes.reached] at hreached
    rcases (hmarks v t k).mp hk with hold | ⟨-, w, -, -, rfl⟩
    · exact hsettled v (h.reached v t k hold hreached)
    · exact absurd (reachedAt_lt hreached) (Nat.lt_irrefl _)
  · exact h.covered_announced htidy hplan hmarks hsettled
      (fun w hw => h.launched hp hst hactive hlaunching hn hs hw) hpushes w
  · intro job v hjob
    rw [← hr'] at hjob
    cases hactive.symm.trans hjob
  · have hlaunching' : r'.launching = rest := by rw [← hr']; rfl
    rw [hlaunching']
    rcases h.waited hgoing j n' w (hplan ▸ hn') hw with hmem | hold | ⟨w', hhome, c, hc, hgrant⟩
    · rw [hlaunching] at hmem
      exact Or.inl ((List.mem_cons.mp hmem).resolve_left nofun)
    · exact Or.inr (Or.inl (hsettled _ hold))
    · have hgrant' : Grants i r' w' c w.producer :=
        hgrant.congr fun t k hk => (hmarks _ t k).mpr (Or.inl hk)
      refine Or.inr (Or.inr ⟨w', hplan ▸ hhome, c, ?_, hgrant'⟩)
      rw [hpushes.pending]
      exact List.mem_append_left _ hc

/-- A host that something failed to launch carries on with no more launching. -/
theorem Ordered.did_stopped (h : r.Ordered i m) (hnext : r.Next a q) (hd : Did i m m' q a r' more) :
    r'.launchError ≠ none → r'.launching = [] := by
  intro hne
  have hlaunching : r'.launching <:+ r.launching := hd.ahead.1.trans hnext.ahead.1
  have hsame : q.launchError = r.launchError := hnext.host.2.2.1
  by_cases hnone : r.launchError = none
  · cases hd with
    | absent => rfl
    | refused => rfl
    | check =>
        split
        · rfl
        next hfine =>
          rw [if_neg hfine, hsame] at hne
          exact absurd hnone hne
    | _ => exact absurd (hsame.trans hnone) hne
  · exact List.suffix_nil.mp (h.stopped hnone ▸ hlaunching)

/-- Instructions other than waits leave the waits ahead. -/
theorem Did.waits_left (hp : r.Placed i m) (hnext : r.Next a q) (hd : Did i m m' q a r' more)
    (hwait : ∀ w who, a ≠ .wait w who) (hg : r'.Going) : r.Going ∧ ∀ (j : Nat) w,
      .wait w (.node j) ∈ r.launching → .wait w (.node j) ∈ r'.launching ∨ r.Assured i m' j w.producer := by
  obtain ⟨hgoing, heq⟩ := hd.going hg
  refine ⟨hnext.going hgoing, fun j w hmem => Or.inl ?_⟩
  rw [heq]
  rcases hp.next hnext with ⟨hcons, -⟩ | ⟨hnil, -⟩
  · rw [hcons] at hmem
    exact (List.mem_cons.mp hmem).resolve_left (hwait w _).symm
  · rw [hnil] at hmem
    cases hmem

/-! ## By instruction -/

/-- What an instruction puts behind queues finds what it needs in front of it, and the host has waited for
    what it works on. -/
theorem Ordered.carried (h : r.Ordered i m) (hnext : r.Next a q) (hpushes : Pushes m m' more)
    (hd : Did i m m' q a r' more) (hmarks : ∀ u t k, r'.Marked u t k ↔ q.Marked u t k)
    (hneeds : ∀ w, ∀ c ∈ more w, ∀ u, Needs i r w c u →
      r.Settled u ∨ ∃ c' ∈ (m.queue w).pending, Grants i r w c' u)
    (hwork : ∀ job u, r'.active = some job → r.plan.Feeds u job.node → r.Settled u)
    (hwaits : r'.Going → r.Going ∧ ∀ (j : Nat) w, .wait w (.node j) ∈ r.launching →
      .wait w (.node j) ∈ r'.launching ∨ r.Assured i m' j w.producer) : r'.Ordered i m' := by
  have hplan : r'.plan = r.plan := hd.plan.trans hnext.plan
  obtain ⟨hslots, -, hfailure⟩ := hd.computed
  obtain ⟨hslots', -, hfailure'⟩ := hnext.computed
  have hsettled : ∀ u, r.Settled u → r'.Settled u := fun u hu =>
    hu.mono hplan (by rw [hslots, hslots']; exact .refl _) (by rw [hfailure, hfailure']; exact id)
  exact (h.pushed hpushes hneeds).changed hplan
    (fun u t k => (hmarks u t k).trans (marked_congr hnext.host.1 u t k)) hsettled (h.did_stopped hnext hd)
    (fun job u hjob hfeeds => hsettled u (hwork job u hjob hfeeds)) hwaits

/-- A host between two instructions works on nothing. -/
theorem Next.idle (hnext : r.Next a q) (hactive : r.active = none) (job : NodeJob) (u : Nat)
    (hjob : q.active = some job) (_ : r.plan.Feeds u job.node) : r.Settled u := by
  rw [hnext.active, hactive] at hjob
  cases hjob

/-- An instruction that puts nothing in a queue that needs anything. -/
theorem Ordered.plain (h : r.Ordered i m) (hp : r.Placed i m) (hactive : r.active = none)
    (hnext : r.Next a q) (hpushes : Pushes m m' more) (hd : Did i m m' q a r' more)
    (hneedless : ∀ w, ∀ c ∈ more w, ∀ u, ¬Needs i r w c u) (hwait : ∀ w who, a ≠ .wait w who)
    (hnotifications : r'.notifications = q.notifications) (hrest : r'.active = q.active) :
    r'.Ordered i m' :=
  h.carried hnext hpushes hd (marked_congr hnotifications)
    (fun w c hc u hneeds => absurd hneeds (hneedless w c hc u))
    (fun job u hjob => hnext.idle hactive job u (hrest ▸ hjob)) (hd.waits_left hp hnext hwait)

/-- The host waits for a node. -/
theorem Ordered.did_wait (h : r.Ordered i m) (hp : r.Placed i m) (hst : r.Stands i m) (hnot : r.Notified)
    (hactive : r.active = none) {w : PlannedWait} {who : Waiter} (hnext : r.Next (.wait w who) q)
    (hpushes : Pushes m m' more) (hd : Did i m m' q (.wait w who) r' more) : r'.Ordered i m' := by
  have hcarried := h.carried hnext hpushes hd
  cases hd with
  | absent =>
      exact hcarried (fun _ _ _ => Iff.rfl) (by simp [nothing]) (hnext.idle hactive) fun hg => by cases hg.1
  | refused hn =>
      exact hcarried (marked_keep hn _) (by simp [nothing]) (hnext.idle hactive) fun hg => by cases hg.1
  | waited hn _ _ _ hputs heffect =>
      obtain ⟨hlaunching, hsuffix, hq⟩ := hp.next_launching hnext Plan.draining_not_wait
      have hneedless : ∀ w', ∀ c ∈ more w', ∀ u, ¬Needs i r w' c u := by
        intro w' c hc u
        obtain ⟨-, k, rfl, -⟩ := hputs w' c hc
        exact id
      refine hcarried (marked_keep hn _) (fun w' c hc u hneeds => absurd hneeds (hneedless w' c hc u))
        (hnext.idle hactive) fun hg => ⟨hnext.going hg, fun j w' hmem => ?_⟩
      rw [hlaunching] at hmem
      rcases List.mem_cons.mp hmem with heq | hmem
      · injection heq with hw hwho
        subst hw hwho
        exact Or.inr (h.assured hp hst hnot hactive hpushes hlaunching hsuffix (by rw [hq] at hn; exact hn)
          (by rw [hq] at heffect; exact heffect))
      · exact Or.inl hmem

/-- The host launches a node. -/
theorem Ordered.did_launch (h : r.Ordered i m) (hp : r.Placed i m) (hst : r.Stands i m)
    (hactive : r.active = none) (hnext : r.Next (.launch j) q) (hpushes : Pushes m m' more)
    (hd : Did i m m' q (.launch j) r' more) : r'.Ordered i m' := by
  have hcarried := h.carried hnext hpushes hd
  have hwaits := hd.waits_left hp hnext nofun
  have hready : ∀ u, r.plan.Feeds u j → r.Assured i m j u :=
    fun u => h.ready hp hst hactive hnext (Or.inl rfl)
  cases hd with
  | @queued _ n s w hn hs hw =>
      rw [hnext.plan] at hn hs
      refine hcarried (fun _ _ _ => Iff.rfl) (fun w' c hc u hneeds => ?_) (hnext.idle hactive) hwaits
      unfold only at hc
      split at hc
      next heq =>
        subst heq
        obtain rfl := List.mem_singleton.mp hc
        rcases hready u hneeds.2 with hdone | ⟨w₁, hhome, hgranted⟩
        · exact Or.inl hdone
        · obtain rfl : w' = w₁ := by
            rw [Plan.home_eq hn, hs] at hhome
            exact Option.some.inj (hw.symm.trans hhome)
          exact Or.inr hgranted
      · cases hc
  | @inline _ n s hn hs hw =>
      rw [hnext.plan] at hn hs
      refine hcarried (fun _ _ _ => Iff.rfl) (by simp [nothing]) (fun job u hjob hfeeds => ?_) hwaits
      obtain rfl := Option.some.inj hjob
      have hhome : r.plan.home j = none := by rw [Plan.home_eq hn, hs]; exact hw
      exact (hready u hfeeds).settled hhome
  | unlaunched => exact hcarried (fun _ _ _ => Iff.rfl) (by simp [nothing]) (hnext.idle hactive) hwaits

/-- The host works on a node itself. -/
theorem Ordered.did_work (h : r.Ordered i m) (hp : r.Placed i m) (hst : r.Stands i m)
    (hactive : r.active = none) (hnext : r.Next (.work j) q) (hpushes : Pushes m m' more)
    (hd : Did i m m' q (.work j) r' more) : r'.Ordered i m' := by
  have hcarried := h.carried hnext hpushes hd
  have hwaits := hd.waits_left hp hnext nofun
  have hmem := (hp.next_launching hnext Plan.draining_not_work).2.1.subset List.mem_cons_self
  cases hd with
  | work =>
      refine hcarried (fun _ _ _ => Iff.rfl) (by simp [nothing]) (fun job u hjob hfeeds => ?_) hwaits
      obtain rfl := Option.some.inj hjob
      exact (h.ready hp hst hactive hnext (Or.inr rfl) hfeeds).settled (Plan.home_of_work hmem).2

/-- The host announces a node. -/
theorem Ordered.did_announce (h : r.Ordered i m) (hp : r.Placed i m) (htidy : m.Tidy) (hst : r.Stands i m)
    (hnot : r.Notified) (hactive : r.active = none) (hnext : r.Next (.announce u) q)
    (hpushes : Pushes m m' more) (hd : Did i m m' q (.announce u) r' more) : r'.Ordered i m' := by
  have hplain := h.plain hp hactive hnext hpushes hd
  cases hd with
  | announced hn hs hcount =>
      obtain ⟨hlaunching, -, hq⟩ := hp.next_launching hnext Plan.draining_not_announce
      rw [hnext.plan] at hn hs
      rw [hq]
      exact h.announced hp htidy hst hnot hactive hlaunching hn hs hcount hpushes
  | unannounced => exact hplain (by simp [nothing]) nofun rfl rfl

/-- **The host carried out an instruction.** -/
theorem Ordered.did (h : r.Ordered i m) (hp : r.Placed i m) (htidy : m.Tidy) (hst : r.Stands i m)
    (hnot : r.Notified) (hactive : r.active = none) (hnext : r.Next a q) (hpushes : Pushes m m' more)
    (hd : Did i m m' q a r' more) : r'.Ordered i m' := by
  have hplain := h.plain hp hactive hnext hpushes hd
  cases a with
  | wait w who => exact h.did_wait hp hst hnot hactive hnext hpushes hd
  | launch j => exact h.did_launch hp hst hactive hnext hpushes hd
  | work j => exact h.did_work hp hst hactive hnext hpushes hd
  | announce u => exact h.did_announce hp htidy hst hnot hactive hnext hpushes hd
  | check =>
      cases hd with
      | check => exact hplain (by simp [nothing]) (by simp) (by split <;> rfl) (by split <;> rfl)
  | forget =>
      cases hd with
      | forgotten hshut => exact hplain (fun w c hc u => by rw [hshut w c hc]; exact id) (by simp) rfl rfl
  | flush k =>
      cases hd with
      | unflushed => exact hplain (by simp [nothing]) (by simp) rfl rfl
      | flush =>
          refine hplain (fun w c hc u => ?_) (by simp) rfl rfl
          unfold Stream.putting at hc
          split at hc
          · rw [List.mem_singleton.mp hc]
            exact id
          · cases hc
  | flushed k => cases hd <;> exact hplain (by simp [nothing]) (by simp) rfl rfl

/-- **Nodes run after those they read from, whatever the run sees.** -/
theorem Ordered.saw (h : r.Ordered i m) (hp : r.Placed i m) (htidy : m.Tidy) (hst : r.Stands i m)
    (hnot : r.Notified) (hs : r.Saw i m r' m') : r'.Ordered i m' := by
  have hsettled : ∀ u, r.Settled u → r'.Settled u := fun u => hs.settled
  cases hs with
  | pushed hpushes halien =>
      exact h.pushed hpushes fun w c hc u hneeds => absurd hneeds (h.needless (halien w c hc))
  | took hhead halien hpopped htook hput => exact h.took hhead halien hpopped htook hput
  | @worked _ w label job n more hhead hown hn hpopped hcalm hreached =>
      have hmem := List.mem_of_mem_head? hhead
      have hneeds : ∀ u, r.plan.Feeds u job.node → r.Settled u :=
        fun u hfeeds => h.front hhead ⟨hown, hfeeds⟩
      refine h.popped hhead hpopped rfl (fun _ _ _ => Iff.rfl) h.stopped hsettled
        (fun u t k hk hsome => hsettled u (h.reached u t k hk (hreached t k ▸ hsome)))
        (fun c' hc' u hc => ?_) (fun c' hc' u hc => ?_) (fun u hgrant => ?_)
        (fun job u hjob hfeeds => hsettled u (h.active job u hjob hfeeds))
        (fun hg => ⟨hg.1, hg.2.imp (fun hnone => (Option.or_eq_none_iff.mp hnone).1) id⟩) rfl
      · obtain ⟨stage, -, rfl⟩ := Option.map_eq_some_iff.mp (Option.mem_toList.mp hc')
        exact hsettled u (hneeds u hc.2)
      · cases c' with
        | record => exact (hcalm _ hc').elim
        | run => exact (hcalm _ hc').elim
        | _ => exact hc.elim
      · obtain ⟨-, rfl⟩ := hgrant
        cases hrest : (r.stepOf n job).rest with
        | some stage =>
            exact Or.inr ⟨.run label { job with stage }, by simp [restOf, hrest], hown, rfl⟩
        | none =>
            refine Or.inl ((hst.finished hp.sound hn (hp.stage_mem hmem hown) hrest).imp id fun hfails => ?_)
            obtain ⟨e, he⟩ := Option.ne_none_iff_exists'.mp hfails
            show r.failure.or ((r.stepOf n job).failure.map _) ≠ none
            rw [he]
            cases r.failure <;> simp
  | @proceeded job n hjob hn =>
      refine h.changed rfl (fun _ _ _ => Iff.rfl) hsettled h.stopped (fun job' u hjob' hfeeds => ?_) fun hg => ⟨⟨hg.1, ?_⟩, ?_⟩
      · obtain ⟨stage, -, rfl⟩ := Option.map_eq_some_iff.mp hjob'
        exact hsettled u (h.active job u hjob hfeeds)
      · exact hg.2.imp (fun hnone => (Option.or_eq_none_iff.mp hnone).1) id
      · exact fun j w hmem => Or.inl hmem
  | did hactive hnext hpushes hdid => exact h.did hp htidy hst hnot hactive hnext hpushes hdid

theorem Ordered.start {p : Plan} {fed : List (String × Tensor)} (hr : start p fed = .ok r)
    (hnew : ∀ w label job, .run label job ∈ (m.queue w).pending → job.run ≠ i) : r.Ordered i m := by
  have hnone : ∀ u t k, ¬r.Marked u t k := by
    rintro u t k ⟨n, w, hn, -⟩
    rw [notification?_start hr] at hn
    cases hn
  obtain ⟨slots, -, rfl⟩ := Outcome.map_eq_ok.mp hr
  refine ⟨fun hne => absurd rfl hne, fun u t k hk => absurd hk (hnone u t k),
    fun u t k hk => absurd hk (hnone u t k), fun w => covered_of_known fun c hc u hneeds => ?_, by simp,
    fun _ j n w hn hw => Or.inl (Plan.wait_mem hn hw)⟩
  cases c with
  | run label job => exact absurd hneeds.1 (hnew w label job hc)
  | record k => exact absurd hneeds (hnone u _ k)
  | _ => exact hneeds.elim

end Run

end OpGraph
