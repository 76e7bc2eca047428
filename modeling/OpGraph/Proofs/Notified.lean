import OpGraph.Proofs.Standing

/-!
# `Proofs.Notified` — the notifications of a run, and the waits on them

A node that somebody waits for is announced before anybody does so, on its own stream, and for as many
waits as the plan has. So a wait never finds a notification missing, or all of its waits taken; whether it
is admitted depends on the plan alone (`Plan.Admits`).
-/

namespace OpGraph

open Machine

/-- Whether an instruction waits for a node. -/
def Instruction.awaits (u : Nat) : Instruction → Bool
  | .wait w _ => w.producer = u
  | _ => false

namespace Plan

variable {p : Plan} {u : Nat}

theorem countP_nodeInstructions (n : PlannedNode) (j u : Nat) :
    (nodeInstructions n j).countP (Instruction.awaits u) = n.waits.countP (·.producer = u) := by
  have hwaits : (n.waits.map (Instruction.wait · (.node j))).countP (Instruction.awaits u) =
      n.waits.countP (·.producer = u) := by
    rw [List.countP_map]
    rfl
  unfold nodeInstructions
  rw [List.countP_append, hwaits]
  cases n.stream with
  | none => rfl
  | some k =>
      by_cases h : n.consumers = 0
      · simp [h, Instruction.awaits]
      · simp [h, Instruction.awaits]

/-- The instructions have as many waits for a node as it was told. -/
theorem countP_awaits (p : Plan) (u : Nat) :
    p.launching.countP (Instruction.awaits u) = consumersOf p.nodes p.outputs u := by
  have hnodes : ∀ (ns : List PlannedNode) (k : Nat),
      ((ns.zipIdx k).flatMap fun n => nodeInstructions n.1 n.2).countP (Instruction.awaits u) =
        (ns.flatMap (·.waits)).countP (·.producer = u) := by
    intro ns
    induction ns with
    | nil => exact fun _ => rfl
    | cons n rest ih =>
        intro k
        rw [List.zipIdx_cons, List.flatMap_cons, List.flatMap_cons, List.countP_append, List.countP_append,
          ih, countP_nodeInstructions]
  have houtputs : ∀ os : List PlannedOutput,
      (os.filterMap fun o => o.wait.map (Instruction.wait · (.output o.value))).countP
        (Instruction.awaits u) = (os.filterMap (·.wait)).countP (·.producer = u) := by
    intro os
    induction os with
    | nil => rfl
    | cons o rest ih =>
        cases ho : o.wait with
        | none => simpa [ho] using ih
        | some w => simp [ho, ih, List.countP_cons, Instruction.awaits]
  unfold launching consumersOf
  rw [List.countP_append, hnodes, houtputs, ← List.countP_eq_length_filter, List.countP_append]

/-- A node that is waited for has waits to give. -/
theorem consumers_pos (hs : p.Sound) {w : PlannedWait} {who : Waiter} {n : PlannedNode}
    (hw : .wait w who ∈ p.launching) (hn : p.nodes[w.producer]? = some n) : n.consumers ≠ 0 := by
  rw [hs.consumers hn, ← countP_awaits]
  exact Nat.ne_of_gt (List.countP_pos_iff.mpr ⟨_, hw, by simp [Instruction.awaits]⟩)

/-- The stream of a node that has one. -/
theorem streamOf_of_isSome (hs : p.Sound) {j : Nat} {n : PlannedNode} (hn : p.nodes[j]? = some n)
    (hstream : n.stream.isSome) : ∃ s, p.streamOf n = some s := by
  obtain ⟨k, hk⟩ := Option.isSome_iff_exists.mp hstream
  have hlt := hs.stream_lt n (List.mem_of_getElem? hn) hk
  exact ⟨p.streams[k], by simp [streamOf, hk, List.getElem?_eq_getElem hlt]⟩

/-- Who waits for a node comes after everything the host does for it. -/
theorem wait_later (hs : p.Sound) {w : PlannedWait} {who : Waiter} {b : Instruction}
    {rest : List Instruction} (h : .wait w who :: rest <:+ p.launching) (hb : b ∈ rest) :
    ∃ n, p.nodes[w.producer]? = some n ∧ n.stream.isSome ∧
      ∀ x, b.place p = some x → 3 * w.producer + 2 < x := by
  have hmem : .wait w who ∈ p.launching := h.subset List.mem_cons_self
  have hlater := later h hb
  cases who with
  | node j =>
      obtain ⟨n, hn, hw⟩ := node_of_wait hmem
      obtain ⟨hlt, n', hn', hstream⟩ := hs.wait_back hn hw
      refine ⟨n', hn', hstream, fun x hx => ?_⟩
      have := (hlater _ x rfl hx).1
      omega
  | output v =>
      obtain ⟨o, ho, hw⟩ := output_of_wait hmem
      obtain ⟨n', hn', hstream⟩ := hs.output_wait o ho w hw
      have hlt := (List.getElem?_eq_some_iff.mp hn').1
      refine ⟨n', hn', hstream, fun x hx => ?_⟩
      have := (hlater _ x rfl hx).1
      omega

/-- The wait may be issued on the notification it is for. -/
def Admits (p : Plan) (w : PlannedWait) (who : Waiter) : Prop :=
  ∃ n s, p.nodes[w.producer]? = some n ∧ p.streamOf n = some s ∧
    w.f.admits (p.waitingStream who) s = true

end Plan

namespace Run

variable {i : Nat} {r r' q : Run} {m m' : Machine NodeJob} {a : Instruction}
  {more : Worker → List (Command NodeJob)}

/-- The notification is that of the node, and was activated. -/
def Tells (r : Run) (u : Nat) (n : Notification) : Prop :=
  ∃ node s, r.plan.nodes[u]? = some node ∧ r.plan.streamOf node = some s ∧ n.stream = s ∧
    n.ready = true ∧ n.consumers = node.consumers ∧ (s.worker?.isSome → n.marker?.isSome)

/-- Notifications are made before they are waited for, and for as many waits as there are. -/
structure Notified (r : Run) : Prop where
  length : r.notifications.length = r.plan.nodes.length
  made : ∀ u n, r.notification? u = some n → r.Tells u n
  counted : ∀ u n, r.notification? u = some n →
    n.waits + r.launching.countP (Instruction.awaits u) ≤ n.consumers
  announced : r.Going → ∀ u node, r.plan.nodes[u]? = some node → node.stream.isSome →
    node.consumers ≠ 0 → .announce u ∈ r.launching ∨ (r.notification? u).isSome
  once : ∀ u, (r.notification? u).isSome → .announce u ∉ r.launching
  /-- Waits that are over were admitted. -/
  admitted : r.Going → ∀ w who, .wait w who ∈ r.plan.launching →
    .wait w who ∈ r.launching ∨ r.plan.Admits w who

/-- What is waited for next was announced. -/
theorem Notified.wait_ready (h : r.Notified) (hs : r.plan.Sound) (hg : r.Going) {w : PlannedWait} {who : Waiter}
    {rest : List Instruction} (hlaunching : r.launching = .wait w who :: rest)
    (hsuffix : .wait w who :: rest <:+ r.plan.launching) : (r.notification? w.producer).isSome := by
  have hmem : .wait w who ∈ r.plan.launching := hsuffix.subset List.mem_cons_self
  obtain ⟨node, hn, hstream⟩ : ∃ node, r.plan.nodes[w.producer]? = some node ∧ node.stream.isSome := by
    cases who with
    | node j =>
        obtain ⟨n, hn, hw⟩ := Plan.node_of_wait hmem
        exact (hs.wait_back hn hw).2
    | output v =>
        obtain ⟨o, ho, hw⟩ := Plan.output_of_wait hmem
        exact hs.output_wait o ho w hw
  refine (h.announced hg _ node hn hstream (Plan.consumers_pos hs hmem hn)).resolve_left fun hannounce => ?_
  rw [hlaunching] at hannounce
  obtain ⟨-, -, -, hplace⟩ :=
    Plan.wait_later hs hsuffix ((List.mem_cons.mp hannounce).resolve_left nofun)
  have := hplace _ rfl
  omega

/-- Keeping the notification of a node, with fewer instructions ahead. -/
theorem Notified.keep (h : r.Notified) {u : Nat} {n : Notification} {rest : List Instruction}
    (hrest : rest <:+ r.launching) (hn : r.Tells u n) (honce : .announce u ∉ rest)
    (hwaits : n.waits + rest.countP (Instruction.awaits u) ≤ n.consumers)
    (hgoing : ({ r with launching := rest } : Run).Going → r.Going ∧
      (∀ k, .announce k ∈ r.launching → .announce k ∈ rest ∨ k = u) ∧
      ∀ w who, .wait w who ∈ r.launching → .wait w who ∈ rest ∨ r.plan.Admits w who) :
    (({ r with launching := rest } : Run).keep u n).Notified := by
  have hlt : u < r.notifications.length := by
    obtain ⟨node, -, hnode, -⟩ := hn
    rw [h.length]
    exact (List.getElem?_eq_some_iff.mp hnode).1
  have hget : ∀ k, (({ r with launching := rest } : Run).keep u n).notification? k =
      if u = k then some n else r.notification? k := notification?_kept hlt
  refine ⟨?_, fun k n' hk => ?_, fun k n' hk => ?_, fun hg k node hnode hstream hpos => ?_,
    fun k hk => ?_, fun hg w who hw => ?_⟩
  · unfold Run.keep
    simpa using h.length
  · rw [hget] at hk
    split at hk
    next heq =>
      obtain rfl := Option.some.inj hk
      exact heq ▸ hn
    · exact h.made k n' hk
  · rw [hget] at hk
    split at hk
    next heq =>
      obtain rfl := Option.some.inj hk
      exact heq ▸ hwaits
    · exact Nat.le_trans (Nat.add_le_add_left hrest.sublist.countP_le _) (h.counted k n' hk)
  · rw [hget]
    split
    · exact Or.inr rfl
    next hne =>
      obtain ⟨hgoing, hannounced, -⟩ := hgoing hg
      rcases h.announced hgoing k node hnode hstream hpos with hmem | hsome
      · exact Or.inl ((hannounced k hmem).resolve_right fun heq => hne heq.symm)
      · exact Or.inr hsome
  · rw [hget] at hk
    split at hk
    next heq => exact heq ▸ honce
    · exact fun hmem => h.once k hk (hrest.subset hmem)
  · obtain ⟨hgoing, -, hadmitted⟩ := hgoing hg
    rcases h.admitted hgoing w who hw with hmem | hadmits
    · exact hadmitted w who hmem
    · exact Or.inr hadmits

/-- Dropping instructions, and changing nothing else about waiting. -/
theorem Notified.drop (h : r.Notified) (hplan : r'.plan = r.plan)
    (hsame : r'.notifications = r.notifications) (hrest : r'.launching <:+ r.launching)
    (hgoing : r'.Going → r.Going)
    (hannounced : r'.Going → ∀ u, .announce u ∈ r.launching →
      .announce u ∈ r'.launching ∨ (r.notification? u).isSome)
    (hadmitted : r'.Going → ∀ w who, .wait w who ∈ r.launching →
      .wait w who ∈ r'.launching ∨ r.plan.Admits w who) : r'.Notified := by
  have hget : ∀ u, r'.notification? u = r.notification? u := fun u => by
    rw [notification?, notification?, hsame]
  refine ⟨by rw [hsame, hplan, h.length], fun u n hn => ?_, fun u n hn => ?_, fun hg u node hnode hstream hpos => ?_,
    fun u hu hmem => h.once u (hget u ▸ hu) (hrest.subset hmem), fun hg w who hw => ?_⟩
  · rw [Tells, hplan]
    exact h.made u n (hget u ▸ hn)
  · exact Nat.le_trans (Nat.add_le_add_left hrest.sublist.countP_le _) (h.counted u n (hget u ▸ hn))
  · rw [hget]
    rcases h.announced (hgoing hg) u node (hplan ▸ hnode) hstream hpos with hmem | hsome
    · exact hannounced hg u hmem
    · exact Or.inr hsome
  · rw [hplan] at hw ⊢
    rcases h.admitted (hgoing hg) w who hw with hmem | hadmits
    · exact hadmitted hg w who hmem
    · exact Or.inr hadmits

/-- Instructions that neither wait nor announce. -/
theorem Notified.next (h : r.Notified) (hnext : r.Next a q) (hwait : ∀ w who, a ≠ .wait w who)
    (hannounce : ∀ u, a ≠ .announce u) : q.Notified := by
  cases hnext with
  | draining => exact h.drop rfl rfl (List.suffix_refl _) id (fun _ _ => Or.inl) fun _ _ _ => Or.inl
  | launching heq =>
      refine h.drop rfl rfl (by rw [heq]; exact List.suffix_cons ..)
        (fun hg => ⟨hg.1, Or.inr (by simp [heq])⟩) (fun _ u hmem => ?_) fun _ w who hmem => ?_
      · rw [heq] at hmem
        exact Or.inl ((List.mem_cons.mp hmem).resolve_left (hannounce u).symm)
      · rw [heq] at hmem
        exact Or.inl ((List.mem_cons.mp hmem).resolve_left (hwait w who).symm)

/-- One wait on a notification less is ahead. -/
theorem Notified.waited (h : r.Notified) {w : PlannedWait} {who : Waiter} {n : Notification} {k : Nat}
    (hlaunching : r.launching = .wait w who :: q.launching) (hn : r.notification? w.producer = some n)
    (hk : k ≤ 1) :
    r.Tells w.producer { n with waits := n.waits + k } ∧
      n.waits + k + q.launching.countP (Instruction.awaits w.producer) ≤ n.consumers := by
  refine ⟨h.made _ n hn, ?_⟩
  have hcounted := h.counted _ n hn
  have hself : Instruction.awaits w.producer (.wait w who) = true := by simp [Instruction.awaits]
  rw [hlaunching, List.countP_cons_of_pos hself] at hcounted
  omega

/-! ### By instruction -/

/-- A run that something failed in does not have to announce anything any more. -/
theorem Notified.ended (h : r.Notified) (hplan : r'.plan = r.plan)
    (hsame : r'.notifications = r.notifications) (hrest : r'.launching <:+ r.launching) (hbad : ¬r'.Going) :
    r'.Notified :=
  h.drop hplan hsame hrest (fun hg => absurd hg hbad) (fun hg => absurd hg hbad) fun hg => absurd hg hbad

/-- A run that was stopped goes on with nothing. -/
theorem not_going_stop (r : Run) (e : SessionError) : ¬(r.stop e).Going := by
  intro hg
  cases hg.1

/-- A wait that ended the run, and was perhaps counted. -/
theorem Notified.refused (h : r.Notified) (hp : r.Placed i m) {w : PlannedWait} {who : Waiter}
    (hnext : r.Next (.wait w who) q) {n : Notification} (hn : q.notification? w.producer = some n) {k : Nat}
    (hk : k ≤ 1) (e : SessionError) :
    ((q.keep w.producer { n with waits := n.waits + k }).stop e).Notified := by
  obtain ⟨hlaunching, -, hq⟩ := hp.next_launching hnext Plan.draining_not_wait
  rw [hq] at hn
  obtain ⟨htells, hwaits⟩ := h.waited hlaunching hn hk
  have hfailed : ({ r with launchError := some e } : Run).Notified :=
    h.ended rfl rfl (List.suffix_refl _) fun hg => by cases hg.1
  rw [hq]
  have hnothing : [] <:+ r.launching := List.nil_suffix
  exact hfailed.keep (n := { n with waits := n.waits + k }) hnothing htells nofun
    (Nat.le_trans (Nat.add_le_add_left (Nat.zero_le _) _) hwaits) fun hg => by cases hg.1

/-- A wait that was admitted. -/
theorem Notified.issued (h : r.Notified) (hp : r.Placed i m) {w : PlannedWait} {who : Waiter}
    (hnext : r.Next (.wait w who) q) {n : Notification} (hn : q.notification? w.producer = some n)
    (hadmits : w.f.admits (q.plan.waitingStream who) n.stream = true) :
    (q.keep w.producer { n with waits := n.waits + 1 }).Notified := by
  obtain ⟨hlaunching, -, hq⟩ := hp.next_launching hnext Plan.draining_not_wait
  rw [hq] at hn hadmits
  obtain ⟨htells, hwaits⟩ := h.waited hlaunching hn (Nat.le_refl 1)
  have hadmitted : r.plan.Admits w who := by
    obtain ⟨node, s, hnode, hs, hstream, -⟩ := htells
    exact ⟨node, s, hnode, hs, hstream ▸ hadmits⟩
  have hn : r.notification? w.producer = some n := hn
  have honce : .announce w.producer ∉ q.launching := fun hmem =>
    h.once w.producer (by rw [hn]; rfl) (by rw [hlaunching]; exact List.mem_cons_of_mem _ hmem)
  rw [hq]
  refine h.keep (by rw [hlaunching]; exact List.suffix_cons ..) htells honce hwaits
    fun hg => ⟨hnext.going (hq ▸ hg), fun k hmem => ?_, fun w' who' hmem => ?_⟩
  · rw [hlaunching] at hmem
    exact Or.inl ((List.mem_cons.mp hmem).resolve_left nofun)
  · rw [hlaunching] at hmem
    rcases List.mem_cons.mp hmem with heq | hmem
    · injection heq with hw hwho
      exact Or.inr (hw ▸ hwho ▸ hadmitted)
    · exact Or.inl hmem

/-- A node that was announced, on its stream. -/
theorem Notified.tell (h : r.Notified) (hp : r.Placed i m) {u : Nat} (hnext : r.Next (.announce u) q)
    {node : PlannedNode} {s : Stream} (hn : q.plan.nodes[u]? = some node)
    (hs : q.plan.streamOf node = some s) :
    (q.keep u ⟨s, s.worker?.map fun w => m.markerCount w.timeline, node.consumers, true, 0⟩).Notified := by
  obtain ⟨hlaunching, hsuffix, hq⟩ := hp.next_launching hnext Plan.draining_not_announce
  rw [hq] at hn hs
  have honce : .announce u ∉ q.launching := fun hmem => by
    have := Plan.later hsuffix hmem (3 * u + 2) (3 * u + 2) rfl rfl
    omega
  have htells : r.Tells u
      ⟨s, s.worker?.map fun w => m.markerCount w.timeline, node.consumers, true, 0⟩ :=
    ⟨node, s, hn, hs, rfl, rfl, rfl, by cases s.worker? <;> simp⟩
  rw [hq]
  refine h.keep (by rw [hlaunching]; exact List.suffix_cons ..) htells honce ?_
    fun hg => ⟨hnext.going (hq ▸ hg), fun k hmem => ?_, fun w' who' hmem => ?_⟩
  · show 0 + _ ≤ node.consumers
    rw [Nat.zero_add, hp.sound.consumers hn, ← Plan.countP_awaits]
    exact ((List.suffix_cons ..).trans hsuffix).sublist.countP_le
  · rw [hlaunching] at hmem
    rcases List.mem_cons.mp hmem with heq | hmem
    · injection heq with heq
      exact Or.inr heq
    · exact Or.inl hmem
  · rw [hlaunching] at hmem
    exact Or.inl ((List.mem_cons.mp hmem).resolve_left nofun)

/-- Only nodes on a stream are announced. -/
theorem Placed.announced_stream (hp : r.Placed i m) {u : Nat} (hnext : r.Next (.announce u) q) :
    ∃ node s, q.plan.nodes[u]? = some node ∧ q.plan.streamOf node = some s := by
  obtain ⟨-, hsuffix, -⟩ := hp.next_launching hnext Plan.draining_not_announce
  obtain ⟨node, hn, hstream⟩ := Plan.node_of_announce (hsuffix.subset List.mem_cons_self)
  obtain ⟨s, hs⟩ := Plan.streamOf_of_isSome hp.sound hn hstream
  rw [hnext.plan]
  exact ⟨node, s, hn, hs⟩

/-- Launching ends early once something failed. -/
theorem Notified.check (h : r.Notified) :
    (if r.failure.isSome then { r with launching := [] } else r).Notified := by
  split
  next hsome =>
    refine h.ended rfl rfl List.nil_suffix fun hg => ?_
    rcases hg.2 with hnone | hne
    · have hnone : r.failure = none := hnone
      rw [hnone] at hsome
      cases hsome
    · exact hne rfl
  · exact h

theorem Notified.did (h : r.Notified) (hp : r.Placed i m) (hnext : r.Next a q)
    (hd : Did i m m' q a r' more) : r'.Notified := by
  have hsame : q.Notified → r'.plan = q.plan → r'.notifications = q.notifications →
      r'.launching = q.launching → (r'.Going → q.Going) → r'.Notified := by
    intro hq hplan hnot hlaunching hgoing
    exact hq.drop hplan hnot (hlaunching ▸ List.suffix_refl _) hgoing
      (fun _ _ hmem => Or.inl (hlaunching ▸ hmem)) fun _ _ _ hmem => Or.inl (hlaunching ▸ hmem)
  cases hd with
  | absent =>
      obtain ⟨-, -, hq⟩ := hp.next_launching hnext Plan.draining_not_wait
      exact h.ended (by rw [hq]; rfl) (by rw [hq]; rfl) List.nil_suffix (not_going_stop _ _)
  | refused hn hfails => exact h.refused hp hnext hn hfails.le_one _
  | waited hn hadmits => exact h.issued hp hnext hn hadmits
  | announced hn hs => exact h.tell hp hnext hn hs
  | unannounced hnone =>
      obtain ⟨node, s, hn, hs⟩ := hp.announced_stream hnext
      rw [hnone node hn] at hs
      cases hs
  | check => exact (h.next hnext nofun nofun).check
  | _ => exact hsame (h.next hnext nofun nofun) rfl rfl rfl id

theorem Notified.saw (h : r.Notified) (hp : r.Placed i m) (hs : r.Saw i m r' m') : r'.Notified := by
  have hworked : ∀ {n : PlannedNode} {job : NodeJob} (active : Option NodeJob),
      ({ r.absorb job.node n.name (r.stepOf n job) with active } : Run).Notified := by
    intro n job active
    refine h.drop rfl rfl (List.suffix_refl _) (fun hg => ⟨hg.1, hg.2.imp ?_ id⟩) (fun _ _ => Or.inl)
      fun _ _ _ => Or.inl
    exact fun hnone => (Option.or_eq_none_iff.mp hnone).1
  cases hs with
  | pushed => exact h
  | took => exact h
  | @worked => exact hworked r.active
  | proceeded => exact hworked _
  | did _ hnext _ hdid => exact h.did hp hnext hdid

theorem Notified.start {p : Plan} {fed : List (String × Tensor)} (hr : start p fed = .ok r) : r.Notified := by
  have hnone : ∀ u n, r.notification? u ≠ some n := fun u n hn => by
    rw [notification?_start hr] at hn
    cases hn
  obtain ⟨slots, -, rfl⟩ := Outcome.map_eq_ok.mp hr
  refine ⟨by simp, fun u n hn => absurd hn (hnone u n), fun u n hn => absurd hn (hnone u n),
    fun _ u node hnode hstream hpos => Or.inl (Plan.announced hnode hstream hpos), fun u hu => ?_,
    fun _ _ _ => Or.inl⟩
  obtain ⟨n, hn⟩ := Option.isSome_iff_exists.mp hu
  exact absurd hn (hnone u n)

end Run

end OpGraph
