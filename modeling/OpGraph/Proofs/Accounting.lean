import OpGraph.Proofs.Blame
import OpGraph.Proofs.Chronicle

/-!
# `Proofs.Accounting` — notifications and the waits on them, counted

A notification is made for as many waits as the plan has for its node. What the host of a run carried out
is the beginning of what the plan says, so it is activated once, before any wait on it, and never has more
waits issued on it than it was made for; it has all of them once the host went through everything
(`System.notifications_accounted`). So no wait finds its notification missing or taken, and a run that
comes to its end with nothing failed has every output.
-/

namespace OpGraph

open Machine

/-- Every wait comes after the announcement of the node that is waited for. -/
def Heralded (done : List Instruction) : Prop :=
  ∀ earlier w who, earlier ++ [.wait w who] <+: done → .announce w.producer ∈ earlier

section Heralded

variable {done : List Instruction} {a : Instruction} {u : Nat}

theorem Heralded.nil : Heralded [] := fun earlier w who h => by simp at h

theorem Heralded.concat (h : Heralded done)
    (ha : ∀ w who, a = .wait w who → .announce w.producer ∈ done) : Heralded (done ++ [a]) := by
  intro earlier w who hprefix
  rcases List.prefix_concat_iff.mp hprefix with heq | hprefix
  · obtain ⟨rfl, hlast⟩ := List.append_inj' heq rfl
    exact ha w who (List.singleton_inj.mp hlast).symm
  · exact h earlier w who hprefix

/-- Nobody waited for a node that was not announced. -/
theorem Heralded.countP_eq_zero (h : Heralded done) (hu : .announce u ∉ done) :
    done.countP (Instruction.awaits u) = 0 := by
  refine List.countP_eq_zero.mpr fun a ha hawaits => ?_
  cases a with
  | wait w who =>
      obtain ⟨earlier, later, rfl⟩ := List.append_of_mem ha
      obtain rfl : w.producer = u := by simpa [Instruction.awaits] using hawaits
      refine hu (List.mem_append_left _ (h earlier w who ?_))
      exact ⟨later, by simp⟩
  | _ => cases hawaits

end Heralded

namespace Run

variable {i : Nat} {r r' q : Run} {m m' : Machine NodeJob} {a : Instruction}
  {more : Worker → List (Command NodeJob)} {done : List Instruction} {fed : List (String × Tensor)}

/-! ## What every instruction keeps -/

/-- Notifications and waits of a run, as counted while its host goes on. -/
structure Tallied (r : Run) (done : List Instruction) : Prop where
  activated : ∀ u, done.count (.announce u) = if (r.notification? u).isSome then 1 else 0
  heralded : Heralded done
  issued : ∀ u n, r.notification? u = some n → n.waits ≤ done.countP (Instruction.awaits u) ∧
    (r.launchError = none → n.waits = done.countP (Instruction.awaits u))

theorem Tallied.start {p : Plan} (hr : start p fed = .ok r) : r.Tallied [] := by
  have hnone := notification?_start hr
  refine ⟨fun u => by simp [hnone], .nil, fun u n hn => ?_⟩
  rw [hnone] at hn
  cases hn

theorem Tallied.same (h : r.Tallied done) (hnotifications : r'.notifications = r.notifications)
    (herror : r'.launchError = r.launchError) : r'.Tallied done := by
  have hget : ∀ u, r'.notification? u = r.notification? u := fun u => by
    rw [notification?, notification?, hnotifications]
  refine ⟨fun u => by rw [hget, h.activated], h.heralded, fun u n hn => ?_⟩
  rw [herror]
  exact h.issued u n (hget u ▸ hn)

/-- What was activated was announced. -/
theorem Tallied.announced (h : r.Tallied done) {u : Nat} (hu : (r.notification? u).isSome) :
    .announce u ∈ done := by
  refine List.count_pos_iff.mp ?_
  rw [h.activated, if_pos hu]
  exact Nat.one_pos

/-- Instructions that neither announce nor wait. -/
theorem Tallied.quiet (h : r.Tallied done) (hwait : ∀ w who, a ≠ .wait w who)
    (hannounce : ∀ u, a ≠ .announce u) : r.Tallied (done ++ [a]) := by
  have hcount : ∀ u, (done ++ [a]).count (.announce u) = done.count (.announce u) := fun u => by
    rw [List.count_append, List.count_singleton, if_neg (by simpa using hannounce u), Nat.add_zero]
  have hcountP : ∀ u, (done ++ [a]).countP (Instruction.awaits u) =
      done.countP (Instruction.awaits u) := fun u => by
    rw [List.countP_append, List.countP_singleton, if_neg, Nat.add_zero]
    cases a with
    | wait w who => exact absurd rfl (hwait w who)
    | _ => nofun
  exact ⟨fun u => by rw [hcount, h.activated], h.heralded.concat fun w who heq => absurd heq (hwait w who),
    fun u n hn => by rw [hcountP]; exact h.issued u n hn⟩

theorem lt_of_notification? {u : Nat} {n : Notification} (h : r.notification? u = some n) :
    u < r.notifications.length := by
  refine Nat.lt_of_not_le fun hle => ?_
  simp [notification?, List.getElem?_eq_none hle] at h

/-- One more wait on a notification. -/
theorem Tallied.wait (h : r.Tallied done) {w : PlannedWait} {who : Waiter} {n n' : Notification}
    (hn : r.notification? w.producer = some n)
    (hget : ∀ u, r'.notification? u = if w.producer = u then some n' else r.notification? u)
    (hwaits : n'.waits ≤ n.waits + 1)
    (hfine : r'.launchError = none → r.launchError = none ∧ n'.waits = n.waits + 1) :
    r'.Tallied (done ++ [.wait w who]) := by
  have hcountP : ∀ u, (done ++ [Instruction.wait w who]).countP (Instruction.awaits u) =
      done.countP (Instruction.awaits u) + if w.producer = u then 1 else 0 := fun u => by
    simp [Instruction.awaits]
  have hmade : ∀ u, (r'.notification? u).isSome = (r.notification? u).isSome := fun u => by
    rw [hget]
    split
    next heq => rw [← heq, hn, Option.isSome_some, Option.isSome_some]
    · rfl
  refine ⟨fun u => ?_, h.heralded.concat fun w' who' heq => ?_, fun u n₁ hn₁ => ?_⟩
  · rw [hmade, ← h.activated]
    simp
  · injection heq with hw
    exact hw ▸ h.announced (by rw [hn]; rfl)
  · rw [hget] at hn₁
    rw [hcountP]
    split at hn₁
    next heq =>
      subst heq
      obtain rfl := Option.some.inj hn₁
      obtain ⟨hle, hall⟩ := h.issued _ n hn
      rw [if_pos rfl]
      refine ⟨Nat.le_trans hwaits (Nat.add_le_add_right hle 1), fun hnone => ?_⟩
      obtain ⟨hnone, hone⟩ := hfine hnone
      rw [hone, hall hnone]
    next hne =>
      rw [if_neg hne, Nat.add_zero]
      obtain ⟨hle, hall⟩ := h.issued u n₁ hn₁
      exact ⟨hle, fun hnone => hall (hfine hnone).1⟩

/-- A notification is made and activated. -/
theorem Tallied.announce (h : r.Tallied done) {u : Nat} {n : Notification} (hnew : r.notification? u = none)
    (hget : ∀ k, r'.notification? k = if u = k then some n else r.notification? k) (hwaits : n.waits = 0)
    (herror : r'.launchError = r.launchError) : r'.Tallied (done ++ [.announce u]) := by
  have hcountP : ∀ k, (done ++ [Instruction.announce u]).countP (Instruction.awaits k) =
      done.countP (Instruction.awaits k) := fun k => by
    simp [Instruction.awaits]
  have hnever : .announce u ∉ done := by
    refine List.count_eq_zero.mp ?_
    rw [h.activated, hnew]
    rfl
  refine ⟨fun k => ?_, h.heralded.concat fun _ _ heq => (by cases heq), fun k n₁ hn₁ => ?_⟩
  · rw [List.count_append, List.count_singleton, h.activated, hget]
    by_cases hk : u = k
    · subst hk
      simp [hnew]
    · simp [hk]
  · rw [hget] at hn₁
    rw [hcountP, herror]
    split at hn₁
    next heq =>
      obtain rfl := Option.some.inj hn₁
      have hzero := heq ▸ h.heralded.countP_eq_zero hnever
      exact ⟨by omega, fun _ => by omega⟩
    · exact h.issued k n₁ hn₁

/-- **Every instruction a host carries out keeps the count.** -/
theorem Tallied.did (h : r.Tallied done) (hl : r.Lawful fed i m) (hnext : r.Next a q)
    (hd : Did i m m' q a r' more) : r'.Tallied (done ++ [a]) := by
  obtain ⟨hnotifications, -, herror, -⟩ := hnext.host
  have htallied : q.Tallied done := h.same hnotifications herror
  have hquiet : (∀ w who, a ≠ .wait w who) → (∀ u, a ≠ .announce u) → q.Tallied (done ++ [a]) :=
    htallied.quiet
  cases hd with
  | absent hnone =>
      obtain ⟨n, hn, -⟩ := hl.wait_left hnext
      rw [hnone] at hn
      cases hn
  | @refused w who n k e hn hfails =>
      have hget := notification?_kept (lt_of_notification? hn) (n := { n with waits := n.waits + k })
      exact htallied.wait hn hget (Nat.add_le_add_left hfails.le_one _) fun hnone => nomatch hnone
  | @waited w who n _ hn =>
      have hget := notification?_kept (lt_of_notification? hn) (n := { n with waits := n.waits + 1 })
      exact htallied.wait hn hget (Nat.le_refl _) fun hnone => ⟨hnone, rfl⟩
  | @announced u node s hn =>
      obtain ⟨hlaunching, -⟩ := hl.placed.next_launching hnext Plan.draining_not_announce
      have hlt : u < q.notifications.length := by
        rw [hnotifications, hl.notified.length, ← hnext.plan]
        exact (List.getElem?_eq_some_iff.mp hn).1
      refine htallied.announce ?_ (notification?_kept hlt) rfl rfl
      · rw [hnext.notification?]
        refine Option.not_isSome_iff_eq_none.mp fun hsome => hl.notified.once u hsome ?_
        rw [hlaunching]
        exact List.mem_cons_self
  | unannounced hnone =>
      obtain ⟨node, s, hn, hs⟩ := hl.placed.announced_stream hnext
      rw [hnone node hn] at hs
      cases hs
  | check => exact (hquiet nofun nofun).same (by split <;> rfl) (by split <;> rfl)
  | _ => exact (hquiet nofun nofun).same rfl rfl

/-! ## What balances -/

/-- No wait is among the last instructions, so there are at most as many as the plan has. -/
theorem Trail.countP_le {launched drained : List Instruction} (h : r.Trail launched drained) (u : Nat) :
    (launched ++ drained).countP (Instruction.awaits u) ≤ r.plan.launching.countP (Instruction.awaits u) := by
  obtain ⟨⟨dropped, hplan, -⟩, ⟨dropped', hplan', -⟩, -⟩ := h
  have hnone : drained.countP (Instruction.awaits u) = 0 := by
    refine List.countP_eq_zero.mpr fun a ha hawaits => ?_
    cases a with
    | wait w who =>
        have hmem : .wait w who ∈ r.plan.draining := by
          rw [hplan', List.append_assoc]
          exact List.mem_append_left _ ha
        exact absurd hmem Plan.draining_not_wait
    | _ => cases hawaits
  rw [List.countP_append, hnone, hplan, List.countP_append, List.countP_append]
  omega

/-- Where nothing failed, nothing was dropped. -/
theorem Trail.through {launched drained : List Instruction} (h : r.Trail launched drained)
    (hlaunching : r.launching = []) (herror : r.launchError = none) (hfailure : r.failure = none) :
    r.plan.launching <+: launched ++ drained := by
  obtain ⟨⟨dropped, hplan, hwhy⟩, -, -⟩ := h
  obtain rfl : dropped = [] := Classical.byContradiction fun hne => by
    rcases (hwhy hne).2 with hbad | hbad
    · exact hbad herror
    · exact hbad hfailure
  rw [hplan, hlaunching, List.append_nil, List.append_nil]
  exact List.prefix_append ..

end Run

/-- Errors that would say that a plan or its notifications are not right. -/
def SessionError.IsInternal : SessionError → Prop
  | .missingOutput _ => True
  | .invalidGraph (.neverLaunched _) => True
  | .stream (.overWaited ..) => True
  | _ => False

theorem SessionError.OfStream.not_internal {e : SessionError} (h : e.OfStream) : ¬e.IsInternal := by
  obtain ⟨e', rfl, hne⟩ := h
  cases e' with
  | overWaited p k => exact absurd rfl (hne p k)
  | _ => exact id

namespace Run

/-- Waits and notifications of a run, given what its host carried out. -/
structure Accounted (r : Run) (done : List Instruction) : Prop where
  /-- A notification there is was activated once; no other was. -/
  activated : ∀ u, done.count (.announce u) = if (r.notification? u).isSome then 1 else 0
  /-- Every wait comes after the activation it waits for. -/
  heralded : Heralded done
  /-- A notification was made for the consumers of its node, and never has more waits issued on it. -/
  within : ∀ u n, r.notification? u = some n → ∃ node, r.plan.nodes[u]? = some node ∧ n.ready = true ∧
    n.consumers = node.consumers ∧ n.waits ≤ done.countP (Instruction.awaits u) ∧
    done.countP (Instruction.awaits u) ≤ node.consumers
  /-- It has all of them once the host went through all nodes and outputs. -/
  all : r.plan.launching <+: done → ∀ (u : Nat) node, r.plan.nodes[u]? = some node → node.stream.isSome →
    done.countP (Instruction.awaits u) = node.consumers ∧ (node.consumers ≠ 0 → r.launchError = none →
      ∃ n, r.notification? u = some n ∧ n.waits = node.consumers)
  /-- The host goes through all of them where nothing fails. -/
  through : r.launching = [] → r.launchError = none → r.failure = none → r.plan.launching <+: done
  launchError : ∀ e, r.launchError = some e → ¬e.IsInternal
  result : r.isOver = true → ∀ e, r.result = .error e → ¬e.IsInternal

end Run

namespace System

variable {σ : System}

theorem Chronicled.tallied {log : List (Nat × Instruction)} (h : Chronicled σ log) {i : Nat} {r : Run}
    (hr : σ.runs[i]? = some r) : r.Tallied (carriedOut i log) :=
  h.kept (P := fun _ r _ done => r.Tallied done) (fun hstart _ => .start hstart)
    (fun _ _ htallied _ hsame => htallied.same hsame.notifications hsame.launchError)
    (fun hlawful _ htallied _ hnext _ hdid => htallied.did hlawful hnext hdid) hr

/-- A run that is over has every output, or something failed that is nobody's mistake in planning. -/
theorem Reached.result_not_internal (h : Reached σ) {i : Nat} {r : Run} (hr : σ.runs[i]? = some r)
    (hover : r.isOver = true) {e : SessionError} (he : r.result = .error e) : ¬e.IsInternal := by
  have hsourced := h.sourced hr
  obtain ⟨fed, hlawful⟩ := h.exists_lawful hr
  cases herror : (r.launchError.or r.failure).or r.flushError with
  | none =>
      obtain ⟨hboth, hflush⟩ := Option.or_eq_none_iff.mp herror
      obtain ⟨hlaunch, hfailure⟩ := Option.or_eq_none_iff.mp hboth
      obtain ⟨outs, houts, -⟩ := hlawful.result_eq hover ⟨hfailure, hlaunch, hflush⟩
      rw [he] at houts
      cases houts
  | some e' =>
      have hsame : r.result = .error e' := by
        unfold Run.result
        rw [herror]
      obtain rfl := Except.error.inj (he.symm.trans hsame)
      rcases Option.or_eq_some_iff.mp herror with hboth | ⟨-, hflush⟩
      · rcases Option.or_eq_some_iff.mp hboth with hlaunch | ⟨-, hfailure⟩
        · exact (hsourced.launchError _ hlaunch).not_internal
        · obtain ⟨j, n, source, -, rfl, -⟩ := (h.rooted hr).failure _ hfailure
          exact id
      · exact (hsourced.flushError _ hflush).not_internal

/-- **Notifications and the waits on them balance.** In every system, by whatever chronicle it came about, a
    notification of a run is activated once and before any wait on it, and is waited for at most as often as
    it was made for, exactly so once the host went through all nodes and outputs. No run ends with an error
    that says otherwise, or without an output. -/
theorem notifications_accounted (h : Reached σ) : (∃ log, Chronicled σ log) ∧
    ∀ log, Chronicled σ log → ∀ (i : Nat) r, σ.runs[i]? = some r → r.Accounted (carriedOut i log) := by
  refine ⟨h.exists_chronicle, fun log hlog i r hr => ?_⟩
  have htallied := hlog.tallied hr
  obtain ⟨launched, drained, hdone, htrail⟩ := hlog.trail hr
  obtain ⟨fed, hlawful⟩ := h.exists_lawful hr
  have hatMost : ∀ (u : Nat) node, r.plan.nodes[u]? = some node →
      (carriedOut i log).countP (Instruction.awaits u) ≤ node.consumers := by
    intro u node hnode
    rw [hlawful.placed.sound.consumers hnode, ← Plan.countP_awaits, hdone]
    exact htrail.countP_le u
  refine ⟨htallied.activated, htallied.heralded, fun u n hn => ?_, fun hthrough u node hnode hstream => ?_,
    fun hlaunching herror hfailure => hdone ▸ htrail.through hlaunching herror hfailure,
    fun e he => ((h.sourced hr).launchError e he).not_internal,
    fun hover e he => h.result_not_internal hr hover he⟩
  · obtain ⟨node, s, hnode, -, -, hready, hconsumers, -⟩ := hlawful.notified.made u n hn
    exact ⟨node, hnode, hready, hconsumers, (htallied.issued u n hn).1, hatMost u node hnode⟩
  · have hcount : (carriedOut i log).countP (Instruction.awaits u) = node.consumers := by
      refine Nat.le_antisymm (hatMost u node hnode) ?_
      rw [hlawful.placed.sound.consumers hnode, ← Plan.countP_awaits]
      exact hthrough.sublist.countP_le
    refine ⟨hcount, fun hpos herror => ?_⟩
    have hannounce : .announce u ∈ carriedOut i log := hthrough.subset (Plan.announced hnode hstream hpos)
    have hsome : (r.notification? u).isSome := by
      refine Classical.byContradiction fun hnone => ?_
      have hzero := htallied.activated u
      rw [if_neg hnone] at hzero
      exact List.count_eq_zero.mp hzero hannounce
    obtain ⟨n, hn⟩ := Option.isSome_iff_exists.mp hsome
    exact ⟨n, hn, ((htallied.issued u n hn).2 herror).trans hcount⟩

/-- The float is given back twice, so the host waits twice for the node on the device. -/
theorem notifications_accounted_relay : ∃ (σ : System) (r : Run) (log : List (Nat × Instruction)),
    Chronicled σ log ∧ σ.runs[0]? = some r ∧ r.isOver = true ∧ r.result = .ok [relayed, relayed] ∧
    (r.notification? 1).map (·.waits) = some 2 ∧ r.Accounted (carriedOut 0 log) ∧
    (carriedOut 0 log).countP (Instruction.awaits 1) = 2 := by
  have hwhole : ∃ s m₁ events p life m₂ r₀ r' node,
      Session.start relaySetup ({} : Machine NodeJob) = (.ok (s, m₁), events) ∧
      Plan.build s { relayGraph with outputs := ["z", "z"] } m₁ = ((.ok p, life), m₂) ∧
      Run.start p [("x", relayed)] = .ok r₀ ∧ ((Execution.mk m₂ [r₀]).finish 0).runs[0]? = some r' ∧
      r'.isOver = true ∧ r'.result = .ok [relayed, relayed] ∧ r'.launching = [] ∧
      (r'.notification? 1).map (·.waits) = some 2 ∧ r'.plan.nodes[1]? = some node ∧
      node.stream.isSome = true ∧ node.consumers = 2 :=
    ⟨_, _, _, _, _, _, _, _, _, rfl, rfl, rfl, rfl, rfl, rfl, rfl, rfl, rfl, rfl, rfl⟩
  obtain ⟨s, m₁, events, p, life, m₂, r₀, r, node, hstart, hbuild, hr₀, hr, hover, hresult, hlaunching,
    hwaits, hnode, hstream, hconsumers⟩ := hwhole
  have hreached := Reached.first rfl hstart hbuild hr₀
  obtain ⟨⟨log, hlog⟩, hall⟩ := notifications_accounted hreached
  have haccounted := hall log hlog 0 r hr
  obtain ⟨hfine, -⟩ := Run.result_eq_ok.mp hresult
  have hthrough := haccounted.through hlaunching hfine.launchError hfine.failure
  exact ⟨_, r, log, hlog, hr, hover, hresult, hwaits, haccounted,
    ((haccounted.all hthrough 1 node hnode hstream).1).trans hconsumers⟩

end System

end OpGraph
