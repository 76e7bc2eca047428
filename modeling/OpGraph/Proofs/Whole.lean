import OpGraph.Plan.System

/-!
# `Proofs.Whole` — runs that are taken to their end are runs

Letting workers go as far as they can between any two steps of a host is one of the orders in which a
system can change. So whatever is shown of every system holds of runs that are taken to their end that way.
-/

namespace OpGraph

namespace Machine

variable {Job State : Type} {exec : Executor Job State}

theorem stepFirst_eq_some {s s' : State} {m m' : Machine Job} {b : Bool}
    (h : m.stepFirst exec s = some (b, s', m')) : ∃ w, m.step exec w s = some (s', m') := by
  obtain ⟨w, -, hw⟩ := List.exists_of_findSome?_eq_some h
  obtain ⟨⟨s₁, m₁⟩, hstep, hpair⟩ := Option.map_eq_some_iff.mp hw
  obtain ⟨-, heq⟩ := Prod.mk.inj hpair
  exact ⟨w, hstep.trans (congrArg some heq)⟩

variable {P : State → Machine Job → Prop}

/-- What steps of workers keep, letting them step keeps. -/
theorem settle_induction (step : ∀ s m w s' m', P s m → m.step exec w s = some (s', m') → P s' m')
    (size : Job → Nat) {s : State} {m : Machine Job} (h : P s m) :
    P (m.settle exec size s).1 (m.settle exec size s).2 := by
  have hfirst : ∀ {s m b s' m'}, P s m → m.stepFirst exec s = some (b, s', m') → P s' m' := by
    intro s m b s' m' h hs
    obtain ⟨w, hw⟩ := stepFirst_eq_some hs
    exact step s m w s' m' h hw
  have hjob : ∀ n s m, P s m → P (stepToJob exec n s m).2.1 (stepToJob exec n s m).2.2 := by
    intro n
    induction n with
    | zero => exact fun s m h => h
    | succ n ih =>
        intro s m h
        unfold stepToJob
        split
        · exact h
        next hs => exact hfirst h hs
        next hs => exact ih _ _ (hfirst h hs)
  have hwithin : ∀ n s m, P s m → P (settleWithin exec n s m).1 (settleWithin exec n s m).2 := by
    intro n
    induction n with
    | zero => exact fun s m h => hjob _ s m h
    | succ n ih =>
        intro s m h
        have hstep := hjob (m.closedCommands + 1) s m h
        unfold settleWithin
        split
        next hs =>
          rw [hs] at hstep
          exact ih _ _ hstep
        next hs =>
          rw [hs] at hstep
          exact hstep
  exact hwithin _ s m h

end Machine

namespace Execution

variable {P : Execution → Prop}

theorem settle_induction (work : ∀ x w x', P x → x.workerStep w = some x' → P x') {x : Execution} (h : P x) :
    P x.settle := by
  have hwork : ∀ runs m w runs' m', P ⟨m, runs⟩ → m.step NodeJob.execute w runs = some (runs', m') →
      P ⟨m', runs'⟩ := by
    intro runs m w runs' m' hm hw
    refine work ⟨m, runs⟩ w _ hm ?_
    unfold workerStep
    rw [hw]
    rfl
  exact Machine.settle_induction hwork (NodeJob.size x.runs) h

/-- **What steps of hosts and of workers keep, taking a run to its end keeps.** -/
theorem finish_induction (work : ∀ x w x', P x → x.workerStep w = some x' → P x')
    (host : ∀ x i x', P x → x.hostStep i = some x' → P x') {x : Execution} (h : P x) (i : Nat) :
    P (x.finish i) := by
  have hadvance : ∀ fuel x, P x → P (x.advance i fuel) := by
    intro fuel
    induction fuel with
    | zero => exact fun x h => settle_induction work h
    | succ fuel ih =>
        intro x h
        have hsettled := settle_induction work h
        unfold advance
        dsimp only
        split
        · exact hsettled
        next x' hx => exact ih x' (host _ _ _ hsettled hx)
  exact hadvance _ x h

end Execution

namespace System

variable {σ : System}

/-- **A run that is taken to its end is one of the runs that can come about.** -/
theorem Reached.finish (h : σ.Reached) (i : Nat) :
    ({ σ with execution := σ.execution.finish i } : System).Reached :=
  Execution.finish_induction (P := fun x => ({ σ with execution := x } : System).Reached)
    (fun _ _ _ hx hw => .step hx (.work hw)) (fun _ _ _ hx hh => .step hx (.host hh)) h i

/-- A first session, its first plan, and the first run of it, taken to its end. -/
theorem Reached.first {setup : Setup} {s : Session} {g : Graph} {p : Plan} {life : List LifeEvent}
    {m₁ m₂ : Machine NodeJob} {events : List LogEvent} {fed : List (String × Tensor)} {r : Run}
    (hgiven : setup.providers = []) (hstart : Session.start setup {} = (.ok (s, m₁), events))
    (hbuild : Plan.build s g m₁ = ((.ok p, life), m₂)) (hr : Run.start p fed = .ok r) :
    ({ sessions := [s], plans := [p], feeds := [fed]
       execution := (Execution.mk m₂ [r]).finish 0 } : System).Reached := by
  have hsession : ({ sessions := [s], execution := ⟨m₁, []⟩ } : System).Reached :=
    .step .empty (.session (by simp [hgiven]) hstart)
  have hprepare : ({ sessions := [s], plans := [p], execution := ⟨m₂, []⟩ } : System).Reached :=
    .step hsession (.prepare List.mem_cons_self hbuild)
  have hbegin : ({ sessions := [s], plans := [p], feeds := [fed], execution := ⟨m₂, [r]⟩ } :
      System).Reached := .step hprepare (.begin List.mem_cons_self hr)
  exact hbegin.finish 0

end System

end OpGraph
