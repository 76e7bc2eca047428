import OpGraph.Kernel.Context

/-!
# `Kernel.Composed` — computations made of the context's operations

Kernels see the context only through its operations: they read it, make outputs in one of the three ways,
write elements of what they made, emit, report, enqueue, stop, and try. `Composed` says that a computation
is put together of these, in any order and number. What every operation keeps, every kernel keeps
(`Composed.keeps`).
-/

namespace OpGraph.KernelM

variable {α β : Type}

/-- Run a computation and go on however it ended. -/
def attempt (k : KernelM α) : KernelM (Except Abort α) := ExceptT.lift k.run

/-- A computation made of the context's operations. -/
inductive Composed : {α : Type} → KernelM α → Prop
  | pure {α : Type} (a : α) : Composed (pure a)
  | bind {α β : Type} {k : KernelM α} {f : α → KernelM β} :
      Composed k → (∀ a, Composed (f a)) → Composed (k >>= f)
  | stop {α : Type} (a : Abort) : Composed (throw a : KernelM α)
  | read : Composed (get : KernelM KernelContext)
  | output (i : Nat) (shape : Shape) : Composed (update (·.allocatePlanned i shape))
  | outputTyped (i : Nat) (d : DataType) (shape : Shape) : Composed (update (·.allocate i d shape))
  | setOutput (i : Nat) (t : Tensor) : Composed (update (·.setOutput i t))
  | overwrite (i : Nat) (d : DataType) (xs : List (Element d)) :
      Composed (update (·.overwriteOutput i d xs))
  | log (l : Logger) (s : Severity) (message function : String) (origin : Option Origin) :
      Composed (log l s message function origin)
  | report (r : StepReport) : Composed (report r)
  | launch (job : FixedJob) : Composed (launch job)
  | attempt {α : Type} {k : KernelM α} : Composed k → Composed (attempt k)

namespace Composed

theorem fail (e : OpError) : Composed (fail e : KernelM α) := stop _

theorem ask (f : KernelContext → Except OpError α) : Composed (ask f) := by
  refine bind read fun c => ?_
  cases f c with
  | ok a => exact pure a
  | error e => exact stop _

theorem view (d : DataType) (t : Tensor) : Composed (view d t) := ask _

end Composed

/-! ## How computations run -/

theorem start_bind (k : KernelM α) (f : α → KernelM β) (c : KernelContext) :
    start (k >>= f) c =
      match start k c with
      | (.ok a, c) => start (f a) c
      | (.error e, c) => (.error e, c) := by
  show (match (k.run).run c with
    | (r, c) => (ExceptT.bindCont f r).run c) = _
  unfold start
  cases (k.run).run c with
  | mk r c => cases r <;> rfl

theorem start_update (f : KernelContext → Except OpError KernelContext) (c : KernelContext) :
    start (update f) c =
      match f c with
      | .ok c' => (.ok (), c')
      | .error e => (.error (.of e), c) := by
  have hget : start (get : KernelM KernelContext) c = (.ok c, c) := rfl
  unfold update ask
  rw [start_bind, start_bind, hget]
  dsimp only
  cases f c <;> rfl

theorem start_attempt (k : KernelM α) (c : KernelContext) :
    start (attempt k) c = (.ok (start k c).1, (start k c).2) := rfl

theorem start_launch (job : FixedJob) (c : KernelContext) :
    start (launch job) c =
      match c.stream with
      | none => (.ok (), c)
      | some (.gpu _) => if job.panics then (.error (.panic none), c) else (.ok (), c)
      | some (.sim ..) => (.ok (), { c with launched := c.launched ++ [job] }) := by
  have hget : start (get : KernelM KernelContext) c = (.ok c, c) := rfl
  unfold launch
  rw [start_bind, hget]
  dsimp only
  rcases hs : c.stream with _ | ⟨_ | _⟩
  · rfl
  · simp only [← hs]
    rfl
  · cases job.panics <;> rfl

/-- What the operations keep, a computation made of them keeps. -/
theorem Composed.keeps {P : KernelContext → Prop}
    (output : ∀ {c c' i shape}, P c → KernelContext.allocatePlanned c i shape = .ok c' → P c')
    (outputTyped : ∀ {c c' i d shape}, P c → KernelContext.allocate c i d shape = .ok c' → P c')
    (setOutput : ∀ {c c' i t}, P c → KernelContext.setOutput c i t = .ok c' → P c')
    (overwrite : ∀ {c c' i d xs}, P c → KernelContext.overwriteOutput c i d xs = .ok c' → P c')
    (emit : ∀ {c : KernelContext} reports log launched, P c → P { c with reports, log, launched })
    {α : Type} {k : KernelM α} (hk : Composed k) : ∀ {c : KernelContext}, P c → P (start k c).2 := by
  have hupdate : ∀ {f : KernelContext → Except OpError KernelContext} {c : KernelContext},
      (∀ c', f c = .ok c' → P c') → P c → P (start (update f) c).2 := by
    intro f c hf hc
    rw [start_update]
    cases h : f c with
    | ok c' => exact hf c' h
    | error e => exact hc
  induction hk with
  | pure a => exact id
  | bind _ _ ihk ihf =>
      intro c hc
      have hfirst := ihk hc
      rw [start_bind]
      split
      next a c' hk' =>
        rw [hk'] at hfirst
        exact ihf a hfirst
      next e c' hk' =>
        rw [hk'] at hfirst
        exact hfirst
  | stop a => exact id
  | read => exact id
  | output i shape => exact fun hc => hupdate (fun _ => output hc) hc
  | outputTyped i d shape => exact fun hc => hupdate (fun _ => outputTyped hc) hc
  | setOutput i t => exact fun hc => hupdate (fun _ => setOutput hc) hc
  | overwrite i d xs => exact fun hc => hupdate (fun _ => overwrite hc) hc
  | log l s message function origin =>
      intro c hc
      unfold KernelM.log
      cases l.log s message function origin with
      | some m => exact emit c.reports (c.log ++ [.message m]) c.launched hc
      | none => exact hc
  | report r => exact fun {c} hc => emit (c.reports ++ [r]) c.log c.launched hc
  | launch job =>
      intro c hc
      rw [start_launch]
      split
      · exact hc
      · split <;> exact hc
      · exact emit c.reports c.log _ hc
  | attempt _ ih => exact fun hc => by rw [start_attempt]; exact ih hc

end OpGraph.KernelM
