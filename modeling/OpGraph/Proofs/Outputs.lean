import OpGraph.Kernel.Composed
import OpGraph.Proofs.Outcome

/-!
# `Proofs.Outputs` — what a kernel put last

Every way to make an output puts a tensor in one place and leaves the others alone. `KernelM.Puts` lists the
tensors a computation put, in order; writing elements of an output puts the changed tensor. What stands at a
position afterwards is the tensor that was put there last (`Puts.output?`).
-/

namespace OpGraph

open Outcome

/-! ## One tensor -/

namespace KernelContext

variable {c c' : KernelContext} {i : Nat} {t : Tensor} {d : DataType} {shape : Shape}

theorem output?_place (hi : i < c.outputs.length) (j : Nat) :
    (c.place i t).output? j = if i = j then some t else c.output? j := by
  unfold output? place
  by_cases h : i = j
  · subst h
    simp [hi]
  · simp [h]

theorem output?_start (inputs : List (Option Tensor)) (planned : List DataType) (stream : Option Stream)
    (logger : Option Logger) : (start inputs planned stream logger).output? i = none := by
  unfold output? start
  rw [List.getElem?_replicate]
  split <;> rfl

theorem lt_of_checkOutput {u : Unit} (h : c.checkOutput i d = .ok u) : i < c.planned.length := by
  obtain ⟨type, htype, -⟩ := bind_eq_ok.mp h
  unfold plannedType at htype
  split at htype
  next hi => exact (List.getElem?_eq_some_iff.mp hi).1
  · cases htype

/-- One tensor was put in place, and nothing else changed. -/
def Put (c c' : KernelContext) (i : Nat) (t : Tensor) : Prop := i < c.outputs.length ∧ c' = c.place i t

theorem Put.fits (h : c.Put c' i t) (hlen : c.outputs.length = c.planned.length) :
    c'.outputs.length = c'.planned.length := by
  obtain ⟨-, rfl⟩ := h
  simpa [place] using hlen

theorem setOutput_puts (hlen : c.outputs.length = c.planned.length) (h : c.setOutput i t = .ok c') :
    c.Put c' i t := by
  obtain ⟨u, hcheck, hplace⟩ := bind_eq_ok.mp h
  exact ⟨hlen ▸ lt_of_checkOutput hcheck, (pure_eq_ok.mp hplace).symm⟩

theorem allocate_puts (hlen : c.outputs.length = c.planned.length) (h : c.allocate i d shape = .ok c') :
    ∃ t, c.Put c' i t := by
  obtain ⟨u, hcheck, hzeros⟩ := bind_eq_ok.mp h
  split at hzeros
  next t _ => exact ⟨t, hlen ▸ lt_of_checkOutput hcheck, (pure_eq_ok.mp hzeros).symm⟩
  · cases hzeros

theorem allocatePlanned_puts (hlen : c.outputs.length = c.planned.length)
    (h : c.allocatePlanned i shape = .ok c') : ∃ t, c.Put c' i t := by
  obtain ⟨type, -, hallocate⟩ := bind_eq_ok.mp h
  split at hallocate
  · exact allocate_puts hlen hallocate
  · cases hallocate

theorem overwriteOutput_puts {xs : List (Element d)} (h : c.overwriteOutput i d xs = .ok c') :
    ∃ t, c.Put c' i t := by
  unfold overwriteOutput at h
  split at h
  · cases h
  next t ht =>
    split at h
    next t' _ =>
      have hi : i < c.outputs.length := (List.getElem?_eq_some_iff.mp (Option.join_eq_some_iff.mp ht)).1
      exact ⟨t', hi, (Except.ok.inj h).symm⟩
    · cases h

end KernelContext

/-! ## All tensors -/

namespace KernelM

variable {α β : Type}

/-- What a computation put, in order, with the positions. -/
inductive Puts : {α : Type} → KernelM α → KernelContext → List (Nat × Tensor) → Prop
  | pure {α : Type} {a : α} {c : KernelContext} : Puts (pure a) c []
  | bind {α β : Type} {k : KernelM α} {f : α → KernelM β} {a : α} {c c' : KernelContext}
      {ps qs : List (Nat × Tensor)} :
      Puts k c ps → start k c = (.ok a, c') → Puts (f a) c' qs → Puts (k >>= f) c (ps ++ qs)
  | stopped {α β : Type} {k : KernelM α} {f : α → KernelM β} {e : Abort} {c c' : KernelContext}
      {ps : List (Nat × Tensor)} :
      Puts k c ps → start k c = (.error e, c') → Puts (k >>= f) c ps
  | stop {α : Type} {a : Abort} {c : KernelContext} : Puts (throw a : KernelM α) c []
  | read {c : KernelContext} : Puts (get : KernelM KernelContext) c []
  | put {f : KernelContext → Except OpError KernelContext} {c c' : KernelContext} {i : Nat} {t : Tensor} :
      f c = .ok c' → c.Put c' i t → Puts (update f) c [(i, t)]
  | refused {f : KernelContext → Except OpError KernelContext} {c : KernelContext} {e : OpError} :
      f c = .error e → Puts (update f) c []
  | log {l : Logger} {s : Severity} {message function : String} {origin : Option Origin}
      {c : KernelContext} : Puts (log l s message function origin) c []
  | report {r : StepReport} {c : KernelContext} : Puts (report r) c []
  | launch {job : FixedJob} {c : KernelContext} : Puts (launch job) c []
  | attempt {α : Type} {k : KernelM α} {c : KernelContext} {ps : List (Nat × Tensor)} :
      Puts k c ps → Puts (attempt k) c ps

/-- **What stands at a position is what was put there last.** -/
theorem Puts.output? {k : KernelM α} {c : KernelContext} {ps : List (Nat × Tensor)} (h : Puts k c ps)
    (i : Nat) : (start k c).2.output? i = (lastValue? i ps).or (c.output? i) := by
  induction h with
  | pure => rfl
  | @bind _ _ k f a c c' ps qs _ hk _ ihk ihf =>
      rw [start_bind, hk]
      rw [hk] at ihk
      show (start (f a) c').2.output? i = _
      rw [ihf, ihk, lastValue?_append, Option.or_assoc]
  | stopped _ hk ihk =>
      rw [start_bind, hk]
      rw [hk] at ihk
      exact ihk
  | stop => rfl
  | read => rfl
  | @put f c c' j t hf hput =>
      obtain ⟨hj, rfl⟩ := hput
      rw [start_update, hf]
      show (c.place j t).output? i = _
      rw [KernelContext.output?_place hj]
      by_cases hji : j = i
      · simp [lastValue?, hji]
      · simp [lastValue?, hji]
  | refused hf =>
      rw [start_update, hf]
      rfl
  | @log l s message function origin c =>
      unfold KernelM.log
      cases l.log s message function origin <;> rfl
  | report => rfl
  | @launch job c =>
      rw [start_launch]
      split
      · rfl
      · split <;> rfl
      · rfl
  | attempt _ ih => exact ih

/-- A computation keeps a place for every planned output. -/
theorem Composed.fits {k : KernelM α} (hk : Composed k) {c : KernelContext}
    (hlen : c.outputs.length = c.planned.length) :
    (start k c).2.outputs.length = (start k c).2.planned.length := by
  refine hk.keeps (P := fun c => c.outputs.length = c.planned.length) ?_ ?_ ?_ ?_ ?_ hlen
  · intro c c' i shape h hc
    obtain ⟨t, hput⟩ := KernelContext.allocatePlanned_puts h hc
    exact hput.fits h
  · intro c c' i d shape h hc
    obtain ⟨t, hput⟩ := KernelContext.allocate_puts h hc
    exact hput.fits h
  · exact fun h hc => (KernelContext.setOutput_puts h hc).fits h
  · intro c c' i d xs h hc
    obtain ⟨t, hput⟩ := KernelContext.overwriteOutput_puts hc
    exact hput.fits h
  · exact fun _ _ _ h => h

/-- An operation that makes an output puts one tensor, or is refused. -/
theorem exists_puts_update {f : KernelContext → Except OpError KernelContext} {c : KernelContext} {i : Nat}
    (h : ∀ c', f c = .ok c' → ∃ t, c.Put c' i t) : ∃ ps, Puts (update f) c ps := by
  cases hf : f c with
  | error e => exact ⟨[], .refused hf⟩
  | ok c' =>
      obtain ⟨t, hput⟩ := h c' hf
      exact ⟨[(i, t)], .put hf hput⟩

/-- **What a computation put can be told**, whatever it is made of. -/
theorem Composed.exists_puts {k : KernelM α} (hk : Composed k) {c : KernelContext}
    (hlen : c.outputs.length = c.planned.length) : ∃ ps, Puts k c ps := by
  induction hk generalizing c with
  | pure => exact ⟨[], .pure⟩
  | @bind _ _ k f hk _ ihk ihf =>
      obtain ⟨ps, hps⟩ := ihk hlen
      have hfits := hk.fits hlen
      rcases hstart : start k c with ⟨e | a, c'⟩
      · exact ⟨ps, .stopped hps hstart⟩
      · -- The second part begins with the context that the first one leaves.
        rw [hstart] at hfits
        obtain ⟨qs, hqs⟩ := ihf a hfits
        exact ⟨ps ++ qs, .bind hps hstart hqs⟩
  | stop => exact ⟨[], .stop⟩
  | read => exact ⟨[], .read⟩
  | output => exact exists_puts_update fun _ => KernelContext.allocatePlanned_puts hlen
  | outputTyped => exact exists_puts_update fun _ => KernelContext.allocate_puts hlen
  | setOutput _ t => exact exists_puts_update fun _ h => ⟨t, KernelContext.setOutput_puts hlen h⟩
  | overwrite => exact exists_puts_update fun _ => KernelContext.overwriteOutput_puts
  | log => exact ⟨[], .log⟩
  | report => exact ⟨[], .report⟩
  | launch => exact ⟨[], .launch⟩
  | attempt _ ih =>
      obtain ⟨ps, hps⟩ := ih hlen
      exact ⟨ps, .attempt hps⟩

end KernelM

end OpGraph
