import OpGraph.Proofs.Machine

/-!
# `Proofs.Waiting` — what a wait that returned has seen to

Whether a wait is admitted depends on who waits for whom, and on how many waits were issued before. A wait
that returned was admitted; and either the marker had been reached by then, or the waiting queue has the
marker to wait for behind everything put in it before.
-/

namespace OpGraph

variable {Job : Type}

namespace WaitFunction

/-- Whether a consumer may wait for a producer in this way. -/
def admits (f : WaitFunction) (consumer : Option Stream) (producer : Stream) : Bool :=
  producer.device.backend = f.backend &&
    match f.target, consumer with
    | .device, none => false
    | .device, some s => producer.device.isPeer s.device
    | .host, _ => true

/-- A check counts at most one wait, exactly one if it is passed, and changes nothing else about the
    notification. -/
theorem check_snd (f : WaitFunction) (consumer : Option Stream) (n : Notification) :
    ∃ k ≤ 1, (f.check consumer n).2 = { n with waits := n.waits + k } ∧
      ∀ u, (f.check consumer n).1 = .ok u → k = 1 := by
  unfold check Notification.countWait
  split
  · exact ⟨0, by omega, rfl, nofun⟩
  · split
    · exact ⟨0, by omega, rfl, nofun⟩
    · split
      · exact ⟨1, by omega, rfl, fun _ _ => rfl⟩
      · exact ⟨0, by omega, rfl, nofun⟩
  · split
    · exact ⟨0, by omega, rfl, nofun⟩
    · exact ⟨1, by omega, rfl, fun _ _ => rfl⟩

/-- A check is passed by consumers that may wait, as long as waits are left. -/
theorem check_eq_ok {f : WaitFunction} {consumer : Option Stream} {n : Notification} :
    (∃ u, (f.check consumer n).1 = .ok u) ↔
      f.admits consumer n.stream = true ∧ n.waits < n.consumers := by
  have hbackend : n.backend = n.stream.device.backend := rfl
  have hcount : (∃ u, n.countWait.1 = .ok u) ↔ n.waits < n.consumers := by
    unfold Notification.countWait
    split <;> simp [*]
  obtain ⟨target, backend⟩ := f
  unfold check admits
  rw [← hbackend]
  cases target with
  | device =>
      cases consumer with
      | none => simp
      | some s =>
          by_cases heq : n.backend = backend
          · by_cases hpeer : n.stream.device.isPeer s.device = true
            · simp [hcount, heq, hpeer]
            · simp [heq, hpeer]
          · simp [heq]
  | host =>
      by_cases heq : n.backend = backend
      · simp [hcount, heq]
      · simp [heq]

/-- A wait too many is only refused where the consumer may wait. -/
theorem admits_of_overWaited {f : WaitFunction} {consumer : Option Stream} {n : Notification}
    {p : ProviderId} {k : Nat} (h : (f.check consumer n).1 = .error (.overWaited p k)) :
    f.admits consumer n.stream = true := by
  have hbackend : n.backend = n.stream.device.backend := rfl
  obtain ⟨target, backend⟩ := f
  unfold check at h
  unfold admits
  rw [← hbackend]
  -- Before it counts, a check refuses other backends and devices that are no peers.
  cases target with
  | device =>
      cases consumer with
      | none => cases h
      | some s =>
          by_cases heq : n.backend = backend
          · by_cases hpeer : n.stream.device.isPeer s.device = true
            · simp [heq, hpeer]
            · simp [heq, hpeer] at h
          · simp [heq] at h
  | host =>
      by_cases heq : n.backend = backend
      · simp [heq]
      · simp [heq] at h

/-- As long as waits are left, a check says nothing of too many. -/
theorem check_ne_overWaited {f : WaitFunction} {consumer : Option Stream} {n : Notification}
    (hleft : n.waits < n.consumers) (p : ProviderId) (k : Nat) :
    (f.check consumer n).1 ≠ .error (.overWaited p k) := by
  intro h
  obtain ⟨u, hu⟩ := check_eq_ok.mpr ⟨admits_of_overWaited h, hleft⟩
  rw [h] at hu
  cases hu

/-- What ends a run at a wait, which by then counted so many times. -/
inductive Fails (f : WaitFunction) (consumer : Option Stream) (n : Notification) : Nat → StreamError → Prop
  /-- The wait was refused. -/
  | refused {k : Nat} {e : StreamError} : k ≤ 1 →
      ¬(f.admits consumer n.stream = true ∧ n.waits < n.consumers) → (f.check consumer n).1 = .error e →
      Fails f consumer n k e
  /-- The device reported something as it was polled. -/
  | reported {e : StreamError} : n.stream.poll = .error e → Fails f consumer n 1 e

theorem Fails.le_one {f : WaitFunction} {consumer : Option Stream} {n : Notification} {k : Nat} {e : StreamError}
    (h : f.Fails consumer n k e) : k ≤ 1 := by
  cases h with
  | refused hk => exact hk
  | reported => exact Nat.le_refl 1

/-- As long as waits are left, nothing tells of too many. -/
theorem Fails.ne_overWaited {f : WaitFunction} {consumer : Option Stream} {n : Notification} {k : Nat}
    {e : StreamError} (h : f.Fails consumer n k e) (hleft : n.waits < n.consumers) (p : ProviderId) (c : Nat) :
    e ≠ .overWaited p c := by
  rintro rfl
  cases h with
  | refused _ _ hcheck => exact check_ne_overWaited hleft p c hcheck
  | reported hreport => exact Stream.poll_ne_overWaited p c hreport

theorem outcome_eq_error {f : WaitFunction} {n : Notification} {e : StreamError} (h : f.outcome n = .error e) :
    n.stream.poll = .error e := by
  unfold outcome at h
  split at h
  · cases h
  · exact h

/-- On graphics devices a wait puts nothing anywhere. -/
theorem complete_eq_self {f : WaitFunction} {consumer : Option Stream} {n : Notification} {m m' : Machine Job}
    (hgpu : n.stream.worker? = none) (h : f.complete consumer n m = some m') : m' = m := by
  unfold complete at h
  split at h
  · cases h
  split at h
  next hstream _ =>
    rw [hstream] at hgpu
    cases hgpu
  next hstream _ =>
    rw [hstream] at hgpu
    cases hgpu
  · exact (Option.some.inj h).symm

/-- What a wait sees to with the commands it puts in queues. -/
structure Sees (consumer : Option Stream) (n : Notification) (m : Machine Job)
    (more : Machine.Worker → List (Command Job)) : Prop where
  /-- It puts nothing in a queue but waits of the consumer for the marker. -/
  waits : ∀ w, ∀ c ∈ more w, ∃ u k, c = .wait k ∧ n.marker? = some k ∧ n.stream.worker? = some u ∧
    w.timeline = u.timeline ∧ ∃ s, consumer = some s ∧ s.worker? = some w
  /-- The marker was reached, or the consumer's queue waits for it. -/
  reached : ∀ u k, n.stream.worker? = some u → n.marker? = some k →
    (m.reachedAt u.timeline k).isSome ∨ ∃ s w, consumer = some s ∧ s.worker? = some w ∧
      w.timeline = u.timeline ∧ .wait k ∈ more w

section Sees

variable {consumer : Option Stream} {n : Notification} {m : Machine Job}

/-- A notification without a marker leaves nothing to see to. -/
theorem sees_unmarked (h : n.stream.worker? = none ∨ n.marker? = none) :
    Sees consumer n m Machine.nothing := by
  refine ⟨by simp [Machine.nothing], fun u k hu hk => ?_⟩
  rcases h with hnone | hnone
  · rw [hnone] at hu
    cases hu
  · rw [hnone] at hk
    cases hk

theorem sees_reached {u : Machine.Worker} {k : Nat} (hu : n.stream.worker? = some u) (hk : n.marker? = some k)
    (h : (m.reachedAt u.timeline k).isSome) : Sees consumer n m Machine.nothing := by
  refine ⟨by simp [Machine.nothing], fun u' k' hu' hk' => Or.inl ?_⟩
  obtain rfl := Option.some.inj (hu.symm.trans hu')
  obtain rfl := Option.some.inj (hk.symm.trans hk')
  exact h

theorem sees_enqueued {s : Stream} {u w : Machine.Worker} {k : Nat} (hs : consumer = some s) (hw : s.worker? = some w)
    (hu : n.stream.worker? = some u) (hk : n.marker? = some k) (htimeline : w.timeline = u.timeline) :
    Sees consumer n m (Machine.only w (.wait k)) := by
  refine ⟨fun w' c hc => ?_, fun u' k' hu' hk' => Or.inr ?_⟩
  · unfold Machine.only at hc
    split at hc
    next heq =>
      subst heq
      exact ⟨u, k, List.mem_singleton.mp hc, hk, hu, htimeline, s, hs, hw⟩
    · cases hc
  · obtain rfl := Option.some.inj (hu.symm.trans hu')
    obtain rfl := Option.some.inj (hk.symm.trans hk')
    exact ⟨s, w, hs, hw, htimeline, by simp [Machine.only]⟩

end Sees

/-- What the rest of an admitted wait has seen to when it returns. -/
theorem complete_eq_some {f : WaitFunction} {consumer : Option Stream} {n : Notification}
    {m m' : Machine Job} (hon : ∀ s, consumer = some s → s.On m)
    (hadmits : f.admits consumer n.stream = true) (h : f.complete consumer n m = some m') :
    n.ready = true ∧ ∃ more, Machine.Pushes m m' more ∧ Sees consumer n m more := by
  have hcomplete := h
  unfold complete at h
  split at h
  · cases h
  next hready =>
  refine ⟨by simpa using hready, ?_⟩
  obtain ⟨stream, marker?, consumers, ready, waits⟩ := n
  unfold admits at hadmits
  cases stream with
  | gpu context =>
      exact ⟨_, complete_eq_self rfl hcomplete ▸ Machine.Pushes.refl m, sees_unmarked (Or.inl rfl)⟩
  | sim timeline queue provider =>
  cases marker? with
  | none =>
      have hsame : m' = m := by
        split at h
        next hmarker => cases hmarker
        next hmarker => cases hmarker
        · exact (Option.some.inj h).symm
      exact ⟨_, hsame ▸ Machine.Pushes.refl m, sees_unmarked (Or.inr rfl)⟩
  | some k =>
  cases htarget : f.target with
  | host =>
      simp only [htarget] at h
      split at h
      next hreached =>
        obtain rfl := Option.some.inj h
        exact ⟨_, Machine.Pushes.of_modify (fun _ => rfl) (fun _ _ => rfl) fun _ => Nat.le_refl _,
          sees_reached rfl rfl hreached⟩
      · cases h
  | device =>
      simp only [htarget, Bool.and_eq_true] at hadmits
      cases consumer with
      | none => exact absurd hadmits.2 (by simp)
      | some s =>
      cases s with
      | gpu context => exact absurd hadmits.2 (by simp [Device.isPeer, Stream.device])
      | sim timeline' queue' provider' =>
          -- The marker is put behind the consumer's queue, which is on the producer's timeline.
          simp only [htarget] at h
          obtain rfl := Option.some.inj h
          have htimeline : timeline = timeline' := by
            simpa [Device.isPeer, Stream.device] using hadmits.2
          have hw : m.Has ⟨timeline', queue'⟩ := hon _ rfl _ rfl
          exact ⟨_, Stream.pushes_push hw rfl, sees_enqueued rfl rfl rfl rfl htimeline.symm⟩

end WaitFunction

end OpGraph
