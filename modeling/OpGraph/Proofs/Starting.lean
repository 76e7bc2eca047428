import OpGraph.Proofs.Outcome
import OpGraph.Session.Basic

/-!
# `Proofs.Starting` — what a session that came up is made of

Bringing a session up is a chain of checks; one that came up passed them all (`Session.Started`). Its
providers were gathered one by one, each under an id that was not taken, so no two share one. The table of
handles is written by the providers in turn, each under its own id, so what it says of a provider is what
that provider wrote last.
-/

namespace OpGraph

open Outcome

namespace Session

variable {Job : Type} {setup : Setup} {m m' : Machine Job} {s : Session} {events : List LogEvent}
  {ps : List Provider}

/-- What a session that came up is made of. -/
structure Started (setup : Setup) (m m' : Machine Job) (s : Session) : Prop where
  config : s.config = setup.config
  providers : gather setup m = .ok (s.providers, m')
  handles : s.handles = (wire s.providers).1
  catalog : register { newest := setup.config.newest } (domains setup) = .ok s.catalog

theorem ready_eq_ok (h : ready setup m = .ok (ps, m')) : gather setup m = .ok (ps, m') := by
  unfold ready at h
  split at h
  · cases h
  · obtain ⟨⟨ps₁, m₁⟩, hgather, hcheck⟩ := bind_eq_ok.mp h
    dsimp only at hcheck
    split at hcheck
    · obtain ⟨rfl, rfl⟩ := Prod.mk.inj (pure_eq_ok.mp hcheck)
      exact hgather
    · cases hcheck

theorem started (h : start setup m = (.ok (s, m'), events)) : Started setup m m' s := by
  unfold start at h
  split at h
  · cases h
  next ps m₁ hready =>
    dsimp only at h
    split at h
    · cases h
    next catalog hreg =>
      obtain ⟨rfl, rfl⟩ := Prod.mk.inj (Except.ok.inj (Prod.mk.inj h).1)
      exact ⟨rfl, ready_eq_ok hready, rfl, hreg⟩

/-! ## Providers -/

/-- A provider whose id is not found has one that is not taken. -/
theorem find?_isSome_iff {id : ProviderId} : (find? ps id).isSome ↔ id ∈ ps.map (·.id) := by
  unfold find?
  rw [List.find?_isSome]
  simp

/-- A provider that is brought up has the id of its kind. -/
theorem bringUp_id {adapter : Except String GraphicsContext} {k : ProviderKind} {p : Provider}
    (h : bringUp adapter m k = .ok (p, m')) : p.id = k.id := by
  unfold bringUp at h
  cases k with
  | cpu => exact (Prod.mk.inj (Except.ok.inj h)).1 ▸ rfl
  | sim => exact (Prod.mk.inj (Except.ok.inj h)).1 ▸ rfl
  | gpu =>
      cases adapter with
      | ok context => exact (Prod.mk.inj (Except.ok.inj h)).1 ▸ rfl
      | error detail => cases h

/-- **Providers are gathered one by one**, each under an id that is not taken: those that are given, those
    that are brought up, and the host. What is kept on the way holds in the end. -/
theorem gather_induction {P : List Provider → Machine Job → Prop} (nothing : P [] m)
    (given : ∀ ps p, P ps m → p ∈ setup.providers → p.id ∉ ps.map (·.id) → P (ps ++ [p]) m)
    (broughtUp : ∀ ps m₁ k p m₂, P ps m₁ → bringUp setup.adapter m₁ k = .ok (p, m₂) → p.id ∉ ps.map (·.id) →
      P (ps ++ [p]) m₂)
    (host : ∀ ps m₁, P ps m₁ → ProviderId.cpu ∉ ps.map (·.id) → P (ps ++ [Provider.host]) m₁)
    (h : gather setup m = .ok (ps, m')) : P ps m' := by
  unfold gather at h
  simp only [bind_eq_ok] at h
  obtain ⟨first, hfirst, ⟨ps₁, m₁⟩, hsecond, hpair⟩ := h
  obtain ⟨rfl, rfl⟩ := Prod.mk.inj (pure_eq_ok.mp hpair)
  -- Those gone through are a beginning of those that are given.
  have hall : ∀ (rest : List Provider) (ps : List Provider), (∀ p ∈ rest, p ∈ setup.providers) → P ps m →
      rest.foldlM addGiven ps = .ok first → P first m := by
    intro rest
    induction rest with
    | nil =>
        intro ps _ hps hf
        exact pure_eq_ok.mp hf ▸ hps
    | cons p rest ih =>
        intro ps hmem hps hf
        rw [List.foldlM_cons, bind_eq_ok] at hf
        obtain ⟨ps', hadd, hrest⟩ := hf
        unfold addGiven at hadd
        split at hadd
        · cases hadd
        next hfree =>
          obtain rfl := Except.ok.inj hadd
          refine ih _ (fun q hq => hmem q (List.mem_cons_of_mem _ hq)) ?_ hrest
          exact given ps p hps (hmem p List.mem_cons_self) fun hin => hfree (find?_isSome_iff.mpr hin)
  have hgiven : P first m := hall setup.providers [] (fun _ => id) nothing hfirst
  have hup : P ps₁ m₁ :=
    foldlM_induction (fun (acc : List Provider × Machine Job) _ => P acc.1 acc.2)
      (fun acc seen k acc' hacc hk => by
        unfold addConfigured at hk
        split at hk
        · obtain rfl := pure_eq_ok.mp hk
          exact hacc
        next hfree =>
          obtain ⟨⟨p, m₂⟩, hup, hpair⟩ := bind_eq_ok.mp hk
          obtain rfl := pure_eq_ok.mp hpair
          exact broughtUp acc.1 acc.2 k p m₂ hacc hup fun hin =>
            hfree (find?_isSome_iff.mpr (bringUp_id hup ▸ hin)))
      setup.config.providers (first, m) [] hgiven hsecond
  split
  · exact hup
  next hfree => exact host ps₁ m₁ hup fun hin => hfree (find?_isSome_iff.mpr hin)

/-- **No two providers of a session share an id.** -/
theorem gather_nodup (h : gather setup m = .ok (ps, m')) : (ps.map (·.id)).Nodup := by
  have hnew : ∀ (ps : List Provider) (p : Provider), (ps.map (·.id)).Nodup → p.id ∉ ps.map (·.id) →
      ((ps ++ [p]).map (·.id)).Nodup := by
    intro ps p hps hp
    rw [List.map_append]
    refine List.nodup_append.mpr ⟨hps, by simp, fun a ha b hb heq => hp ?_⟩
    obtain rfl : b = p.id := List.mem_singleton.mp hb
    exact heq ▸ ha
  exact gather_induction (P := fun ps _ => (ps.map (·.id)).Nodup) List.nodup_nil
    (fun ps p hps _ hp => hnew ps p hps hp) (fun ps _ _ p _ hps _ hp => hnew ps p hps hp)
    (fun ps _ hps hp => hnew ps Provider.host hps hp) h

end Session

/-! ## Handles -/

namespace Provider

/-- What a provider writes into the table of handles. -/
theorem register_eq (p : Provider) (h : StreamHandles) : (p.register h).1 =
    { waits := p.waits.foldl (fun t w => Assoc.put (p.id, w.1) w.2 t) h.waits
      factories := match p.device with
        | none => h.factories
        | some d => Assoc.put p.id d h.factories } := by
  have hfold : ∀ (ws : List (ProviderId × WaitFunction)) (h : StreamHandles) (events : List LogEvent),
      (ws.foldl (fun (acc : StreamHandles × List LogEvent) w =>
        ((acc.1.registerWait p.id w.1 w.2).1, acc.2 ++ (acc.1.registerWait p.id w.1 w.2).2))
        (h, events)).1 =
      { h with waits := ws.foldl (fun t w => Assoc.put (p.id, w.1) w.2 t) h.waits } := by
    intro ws
    induction ws with
    | nil => exact fun _ _ => rfl
    | cons w rest ih => exact fun h events => ih _ _
  have hfirst := hfold p.waits h []
  unfold register
  cases p.device with
  | none => exact hfirst
  | some d => exact congrArg (fun h => (h.registerFactory p.id d).1) hfirst

/-- The wait for a provider is the last one it offers to the consumer. -/
theorem find?_register_waits (p : Provider) (h : StreamHandles) (producer consumer : ProviderId) :
    Assoc.find? (producer, consumer) (p.register h).1.waits =
      ((if p.id = producer then lastValue? consumer p.waits else none).or
        (Assoc.find? (producer, consumer) h.waits)) := by
  rw [register_eq]
  dsimp only
  generalize h.waits = table
  induction p.waits generalizing table with
  | nil => by_cases hid : p.id = producer <;> simp [lastValue?, hid]
  | cons w rest ih =>
      rw [List.foldl_cons, ih, Assoc.find?_put, lastValue?_cons]
      by_cases hid : p.id = producer
      · subst hid
        by_cases hw : w.1 = consumer
        · subst hw
          simp
        · simp [hw, Ne.symm hw]
      · simp [hid, Ne.symm hid]

/-- The device a provider makes its streams on is the one it writes. -/
theorem find?_register_factories (p : Provider) (h : StreamHandles) (id : ProviderId) :
    Assoc.find? id (p.register h).1.factories =
      ((if p.id = id then p.device else none).or (Assoc.find? id h.factories)) := by
  rw [register_eq]
  by_cases hid : p.id = id
  · subst hid
    cases p.device with
    | none => simp
    | some d => simp [Assoc.find?_put]
  · cases p.device with
    | none => simp [hid]
    | some d => simp [Assoc.find?_put, hid, Ne.symm hid]

end Provider

namespace Session

/-- What providers write one after the other. -/
theorem wire_eq (ps : List Provider) :
    (wire ps).1 = ps.foldl (fun h p => (p.register h).1) {} := by
  have hfold : ∀ (ps : List Provider) (h : StreamHandles) (events : List LogEvent),
      (ps.foldl (fun (acc : StreamHandles × List LogEvent) p =>
        ((p.register acc.1).1, acc.2 ++ (p.register acc.1).2)) (h, events)).1 =
      ps.foldl (fun h p => (p.register h).1) h := by
    intro ps
    induction ps with
    | nil => exact fun _ _ => rfl
    | cons p rest ih => exact fun h events => ih _ _
  exact hfold ps {} []

/-- Providers of other ids leave no trace under an id. -/
theorem foldl_register_others {ps : List Provider} {id : ProviderId} (h : StreamHandles)
    (hnew : id ∉ ps.map (·.id)) :
    (∀ consumer, Assoc.find? (id, consumer) (ps.foldl (fun h p => (p.register h).1) h).waits =
      Assoc.find? (id, consumer) h.waits) ∧
    Assoc.find? id (ps.foldl (fun h p => (p.register h).1) h).factories = Assoc.find? id h.factories := by
  induction ps generalizing h with
  | nil => exact ⟨fun _ => rfl, rfl⟩
  | cons q rest ih =>
      rw [List.map_cons, List.mem_cons, not_or] at hnew
      obtain ⟨hwaits, hfactories⟩ := ih (q.register h).1 hnew.2
      refine ⟨fun consumer => ?_, ?_⟩
      · rw [List.foldl_cons, hwaits, Provider.find?_register_waits, if_neg (Ne.symm hnew.1), Option.none_or]
      · rw [List.foldl_cons, hfactories, Provider.find?_register_factories, if_neg (Ne.symm hnew.1),
          Option.none_or]

/-- **Each provider has the table to itself under its own id**: waits for it are those it offers, and its
    streams are made on its device. -/
theorem wire_own {ps : List Provider} (hids : (ps.map (·.id)).Nodup) {p : Provider} (hp : p ∈ ps) :
    (∀ consumer, Assoc.find? (p.id, consumer) (wire ps).1.waits = lastValue? consumer p.waits) ∧
      Assoc.find? p.id (wire ps).1.factories = p.device := by
  obtain ⟨before, after, rfl⟩ := List.append_of_mem hp
  rw [List.map_append, List.map_cons] at hids
  obtain ⟨-, htail, hapart⟩ := List.nodup_append.mp hids
  have hafter : p.id ∉ after.map (·.id) := (List.nodup_cons.mp htail).1
  have hbefore : p.id ∉ before.map (·.id) := fun hmem => hapart p.id hmem p.id List.mem_cons_self rfl
  obtain ⟨hwaits, hfactories⟩ :=
    foldl_register_others (p.register (before.foldl (fun h p => (p.register h).1) {})).1 hafter
  obtain ⟨hwaits₀, hfactories₀⟩ := foldl_register_others {} hbefore
  rw [wire_eq, List.foldl_append, List.foldl_cons]
  refine ⟨fun consumer => ?_, ?_⟩
  · rw [hwaits, Provider.find?_register_waits, if_pos rfl, hwaits₀]
    exact Option.or_none
  · rw [hfactories, Provider.find?_register_factories, if_pos rfl, hfactories₀]
    exact Option.or_none

end Session

end OpGraph
