import OpGraph.Plan.System
import OpGraph.Proofs.Machine
import OpGraph.Proofs.Starting
import OpGraph.Proofs.Wiring

/-!
# `Proofs.Opening` — devices and streams are there once they were made

Devices stay where they are, whatever else happens. A session knows only devices that are there, so the
streams of a plan are queues of their own: each was fresh when the plan was built, and no two are one.
-/

namespace OpGraph

open Outcome

variable {Job : Type}

/-! ## Devices -/

theorem Device.On.mono {d : Device} {m m' : Machine Job} (h : d.On m)
    (hle : m.timelines.length ≤ m'.timelines.length) : d.On m' := by
  cases d with
  | gpu context => trivial
  | sim timeline provider => exact Nat.lt_of_lt_of_le h hle

/-- The devices streams are made on are there. -/
def StreamHandles.On (m : Machine Job) (h : StreamHandles) : Prop := ∀ e ∈ h.factories, e.2.On m

theorem StreamHandles.On.mono {h : StreamHandles} {m m' : Machine Job} (hon : h.On m)
    (hle : m.timelines.length ≤ m'.timelines.length) : h.On m' := fun e he => (hon e he).mono hle

namespace Assoc

theorem mem_put {α β : Type} [DecidableEq α] {key : α} {value : β} {table : List (α × β)} {e : α × β}
    (h : e ∈ put key value table) : e = (key, value) ∨ e ∈ table := by
  induction table with
  | nil => exact Or.inl (by simpa [put] using h)
  | cons a rest ih =>
      unfold put at h
      split at h
      · rcases List.mem_cons.mp h with rfl | hrest
        · exact Or.inl rfl
        · exact Or.inr (List.mem_cons_of_mem _ hrest)
      · rcases List.mem_cons.mp h with rfl | hrest
        · exact Or.inr List.mem_cons_self
        · rcases ih hrest with heq | hmem
          · exact Or.inl heq
          · exact Or.inr (List.mem_cons_of_mem _ hmem)

theorem mem_of_find? {α β : Type} [DecidableEq α] {key : α} {value : β} {table : List (α × β)}
    (h : find? key table = some value) : (key, value) ∈ table := by
  obtain ⟨⟨k, v⟩, he, rfl⟩ := Option.map_eq_some_iff.mp h
  have hkey : k = key := by simpa using List.find?_some he
  exact hkey ▸ List.mem_of_find?_eq_some he

end Assoc

/-! ## Sessions -/

theorem Provider.register_factories {p : Provider} {h : StreamHandles} {e : ProviderId × Device}
    (he : e ∈ (p.register h).1.factories) :
    (p.id = e.1 ∧ p.device = some e.2) ∨ e ∈ h.factories := by
  rw [register_eq] at he
  cases hd : p.device with
  | none =>
      simp only [hd] at he
      exact Or.inr he
  | some d =>
      simp only [hd] at he
      rcases Assoc.mem_put he with rfl | hmem
      · exact Or.inl ⟨rfl, rfl⟩
      · exact Or.inr hmem

namespace Session

/-- Devices in the table of handles are those of providers. -/
theorem wire_factories {ps : List Provider} {e : ProviderId × Device}
    (he : e ∈ (wire ps).1.factories) : ∃ p ∈ ps, p.id = e.1 ∧ p.device = some e.2 := by
  have hfold : ∀ (ps : List Provider) (h : StreamHandles),
      e ∈ (ps.foldl (fun h p => (p.register h).1) h).factories →
      (∃ p ∈ ps, p.id = e.1 ∧ p.device = some e.2) ∨ e ∈ h.factories := by
    intro ps
    induction ps with
    | nil => exact fun h hh => Or.inr hh
    | cons p rest ih =>
        intro h hh
        rcases ih _ hh with ⟨q, hq, hdevice⟩ | hreg
        · exact Or.inl ⟨q, List.mem_cons_of_mem _ hq, hdevice⟩
        · rcases Provider.register_factories hreg with hdevice | hmem
          · exact Or.inl ⟨p, List.mem_cons_self, hdevice⟩
          · exact Or.inr hmem
  rw [wire_eq] at he
  exact (hfold ps {} he).resolve_right nofun

theorem wire_on {m : Machine Job} {ps : List Provider} (hps : ∀ p ∈ ps, p.On m) : (wire ps).1.On m := by
  intro e he
  obtain ⟨p, hp, -, hdevice⟩ := wire_factories he
  exact hps p hp _ hdevice

theorem bringUp_eq_ok {adapter : Except String GraphicsContext} {m m' : Machine Job} {k : ProviderKind}
    {p : Provider} (h : bringUp adapter m k = .ok (p, m')) : p.On m' ∧ Machine.Extends m m' := by
  cases k with
  | cpu =>
      obtain ⟨rfl, rfl⟩ := Prod.mk.inj (Except.ok.inj h)
      exact ⟨nofun, Machine.Extends.refl m⟩
  | sim =>
      obtain ⟨rfl, rfl⟩ := Prod.mk.inj (Except.ok.inj h)
      refine ⟨fun d hd => ?_, Machine.extends_addTimeline m⟩
      obtain rfl := Option.some.inj hd
      show m.timelines.length < (m.timelines ++ [_]).length
      simp
  | gpu =>
      cases adapter with
      | error detail => cases h
      | ok context =>
          obtain ⟨rfl, rfl⟩ := Prod.mk.inj (Except.ok.inj h)
          refine ⟨fun d hd => ?_, Machine.Extends.refl m⟩
          obtain rfl := Option.some.inj hd
          trivial

/-- Providers come up on devices that are there; the machine only grows. -/
theorem gather_eq_ok {setup : Setup} {m m' : Machine Job} {ps : List Provider}
    (hgiven : ∀ p ∈ setup.providers, p.On m) (h : gather setup m = .ok (ps, m')) :
    (∀ p ∈ ps, p.On m') ∧ Machine.Extends m m' := by
  have hone : ∀ {ps : List Provider} {p : Provider} {m₁ : Machine Job}, (∀ q ∈ ps, q.On m₁) → p.On m₁ →
      ∀ q ∈ ps ++ [p], q.On m₁ := by
    intro ps p m₁ hps hp q hq
    rcases List.mem_append.mp hq with hq | hq
    · exact hps q hq
    · exact List.mem_singleton.mp hq ▸ hp
  refine gather_induction (P := fun ps m₁ => (∀ p ∈ ps, p.On m₁) ∧ Machine.Extends m m₁)
    ⟨by simp, Machine.Extends.refl m⟩ (fun ps p hps hp _ => ⟨hone hps.1 (hgiven p hp), hps.2⟩)
    (fun ps m₁ k p m₂ hps hup _ => ?_) (fun ps m₁ hps _ => ⟨hone hps.1 nofun, hps.2⟩) h
  obtain ⟨hp, hgrown⟩ := bringUp_eq_ok hup
  exact ⟨hone (fun q hq d hd => (hps.1 q hq d hd).mono hgrown.pushes.timelines) hp, hps.2.trans hgrown⟩

/-- A session knows only devices that are there. -/
theorem start_eq_ok {setup : Setup} {m m' : Machine Job} {s : Session} {events : List LogEvent}
    (hgiven : ∀ p ∈ setup.providers, p.On m) (h : start setup m = (.ok (s, m'), events)) :
    s.handles.On m' ∧ Machine.Extends m m' := by
  have hs := started h
  obtain ⟨hps, hgrown⟩ := gather_eq_ok hgiven hs.providers
  rw [hs.handles]
  exact ⟨wire_on hps, hgrown⟩

end Session

/-! ## Streams -/

namespace Plan

/-- Streams that were made one after the other from a machine on: queues of their own, and fresh. -/
structure Opened (m : Machine Job) (streams : List Stream) (m' : Machine Job) : Prop
    extends Machine.Extends m m' where
  fresh : ∀ s ∈ streams, ∀ w, s.worker? = some w → ¬m.Has w ∧ m'.Has w
  apart : streams.Pairwise fun a b => ∀ w, a.worker? = some w → b.worker? ≠ some w

theorem Opened.refl (m : Machine Job) : Opened m [] m :=
  ⟨Machine.Extends.refl m, by simp, by simp⟩

theorem Opened.trans {m m' m'' : Machine Job} {ss ss' : List Stream} (h : Opened m ss m')
    (h' : Opened m' ss' m'') : Opened m (ss ++ ss') m'' where
  toExtends := h.toExtends.trans h'.toExtends
  fresh s hs w hw := by
    rcases List.mem_append.mp hs with hold | hnew
    · obtain ⟨hno, hhas⟩ := h.fresh s hold w hw
      exact ⟨hno, h'.pushes.has w hhas⟩
    · obtain ⟨hno, hhas⟩ := h'.fresh s hnew w hw
      exact ⟨fun hm => hno (h.pushes.has w hm), hhas⟩
  apart := by
    refine List.pairwise_append.mpr ⟨h.apart, h'.apart, fun a ha b hb w haw hbw => ?_⟩
    exact (h'.fresh b hb w hbw).1 (h.fresh a ha w haw).2

/-- A stream on a device that is there is a queue of its own. -/
theorem openStream_eq_ok {d : Device} {provider : ProviderId} {m m' : Machine Job} {s : Stream}
    (hd : d.On m) (h : d.openStream provider m = .ok (s, m')) : Opened m [s] m' := by
  unfold Device.openStream at h
  split at h
  · cases h
  cases d with
  | gpu context =>
      obtain ⟨rfl, rfl⟩ := Prod.mk.inj (Except.ok.inj h)
      refine ⟨Machine.Extends.refl m, fun s hs w hw => ?_, by simp⟩
      obtain rfl := List.mem_singleton.mp hs
      cases hw
  | sim timeline p =>
      obtain ⟨rfl, rfl⟩ := Prod.mk.inj (Except.ok.inj h)
      have hget : m.timelines[timeline]? = some (m.timeline timeline) := by
        have hlt : timeline < m.timelines.length := hd
        simp [Machine.timeline, hlt]
      obtain ⟨hpushes, hqueue?⟩ := Machine.pushes_addQueue hget
      have hqueue : ∀ w, (m.modify timeline fun t => { t with queues := t.queues ++ [{}] }).queue w =
          m.queue w := by
        intro w
        rw [Machine.queue, hqueue?]
        split
        next heq =>
          rw [heq]
          simp [Machine.queue, Machine.queue?, hget]
        · rfl
      refine ⟨⟨hpushes, hqueue⟩, fun s hs w hw => ?_, by simp⟩
      obtain rfl := List.mem_singleton.mp hs
      obtain rfl := Option.some.inj hw
      have hnew := hqueue? ⟨timeline, (m.timeline timeline).queues.length⟩
      rw [if_pos rfl] at hnew
      refine ⟨?_, by rw [Machine.Has, hnew]; rfl⟩
      simp [Machine.Has, Machine.queue?, hget]

theorem openFor_eq_ok {h : StreamHandles} {m : Machine Job} {acc acc' : StreamTable × Machine Job}
    {provider : ProviderId} (hon : h.On m) (ho : Opened m (acc.1.map (·.2)) acc.2)
    (hf : openFor h acc provider = .ok acc') : Opened m (acc'.1.map (·.2)) acc'.2 := by
  unfold openFor at hf
  split at hf
  · obtain ⟨⟨s, m'⟩, hcreate, rfl⟩ := map_eq_ok.mp hf
    unfold StreamHandles.createStream at hcreate
    split at hcreate
    next d hd =>
      have hdon := (hon _ (Assoc.mem_of_find? hd)).mono ho.pushes.timelines
      rw [List.map_append]
      exact ho.trans (openStream_eq_ok hdon hcreate)
    · cases hcreate
  · obtain rfl := Except.ok.inj hf
    exact ho

theorem openAll_eq_ok {h : StreamHandles} {m m' : Machine Job} {providers : List ProviderId}
    {table : StreamTable} (hon : h.On m)
    (hf : providers.foldlM (openFor h) ([], m) = .ok (table, m')) : Opened m (table.map (·.2)) m' :=
  foldlM_induction (fun (acc : StreamTable × Machine Job) _ => Opened m (acc.1.map (·.2)) acc.2)
    (fun _ _ _ _ ho hs => openFor_eq_ok hon ho hs) providers ([], m) [] (Opened.refl m) hf

/-- **The streams of a plan are queues of their own, and fresh.** -/
theorem build_opened {s : Session} {g : Graph} {m m' : Machine Job} {p : Plan} {life : List LifeEvent}
    (hon : s.handles.On m) (hb : build s g m = ((.ok p, life), m')) : Opened m p.streams m' := by
  obtain ⟨vs, nodes, t, table, -, -, hopen, hc⟩ := build_eq_ok hb
  rw [hc.streams]
  exact openAll_eq_ok hon hopen

/-- Giving streams up may send their workers home; it leaves other queues alone. -/
theorem pushes_closeAll : ∀ (streams : List Stream) (m : Machine Job), (∀ s ∈ streams, s.On m) →
    ∃ more, Machine.Pushes m (closeAll streams m) more ∧ (∀ w, ∀ c ∈ more w, c = .shutdown) ∧
      ∀ w, (∀ s ∈ streams, s.worker? ≠ some w) → (closeAll streams m).queue w = m.queue w := by
  intro streams
  induction streams with
  | nil => exact fun m _ => ⟨_, Machine.Pushes.refl m, by simp [Machine.nothing], fun _ _ => rfl⟩
  | cons s rest ih =>
      intro m hon
      obtain ⟨more, hmore, hshut⟩ := Stream.pushes_release (hon s List.mem_cons_self)
      obtain ⟨more', hmore', hshut', hothers⟩ := ih (s.release m) fun s' hs' =>
        (hon s' (List.mem_cons_of_mem _ hs')).of_pushes hmore
      refine ⟨_, hmore.trans hmore', fun w c hc => ?_, fun w hw => ?_⟩
      · rcases List.mem_append.mp hc with hc | hc
        · exact hshut w c hc
        · exact hshut' w c hc
      · refine (hothers w fun s' hs' => hw s' (List.mem_cons_of_mem _ hs')).trans ?_
        exact Stream.queue_release_of_ne (hw s List.mem_cons_self)

/-- Where a graph is refused, workers of new queues may be sent home and nothing else happens. -/
theorem build_eq_error {s : Session} {g : Graph} {m m' : Machine Job} {e : SessionError}
    {life : List LifeEvent} (hon : s.handles.On m) (hb : build s g m = ((.error e, life), m')) :
    ∃ more, Machine.Pushes m m' more ∧ (∀ w, ∀ c ∈ more w, c = .shutdown) ∧
      ∀ w, m.Has w → m'.queue w = m.queue w := by
  have hsame : ∃ more, Machine.Pushes m m more ∧ (∀ w, ∀ c ∈ more w, c = Command.shutdown) ∧
      ∀ w, m.Has w → m.queue w = m.queue w :=
    ⟨_, Machine.Pushes.refl m, by simp [Machine.nothing], fun _ _ => rfl⟩
  unfold build at hb
  split at hb
  · obtain ⟨-, rfl⟩ := Prod.mk.inj hb
    exact hsame
  split at hb
  · obtain ⟨-, rfl⟩ := Prod.mk.inj hb
    exact hsame
  split at hb
  · cases (Prod.mk.inj (Prod.mk.inj hb).1).1
  next e' m₁ hwire =>
    obtain ⟨-, rfl⟩ := Prod.mk.inj hb
    unfold wire at hwire
    split at hwire
    · obtain ⟨-, rfl⟩ := Prod.mk.inj hwire
      exact hsame
    next table m₂ hopen =>
      have ho := openAll_eq_ok hon hopen
      simp only at hwire
      split at hwire
      · cases (Prod.mk.inj hwire).1
      · obtain ⟨-, rfl⟩ := Prod.mk.inj hwire
        obtain ⟨more, hmore, hshut, hothers⟩ := pushes_closeAll (table.map (·.2)) m₂ fun s hs w hw =>
          (ho.fresh s hs w hw).2
        refine ⟨_, ho.pushes.trans hmore, fun w c hc => hshut w c (by simpa [Machine.nothing] using hc),
          fun w hw => ?_⟩
        exact (hothers w fun s hs hsw => (ho.fresh s hs w hsw).1 hw).trans (ho.same w)

end Plan

end OpGraph
