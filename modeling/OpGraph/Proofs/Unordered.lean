import Mathlib.Data.List.Nodup
import OpGraph.Proofs.Accepting

/-!
# `Proofs.Unordered` — providers may come up in any order

Coming up, a provider writes what it offers into the table of handles, over what is there. A session brings
its providers up in some order, and which one does not matter: every key that is written carries the id of
the provider that writes it, and no two providers of a session share one. So the table says of a producer
what the one provider of that id offers, whoever else came before or after (`Session.find?_wire_waits`,
`Session.find?_wire_factories`), and tables written in different orders are the same
(`StreamHandles.Same`, `Session.handles_unordered`).
-/

namespace OpGraph

/-! ## Tables -/

namespace Assoc

variable {α β : Type} [DecidableEq α]

/-- Putting a value adds its key, unless it is there. -/
theorem keys_put (key : α) (value : β) (table : List (α × β)) : (put key value table).map (·.1) =
    if key ∈ table.map (·.1) then table.map (·.1) else table.map (·.1) ++ [key] := by
  induction table with
  | nil => rfl
  | cons e rest ih =>
      unfold put
      by_cases he : e.1 = key
      · simp [he]
      · by_cases hmem : key ∈ rest.map (·.1)
        · simp only [if_pos hmem] at ih
          simp [he, ih, hmem]
        · simp only [if_neg hmem] at ih
          simp [he, Ne.symm he, ih, hmem]

theorem nodup_put {key : α} {value : β} {table : List (α × β)} (h : (table.map (·.1)).Nodup) :
    ((put key value table).map (·.1)).Nodup := by
  rw [keys_put]
  split
  · exact h
  next hnew =>
    refine List.nodup_append.mpr ⟨h, List.nodup_singleton _, ?_⟩
    rintro a ha b hb rfl
    exact hnew (List.mem_singleton.mp hb ▸ ha)

/-- Tables of distinct keys that say the same of every key have the same entries. -/
theorem perm_of_find? {table table' : List (α × β)} (h : (table.map (·.1)).Nodup)
    (h' : (table'.map (·.1)).Nodup) (heq : ∀ key, find? key table = find? key table') :
    table.Perm table' := by
  refine (List.perm_ext_iff_of_nodup h.of_map h'.of_map).mpr fun e => ?_
  rw [← find?_eq_some h, ← find?_eq_some h', heq]

end Assoc

/-! ## Tables of handles -/

namespace StreamHandles

/-- Tables that say the same, entry by entry and so to everyone who asks. -/
structure Same (h h' : StreamHandles) : Prop where
  waits : h.waits.Perm h'.waits
  factories : h.factories.Perm h'.factories
  lookupWait : ∀ producer consumer, h.lookupWait producer consumer = h'.lookupWait producer consumer
  hasFactory : ∀ id, h.hasFactory id = h'.hasFactory id
  createStream : ∀ {Job : Type} (id : ProviderId) (m : Machine Job), h.createStream id m = h'.createStream id m

/-- No key comes twice. -/
structure Distinct (h : StreamHandles) : Prop where
  waits : (h.waits.map (·.1)).Nodup
  factories : (h.factories.map (·.1)).Nodup

theorem Distinct.empty : Distinct {} := ⟨List.nodup_nil, List.nodup_nil⟩

variable {h h' : StreamHandles}

theorem Distinct.register (hd : h.Distinct) (p : Provider) : (p.register h).1.Distinct := by
  rw [Provider.register_eq]
  constructor
  · show ((p.waits.foldl (fun t w => Assoc.put (p.id, w.1) w.2 t) h.waits).map (·.1)).Nodup
    exact List.foldlRecOn
      (motive := fun t : List ((ProviderId × ProviderId) × WaitFunction) => (t.map (·.1)).Nodup)
      p.waits _ hd.waits fun _ ht _ _ => Assoc.nodup_put ht
  · cases p.device with
    | none => exact hd.factories
    | some d => exact Assoc.nodup_put hd.factories

theorem Distinct.wire (ps : List Provider) : (Session.wire ps).1.Distinct := by
  rw [Session.wire_eq]
  exact List.foldlRecOn ps _ Distinct.empty fun _ hd p _ => hd.register p

/-- Tables of distinct keys are the same if they say the same of every key. -/
theorem Same.of_find? (hd : h.Distinct) (hd' : h'.Distinct)
    (hwaits : ∀ key, Assoc.find? key h.waits = Assoc.find? key h'.waits)
    (hfactories : ∀ id, Assoc.find? id h.factories = Assoc.find? id h'.factories) : h.Same h' where
  waits := Assoc.perm_of_find? hd.waits hd'.waits hwaits
  factories := Assoc.perm_of_find? hd.factories hd'.factories hfactories
  lookupWait producer consumer := by
    unfold StreamHandles.lookupWait
    rw [hwaits]
  hasFactory id := by
    rw [Bool.eq_iff_iff, Plan.hasFactory_iff, Plan.hasFactory_iff, hfactories]
  createStream id m := by
    unfold StreamHandles.createStream
    rw [hfactories]

end StreamHandles

/-! ## Providers in any order -/

namespace Session

variable {ps ps' : List Provider}

/-- The table says of a producer what the provider of that id offers. -/
theorem find?_wire_waits (hids : (ps.map (·.id)).Nodup) (producer consumer : ProviderId) :
    Assoc.find? (producer, consumer) (wire ps).1.waits =
      (find? ps producer).bind fun p => lastValue? consumer p.waits := by
  cases hp : find? ps producer with
  | some p =>
      obtain rfl : p.id = producer := by simpa using List.find?_some hp
      exact (wire_own hids (List.mem_of_find?_eq_some hp)).1 consumer
  | none =>
      have hnew : producer ∉ ps.map (·.id) := fun hmem => by
        have hsome := find?_isSome_iff.mpr hmem
        rw [hp] at hsome
        cases hsome
      rw [wire_eq]
      exact (foldl_register_others {} hnew).1 consumer

/-- Streams of a provider are made on the device of the provider of that id. -/
theorem find?_wire_factories (hids : (ps.map (·.id)).Nodup) (id : ProviderId) :
    Assoc.find? id (wire ps).1.factories = (find? ps id).bind (·.device) := by
  cases hp : find? ps id with
  | some p =>
      obtain rfl : p.id = id := by simpa using List.find?_some hp
      exact (wire_own hids (List.mem_of_find?_eq_some hp)).2
  | none =>
      have hnew : id ∉ ps.map (·.id) := fun hmem => by
        have hsome := find?_isSome_iff.mpr hmem
        rw [hp] at hsome
        cases hsome
      rw [wire_eq]
      exact (foldl_register_others {} hnew).2

/-- Among providers of distinct ids the one of an id is there whatever their order. -/
theorem find?_perm (hids : (ps.map (·.id)).Nodup) (hperm : ps.Perm ps') (id : ProviderId) :
    find? ps id = find? ps' id := by
  have hunique : ∀ {qs : List Provider}, (qs.map (·.id)).Nodup →
      ∀ p, find? qs id = some p ↔ p ∈ qs ∧ p.id = id := by
    intro qs hqs p
    constructor
    · intro hp
      exact ⟨List.mem_of_find?_eq_some hp, by simpa using List.find?_some hp⟩
    · rintro ⟨hp, rfl⟩
      obtain ⟨q, hq⟩ := find?_eq_some.mpr ⟨p, hp, rfl⟩
      have hid : q.id = p.id := by simpa using List.find?_some hq
      obtain rfl := List.inj_on_of_nodup_map hqs (List.mem_of_find?_eq_some hq) hp hid
      exact hq
  have hids' : (ps'.map (·.id)).Nodup := (hperm.map _).nodup_iff.mp hids
  exact Option.ext fun p => by rw [hunique hids, hunique hids', hperm.mem_iff]

/-- **Providers of distinct ids write the same table in every order.** -/
theorem wire_perm (hids : (ps.map (·.id)).Nodup) (hperm : ps.Perm ps') :
    (wire ps).1.Same (wire ps').1 := by
  have hids' : (ps'.map (·.id)).Nodup := (hperm.map _).nodup_iff.mp hids
  refine StreamHandles.Same.of_find? (.wire ps) (.wire ps') ?_ ?_
  · rintro ⟨producer, consumer⟩
    rw [find?_wire_waits hids, find?_wire_waits hids', find?_perm hids hperm]
  · intro id
    rw [find?_wire_factories hids, find?_wire_factories hids', find?_perm hids hperm]

end Session

/-! ## What is in the table -/

/-- What is recorded alike under every key of a list. -/
theorem lastValue?_map {α β : Type} [DecidableEq α] (key : α) (value : β) (keys : List α) :
    lastValue? key (keys.map fun k => (k, value)) = if key ∈ keys then some value else none := by
  induction keys with
  | nil => rfl
  | cons k rest ih =>
      rw [List.map_cons, lastValue?_cons, ih]
      by_cases hrest : key ∈ rest
      · simp [hrest]
      · by_cases hk : k = key
        · simp [hrest, hk]
        · simp [hrest, hk, Ne.symm hk]

/-- Whoever is on a simulated device lets the host wait for the marker, last of all, and itself and its peers
    wait on the device. -/
theorem Provider.lastValue?_simulated (timeline : Nat) (id : ProviderId) (peers : List ProviderId)
    (consumer : ProviderId) : lastValue? consumer (simulated timeline id peers).waits =
      if consumer = .cpu then some ⟨.host, .sim⟩
      else if consumer ∈ id :: peers then some ⟨.device, .sim⟩ else none := by
  unfold simulated
  rw [lastValue?_append, lastValue?_map]
  by_cases hcpu : consumer = .cpu
  · rw [if_pos hcpu, hcpu]
    rfl
  · rw [if_neg hcpu, lastValue?_cons, if_neg (Ne.symm hcpu)]
    rfl

/-- A device makes streams for the provider it serves. -/
theorem Device.exists_openStream {Job : Type} {d : Device} {id : ProviderId} (h : d.provider = id)
    (m : Machine Job) : ∃ st m', d.openStream id m = .ok (st, m') ∧ st.provider = id := by
  unfold openStream
  rw [if_neg (not_not.mpr h.symm)]
  cases d with
  | sim timeline p => exact ⟨_, _, rfl, h⟩
  | gpu context => exact ⟨_, _, rfl, h⟩

namespace Session

/-- An entry of the table is one its producer offers. -/
theorem wire_waits {ps : List Provider} (hids : (ps.map (·.id)).Nodup)
    {e : (ProviderId × ProviderId) × WaitFunction} (he : e ∈ (wire ps).1.waits) :
    ∃ p ∈ ps, p.id = e.1.1 ∧ (e.1.2, e.2) ∈ p.waits := by
  obtain ⟨⟨producer, consumer⟩, f⟩ := e
  have hfind := (Assoc.find?_eq_some (StreamHandles.Distinct.wire ps).waits).mpr he
  rw [find?_wire_waits hids] at hfind
  obtain ⟨p, hp, hlast⟩ := Option.bind_eq_some_iff.mp hfind
  obtain ⟨w, hw, rfl⟩ := Option.map_eq_some_iff.mp hlast
  have hconsumer : w.1 = consumer := by simpa using List.find?_some hw
  refine ⟨p, List.mem_of_find?_eq_some hp, by simpa using List.find?_some hp, ?_⟩
  have hmem := List.mem_reverse.mp (List.mem_of_find?_eq_some hw)
  exact hconsumer ▸ hmem

variable {Job : Type} {setup : Setup} {m m' : Machine Job} {s : Session} {events : List LogEvent}

/-- **A session's handles do not depend on the order its providers come up in**, as long as they make streams
    on devices of their own. Whatever the order, the table is the same; the host waits for the marker of a
    simulated device, even where it is among the peers, and the device and its other peers wait on the device;
    all waits are offered by their producers; and a provider that makes streams makes them its own. -/
theorem handles_unordered (hown : ∀ p ∈ setup.providers, ∀ d, p.device = some d → d.provider = p.id)
    (h : start setup m = (.ok (s, m'), events)) :
    (∀ ps, ps.Perm s.providers → (wire ps).1.Same s.handles) ∧
    (∀ timeline id peers, Provider.simulated timeline id peers ∈ s.providers → id ≠ .cpu →
      s.handles.lookupWait id .cpu = .ok ⟨.host, .sim⟩ ∧
      s.handles.lookupWait id id = .ok ⟨.device, .sim⟩ ∧
      ∀ q ∈ peers, q ≠ .cpu → s.handles.lookupWait id q = .ok ⟨.device, .sim⟩) ∧
    (∀ e ∈ s.handles.waits, ∃ p ∈ s.providers, p.id = e.1.1 ∧ (e.1.2, e.2) ∈ p.waits) ∧
    ∀ e ∈ s.handles.factories, ∀ m₁ : Machine Job, ∃ st m₂,
      s.handles.createStream e.1 m₁ = .ok (st, m₂) ∧ st.provider = e.1 := by
  have hs := started h
  have hids := gather_nodup hs.providers
  refine ⟨fun ps hps => ?_, fun timeline id peers hp hne => ?_, fun e he => ?_, fun e he m₁ => ?_⟩
  · rw [hs.handles]
    exact wire_perm ((hps.map _).nodup_iff.mpr hids) hps
  · have hlookup : ∀ consumer f, lastValue? consumer (Provider.simulated timeline id peers).waits = some f →
        s.handles.lookupWait id consumer = .ok f := by
      intro consumer f hf
      have hown : Assoc.find? (id, consumer) s.handles.waits = some f := by
        rw [hs.handles]
        exact ((wire_own hids hp).1 consumer).trans hf
      unfold StreamHandles.lookupWait
      rw [hown]
    refine ⟨hlookup _ _ ?_, hlookup _ _ ?_, fun q hq hcpu => hlookup _ _ ?_⟩
    · rw [Provider.lastValue?_simulated, if_pos rfl]
    · rw [Provider.lastValue?_simulated, if_neg hne, if_pos List.mem_cons_self]
    · rw [Provider.lastValue?_simulated, if_neg hcpu, if_pos (List.mem_cons_of_mem _ hq)]
  · rw [hs.handles] at he
    exact wire_waits hids he
  · have hfind : Assoc.find? e.1 s.handles.factories = some e.2 := by
      rw [hs.handles] at he ⊢
      exact (Assoc.find?_eq_some (StreamHandles.Distinct.wire s.providers).factories).mpr he
    obtain ⟨p, hp, hid, hdevice⟩ := wire_factories (hs.handles ▸ he)
    have hserves : e.2.provider = e.1 :=
      hid ▸ gather_forall (fun _ husual _ => husual.own) hown hs.providers p hp e.2 hdevice
    obtain ⟨st, m₂, hopen, hprovider⟩ := Device.exists_openStream hserves m₁
    refine ⟨st, m₂, ?_, hprovider⟩
    unfold StreamHandles.createStream
    rw [hfind]
    exact hopen

/-- A device whose peers are the host, itself and, twice, the graphics device that the settings ask for, with
    one that lets nobody wait for it. -/
def loopedSetup : Setup :=
  { config := { providers := [.gpu] }
    providers :=
      [Provider.simulated 0 .sim [.gpu, .cpu, .sim, .gpu], Provider.unwired 0 ⟨"QuietExecutionProvider"⟩]
    builtins := false
    adapter := .ok { id := 0 } }

/-- Written the other way round the table lists its entries in another order and is the same. -/
theorem handles_unordered_looped :
    (∀ p ∈ loopedSetup.providers, p.Usual) ∧ ∃ s m₁ events,
      start loopedSetup ({} : Machine Unit).addTimeline.2 = (.ok (s, m₁), events) ∧
      s.providers.length = 4 ∧ s.handles.factories.length = 3 ∧
      (wire s.providers.reverse).1.waits ≠ s.handles.waits ∧
      (wire s.providers.reverse).1.Same s.handles ∧
      s.handles.lookupWait .sim .cpu = .ok ⟨.host, .sim⟩ ∧
      s.handles.lookupWait .sim .sim = .ok ⟨.device, .sim⟩ ∧
      s.handles.lookupWait .sim .gpu = .ok ⟨.device, .sim⟩ ∧
      (∀ e ∈ s.handles.waits, ∃ p ∈ s.providers, p.id = e.1.1 ∧ (e.1.2, e.2) ∈ p.waits) ∧
      ∀ e ∈ s.handles.factories, ∃ st m₂,
        s.handles.createStream e.1 m₁ = .ok (st, m₂) ∧ st.provider = e.1 := by
  have husual : ∀ p ∈ loopedSetup.providers, p.Usual := by
    intro p hp
    rcases List.mem_cons.mp hp with rfl | hp
    · exact .simulated 0 .sim _
    · exact List.mem_singleton.mp hp ▸ .unwired 0 _
  have hstarted : ∃ s m₁ events,
      start loopedSetup ({} : Machine Unit).addTimeline.2 = (.ok (s, m₁), events) ∧
      s.providers.length = 4 ∧ s.handles.factories.length = 3 ∧
      s.providers[0]? = some (Provider.simulated 0 .sim [.gpu, .cpu, .sim, .gpu]) ∧
      (wire s.providers.reverse).1.waits ≠ s.handles.waits :=
    ⟨_, _, _, rfl, rfl, rfl, rfl, by decide⟩
  obtain ⟨s, m₁, events, hstart, hproviders, hfactories, hsim, hother⟩ := hstarted
  obtain ⟨hsame, hwaits, hoffered, hstreams⟩ := handles_unordered (fun p hp _ => (husual p hp).own) hstart
  obtain ⟨hhost, hown, hpeer⟩ := hwaits 0 .sim _ (List.mem_of_getElem? hsim) (by decide)
  exact ⟨husual, s, m₁, events, hstart, hproviders, hfactories, hother, hsame _ s.providers.reverse_perm, hhost,
    hown, hpeer .gpu (by decide) (by decide), hoffered, fun e he => hstreams e he m₁⟩

end Session

end OpGraph
