import OpGraph.Proofs.Shape
import OpGraph.Catalog

/-!
# `Proofs.Lockstep` — schemas and kernels grow together

Whatever domains were registered, the bindings of an operator's schema are the bindings of its kernels, in
the order the kernels came, and all of them fit the schema's shape. The same is said of a domain in the
making, where drafts stand in for schemas (`InStep`): staging one operator keeps it, and committing turns
it back into the statement about catalogs (`Lockstep`).
-/

namespace OpGraph

open Outcome

/-! ## Bindings of the kernels of an operator -/

namespace KernelTable

variable {Maker : Type}

/-- The bindings that some kernels have for one operator, in their order. -/
def bindingsAmong (es : List (KernelDefinition × Maker)) (name domain : String) : List TypeBinding :=
  (es.filter fun e => e.1.domain = domain && e.1.name = name).map (·.1.binding)

/-- The bindings of the kernels of one operator, in the order they were registered. -/
def bindings (t : KernelTable Maker) (name domain : String) : List TypeBinding :=
  bindingsAmong t.entries name domain

theorem bindings_eq (t : KernelTable Maker) (name domain : String) :
    t.bindings name domain = (t.ofOperator name domain).map (·.1.binding) := rfl

theorem bindingsAmong_append (es fs : List (KernelDefinition × Maker)) (name domain : String) :
    bindingsAmong (es ++ fs) name domain =
      bindingsAmong es name domain ++ bindingsAmong fs name domain := by
  simp [bindingsAmong]

theorem bindingsAmong_singleton (d : KernelDefinition) (m : Maker) (name domain : String) :
    bindingsAmong [(d, m)] name domain = if d.domain = domain ∧ d.name = name then [d.binding] else [] := by
  by_cases h : d.domain = domain ∧ d.name = name
  · simp [bindingsAmong, h]
  · have h' : (decide (d.domain = domain) && decide (d.name = name)) = false := by simpa using h
    simp [bindingsAmong, h, h']

/-- A kernel whose key is new goes behind all others. -/
theorem register_of_not_mem {t : KernelTable Maker} {d : KernelDefinition} (m : Maker)
    (h : d.key ∉ t.keys) : t.register d m = .ok ⟨t.entries ++ [(d, m)], t.keys ++ [d.key]⟩ := by
  simp [register, h]

end KernelTable

namespace Catalog

/-! ## The lockstep of schemas and kernels -/

/-- The bindings of the schema of an operator; none where there is no schema. -/
def schemaBindings (c : Catalog) (name domain : String) : List TypeBinding :=
  ((c.schema? name domain).map (·.bindings)).getD []

/-- Schemas and kernels of a catalog tell the same story. -/
structure Lockstep (c : Catalog) : Prop where
  /-- The bindings of a schema are those of its kernels. -/
  bindings : ∀ name domain, c.kernels.bindings name domain = c.schemaBindings name domain
  /-- A schema has a binding. -/
  inhabited : ∀ name domain s, c.schema? name domain = some s → s.bindings ≠ []
  /-- All bindings of a schema fit its shape. -/
  fits : ∀ name domain s, c.schema? name domain = some s → ∀ b ∈ s.bindings, s.shape.Fits b
  /-- A schema infers from the bindings it lists. -/
  captured : ∀ name domain s, c.schema? name domain = some s → s.captured = s.bindings
  /-- The keys are those of the kernels. -/
  listed : c.kernels.keys = c.kernels.entries.map (·.1.key)
  /-- No two kernels are one. -/
  keys : c.kernels.keys.Nodup
  /-- Exactly the domains with a schema have their versions recorded. -/
  ranges : ∀ domain, (c.range? domain).isSome ↔ ∃ name, (c.schema? name domain).isSome

/-! ## Drafts -/

/-- The draft of a name. -/
def Staged.draft? (st : Staged) (name : String) : Option Draft := st.drafts.find? fun d => d.name = name

theorem find?_putDraft (d : Draft) (ds : List Draft) (name : String) :
    ((putDraft d ds).find? fun e => e.name = name) =
      if d.name = name then some d else ds.find? fun e => e.name = name := by
  induction ds with
  | nil => by_cases h : d.name = name <;> simp [putDraft, h]
  | cons e rest ih =>
      by_cases he : e.name = d.name
      · by_cases h : d.name = name
        · simp [putDraft, he, h]
        · simp [putDraft, he, h]
      · by_cases h : e.name = name
        · have hd : d.name ≠ name := fun hd => he (h.trans hd.symm)
          rw [putDraft, if_neg he, if_neg hd]
          simp [h]
        · simp only [putDraft, he, if_false, List.find?_cons, h, decide_false]
          exact ih

theorem putDraft_names (d : Draft) (ds : List Draft) :
    (putDraft d ds).map (·.name) =
      if d.name ∈ ds.map (·.name) then ds.map (·.name) else ds.map (·.name) ++ [d.name] := by
  induction ds with
  | nil => simp [putDraft]
  | cons e rest ih =>
      by_cases he : e.name = d.name
      · simp [putDraft, he]
      · have he' : d.name ≠ e.name := fun h => he h.symm
        simp only [putDraft, he, if_false, List.map_cons, ih, List.mem_cons, he', false_or]
        by_cases h : d.name ∈ rest.map (·.name)
        · rw [if_pos h, if_pos h]
        · rw [if_neg h, if_neg h, List.cons_append]

/-- The bindings a name has once the domain in the making is in. -/
def bindingsWith (c : Catalog) (domain : String) (st : Staged) (name : String) : List TypeBinding :=
  match st.draft? name with
  | some d => d.bindings
  | none => c.schemaBindings name domain

/-- The lockstep of a catalog with a domain in the making. -/
structure InStep (c : Catalog) (domain : String) (st : Staged) : Prop where
  bindings : ∀ name,
    KernelTable.bindingsAmong (c.kernels.entries ++ st.kernels) name domain =
      c.bindingsWith domain st name
  domains : ∀ k ∈ st.kernels, k.1.domain = domain
  inhabited : ∀ name d, st.draft? name = some d → d.bindings ≠ []
  fits : ∀ name d, st.draft? name = some d → ∀ b ∈ d.bindings, d.shape.Fits b
  names : (st.drafts.map (·.name)).Nodup
  keys : (c.kernels.keys ++ st.kernels.map (·.1.key)).Nodup

/-- Nothing staged is in step. -/
theorem InStep.nothing {c : Catalog} (h : c.Lockstep) (domain : String) : c.InStep domain {} where
  bindings name := by
    rw [List.append_nil]
    exact h.bindings name domain
  domains := by simp
  inhabited := by simp [Staged.draft?]
  fits := by simp [Staged.draft?]
  names := by simp
  keys := by simpa using h.keys

/-- The draft of a name is under that name. -/
theorem draftFor_name (c : Catalog) (domain : String) (st : Staged) (name : String)
    (shape : FormalShape) : (c.draftFor domain st name shape).name = name := by
  unfold draftFor
  cases hd : st.drafts.find? fun d => d.name = name with
  | some d => simpa using List.find?_some hd
  | none => cases c.schema? name domain <;> rfl

/-- Where the draft of a name starts from: its bindings and its shape. -/
theorem draftFor_spec {c : Catalog} (h : c.Lockstep) {domain : String} {st : Staged}
    (hs : c.InStep domain st) (name : String) (shape : FormalShape) :
    (c.draftFor domain st name shape).bindings = c.bindingsWith domain st name ∧
      ∀ b ∈ (c.draftFor domain st name shape).bindings,
        (c.draftFor domain st name shape).shape.Fits b := by
  unfold draftFor bindingsWith Staged.draft?
  cases hd : st.drafts.find? fun d => d.name = name with
  | some d =>
      exact ⟨rfl, hs.fits name d hd⟩
  | none =>
      cases hsch : c.schema? name domain with
      | some s =>
          refine ⟨?_, h.fits name domain s hsch⟩
          simp [schemaBindings, hsch]
      | none => simp [schemaBindings, hsch]

/-- What staging one operator does. -/
theorem stage_eq_ok {c : Catalog} {domain : String} {st st' : Staged} {op : Descriptor}
    (h : c.stage domain st op = .ok st') :
    ∃ shape, FormalShape.ofSignature op.signature = .ok shape ∧
      let name := op.signature.name
      let binding := shape.binding op.signature
      let draft := c.draftFor domain st name shape
      let definition := definitionOf domain op.signature binding
      draft.shape.ensureCompatible name shape = .ok () ∧
        definition.key ∉ c.kernels.keys ++ st.kernels.map (·.1.key) ∧
        st' = { drafts := putDraft { draft with bindings := draft.bindings ++ [binding] } st.drafts
                kernels := st.kernels ++ [(definition, ⟨op, c.newest⟩)] } := by
  unfold stage at h
  rw [bind_eq_ok] at h
  obtain ⟨shape, hshape, h⟩ := h
  rw [bind_eq_ok] at h
  obtain ⟨_, hcompat, h⟩ := h
  obtain ⟨hkey, h⟩ := unless_eq_ok.mp h
  exact ⟨shape, hshape, hcompat, hkey, (pure_eq_ok.mp h).symm⟩

/-- Staging one more operator stays in step. -/
theorem InStep.stage {c : Catalog} (h : c.Lockstep) {domain : String} {st st' : Staged}
    {op : Descriptor} (hs : c.InStep domain st) (hop : c.stage domain st op = .ok st') :
    c.InStep domain st' := by
  obtain ⟨shape, hshape, hcompat, hkey, rfl⟩ := stage_eq_ok hop
  have hname := draftFor_name c domain st op.signature.name shape
  obtain ⟨hbindings, hfits⟩ := draftFor_spec h hs op.signature.name shape
  -- The draft's own shape was checked against the operator's, so the new binding fits it too.
  have hfit : (c.draftFor domain st op.signature.name shape).shape.Fits
      (shape.binding op.signature) :=
    FormalShape.fits_of_compatible hcompat (FormalShape.fits_binding hshape)
  constructor
  · intro name
    rw [← List.append_assoc, KernelTable.bindingsAmong_append, hs.bindings,
      KernelTable.bindingsAmong_singleton]
    simp only [bindingsWith, Staged.draft?, find?_putDraft, hname]
    by_cases hn : op.signature.name = name
    · subst hn
      simp [definitionOf, hbindings, bindingsWith, Staged.draft?]
    · simp [definitionOf, hn]
  · intro k hk
    rcases List.mem_append.mp hk with hk | hk
    · exact hs.domains k hk
    · obtain rfl := List.mem_singleton.mp hk
      rfl
  · intro name d hd
    simp only [Staged.draft?, find?_putDraft, hname] at hd
    by_cases hn : op.signature.name = name
    · obtain rfl : _ = d := by simpa [hn] using hd
      simp
    · rw [if_neg hn] at hd
      exact hs.inhabited name d hd
  · intro name d hd b hb
    simp only [Staged.draft?, find?_putDraft, hname] at hd
    by_cases hn : op.signature.name = name
    · obtain rfl : _ = d := by simpa [hn] using hd
      rcases List.mem_append.mp hb with hb | hb
      · subst hn
        exact hfits b hb
      · obtain rfl := List.mem_singleton.mp hb
        subst hn
        exact hfit
    · rw [if_neg hn] at hd
      exact hs.fits name d hd b hb
  · rw [putDraft_names]
    split
    · exact hs.names
    · next hnew => exact List.nodup_append.mpr ⟨hs.names, by simp, by simpa using hnew⟩
  · rw [List.map_append, ← List.append_assoc]
    refine List.nodup_append.mpr ⟨hs.keys, by simp, fun k hk k' hk' => ?_⟩
    rw [List.map_singleton, List.mem_singleton] at hk'
    exact fun heq => hkey (hk' ▸ heq ▸ hk)

/-- Staging a whole domain stays in step. -/
theorem InStep.stageAll {c : Catalog} (h : c.Lockstep) {domain : String} {ops : List Descriptor}
    {st : Staged} (hst : c.stageAll domain ops = .ok st) : c.InStep domain st :=
  foldlM_induction (fun st _ => c.InStep domain st) (fun _ _ _ _ hs hop => hs.stage h hop) ops {} []
    (InStep.nothing h domain) hst

/-- Drafts stand in the order in which their names first came. -/
theorem stageAll_names {c : Catalog} {domain : String} {ops : List Descriptor} {st : Staged}
    (hst : c.stageAll domain ops = .ok st) :
    st.drafts.map (·.name) = (ops.map (·.signature.name)).eraseDups := by
  refine foldlM_induction
    (fun (st : Staged) (seen : List Descriptor) =>
      st.drafts.map (·.name) = (seen.map (·.signature.name)).eraseDups)
    (fun st seen op st' hnames hop => ?_) ops ({} : Staged) [] rfl hst
  obtain ⟨shape, -, -, -, rfl⟩ := stage_eq_ok hop
  rw [putDraft_names, draftFor_name, hnames, List.map_append, List.map_singleton,
    FormalShape.eraseDups_concat]
  simp only [List.mem_eraseDups]

/-! ## Committing a domain -/

/-- Kernels with new keys, no two alike, all go in, in order behind the others. -/
theorem registerAll_of_nodup : ∀ {ks : List (KernelDefinition × Factory)} {t : KernelTable Factory},
    (t.keys ++ ks.map (·.1.key)).Nodup →
      registerAll t ks = (.ok (), ⟨t.entries ++ ks, t.keys ++ ks.map (·.1.key)⟩) := by
  intro ks
  induction ks with
  | nil => intro t _; simp [registerAll]
  | cons k rest ih =>
      intro t h
      rw [List.map_cons, List.append_cons] at h
      -- The key is none of the table's, which is all that could be wrong with it.
      have hnew : k.1.key ∉ t.keys := by
        have hfront := (List.nodup_append.mp h).1
        exact fun hmem => (List.nodup_append.mp hfront).2.2 _ hmem _ (List.mem_singleton.mpr rfl) rfl
      rw [registerAll, KernelTable.register_of_not_mem _ hnew]
      show registerAll ⟨t.entries ++ [k], t.keys ++ [k.1.key]⟩ rest = _
      rw [ih h]
      simp

theorem find?_putSchema (s : OpSchema) (ss : List OpSchema) (name domain : String) :
    ((putSchema s ss).find? fun e => e.domain = domain && e.name = name) =
      if s.domain = domain ∧ s.name = name then some s
      else ss.find? fun e => e.domain = domain && e.name = name := by
  induction ss with
  | nil =>
      by_cases h : s.domain = domain ∧ s.name = name
      · simp [putSchema, h]
      · simp [putSchema, h]
  | cons e rest ih =>
      by_cases he : e.domain = s.domain ∧ e.name = s.name
      · by_cases h : s.domain = domain ∧ s.name = name
        · simp [putSchema, he, h]
        · have h' : (decide (s.domain = domain) && decide (s.name = name)) = false := by simpa using h
          simp [putSchema, he, h, h']
      · have hput : putSchema s (e :: rest) = e :: putSchema s rest := by
          simp only [putSchema, Bool.and_eq_true, decide_eq_true_eq, he, if_false]
        rw [hput]
        by_cases h : e.domain = domain ∧ e.name = name
        · have hs : ¬(s.domain = domain ∧ s.name = name) :=
            fun hs => he ⟨h.1.trans hs.1.symm, h.2.trans hs.2.symm⟩
          simp [h, hs]
        · have h' : (decide (e.domain = domain) && decide (e.name = name)) = false := by simpa using h
          rw [List.find?_cons, h', List.find?_cons, h']
          exact ih

/-- The schema of a name once drafts are put in: the draft's where there is one, else the old one. -/
theorem find?_putDrafts {domain : String} : ∀ {ds : List Draft} (ss : List OpSchema)
    (name domain' : String), (ds.map (·.name)).Nodup →
    (((ds.map (·.finish domain)).foldl (fun ss s => putSchema s ss) ss).find? fun e =>
        e.domain = domain' && e.name = name) =
      if domain = domain' then
        ((ds.find? fun d => d.name = name).map (·.finish domain)).or
          (ss.find? fun e => e.domain = domain' && e.name = name)
      else ss.find? fun e => e.domain = domain' && e.name = name := by
  intro ds
  induction ds with
  | nil => intro ss name domain' _; simp
  | cons d rest ih =>
      intro ss name domain' hnames
      rw [List.map_cons, List.nodup_cons] at hnames
      obtain ⟨hd, hrest⟩ := hnames
      rw [List.map_cons, List.foldl_cons, ih _ _ _ hrest, find?_putSchema]
      by_cases hdom : domain = domain'
      · by_cases hname : d.name = name
        · -- No later draft has the name, so the schema that is put now stays.
          have hnone : (rest.find? fun e => e.name = name) = none := by
            rw [List.find?_eq_none]
            intro e he
            simp only [decide_eq_true_eq]
            exact fun heq => hd (List.mem_map.mpr ⟨e, he, heq.trans hname.symm⟩)
          simp [hdom, hname, hnone, Draft.finish]
        · simp [hdom, hname, Draft.finish]
      · simp [hdom, Draft.finish]

/-- The catalog after a domain was staged, when no kernel is refused. -/
def committed (c : Catalog) (domain : String) (ops : List Descriptor) (st : Staged) : Catalog :=
  { c with
    ranges := if ops.isEmpty then c.ranges else c.putRange domain
    schemas := (st.drafts.map (·.finish domain)).foldl (fun ss s => putSchema s ss) c.schemas
    kernels := ⟨c.kernels.entries ++ st.kernels, c.kernels.keys ++ st.kernels.map (·.1.key)⟩ }

/-- **What is staged can be committed**: staging has seen to it that no kernel is refused. -/
theorem InStep.commit {c : Catalog} {domain : String} {st : Staged} (hs : c.InStep domain st)
    (ops : List Descriptor) :
    c.commit domain ops st = (.ok (st.drafts.map (·.finish domain)), c.committed domain ops st) := by
  unfold Catalog.commit
  rw [registerAll_of_nodup hs.keys]
  rfl

/-- Registering a domain either changes nothing, or commits what was staged. -/
theorem Lockstep.enroll_cases {c : Catalog} (h : c.Lockstep) (domain : String)
    (ops : List Descriptor) :
    (∃ e, c.stageAll domain ops = .error e ∧ c.enroll domain ops = (.error e, c)) ∨
      ∃ st, c.stageAll domain ops = .ok st ∧ c.enroll domain ops =
        (.ok (st.drafts.map (·.finish domain)), c.committed domain ops st) := by
  unfold enroll
  cases hst : c.stageAll domain ops with
  | error e => exact .inl ⟨e, rfl, rfl⟩
  | ok st => exact .inr ⟨st, rfl, (InStep.stageAll h hst).commit ops⟩

/-- The schema of an operator after a domain is registered. -/
theorem schema?_committed {c : Catalog} {domain : String} {st : Staged} (hs : c.InStep domain st)
    (ops : List Descriptor) (name domain' : String) :
    (c.committed domain ops st).schema? name domain' =
      if domain = domain' then ((st.draft? name).map (·.finish domain)).or (c.schema? name domain')
      else c.schema? name domain' := by
  unfold schema?
  rw [committed, find?_putDrafts c.schemas name domain' hs.names]
  rfl

/-- A schema after a domain is registered is a finished draft or was there before. -/
theorem schema?_committed_eq_some {c : Catalog} {domain : String} {st : Staged}
    (hs : c.InStep domain st) {ops : List Descriptor} {name domain' : String} {s : OpSchema}
    (h : (c.committed domain ops st).schema? name domain' = some s) :
    (∃ d, st.draft? name = some d ∧ domain = domain' ∧ s = d.finish domain) ∨
      c.schema? name domain' = some s := by
  rw [schema?_committed hs] at h
  by_cases hdom : domain = domain'
  · rw [if_pos hdom] at h
    cases hd : st.draft? name with
    | none => exact .inr (by simpa [hd] using h)
    | some d => exact .inl ⟨d, rfl, hdom, by simpa [hd] using h.symm⟩
  · exact .inr (by simpa [hdom] using h)

/-- The versions of a domain after one is registered. -/
theorem range?_committed (c : Catalog) (domain : String) (ops : List Descriptor) (st : Staged)
    (domain' : String) :
    (c.committed domain ops st).range? domain' =
      if domain = domain' ∧ ops ≠ [] then (c.range? domain').or (some customRange)
      else c.range? domain' := by
  unfold committed
  cases ops with
  | nil => simp [range?]
  | cons op ops =>
      unfold putRange
      by_cases hdom : domain = domain'
      · subst hdom
        cases hr : c.range? domain with
        | some r => simpa [range?] using hr
        | none =>
            have hr' : c.ranges.lookup domain = none := hr
            simp [range?, List.lookup_append, hr']
      · have hdom' : (domain' == domain) = false := by simpa using Ne.symm hdom
        cases hr : (c.range? domain).isSome <;>
          simp [range?, List.lookup_append, hdom, List.lookup_cons, hdom']

/-- A draft of the domain keeps being found, so a domain with an operator has a schema. -/
theorem exists_draft {c : Catalog} {domain : String} {ops : List Descriptor} {st : Staged}
    (hst : c.stageAll domain ops = .ok st) (hops : ops ≠ []) : ∃ name d, st.draft? name = some d := by
  obtain ⟨op, hop⟩ := List.exists_mem_of_ne_nil ops hops
  have hname : op.signature.name ∈ st.drafts.map (·.name) := by
    rw [stageAll_names hst]
    exact List.mem_eraseDups.mpr (List.mem_map.mpr ⟨op, hop, rfl⟩)
  obtain ⟨d, hd, hdname⟩ := List.mem_map.mp hname
  refine ⟨op.signature.name, ?_⟩
  exact Option.isSome_iff_exists.mp (List.find?_isSome.mpr ⟨d, hd, by simpa using hdname⟩)

/-- **Committing a staged domain keeps schemas and kernels in lockstep.** -/
theorem Lockstep.committed {c : Catalog} {domain : String} {ops : List Descriptor} {st : Staged}
    (h : c.Lockstep) (hst : c.stageAll domain ops = .ok st) : (c.committed domain ops st).Lockstep := by
  have hs : c.InStep domain st := InStep.stageAll h hst
  have hschema := schema?_committed hs ops
  -- Kernels of other domains are those there were.
  have hother : ∀ name domain', domain ≠ domain' →
      KernelTable.bindingsAmong st.kernels name domain' = [] := by
    intro name domain' hne
    simp only [KernelTable.bindingsAmong, List.map_eq_nil_iff, List.filter_eq_nil_iff]
    intro k hk
    simp [hs.domains k hk, hne]
  constructor
  case bindings =>
    intro name domain'
    show KernelTable.bindingsAmong (c.kernels.entries ++ st.kernels) name domain' = _
    unfold schemaBindings
    rw [hschema]
    by_cases hdom : domain = domain'
    · subst hdom
      rw [hs.bindings]
      unfold bindingsWith schemaBindings
      cases hd : st.draft? name <;> simp [Draft.finish]
    · rw [KernelTable.bindingsAmong_append, hother name domain' hdom, List.append_nil, if_neg hdom]
      exact h.bindings name domain'
  case inhabited =>
    intro name domain' s hfound
    obtain ⟨d, hd, -, rfl⟩ | hold := schema?_committed_eq_some hs hfound
    · exact hs.inhabited name d hd
    · exact h.inhabited name domain' s hold
  case fits =>
    intro name domain' s hfound
    obtain ⟨d, hd, -, rfl⟩ | hold := schema?_committed_eq_some hs hfound
    · exact hs.fits name d hd
    · exact h.fits name domain' s hold
  case captured =>
    intro name domain' s hfound
    obtain ⟨d, -, -, rfl⟩ | hold := schema?_committed_eq_some hs hfound
    · rfl
    · exact h.captured name domain' s hold
  case listed => simp [Catalog.committed, h.listed]
  case keys => exact hs.keys
  case ranges =>
    intro domain'
    rw [range?_committed]
    simp only [hschema]
    by_cases hdom : domain = domain'
    · subst hdom
      by_cases hops : ops = []
      · -- Nothing was staged.
        subst hops
        obtain rfl : {} = st := by simpa [stageAll, pure_eq_ok] using hst
        simpa [Staged.draft?] using h.ranges domain
      · obtain ⟨name, d, hd⟩ := exists_draft hst hops
        simp only [hops, ne_eq, not_false_eq_true, and_self, if_true]
        exact ⟨fun _ => ⟨name, by simp [hd]⟩, fun _ => by cases c.range? domain <;> rfl⟩
    · simpa [hdom] using h.ranges domain'

/-- **Registering a domain keeps schemas and kernels in lockstep**, whatever its outcome. -/
theorem Lockstep.enroll {c : Catalog} (h : c.Lockstep) (domain : String) (ops : List Descriptor) :
    (c.enroll domain ops).2.Lockstep := by
  obtain ⟨e, -, heq⟩ | ⟨st, hst, heq⟩ := h.enroll_cases domain ops
  · rw [heq]
    exact h
  · rw [heq]
    exact h.committed hst

/-! ## Catalogs that can come about -/

/-- Catalogs that come about by registering domains, one after the other. -/
inductive Reachable : Catalog → Prop
  /-- Nothing is registered. -/
  | empty (newest : Nat) : Reachable { newest }
  /-- One more domain is registered. -/
  | register {c c' : Catalog} {domain : String} {ops : List Descriptor} {out : List OpSchema} :
      Reachable c → c.registerDomain domain ops = .ok (c', out) → Reachable c'

/-- Where nothing is registered, there is nothing to disagree. -/
theorem Lockstep.empty (newest : Nat) : Lockstep { newest } := by
  constructor <;> simp [KernelTable.bindings, KernelTable.bindingsAmong, schemaBindings, schema?, range?]

/-- **Schemas and kernels are in lockstep in every catalog that can come about.** -/
theorem Reachable.lockstep {c : Catalog} (h : c.Reachable) : c.Lockstep := by
  induction h with
  | empty newest => exact .empty newest
  | @register c c' domain ops _ _ hreg ih =>
      have hcat : (c.enroll domain ops).2 = c' := by
        obtain ⟨_, -, hpair⟩ := map_eq_ok.mp hreg
        exact (Prod.mk.inj hpair).1
      exact hcat ▸ ih.enroll domain ops

end Catalog

end OpGraph
