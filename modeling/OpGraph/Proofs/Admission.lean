import Mathlib.Data.List.Induction
import Mathlib.Data.List.Nodup
import OpGraph.Operator.Builtin
import OpGraph.Proofs.Pieces

/-!
# `Proofs.Admission` — a domain in any order

An operator is held against the first shape seen under its name, and its key against the keys seen before.
Neither depends on what came first: shapes are compared by the forms of their parameters, which is an
equality, so agreeing with the first of a name is agreeing with each; and no key stands twice in a list
exactly if none does in the list reordered. `Catalog.Admits` says what is asked of a domain without
mentioning an order, and `stageAll_ok_iff` that nothing else is asked.
-/

namespace OpGraph.Catalog

open Outcome Keyed

/-! ## What is asked of a domain -/

/-- The forms of an operator's parameters, if it has a shape. -/
def formsOf (op : Descriptor) : Except OpError (List ParameterForm × List ParameterForm) :=
  (FormalShape.ofSignature op.signature).map (·.forms)

/-- The kernel an operator adds to a domain, if it has a shape. -/
def kernelOf? (c : Catalog) (domain : String) (op : Descriptor) : Option (KernelDefinition × Factory) :=
  (bindingOf op).toOption.map fun b => c.kernelOf domain (op, b)

/-- The operators that are registered in a domain. -/
def operatorsOf (c : Catalog) (domain : String) : List Descriptor :=
  (c.kernels.entries.filter fun e => e.1.domain = domain).map (·.2.descriptor)

/-- What is asked of the operators of a domain. -/
structure Admits (c : Catalog) (domain : String) (ops : List Descriptor) : Prop where
  /-- Every operator has a shape. -/
  shaped : ∀ op ∈ ops, ∃ f, formsOf op = .ok f
  /-- Operators of one name, old and new, have parameters of the same forms. -/
  alike : ∀ op ∈ c.operatorsOf domain ++ ops, ∀ op' ∈ c.operatorsOf domain ++ ops,
    op.signature.name = op'.signature.name → formsOf op = formsOf op'
  /-- No two kernels, old and new, are one. -/
  fresh : (c.kernels.keys ++ (ops.filterMap (c.kernelOf? domain)).map (·.1.key)).Nodup

section

variable {c : Catalog} {domain : String} {ops ops' : List Descriptor}

/-- What is asked of a domain is asked in any order. -/
theorem Admits.perm (h : c.Admits domain ops) (hperm : ops.Perm ops') : c.Admits domain ops' where
  shaped op hop := h.shaped op (hperm.mem_iff.mpr hop)
  alike op hop op' hop' :=
    have hall := hperm.append_left (c.operatorsOf domain)
    h.alike op (hall.mem_iff.mpr hop) op' (hall.mem_iff.mpr hop')
  fresh := ((((hperm.filterMap _).map _).append_left _).nodup_iff).mp h.fresh

/-- What is asked of a domain is asked of its beginning. -/
theorem Admits.of_append {more : List Descriptor} (h : c.Admits domain (ops ++ more)) :
    c.Admits domain ops where
  shaped op hop := h.shaped op (List.mem_append_left _ hop)
  alike op hop op' hop' := by
    have hall : ∀ {op}, op ∈ c.operatorsOf domain ++ ops → op ∈ c.operatorsOf domain ++ (ops ++ more) := by
      intro op hop
      rw [← List.append_assoc]
      exact List.mem_append_left _ hop
    exact h.alike op (hall hop) op' (hall hop')
  fresh := by
    have hfresh := h.fresh
    rw [List.filterMap_append, List.map_append, ← List.append_assoc] at hfresh
    exact (List.nodup_append.mp hfresh).1

end

/-! ## Staging by forms -/

/-- The forms that operators of a name are held against: those of its draft, else those of its schema. -/
def formsAt (c : Catalog) (domain : String) (st : Staged) (name : String) :
    Option (List ParameterForm × List ParameterForm) :=
  match st.draft? name with
  | some d => some d.shape.forms
  | none => (c.schema? name domain).map (·.shape.forms)

theorem draftFor_forms (c : Catalog) (domain : String) (st : Staged) (name : String)
    (shape : FormalShape) :
    (c.draftFor domain st name shape).shape.forms = (c.formsAt domain st name).getD shape.forms := by
  unfold draftFor formsAt Staged.draft?
  cases st.drafts.find? fun d => d.name = name with
  | some d => rfl
  | none => cases c.schema? name domain <;> rfl

/-- Nothing speaks against an operator with these forms and this kernel. -/
structure Stages (c : Catalog) (domain : String) (st : Staged) (op : Descriptor)
    (f : List ParameterForm × List ParameterForm) (k : KernelDefinition × Factory) : Prop where
  forms : formsOf op = .ok f
  kernel : c.kernelOf? domain op = some k
  /-- The forms are those seen before under the name, if there are any. -/
  compatible : ∀ g, c.formsAt domain st op.signature.name = some g → g = f
  fresh : k.1.key ∉ c.kernels.keys ++ st.kernels.map (·.1.key)

section

variable {c : Catalog} {domain : String} {st st' : Staged} {op : Descriptor}

theorem formsOf_eq_ok {shape : FormalShape} (h : FormalShape.ofSignature op.signature = .ok shape) :
    formsOf op = .ok shape.forms := by
  rw [formsOf, h]
  rfl

theorem kernelOf?_eq_some {shape : FormalShape} (c : Catalog) (domain : String)
    (h : FormalShape.ofSignature op.signature = .ok shape) :
    c.kernelOf? domain op = some (c.kernelOf domain (op, shape.binding op.signature)) := by
  rw [kernelOf?, bindingOf, h]
  rfl

theorem kernelOf?_of_forms {f : List ParameterForm × List ParameterForm} (h : formsOf op = .ok f)
    (c : Catalog) (domain : String) : ∃ b, c.kernelOf? domain op = some (c.kernelOf domain (op, b)) := by
  obtain ⟨shape, hshape, -⟩ := map_eq_ok.mp h
  exact ⟨_, kernelOf?_eq_some c domain hshape⟩

/-- A draft has the forms of an operator exactly if nothing else was seen under the name. -/
theorem ensureCompatible_draftFor {shape : FormalShape} {name : String} :
    (c.draftFor domain st name shape).shape.ensureCompatible name shape = .ok () ↔
      ∀ g, c.formsAt domain st name = some g → g = shape.forms := by
  rw [FormalShape.ensureCompatible_eq_ok, draftFor_forms]
  cases c.formsAt domain st name <;> simp

/-- **An operator that nothing speaks against is staged.** -/
theorem Stages.ok {f : List ParameterForm × List ParameterForm} {k : KernelDefinition × Factory}
    (h : c.Stages domain st op f k) : ∃ st', c.stage domain st op = .ok st' := by
  obtain ⟨shape, hshape, rfl⟩ := map_eq_ok.mp h.forms
  have hk : some k = _ := h.kernel.symm.trans (kernelOf?_eq_some c domain hshape)
  obtain rfl := Option.some.inj hk
  -- The three checks, in the order they are made.
  exact ⟨_, bind_eq_ok.mpr ⟨shape, hshape, bind_eq_ok.mpr
    ⟨(), ensureCompatible_draftFor.mpr h.compatible, unless_eq_ok.mpr ⟨h.fresh, pure_eq_ok.mpr rfl⟩⟩⟩⟩

/-- **An operator that was staged had nothing against it**, and its forms are those of its name from now
    on. -/
theorem stages_of_ok (h : c.stage domain st op = .ok st') :
    ∃ f k, c.Stages domain st op f k ∧ st'.kernels = st.kernels ++ [k] ∧
      ∀ name, c.formsAt domain st' name =
        if op.signature.name = name then some f else c.formsAt domain st name := by
  obtain ⟨shape, hshape, hcompat, hkey, rfl⟩ := stage_eq_ok h
  refine ⟨shape.forms, _, ⟨formsOf_eq_ok hshape, kernelOf?_eq_some c domain hshape,
    ensureCompatible_draftFor.mp hcompat, hkey⟩, rfl, fun name => ?_⟩
  simp only [formsAt, Staged.draft?, find?_putDraft, draftFor_name]
  by_cases hname : op.signature.name = name
  · simp only [if_pos hname]
    rw [← FormalShape.ensureCompatible_eq_ok.mp hcompat]
  · simp only [if_neg hname]

end

/-! ## What staging has seen -/

/-- Names are held against the forms of the operators seen, those of the catalog included. -/
structure Formed (c : Catalog) (domain : String) (seen : List Descriptor) (st : Staged) : Prop where
  known : ∀ op ∈ c.operatorsOf domain ++ seen, ∃ f, formsOf op = .ok f ∧
    c.formsAt domain st op.signature.name = some f
  founded : ∀ name f, c.formsAt domain st name = some f →
    ∃ op ∈ c.operatorsOf domain ++ seen, op.signature.name = name ∧ formsOf op = .ok f
  /-- Each operator has its kernel. -/
  kernels : st.kernels = seen.filterMap (c.kernelOf? domain)

section

variable {c : Catalog} {domain : String} {seen ops ops' : List Descriptor} {st st' : Staged}
  {op : Descriptor}

theorem Formed.stage (h : c.Formed domain seen st) (hop : c.stage domain st op = .ok st') :
    c.Formed domain (seen ++ [op]) st' := by
  obtain ⟨f, k, hstages, hkernels, hforms⟩ := stages_of_ok hop
  constructor
  case known =>
    intro op' hop'
    rw [← List.append_assoc, List.mem_append, List.mem_singleton] at hop'
    rw [hforms]
    rcases hop' with hold | rfl
    · obtain ⟨f', hf', hat⟩ := h.known op' hold
      refine ⟨f', hf', ?_⟩
      split
      next hname => rw [hstages.compatible f' (hname ▸ hat)]
      · exact hat
    · exact ⟨f, hstages.forms, if_pos rfl⟩
  case founded =>
    intro name g hg
    rw [← List.append_assoc]
    rw [hforms] at hg
    split at hg
    next hname =>
      obtain rfl := Option.some.inj hg
      exact ⟨op, by simp, hname, hstages.forms⟩
    · obtain ⟨op', hmem, hrest⟩ := h.founded name g hg
      exact ⟨op', List.mem_append_left _ hmem, hrest⟩
  case kernels =>
    rw [hkernels, h.kernels, List.filterMap_append]
    simp [hstages.kernel]

theorem Formed.stageAll (h : c.Formed domain [] {}) (hst : c.stageAll domain ops = .ok st) :
    c.Formed domain ops st :=
  foldlM_induction (fun st seen => c.Formed domain seen st) (fun _ _ _ _ h hop => h.stage hop) ops {} []
    h hst

/-- What was staged is what is asked for. -/
theorem Formed.admits (h : c.Formed domain ops st)
    (hkeys : (c.kernels.keys ++ st.kernels.map (·.1.key)).Nodup) : c.Admits domain ops where
  shaped op hop := by
    obtain ⟨f, hf, -⟩ := h.known op (List.mem_append_right _ hop)
    exact ⟨f, hf⟩
  alike op hop op' hop' hname := by
    obtain ⟨f, hf, hat⟩ := h.known op hop
    obtain ⟨f', hf', hat'⟩ := h.known op' hop'
    rw [hname, hat'] at hat
    rw [hf, hf', Option.some.inj hat]
  fresh := h.kernels ▸ hkeys

/-- An operator that may come behind those staged is staged. -/
theorem Formed.stages (h : c.Formed domain ops st) (hadmits : c.Admits domain (ops ++ [op])) :
    ∃ f k, c.Stages domain st op f k := by
  obtain ⟨f, hf⟩ := hadmits.shaped op (by simp)
  obtain ⟨b, hkernel⟩ := kernelOf?_of_forms hf c domain
  refine ⟨f, _, hf, hkernel, fun g hg => ?_, ?_⟩
  · -- The forms seen before are those of an operator of the name.
    obtain ⟨op', hop', hname, hg'⟩ := h.founded _ g hg
    have hmem : op' ∈ c.operatorsOf domain ++ (ops ++ [op]) := by
      rw [← List.append_assoc]
      exact List.mem_append_left _ hop'
    have halike := hadmits.alike op' hmem op (by simp) hname
    rw [hg', hf] at halike
    exact Except.ok.inj halike
  · have hfresh := hadmits.fresh
    rw [List.filterMap_append, List.map_append, ← List.append_assoc, ← h.kernels] at hfresh
    simp only [List.filterMap_cons, hkernel, List.filterMap_nil, List.map_cons, List.map_nil] at hfresh
    exact fun hmem => (List.nodup_append.mp hfresh).2.2 _ hmem _ (List.mem_singleton_self _) rfl

/-- **A domain can be staged exactly if it is what is asked for.** -/
theorem stageAll_ok_iff (h : c.Lockstep) (hformed : c.Formed domain [] {}) :
    (∃ st, c.stageAll domain ops = .ok st) ↔ c.Admits domain ops := by
  constructor
  · rintro ⟨st, hst⟩
    exact (hformed.stageAll hst).admits (InStep.stageAll h hst).keys
  · intro hadmits
    induction ops using List.reverseRecOn with
    | nil => exact ⟨{}, rfl⟩
    | append_singleton ops op ih =>
        obtain ⟨st, hst⟩ := ih hadmits.of_append
        obtain ⟨f, k, hstages⟩ := (hformed.stageAll hst).stages hadmits
        obtain ⟨st', hst'⟩ := hstages.ok
        refine ⟨st', ?_⟩
        rw [stageAll, List.foldlM_append, bind_eq_ok]
        exact ⟨st, hst, by rw [List.foldlM_cons, hst']; rfl⟩

end

/-! ## Along a history -/

/-- The schemas of a catalog have the forms of the operators registered. -/
def Rooted (c : Catalog) : Prop := ∀ domain, c.Formed domain [] {}

theorem formsAt_nothing (c : Catalog) (domain name : String) :
    c.formsAt domain {} name = (c.schema? name domain).map (·.shape.forms) := rfl

/-- Where nothing is registered, no name has forms. -/
theorem Rooted.empty (newest : Nat) : Rooted { newest } := by
  intro domain
  constructor <;> simp [operatorsOf, formsAt_nothing, schema?]

section

variable {c : Catalog} {domain : String} {ops : List Descriptor} {st : Staged}

/-- Each operator that was staged is the operator of its kernel. -/
theorem Formed.operators (h : c.Formed domain ops st) (domain' : String) :
    (st.kernels.filter fun e => e.1.domain = domain').map (·.2.descriptor) =
      if domain = domain' then ops else [] := by
  have hkernels : ∀ op ∈ ops, ∃ b, c.kernelOf? domain op = some (c.kernelOf domain (op, b)) := by
    intro op hop
    obtain ⟨f, hf, -⟩ := h.known op (List.mem_append_right _ hop)
    exact kernelOf?_of_forms hf c domain
  rw [h.kernels]
  clear h
  induction ops with
  | nil => simp
  | cons op rest ih =>
      obtain ⟨b, hkernel⟩ := hkernels op List.mem_cons_self
      have hdomain : (c.kernelOf domain (op, b)).1.domain = domain := rfl
      rw [List.filterMap_cons, hkernel]
      show (List.filter _ (_ :: _)).map _ = _
      rw [List.filter_cons, hdomain, apply_ite (List.map _), List.map_cons,
        ih fun op hop => hkernels op (List.mem_cons_of_mem _ hop)]
      by_cases heq : domain = domain' <;> simp [heq, kernelOf]

theorem Rooted.committed (h : c.Lockstep) (hrooted : c.Rooted) (hst : c.stageAll domain ops = .ok st) :
    (c.committed domain ops st).Rooted := by
  have hs : c.InStep domain st := InStep.stageAll h hst
  have hformed : c.Formed domain ops st := (hrooted domain).stageAll hst
  intro domain'
  have hoperators : (c.committed domain ops st).operatorsOf domain' =
      c.operatorsOf domain' ++ if domain = domain' then ops else [] := by
    rw [← hformed.operators domain', operatorsOf, operatorsOf, ← List.map_append, ← List.filter_append]
    rfl
  have hforms : ∀ name, (c.committed domain ops st).formsAt domain' {} name =
      if domain = domain' then c.formsAt domain st name else c.formsAt domain' {} name := by
    intro name
    rw [formsAt_nothing, schema?_committed hs]
    by_cases hdomain : domain = domain'
    · subst hdomain
      rw [if_pos rfl, if_pos rfl]
      unfold formsAt
      cases st.draft? name <;> rfl
    · rw [if_neg hdomain, if_neg hdomain]
      rfl
  -- In the domain that came in, forms are those staging left; elsewhere nothing changed.
  by_cases hdomain : domain = domain'
  · subst hdomain
    simp only [if_true] at hoperators hforms
    constructor
    case known => simpa only [hoperators, hforms, List.append_nil] using hformed.known
    case founded => simpa only [hoperators, hforms, List.append_nil] using hformed.founded
    case kernels => rfl
  · simp only [if_neg hdomain, List.append_nil] at hoperators hforms
    constructor
    case known => simpa only [hoperators, hforms] using (hrooted domain').known
    case founded => simpa only [hoperators, hforms] using (hrooted domain').founded
    case kernels => rfl

end

/-- Schemas and kernels have the forms of the operators registered, along every history. -/
theorem history_rooted (newest : Nat) (calls : List (String × List Descriptor)) :
    (history newest calls).Rooted :=
  history_induction (P := Rooted) newest (.empty newest)
    (fun _ _ _ _ h hrooted hst => hrooted.committed h hst) calls

/-- No two schemas have one name in one domain, along every history. -/
theorem history_schemas_nodup (newest : Nat) (calls : List (String × List Descriptor)) :
    ((history newest calls).schemas.map schemaKey).Nodup := by
  refine history_induction (P := fun c => (c.schemas.map schemaKey).Nodup) newest List.nodup_nil ?_ calls
  intro c domain ops st _ hnodup _
  rw [committed, foldl_putSchema]
  exact putAll_nodup schemaKey hnodup

/-! ## Catalogs that differ in order -/

/-- Two catalogs have the same operators, and say the same of each, in whatever order. -/
structure Reordered (c c' : Catalog) : Prop where
  /-- There are schemas for the same names in the same domains. -/
  names : (c.schemas.map schemaKey).Perm (c'.schemas.map schemaKey)
  /-- Parameters have the same forms, position by position. -/
  forms : ∀ name domain, (c.schema? name domain).map (·.shape.forms) =
    (c'.schema? name domain).map (·.shape.forms)
  bindings : ∀ name domain, (c.schemaBindings name domain).Perm (c'.schemaBindings name domain)
  kernels : c.kernels.entries.Perm c'.kernels.entries
  keys : c.kernels.keys.Perm c'.kernels.keys

theorem mem_schemaKeys {c : Catalog} {name domain : String} :
    (domain, name) ∈ c.schemas.map schemaKey ↔ (c.schema? name domain).isSome := by
  rw [schema?, List.find?_isSome, List.mem_map]
  simp only [schemaKey, Prod.mk.injEq, Bool.and_eq_true, decide_eq_true_eq]

/-- The forms of a schema are those of the operators of its name. -/
theorem Rooted.forms_eq_some {c : Catalog} (h : c.Rooted) {name domain : String}
    {f : List ParameterForm × List ParameterForm} :
    (c.schema? name domain).map (·.shape.forms) = some f ↔
      ∃ op ∈ c.operatorsOf domain, op.signature.name = name ∧ formsOf op = .ok f := by
  have hdomain := h domain
  constructor
  · intro hf
    simpa using hdomain.founded name f hf
  · rintro ⟨op, hop, rfl, hf⟩
    obtain ⟨f', hf', hat⟩ := hdomain.known op (List.mem_append_left _ hop)
    rw [hf] at hf'
    rwa [Except.ok.inj hf']

/-- **Catalogs with the same kernels say the same of their operators.** -/
theorem Reordered.of_kernels {c c' : Catalog} (h : c.Lockstep) (h' : c'.Lockstep) (hrooted : c.Rooted)
    (hrooted' : c'.Rooted) (hnodup : (c.schemas.map schemaKey).Nodup)
    (hnodup' : (c'.schemas.map schemaKey).Nodup) (hperm : c.kernels.entries.Perm c'.kernels.entries) :
    c.Reordered c' := by
  have hoperators : ∀ domain, (c.operatorsOf domain).Perm (c'.operatorsOf domain) :=
    fun domain => (hperm.filter _).map _
  have hforms : ∀ name domain, (c.schema? name domain).map (·.shape.forms) =
      (c'.schema? name domain).map (·.shape.forms) := by
    intro name domain
    refine Option.ext fun f => ?_
    rw [hrooted.forms_eq_some, hrooted'.forms_eq_some]
    simp only [(hoperators domain).mem_iff]
  refine ⟨(List.perm_ext_iff_of_nodup hnodup hnodup').mpr fun ⟨domain, name⟩ => ?_, hforms,
    fun name domain => ?_, hperm, ?_⟩
  · rw [mem_schemaKeys, mem_schemaKeys, Option.isSome_iff_ne_none, Option.isSome_iff_ne_none, ne_eq, ne_eq,
      ← Option.map_eq_none_iff (f := fun s : OpSchema => s.shape.forms), hforms, Option.map_eq_none_iff]
  · rw [← h.bindings, ← h'.bindings]
    exact (hperm.filter _).map _
  · rw [h.listed, h'.listed]
    exact hperm.map _

/-- **The order of a domain's operators is irrelevant.** After any history, a domain goes in exactly if
    every operator has a shape, all operators of one name, old and new, agree in the forms of their
    parameters, and no two kernels, old and new, are one. So it goes in in one order exactly if it does in
    another, and either way there are the same schemas, with the same forms at each position, and up to
    order the same bindings, kernels and keys. -/
theorem order_of_operators_is_irrelevant (newest : Nat) (calls : List (String × List Descriptor))
    (domain : String) {ops ops' : List Descriptor} (hperm : ops.Perm ops') :
    let c := history newest calls
    ((∃ r, c.registerDomain domain ops = .ok r) ↔ c.Admits domain ops) ∧
      ((∃ r, c.registerDomain domain ops = .ok r) ↔ ∃ r, c.registerDomain domain ops' = .ok r) ∧
      ∀ c₁ out₁ c₂ out₂, c.registerDomain domain ops = .ok (c₁, out₁) →
        c.registerDomain domain ops' = .ok (c₂, out₂) →
          c₁.Reordered c₂ ∧ (out₁.map (·.name)).Perm (out₂.map (·.name)) := by
  intro c
  have h : c.Lockstep := history_lockstep newest calls
  have hrooted : c.Rooted := history_rooted newest calls
  have haccepted : ∀ ops, (∃ r, c.registerDomain domain ops = .ok r) ↔ c.Admits domain ops := by
    intro ops
    rw [← stageAll_ok_iff h (hrooted domain), h.registerDomain_eq]
    simp only [map_eq_ok]
    exact ⟨fun ⟨_, st, hst, _⟩ => ⟨st, hst⟩, fun ⟨st, hst⟩ => ⟨_, st, hst, rfl⟩⟩
  refine ⟨haccepted ops, ?_, fun c₁ out₁ c₂ out₂ hone hother => ?_⟩
  · rw [haccepted, haccepted]
    exact ⟨fun hadmits => hadmits.perm hperm, fun hadmits => hadmits.perm hperm.symm⟩
  · rw [h.registerDomain_eq, map_eq_ok] at hone hother
    obtain ⟨st₁, hst₁, heq₁⟩ := hone
    obtain ⟨st₂, hst₂, heq₂⟩ := hother
    obtain ⟨rfl, rfl⟩ := Prod.mk.inj heq₁
    obtain ⟨rfl, rfl⟩ := Prod.mk.inj heq₂
    have hkernels : st₁.kernels.Perm st₂.kernels := by
      rw [((hrooted domain).stageAll hst₁).kernels, ((hrooted domain).stageAll hst₂).kernels]
      exact hperm.filterMap _
    have hschemas : ∀ ops st, ((c.committed domain ops st).schemas.map schemaKey).Nodup := by
      intro ops st
      rw [committed, foldl_putSchema]
      exact putAll_nodup schemaKey (history_schemas_nodup newest calls)
    constructor
    · exact .of_kernels (h.committed hst₁) (h.committed hst₂) (hrooted.committed h hst₁)
        (hrooted.committed h hst₂) (hschemas ops st₁) (hschemas ops' st₂) (hkernels.append_left _)
    · have hnames₁ : (st₁.drafts.map (·.name)).Nodup := (InStep.stageAll h hst₁).names
      have hnames₂ : (st₂.drafts.map (·.name)).Nodup := (InStep.stageAll h hst₂).names
      show ((st₁.drafts.map (·.finish domain)).map (·.name)).Perm _
      rw [List.map_map, List.map_map]
      refine (List.perm_ext_iff_of_nodup hnames₁ hnames₂).mpr fun name => ?_
      rw [stageAll_names hst₁, stageAll_names hst₂, List.mem_eraseDups, List.mem_eraseDups]
      exact (hperm.map _).mem_iff

/-- The built-in operators, one of them registered before, go in backwards as well. -/
theorem order_of_operators_is_irrelevant_builtins :
    let c := history Interface.newest [(Builtin.domain, [Builtin.identity none])]
    let ops := [Builtin.identity (some .sim), Builtin.add (some .sim), Builtin.add none, Builtin.scale]
    ops.Perm ops.reverse ∧ ops ≠ ops.reverse ∧ c.Admits Builtin.domain ops ∧
      ∃ c₁ out₁ c₂ out₂, c.registerDomain Builtin.domain ops = .ok (c₁, out₁) ∧
        c.registerDomain Builtin.domain ops.reverse = .ok (c₂, out₂) ∧ c₁.Reordered c₂ ∧
          (out₁.map (·.name)).Perm (out₂.map (·.name)) := by
  intro c ops
  have hperm : ops.Perm ops.reverse := (List.reverse_perm ops).symm
  have hne : ops ≠ ops.reverse := by
    intro heq
    have hnames := congrArg (List.map fun op => op.signature.name) heq
    revert hnames
    decide
  obtain ⟨haccepted, hiff, hsame⟩ := order_of_operators_is_irrelevant Interface.newest
    [(Builtin.domain, [Builtin.identity none])] Builtin.domain hperm
  have hone : ∃ r, c.registerDomain Builtin.domain ops = .ok r := ⟨_, rfl⟩
  obtain ⟨⟨c₂, out₂⟩, h₂⟩ := hiff.mp hone
  obtain ⟨⟨c₁, out₁⟩, h₁⟩ := hone
  exact ⟨hperm, hne, haccepted.mp ⟨_, h₁⟩, c₁, out₁, c₂, out₂, h₁, h₂, hsame c₁ out₁ c₂ out₂ h₁ h₂⟩

end OpGraph.Catalog
