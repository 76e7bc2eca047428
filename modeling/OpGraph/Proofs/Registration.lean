import Mathlib.Data.List.Induction
import OpGraph.Proofs.Lockstep

/-!
# `Proofs.Registration` — a domain goes in whole or not at all

Registering a domain changes a catalog at its domains, its schemas and its kernels, in that order, and the
last of these can be refused when the others are done. It never is: staging has held every key against
those of the catalog and those staged before it (`InStep.keys`), and the catalog's own keys are those of
its kernels (`Lockstep.listed`). So a catalog is left as it was, or has every operator in it (`Enrolled`),
and along any history of registrations, refused ones included, schemas and kernels agree.
-/

namespace OpGraph.Catalog

open Outcome

/-! ## Histories -/

/-- The catalog after some domains were registered one after the other, each with whatever outcome. -/
def history (newest : Nat) (calls : List (String × List Descriptor)) : Catalog :=
  calls.foldl (fun c call => (c.enroll call.1 call.2).2) { newest }

/-- Schemas and kernels are in lockstep along every history. -/
theorem history_lockstep (newest : Nat) (calls : List (String × List Descriptor)) :
    (history newest calls).Lockstep := by
  have hfold : ∀ (calls : List (String × List Descriptor)) (c : Catalog), c.Lockstep →
      (calls.foldl (fun c call => (c.enroll call.1 call.2).2) c).Lockstep := by
    intro calls
    induction calls with
    | nil => exact fun c h => h
    | cons call rest ih => exact fun c h => ih _ (h.enroll call.1 call.2)
  exact hfold calls { newest } (.empty newest)

theorem history_append (newest : Nat) (calls : List (String × List Descriptor)) (domain : String)
    (ops : List Descriptor) :
    history newest (calls ++ [(domain, ops)]) = ((history newest calls).enroll domain ops).2 := by
  simp [history]

/-- What holds of the empty catalog and is kept when a staged domain is committed holds along every
    history. -/
theorem history_induction {P : Catalog → Prop} (newest : Nat) (hempty : P { newest })
    (hcommitted : ∀ c domain ops st, c.Lockstep → P c → c.stageAll domain ops = .ok st →
      P (c.committed domain ops st))
    (calls : List (String × List Descriptor)) : P (history newest calls) := by
  induction calls using List.reverseRecOn with
  | nil => exact hempty
  | append_singleton calls call ih =>
      obtain ⟨domain, ops⟩ := call
      have h : (history newest calls).Lockstep := history_lockstep newest calls
      rw [history_append]
      obtain ⟨e, -, heq⟩ | ⟨st, hst, heq⟩ := h.enroll_cases domain ops
      · rw [heq]
        exact ih
      · rw [heq]
        exact hcommitted _ domain ops st h ih hst

/-! ## What an operator brings -/

/-- The binding of an operator, if it has a shape. -/
def bindingOf (op : Descriptor) : Except OpError TypeBinding :=
  (FormalShape.ofSignature op.signature).map fun shape => shape.binding op.signature

/-- The kernel an operator with this binding adds to a domain of a catalog. -/
def kernelOf (c : Catalog) (domain : String) (op : Descriptor × TypeBinding) :
    KernelDefinition × Factory :=
  (definitionOf domain op.1.signature op.2, ⟨op.1, c.newest⟩)

/-- The operators of one name, among some with their bindings. -/
def named (name : String) (ops : List (Descriptor × TypeBinding)) : List (Descriptor × TypeBinding) :=
  ops.filter fun op => op.1.signature.name = name

/-- What staging has gathered from the operators seen. -/
structure Gathered (c : Catalog) (domain : String) (seen : List Descriptor) (st : Staged) : Prop where
  /-- One kernel for each of them, with its binding. -/
  kernels : ∃ bs, seen.mapM bindingOf = .ok bs ∧ st.kernels = (seen.zip bs).map (c.kernelOf domain)
  /-- A draft of a schema that exists has its shape. -/
  shapes : ∀ name d s, st.draft? name = some d → c.schema? name domain = some s → d.shape = s.shape

theorem Gathered.stage {c : Catalog} {domain : String} {seen : List Descriptor} {st st' : Staged}
    {op : Descriptor} (h : c.Gathered domain seen st) (hop : c.stage domain st op = .ok st') :
    c.Gathered domain (seen ++ [op]) st' := by
  obtain ⟨shape, hshape, -, -, rfl⟩ := stage_eq_ok hop
  constructor
  case kernels =>
    obtain ⟨bs, hbs, hkernels⟩ := h.kernels
    have hlen : seen.length = bs.length := (length_of_mapM_eq_ok hbs).symm
    refine ⟨bs ++ [shape.binding op.signature], ?_, ?_⟩
    · rw [mapM_eq_ok] at hbs ⊢
      simp [hbs, bindingOf, hshape, Except.map]
    · show st.kernels ++ _ = _
      rw [List.zip_append hlen, List.map_append, hkernels]
      rfl
  case shapes =>
    intro name d s hd hsch
    simp only [Staged.draft?, find?_putDraft, draftFor_name] at hd
    by_cases hname : op.signature.name = name
    · -- The draft goes on from the one begun, or starts from the schema.
      subst hname
      obtain rfl := Option.some.inj ((if_pos rfl).symm.trans hd)
      show (c.draftFor domain st op.signature.name shape).shape = s.shape
      unfold draftFor
      cases hbegun : st.drafts.find? fun d => d.name = op.signature.name with
      | some d => exact h.shapes _ d s hbegun hsch
      | none => simp [hsch]
    · rw [if_neg hname] at hd
      exact h.shapes name d s hd hsch

/-- Staging gathers from all operators of a domain. -/
theorem Gathered.stageAll {c : Catalog} {domain : String} {ops : List Descriptor} {st : Staged}
    (hst : c.stageAll domain ops = .ok st) : c.Gathered domain ops st := by
  have hnothing : c.Gathered domain [] {} := by
    refine ⟨⟨[], rfl, rfl⟩, fun name d s hd => ?_⟩
    simp [Staged.draft?] at hd
  exact foldlM_induction (fun st seen => c.Gathered domain seen st)
    (fun _ _ _ _ h hop => h.stage hop) ops {} [] hnothing hst

/-! ## A domain that is in -/

/-- The catalog `c'` is `c` with every operator of a domain in it; `bs` are the operators' bindings and
    `out` the schemas that are reported. -/
structure Enrolled (c c' : Catalog) (domain : String) (ops : List Descriptor) (bs : List TypeBinding)
    (out : List OpSchema) : Prop where
  newest : c'.newest = c.newest
  /-- Every operator has a binding. -/
  bound : ops.mapM bindingOf = .ok bs
  /-- Each operator added one kernel to those of its name, in order, and nothing else was added. -/
  kernels : ∀ name domain', c'.kernels.ofOperator name domain' = c.kernels.ofOperator name domain' ++
    if domain = domain' then (named name (ops.zip bs)).map (c.kernelOf domain) else []
  /-- Each operator added its binding to those of its name, in order. -/
  bindings : ∀ name, c'.schemaBindings name domain =
    c.schemaBindings name domain ++ (named name (ops.zip bs)).map (·.2)
  /-- A schema that was there keeps its shape. -/
  shapes : ∀ name domain' s, c.schema? name domain' = some s →
    ∃ s', c'.schema? name domain' = some s' ∧ s'.shape = s.shape
  /-- Schemas of other names and domains are as they were. -/
  others : ∀ name domain', domain ≠ domain' ∨ name ∉ ops.map (·.signature.name) →
    c'.schema? name domain' = c.schema? name domain'
  /-- The domain is known, unless nothing came in; other domains are as they were. -/
  ranges : ∀ domain', c'.range? domain' =
    if domain = domain' ∧ ops ≠ [] then (c.range? domain').or (some customRange) else c.range? domain'
  /-- The schemas reported are one for each name, in the order names first came. -/
  names : out.map (·.name) = (ops.map (·.signature.name)).eraseDups
  /-- They are the schemas of the catalog. -/
  reported : ∀ s ∈ out, s.domain = domain ∧ c'.schema? s.name domain = some s

theorem ofOperator_kernelOf (c : Catalog) (domain : String) (ops : List (Descriptor × TypeBinding))
    (name domain' : String) :
    ((ops.map (c.kernelOf domain)).filter fun e => e.1.domain = domain' && e.1.name = name) =
      if domain = domain' then (named name ops).map (c.kernelOf domain) else [] := by
  rw [List.filter_map]
  by_cases hdom : domain = domain'
  · rw [if_pos hdom]
    refine congrArg (List.map _) (List.filter_congr fun op _ => ?_)
    show (decide (domain = domain') && decide (op.1.signature.name = name)) = _
    rw [decide_eq_true hdom, Bool.true_and]
  · simp [hdom, kernelOf, definitionOf, Function.comp_def]

/-- A draft that is in is found under its name. -/
theorem draft?_of_mem {st : Staged} (hnames : (st.drafts.map (·.name)).Nodup) {d : Draft}
    (hd : d ∈ st.drafts) : st.draft? d.name = some d := by
  unfold Staged.draft?
  rw [List.find?_eq_some_iff_append]
  obtain ⟨before, after, hsplit⟩ := List.append_of_mem hd
  refine ⟨by simp, before, after, hsplit, fun e he => ?_⟩
  rw [hsplit, List.map_append, List.nodup_append] at hnames
  have hne := hnames.2.2 e.name (List.mem_map_of_mem he) d.name (by simp)
  simpa using hne

/-- **A staged domain, once committed, is in the catalog.** -/
theorem Lockstep.enrolled {c : Catalog} (h : c.Lockstep) {domain : String} {ops : List Descriptor}
    {st : Staged} (hst : c.stageAll domain ops = .ok st) :
    ∃ bs, c.Enrolled (c.committed domain ops st) domain ops bs (st.drafts.map (·.finish domain)) := by
  have hs : c.InStep domain st := InStep.stageAll h hst
  have hgathered : c.Gathered domain ops st := .stageAll hst
  obtain ⟨bs, hbs, hkernels⟩ := hgathered.kernels
  have hof : ∀ name domain', (c.committed domain ops st).kernels.ofOperator name domain' =
      c.kernels.ofOperator name domain' ++
        if domain = domain' then (named name (ops.zip bs)).map (c.kernelOf domain) else [] := by
    intro name domain'
    show (c.kernels.entries ++ st.kernels).filter _ = _
    rw [List.filter_append, hkernels, ofOperator_kernelOf]
    rfl
  refine ⟨bs, ⟨rfl, hbs, hof, ?bindings, ?shapes, ?others, range?_committed c domain ops st, ?names,
    ?reported⟩⟩
  case bindings =>
    -- Both sides are bindings of kernels.
    intro name
    rw [← (h.committed hst).bindings, ← h.bindings, KernelTable.bindings_eq, KernelTable.bindings_eq, hof,
      if_pos rfl, List.map_append, List.map_map]
    rfl
  case shapes =>
    intro name domain' s hfound
    rw [schema?_committed hs]
    by_cases hdom : domain = domain'
    · subst hdom
      rw [if_pos rfl]
      cases hd : st.draft? name with
      | none => exact ⟨s, hfound, rfl⟩
      | some d => exact ⟨d.finish domain, rfl, hgathered.shapes name d s hd hfound⟩
    · rw [if_neg hdom]
      exact ⟨s, hfound, rfl⟩
  case others =>
    intro name domain' hother
    rw [schema?_committed hs]
    by_cases hdom : domain = domain'
    · have hname : name ∉ st.drafts.map (·.name) := by
        rw [stageAll_names hst, List.mem_eraseDups]
        exact hother.resolve_left fun hne => hne hdom
      have hnone : st.draft? name = none := by
        refine List.find?_eq_none.mpr fun d hd heq => hname (List.mem_map.mpr ⟨d, hd, ?_⟩)
        simpa using heq
      rw [if_pos hdom, hnone]
      rfl
    · rw [if_neg hdom]
  case names =>
    rw [List.map_map, ← stageAll_names hst]
    rfl
  case reported =>
    intro s hmem
    obtain ⟨d, hd, rfl⟩ := List.mem_map.mp hmem
    refine ⟨rfl, ?_⟩
    rw [schema?_committed hs, if_pos rfl]
    show ((st.draft? d.name).map (·.finish domain)).or _ = _
    rw [draft?_of_mem hs.names hd]
    rfl

/-! ## The whole story -/

/-- **Registering a domain is all or nothing.** After any history, registering a domain ends in an error
    and changes nothing, or it puts every operator in; what was staged is never refused. -/
theorem enroll_all_or_nothing (newest : Nat) (calls : List (String × List Descriptor))
    (domain : String) (ops : List Descriptor) :
    let c := history newest calls
    ((∃ e, c.enroll domain ops = (.error e, c)) ∨
        ∃ bs out c', c.enroll domain ops = (.ok out, c') ∧ c.Enrolled c' domain ops bs out) ∧
      ∀ st, c.stageAll domain ops = .ok st → ∃ out, (c.commit domain ops st).1 = .ok out := by
  intro c
  have h : c.Lockstep := history_lockstep newest calls
  constructor
  · obtain ⟨e, -, heq⟩ | ⟨st, hst, heq⟩ := h.enroll_cases domain ops
    · exact .inl ⟨e, heq⟩
    · obtain ⟨bs, hin⟩ := h.enrolled hst
      exact .inr ⟨bs, _, _, heq, hin⟩
  · intro st hst
    rw [(InStep.stageAll h hst).commit ops]
    exact ⟨_, rfl⟩

/-- **Schemas and kernels stay in lockstep.** After any history, a schema stands exactly where there are
    kernels, and lists, infers from and shapes their bindings; no two kernels are one, all are counted,
    and the domains with a schema are those whose versions are known. -/
theorem schemas_match_kernels (newest : Nat) (calls : List (String × List Descriptor)) :
    let c := history newest calls
    (∀ name domain, (c.schema? name domain).isSome ↔ c.kernels.ofOperator name domain ≠ []) ∧
      (∀ name domain s, c.schema? name domain = some s →
        (c.kernels.ofOperator name domain).map (·.1.binding) = s.bindings ∧
          (∀ b ∈ s.bindings, s.shape.Fits b) ∧
          ∀ inputs count, s.inferNode inputs count = s.bindings.findSome? fun b => b.infer inputs count) ∧
      (c.kernels.entries.map (·.1.key)).Nodup ∧
      c.kernels.size = c.kernels.entries.length ∧
      ∀ domain, (c.range? domain).isSome ↔ ∃ name, (c.schema? name domain).isSome := by
  intro c
  have h : c.Lockstep := history_lockstep newest calls
  have hbindings : ∀ name domain, (c.kernels.ofOperator name domain).map (·.1.binding) =
      c.schemaBindings name domain := h.bindings
  refine ⟨fun name domain => ?_, fun name domain s hs => ⟨?_, h.fits name domain s hs, ?_⟩, ?_, ?_,
    h.ranges⟩
  · have hnone : c.kernels.ofOperator name domain = [] ↔ c.schemaBindings name domain = [] := by
      rw [← hbindings, List.map_eq_nil_iff]
    rw [ne_eq, hnone]
    unfold schemaBindings
    cases hs : c.schema? name domain with
    | none => simp
    | some s => simpa using h.inhabited name domain s hs
  · rw [hbindings, schemaBindings, hs]
    rfl
  · intro inputs count
    rw [OpSchema.inferNode, h.captured name domain s hs]
  · exact h.listed ▸ h.keys
  · rw [KernelTable.size, h.listed, List.length_map]

end OpGraph.Catalog
