import OpGraph.Proofs.Legal
import OpGraph.Proofs.Matching
import OpGraph.Proofs.Registration
import OpGraph.Proofs.Selection

/-!
# `Proofs.Resolving` — when a schema has an answer, and what stays unknown

All bindings of a schema allow the same numbers of outputs, so whether inference has an answer splits in
two: some binding takes the inputs, and the number of outputs is allowed (`OpSchema.Allows`). Where a kernel
was found the first is given, so planning leaves a type unknown only for a wrong number of outputs or for an
output that is the wildcard when no input has fixed it. In a legal signature an input can always fix it.
-/

namespace OpGraph

/-! ## What a binding leaves unknown -/

namespace TypeBinding

variable {b : TypeBinding} {inputs : List DataType} {count i : Nat}

/-- An output is the wildcard, and no input says what that stands for. -/
def Unresolved (b : TypeBinding) (inputs : List DataType) (i : Nat) : Prop :=
  entry? b.outputs i = some .undefined ∧ ¬b.MeetsWildcard inputs

theorem matchInputs_eq_undefined_iff {w : DataType} (h : b.matchInputs inputs = some w) :
    w = .undefined ↔ ¬b.MeetsWildcard inputs := by
  obtain ⟨-, s, hagrees, hmeets, hopen⟩ := matchInputs_eq_some_iff.mp h
  refine ⟨fun hw hsome => hsome.defined hagrees (hmeets hsome ▸ hw), hopen⟩

/-- **What a binding infers is unknown exactly where it is unresolved.** -/
theorem infer_unknown_iff {ts : List DataType} (h : b.infer inputs count = some ts) :
    ts[i]? = some .undefined ↔ i < count ∧ b.Unresolved inputs i := by
  obtain ⟨w, hmatch, hresolved⟩ := infer_eq_some_iff.mp h
  obtain ⟨-, hlength, hentries⟩ := resolveOutputs_eq_some_iff.mp hresolved
  rw [Unresolved, ← matchInputs_eq_undefined_iff hmatch]
  by_cases hi : i < count
  · obtain ⟨d, hd, hget⟩ := hentries i hi
    rw [hget, hd, fill]
    grind
  · have hnone : ts[i]? = none := List.getElem?_eq_none (by omega)
    simp [hnone, hi]

end TypeBinding

/-! ## What a schema allows -/

namespace OpSchema

/-- An operator of the schema can have this many outputs: one for each parameter or, where the last one
    repeats, at least the others and its least number. -/
def Allows (s : OpSchema) (count : Nat) : Prop :=
  TypeBinding.Enough s.shape.outputs.length (FormalShape.lastVariadic s.shape.outputs) count

/-- The first binding that takes the inputs. -/
def firstTaking (s : OpSchema) (inputs : List DataType) : Option TypeBinding :=
  s.bindings.find? fun b => (b.matchInputs inputs).isSome

variable {s : OpSchema} {inputs : List DataType}

theorem firstTaking_eq_none_iff :
    s.firstTaking inputs = none ↔ ∀ b ∈ s.bindings, b.matchInputs inputs = none := by
  simp [firstTaking]

theorem takes_of_firstTaking {b : TypeBinding} (h : s.firstTaking inputs = some b) :
    b ∈ s.bindings ∧ (b.matchInputs inputs).isSome := by
  unfold firstTaking at h
  exact ⟨List.mem_of_find?_eq_some h, by simpa using List.find?_some h⟩

end OpSchema

namespace Catalog

variable {c : Catalog} {name domain : String} {s : OpSchema} {inputs : List DataType} {count : Nat}

/-- A schema infers by the first binding that takes the inputs. -/
theorem Lockstep.inferNode_firstTaking (h : c.Lockstep) (hs : c.schema? name domain = some s)
    (inputs : List DataType) (count : Nat) :
    s.inferNode inputs count = (s.firstTaking inputs).bind (·.infer inputs count) := by
  rw [OpSchema.inferNode, h.captured name domain s hs]
  exact TypeBinding.findSome?_infer (h.fits name domain s hs)

/-- The first binding that takes the inputs has an answer for every number of outputs the schema allows. -/
theorem Lockstep.firstTaking_infer (h : c.Lockstep) (hs : c.schema? name domain = some s)
    {b : TypeBinding} (hb : s.firstTaking inputs = some b) :
    (b.infer inputs count).isSome ↔ s.Allows count := by
  obtain ⟨hmem, htakes⟩ := OpSchema.takes_of_firstTaking hb
  have hfits : s.shape.Fits b := h.fits name domain s hs b hmem
  rw [TypeBinding.infer_isSome_iff, OpSchema.Allows, hfits.outputs, hfits.variadicOutput]
  exact and_iff_right htakes

/-- Where a kernel is found, the operator has a schema and one of its bindings takes the inputs. -/
theorem Lockstep.exists_firstTaking (h : c.Lockstep) {provider : ProviderId}
    {e : KernelDefinition × Factory} (hlookup : c.kernels.lookup name domain inputs provider = .ok e) :
    ∃ s b, c.schema? name domain = some s ∧ s.firstTaking inputs = some b := by
  obtain ⟨hmem, hname, hdomain, -, htakes⟩ := KernelTable.serves_of_lookup hlookup
  have hbinding : e.1.binding ∈ c.schemaBindings name domain := by
    rw [← h.bindings, KernelTable.bindings_eq]
    exact List.mem_map.mpr ⟨e, by simp [KernelTable.ofOperator, hmem, hname, hdomain], rfl⟩
  unfold schemaBindings at hbinding
  cases hs : c.schema? name domain with
  | none => simp [hs] at hbinding
  | some s =>
      have hlisted : e.1.binding ∈ s.bindings := by simpa [hs] using hbinding
      refine ⟨s, ?_⟩
      cases hb : s.firstTaking inputs with
      | some b => exact ⟨b, rfl, rfl⟩
      | none => simp [OpSchema.firstTaking_eq_none_iff.mp hb _ hlisted] at htakes

end Catalog

/-! ## What planning leaves unknown -/

namespace Plan

/-- A node's output is left unknown exactly where the node has a number of outputs that the schema does not
    allow, or where the first binding that takes the inputs leaves it unresolved. -/
theorem Decided.unknown_iff {s : Session} {g : Graph} {vs : List Value} {n : Node} {c : Choice}
    (h : Decided s g vs n c) (hlockstep : s.catalog.Lockstep) :
    ∃ sch, s.catalog.schema? n.op n.domain = some sch ∧ ∀ i, c.types[i]? = some .undefined ↔
      i < c.outputs.length ∧ (¬sch.Allows c.outputs.length ∨
        ∃ b, sch.firstTaking (c.inputs.map (typeAt vs)) = some b ∧
          b.Unresolved (c.inputs.map (typeAt vs)) i) := by
  obtain ⟨sch, b, hsch, hb⟩ := hlockstep.exists_firstTaking h.lookup
  have hallows : (b.infer _ c.outputs.length).isSome ↔ sch.Allows c.outputs.length :=
    hlockstep.firstTaking_infer hsch hb
  refine ⟨sch, hsch, fun i => ?_⟩
  rw [h.types, hsch, Option.bind_some, hlockstep.inferNode_firstTaking hsch, hb, Option.bind_some]
  cases hinfer : b.infer (c.inputs.map (typeAt vs)) c.outputs.length with
  | none =>
      have hwrong : ¬sch.Allows c.outputs.length := by simp [← hallows, hinfer]
      rw [Option.getD_none, List.getElem?_replicate]
      simp [hwrong]
  | some ts =>
      have hright : sch.Allows c.outputs.length := by simp [← hallows, hinfer]
      rw [Option.getD_some, TypeBinding.infer_unknown_iff hinfer]
      simp [hright]

end Plan

/-! ## What a legal signature resolves -/

namespace FormalShape

variable {s : Signature} {shape : FormalShape} {i : Nat} {p : FormalParameter} {inputs : List DataType}

/-- A position that takes a single value is among the values, however many there are. -/
theorem lt_of_single {ps : List FormalParameter} {count : Nat} (hp : ps[i]? = some p)
    (hsingle : p.form.option = .single)
    (henough : TypeBinding.Enough ps.length (lastVariadic ps) count) : i < count := by
  have hi : i < ps.length := (List.getElem?_eq_some_iff.mp hp).1
  rcases henough with ⟨v, hv, -, hle⟩ | ⟨-, rfl⟩
  · obtain ⟨q, hq, hvariadic⟩ := Option.bind_eq_some_iff.mp hv
    have hrepeats : q.form.option = .variadic := by
      by_contra hne
      simp [ParameterForm.variadic?, hne] at hvariadic
    -- The last position repeats, so this one comes before it.
    have hbefore : i ≠ ps.length - 1 := by
      rintro rfl
      rw [List.getLast?_eq_getElem?, hp] at hq
      obtain rfl := Option.some.inj hq
      cases hsingle.symm.trans hrepeats
    omega
  · exact hi

/-- **Known inputs resolve the single outputs of a legal signature.** Where one of these is the wildcard an
    input is too, and some value stands at that input. -/
theorem single_resolved (h : ofSignature s = .ok shape)
    (hleast : ∀ v, lastVariadic shape.inputs = some v → 1 ≤ v.least)
    (hknown : ∀ t ∈ inputs, t ≠ .undefined) (htakes : ((shape.binding s).matchInputs inputs).isSome)
    (hp : shape.outputs[i]? = some p) (hsingle : p.form.option = .single) :
    ¬(shape.binding s).Unresolved inputs i := by
  rintro ⟨hwild, hnone⟩
  obtain ⟨w, hmatch⟩ := Option.isSome_iff_exists.mp htakes
  have henough : TypeBinding.Enough s.inputs.length (lastVariadic shape.inputs) inputs.length :=
    (TypeBinding.matchInputs_eq_some_iff.mp hmatch).1
  obtain ⟨hlegal, rfl⟩ := ofSignature_eq_ok_iff.mp h
  have hposition : (s.shape.parameters .output)[i]? = some p := hp
  obtain ⟨d, hd, rfl⟩ := parameters_shape_eq_some_iff.mp hposition
  obtain rfl : d = .undefined := Option.some.inj ((TypeBinding.entry?_of_getElem? hd).symm.trans hwild)
  have hends : s.ends .output i = .single := (Signature.formOf_option ..).symm.trans hsingle
  obtain ⟨j, hj⟩ : ∃ j : Nat, s.inputs[j]? = some DataType.undefined := by
    by_contra hno
    refine hlegal.inferable (fun d hmem hundefined => hno ?_) i hd hends
    exact List.mem_iff_getElem?.mp (hundefined ▸ hmem)
  have hlt : j < s.inputs.length := (List.getElem?_eq_some_iff.mp hj).1
  have hvalue : j < inputs.length := by
    rcases henough with ⟨v, hv, -, hle⟩ | ⟨-, hcount⟩
    · have := hleast v hv
      omega
    · omega
  exact hnone ⟨j, inputs[j], List.getElem?_eq_getElem hvalue, ⟨hknown _ (List.getElem_mem _), .inl hlt⟩,
    TypeBinding.entry?_of_getElem? hj⟩

/-- From known inputs that its binding takes, a legal signature infers known types for its single outputs. -/
theorem single_inferred (h : ofSignature s = .ok shape)
    (hleast : ∀ v, lastVariadic shape.inputs = some v → 1 ≤ v.least)
    (hknown : ∀ t ∈ inputs, t ≠ .undefined) (htakes : ((shape.binding s).matchInputs inputs).isSome)
    {count : Nat} (henough : TypeBinding.Enough shape.outputs.length (lastVariadic shape.outputs) count) :
    ∃ ts, (shape.binding s).infer inputs count = some ts ∧
      ∀ (i : Nat) (p : FormalParameter), shape.outputs[i]? = some p → p.form.option = .single →
        ∃ t : DataType, ts[i]? = some t ∧ t ≠ .undefined := by
  have hfits : shape.Fits (shape.binding s) := fits_binding h
  have hsome : ((shape.binding s).infer inputs count).isSome := by
    rw [TypeBinding.infer_isSome_iff, hfits.outputs, hfits.variadicOutput]
    exact ⟨htakes, henough⟩
  obtain ⟨ts, hts⟩ := Option.isSome_iff_exists.mp hsome
  refine ⟨ts, hts, fun i p hp hsingle => ?_⟩
  have hi : i < ts.length := TypeBinding.infer_length hts ▸ lt_of_single hp hsingle henough
  refine ⟨ts[i], List.getElem?_eq_getElem hi, fun hunknown => ?_⟩
  have hget : ts[i]? = some .undefined := hunknown ▸ List.getElem?_eq_getElem hi
  exact single_resolved h hleast hknown htakes hp hsingle ((TypeBinding.infer_unknown_iff hts).mp hget).2

end FormalShape

/-! ## Inference is complete -/

namespace Catalog

open FormalShape TypeBinding

/-- **Inference has an answer wherever a kernel was found.** In every catalog, it has one for exactly the
    numbers of outputs that the schema allows; so in every plan a type is unknown only for a number that is
    not allowed, or where the wildcard is not resolved. And from known inputs that its binding takes, the
    single outputs of a legal signature, if its last input does not repeat or is there at least once, are
    inferred to known types. -/
theorem inferred_where_served :
    (∀ newest calls name domain provider inputs e,
      (history newest calls).kernels.lookup name domain inputs provider = .ok e →
      ∃ s, (history newest calls).schema? name domain = some s ∧
        ∀ count, (s.inferNode inputs count).isSome ↔ s.Allows count) ∧
    (∀ (Job : Type) (setup : Setup) (s : Session) (g : Graph) (m₀ m₁ m m' : Machine Job)
        (events : List LogEvent) (p : Plan) (life : List LifeEvent),
      Session.start setup m₀ = (.ok (s, m₁), events) → Plan.build s g m = ((.ok p, life), m') →
      ∀ n ∈ p.nodes, ∃ node ∈ g.nodes, n.name = node.name ∧
        ∃ sch, s.catalog.schema? node.op node.domain = some sch ∧ ∀ i, n.types[i]? = some .undefined ↔
          i < n.outputs.length ∧ (¬sch.Allows n.outputs.length ∨
            ∃ b, sch.firstTaking (p.typesOf n.inputs) = some b ∧ b.Unresolved (p.typesOf n.inputs) i)) ∧
    ∀ (s : Signature) (shape : FormalShape), ofSignature s = .ok shape →
      (∀ v, lastVariadic shape.inputs = some v → 1 ≤ v.least) →
      ∀ inputs, (∀ t ∈ inputs, t ≠ .undefined) → ((shape.binding s).matchInputs inputs).isSome →
      ∀ count, Enough shape.outputs.length (lastVariadic shape.outputs) count →
        ∃ ts, (shape.binding s).infer inputs count = some ts ∧
          ∀ (i : Nat) (p : FormalParameter), shape.outputs[i]? = some p → p.form.option = .single →
            ∃ t : DataType, ts[i]? = some t ∧ t ≠ .undefined := by
  refine ⟨?_, ?_, fun s shape h hleast inputs hknown htakes count => single_inferred h hleast hknown htakes⟩
  · intro newest calls name domain provider inputs e hlookup
    have hlockstep : (history newest calls).Lockstep := history_lockstep newest calls
    obtain ⟨s, b, hs, hb⟩ := hlockstep.exists_firstTaking hlookup
    refine ⟨s, hs, fun count => ?_⟩
    rw [hlockstep.inferNode_firstTaking hs, hb, Option.bind_some]
    exact hlockstep.firstTaking_infer hs hb
  · intro Job setup s g m₀ m₁ m m' events p life hstart hbuild n hn
    obtain ⟨node, hnode, c, kernel, more, stream, waits, consumers, hdec, -, rfl⟩ :=
      Plan.build_node hbuild hn
    exact ⟨node, hnode, rfl, hdec.unknown_iff (Session.start_reachable hstart).lockstep⟩

/-- The graph of one node with its input left open. -/
def openGraph : Graph := { Plan.mixedGraph with inputs := [("x", .undefined)] }

/-- A kernel that copies is found and has an answer; a node whose input is open leaves its output open; and
    what is gathered has a known type. -/
theorem inferred_where_served_open :
    (∃ e s, (history Interface.newest [("demo", [Builtin.identity none])]).kernels.lookup "Identity" "demo"
        [.int8] .cpu = .ok e ∧
      (history Interface.newest [("demo", [Builtin.identity none])]).schema? "Identity" "demo" = some s ∧
      ∀ count, (s.inferNode [.int8] count).isSome ↔ s.Allows count) ∧
    (∃ s m₁ events p life m₂,
      Session.start Plan.mixedSetup ({} : Machine Unit) = (.ok (s, m₁), events) ∧
      Plan.build s openGraph m₁ = ((.ok p, life), m₂) ∧ p.nodes.map (·.types) = [[.undefined]] ∧
      ∀ n ∈ p.nodes, ∃ node ∈ openGraph.nodes, n.name = node.name ∧
        ∃ sch, s.catalog.schema? node.op node.domain = some sch ∧ ∀ i, n.types[i]? = some .undefined ↔
          i < n.outputs.length ∧ (¬sch.Allows n.outputs.length ∨
            ∃ b, sch.firstTaking (p.typesOf n.inputs) = some b ∧ b.Unresolved (p.typesOf n.inputs) i)) ∧
    ∃ shape, ofSignature gathering = .ok shape ∧
      ∃ ts, (shape.binding gathering).infer [.int64, .float32, .float32, .uint8] 2 = some ts ∧
        ∀ (i : Nat) (p : FormalParameter), shape.outputs[i]? = some p → p.form.option = .single →
          ∃ t : DataType, ts[i]? = some t ∧ t ≠ .undefined := by
  obtain ⟨hserved, hplanned, hlegal⟩ := inferred_where_served
  refine ⟨?_, ?_, ?_⟩
  · have hlookup : ∃ e, (history Interface.newest [("demo", [Builtin.identity none])]).kernels.lookup
        "Identity" "demo" [.int8] .cpu = .ok e := ⟨_, rfl⟩
    obtain ⟨e, he⟩ := hlookup
    obtain ⟨s, hs⟩ := hserved _ _ _ _ _ _ _ he
    exact ⟨e, s, he, hs⟩
  · have hstart : ∃ s m₁ events,
        Session.start Plan.mixedSetup ({} : Machine Unit) = (.ok (s, m₁), events) ∧
        ∃ p life m₂, Plan.build s openGraph m₁ = ((.ok p, life), m₂) ∧
          p.nodes.map (·.types) = [[.undefined]] := ⟨_, _, _, rfl, _, _, _, rfl, rfl⟩
    obtain ⟨s, m₁, events, hstart, p, life, m₂, hbuild, htypes⟩ := hstart
    exact ⟨s, m₁, events, p, life, m₂, hstart, hbuild, htypes,
      hplanned _ _ _ _ _ _ _ _ _ _ _ hstart hbuild⟩
  · have hok : ofSignature gathering = .ok gathering.shape := rfl
    refine ⟨_, hok, hlegal _ _ hok ?_ _ (by decide) (by decide) _ (.inr ⟨.inl rfl, rfl⟩)⟩
    rintro _ ⟨⟩
    decide

end Catalog

/-! ## The declared number of outputs -/

namespace TypeBinding

/-- A number of positions declared is itself allowed, unless the last one repeats more than once. -/
theorem enough_declared_iff {ps : List FormalParameter} :
    Enough ps.length (FormalShape.lastVariadic ps) ps.length ↔
      ∀ v, FormalShape.lastVariadic ps = some v → v.least ≤ 1 := by
  unfold Enough
  cases hv : FormalShape.lastVariadic ps with
  | none => simp
  | some v =>
      have hpos : 0 < ps.length := by
        rw [List.length_pos_iff]
        rintro rfl
        cases hv
      simp only [Option.some.injEq, forall_eq', exists_eq_left', reduceCtorEq, false_or]
      omega

/-- For as many outputs as declared, each has the type of its own entry. -/
theorem infer_declared {b : TypeBinding} {inputs ts : List DataType} {w : DataType}
    (hmatch : b.matchInputs inputs = some w) (h : b.infer inputs b.outputs.length = some ts) :
    ts = b.outputs.map (fill w) := by
  obtain ⟨w', hmatch', hresolved⟩ := infer_eq_some_iff.mp h
  obtain rfl := Option.some.inj (hmatch.symm.trans hmatch')
  obtain ⟨-, hlength, hentries⟩ := resolveOutputs_eq_some_iff.mp hresolved
  refine List.ext_getElem? fun i => ?_
  rw [List.getElem?_map]
  by_cases hi : i < b.outputs.length
  · obtain ⟨d, hd, hget⟩ := hentries i hi
    have hown : b.outputs[i]? = some b.outputs[i] := List.getElem?_eq_getElem hi
    obtain rfl := Option.some.inj ((entry?_of_getElem? hown).symm.trans hd)
    rw [hget, hown, Option.map_some]
  · rw [List.getElem?_eq_none (by omega), List.getElem?_eq_none (by omega), Option.map_none]

end TypeBinding

namespace Catalog

open FormalShape TypeBinding

variable {c : Catalog} {name domain : String} {s : OpSchema} {inputs : List DataType}

theorem Lockstep.infer_firstTaking (h : c.Lockstep) (hs : c.schema? name domain = some s)
    (inputs : List DataType) :
    s.infer inputs = (s.firstTaking inputs).bind (·.infer inputs s.shape.outputs.length) :=
  h.inferNode_firstTaking hs inputs s.shape.outputs.length

/-- Where the last output need not repeat, the first binding that takes the inputs has the answer. -/
theorem Lockstep.infer_of_least (h : c.Lockstep) (hs : c.schema? name domain = some s)
    (hleast : ∀ v, lastVariadic s.shape.outputs = some v → v.least ≤ 1) {b : TypeBinding} {w : DataType}
    (hb : s.firstTaking inputs = some b) (hmatch : b.matchInputs inputs = some w) :
    s.infer inputs = some (b.outputs.map (fill w)) := by
  have hsome : (b.infer inputs s.shape.outputs.length).isSome :=
    (h.firstTaking_infer hs hb).mpr (enough_declared_iff.mpr hleast)
  obtain ⟨ts, hts⟩ := Option.isSome_iff_exists.mp hsome
  have hdeclared : b.outputs.length = s.shape.outputs.length :=
    (h.fits name domain s hs b (OpSchema.takes_of_firstTaking hb).1).outputs
  rw [← infer_declared hmatch (hdeclared.symm ▸ hts), h.infer_firstTaking hs, hb, Option.bind_some, hts]

/-- Where the last output has to repeat, no binding has an answer. -/
theorem Lockstep.infer_of_repeats (h : c.Lockstep) (hs : c.schema? name domain = some s) {v : Variadic}
    (hv : lastVariadic s.shape.outputs = some v) (hrepeats : 1 < v.least) : s.infer inputs = none := by
  rw [h.infer_firstTaking hs, Option.bind_eq_none_iff]
  intro b hb
  rw [← Option.not_isSome_iff_eq_none, h.firstTaking_infer hs hb, OpSchema.Allows, enough_declared_iff]
  exact fun hleast => absurd (hleast v hv) (by omega)

/-- **For the declared number of outputs, a schema whose last output need not repeat infers by the first
    binding that takes the inputs**, and has no answer exactly if none does. Where the last output has to
    repeat, the declared number is too small, and there is never an answer. -/
theorem inferred_as_declared {newest : Nat} {calls : List (String × List Descriptor)}
    (hs : (history newest calls).schema? name domain = some s) (inputs : List DataType) :
    ((∀ v, lastVariadic s.shape.outputs = some v → v.least ≤ 1) →
      (s.infer inputs = none ↔ ∀ b ∈ s.bindings, b.matchInputs inputs = none) ∧
      ∀ b w, s.firstTaking inputs = some b → b.matchInputs inputs = some w →
        s.infer inputs = some (b.outputs.map (fill w))) ∧
    ∀ v, lastVariadic s.shape.outputs = some v → 1 < v.least → s.infer inputs = none := by
  have hlockstep : (history newest calls).Lockstep := history_lockstep newest calls
  refine ⟨fun hleast => ⟨?_, fun b w => hlockstep.infer_of_least hs hleast⟩,
    fun v => hlockstep.infer_of_repeats hs⟩
  rw [← OpSchema.firstTaking_eq_none_iff]
  constructor
  · intro hnone
    cases hb : s.firstTaking inputs with
    | none => rfl
    | some b =>
        obtain ⟨w, hmatch⟩ := Option.isSome_iff_exists.mp (OpSchema.takes_of_firstTaking hb).2
        cases hnone.symm.trans (hlockstep.infer_of_least hs hleast hb hmatch)
  · intro hnone
    rw [hlockstep.infer_firstTaking hs, hnone, Option.bind_none]

/-- An operator that takes a float and gives some, at least as many as told. -/
def scattering (least : Nat) : Descriptor :=
  { signature :=
      { name := "Scatter", version := Interface.newest, providerName := none
        inputs := [.float32], outputs := [.float32]
        slots :=
          { outputCharacteristic := some fun _ => .variadic
            variadicOutputLeast := some least } }
    create := fun _ _ => { result := .ok ⟨pure (), .pure ()⟩ } }

/-- One output is inferred where one is enough, and none where two are needed. -/
theorem inferred_as_declared_scattering :
    (∃ s, (history Interface.newest [("demo", [scattering 1])]).schema? "Scatter" "demo" = some s ∧
      s.infer [.float32] = some [.float32] ∧
      (s.infer [.int64] = none ↔ ∀ b ∈ s.bindings, b.matchInputs [.int64] = none)) ∧
    ∃ s, (history Interface.newest [("demo", [scattering 2])]).schema? "Scatter" "demo" = some s ∧
      s.infer [.float32] = none := by
  have hone : ∃ s, (history Interface.newest [("demo", [scattering 1])]).schema? "Scatter" "demo" = some s ∧
      (∀ v, lastVariadic s.shape.outputs = some v → v.least ≤ 1) ∧
      ∃ b, s.firstTaking [.float32] = some b ∧ b.matchInputs [.float32] = some .undefined ∧
        b.outputs = [.float32] := by
    refine ⟨_, rfl, ?_, _, rfl, rfl, rfl⟩
    rintro _ ⟨⟩
    exact Nat.le_refl 1
  have htwo : ∃ s, (history Interface.newest [("demo", [scattering 2])]).schema? "Scatter" "demo" = some s ∧
      ∃ v, lastVariadic s.shape.outputs = some v ∧ 1 < v.least := ⟨_, rfl, _, rfl, by decide⟩
  obtain ⟨s, hs, hleast, b, hb, hmatch, houtputs⟩ := hone
  obtain ⟨s', hs', v, hv, hrepeats⟩ := htwo
  refine ⟨⟨s, hs, ?_, ((inferred_as_declared hs [.int64]).1 hleast).1⟩, s', hs', ?_⟩
  · rw [((inferred_as_declared hs [.float32]).1 hleast).2 b _ hb hmatch, houtputs]
    rfl
  · exact (inferred_as_declared hs' [.float32]).2 v hv hrepeats

/-- **A schema may have no answer though a binding takes the inputs**: two outputs would have one. -/
theorem taken_but_not_inferred :
    ∃ s, (history Interface.newest [("demo", [scattering 2])]).schema? "Scatter" "demo" = some s ∧
      s.infer [.float32] = none ∧ (∃ b ∈ s.bindings, b.matchInputs [.float32] = some .undefined) ∧
      ¬(s.infer [.float32] = none ↔ ∀ b ∈ s.bindings, b.matchInputs [.float32] = none) ∧
      s.inferNode [.float32] 2 = some [.float32, .float32] := by
  refine ⟨_, rfl, rfl, ⟨_, List.mem_cons_self, rfl⟩, ?_, rfl⟩
  exact fun hclaimed => absurd (hclaimed.mp rfl _ List.mem_cons_self) (by decide)

end Catalog

end OpGraph
