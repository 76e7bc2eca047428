import OpGraph.Proofs.Acyclic
import OpGraph.Proofs.Sound

/-!
# `Proofs.Propagation` — when nodes can be planned, said by names and types

Planning numbers values and fills in their types as it goes. Seen from outside there are only names, and a
type for each (`Session.Typing`): given values have the types they are given with, and outputs the types
the schema infers from the inputs. Whatever is planned has such types, and planning goes by them: a node
is planned exactly if, under these types, it has a provider, its names are known, and the kernel that is
looked up can be made.
-/

namespace OpGraph

open Outcome

/-! ## Types by name -/

namespace Session

variable (s : Session) (g : Graph) (τ : String → DataType)

/-- The provider of a node: its own, or the session's default. -/
def providerOf (n : Node) : ProviderId := n.provider.getD s.defaultProvider

/-- Types of the inputs of a node; unknown where one is left out. -/
def inputTypes (n : Node) : List DataType :=
  n.inputs.map fun v => if v.isEmpty then .undefined else τ v

/-- Types of the outputs of a node: those the schema infers, if it does. -/
def outputTypes (n : Node) : List DataType :=
  ((s.catalog.schema? n.op n.domain).bind fun sch =>
    sch.inferNode (inputTypes τ n) n.outputs.length).getD (List.replicate n.outputs.length .undefined)

/-- What the kernel of a node on a provider is told. -/
def told (n : Node) (p : Provider) : KernelInfo :=
  { node := n.name
    inputs := n.inputs.zip (inputTypes τ n)
    outputs := n.outputs.zip (s.outputTypes τ n)
    attributes := n.attributes
    constants := Plan.constants g n
    provider := some (s.providerOf n)
    logger := p.logger }

/-- Types that go along the edges of a graph. -/
structure Typing : Prop where
  given : ∀ v ∈ Plan.given g, τ v.1 = v.2
  made : ∀ n ∈ g.nodes, ∀ v ∈ n.outputs.zip (s.outputTypes τ n), v.1.isEmpty = false → τ v.1 = v.2

/-- The node gets a kernel: the one that is looked up is not too new, and creating it succeeds. -/
def Kernelled (n : Node) : Prop :=
  ∃ p d f, s.provider (s.providerOf n) = .ok p ∧
    s.catalog.kernels.lookup n.op n.domain (inputTypes τ n) (s.providerOf n) = .ok (d, f) ∧
    f.descriptor.signature.version ≤ s.config.newest ∧
    (f.descriptor.create f.descriptor.signature.version (s.told g τ n p)).succeeded

variable {s τ}

/-- There is one type for each output. -/
theorem length_outputTypes (n : Node) : (s.outputTypes τ n).length = n.outputs.length := by
  unfold outputTypes
  cases hsch : s.catalog.schema? n.op n.domain with
  | none => simp
  | some sch =>
      cases hinf : sch.inferNode (inputTypes τ n) n.outputs.length with
      | none => simp [hinf]
      | some ts => simpa [hinf] using Plan.inferNode_length hinf

/-- Output types go by input types. -/
theorem outputTypes_congr {τ' : String → DataType} {n : Node} (h : inputTypes τ' n = inputTypes τ n) :
    s.outputTypes τ' n = s.outputTypes τ n := by
  unfold outputTypes
  rw [h]

end Session

/-- A factory makes a kernel exactly if its operator is not too new and creating the state succeeds. -/
theorem Factory.instantiate_eq_ok {f : Factory} {info : KernelInfo} :
    (∃ kernel life, f.instantiate info = (.ok kernel, life)) ↔
      f.descriptor.signature.version ≤ f.newest ∧
        (f.descriptor.create f.descriptor.signature.version info).succeeded := by
  unfold Factory.instantiate Descriptor.instantiate Creation.succeeded
  by_cases hnew : f.newest < f.descriptor.signature.version
  · simp [hnew]
  · have hle : f.descriptor.signature.version ≤ f.newest := Nat.le_of_not_lt hnew
    simp only [hnew, if_false, hle, true_and]
    cases (f.descriptor.create f.descriptor.signature.version info).result with
    | error e => simp [Except.map, Except.toOption]
    | ok state => simp [Except.map, Except.toOption]

namespace Plan

open Session

/-! ## Numbers and types of names -/

/-- The number a name stands for; none for an empty one. -/
def numberOf (vs : List Value) (name : String) : Option Nat :=
  if name.isEmpty then none else number? vs name

/-- The type of a name's value. -/
def typing (vs : List Value) (name : String) : DataType := typeAt vs (number? vs name)

theorem resolve_iff {vs : List Value} {node name : String} {o : Option Nat} :
    resolve vs node name = .ok o ↔ (name.isEmpty = false → name ∈ names vs) ∧ o = numberOf vs name := by
  unfold resolve numberOf
  cases hname : name.isEmpty with
  | true => simp [eq_comm]
  | false =>
      cases hv : number? vs name with
      | none => simp [number?_isNone.mp hv]
      | some v =>
          have hmem : name ∈ names vs := List.mem_of_getElem? (names_of_number? hv)
          simp [hmem, eq_comm]

/-- Names resolve exactly if those that are not empty are known. -/
theorem resolveAll_iff {vs : List Value} {node : String} {xs : List String} {os : List (Option Nat)} :
    xs.mapM (resolve vs node) = .ok os ↔
      (∀ x ∈ xs.filter (! ·.isEmpty), x ∈ names vs) ∧ os = xs.map (numberOf vs) := by
  rw [mapM_eq_ok]
  induction xs generalizing os with
  | nil => cases os <;> simp
  | cons x rest ih =>
      cases os with
      | nil => simp
      | cons o os =>
          rw [List.map_cons, List.map_cons, List.cons.injEq, resolve_iff, ih, List.map_cons,
            List.cons.injEq]
          cases hx : x.isEmpty with
          | true => simp [hx, and_left_comm]
          | false => simp [hx, and_assoc, and_left_comm]

theorem typeAt_numberOf (vs : List Value) (name : String) :
    typeAt vs (numberOf vs name) = if name.isEmpty then .undefined else typing vs name := by
  unfold numberOf typing
  split <;> rfl

theorem inputTypes_eq {vs : List Value} (n : Node) :
    (n.inputs.map (numberOf vs)).map (typeAt vs) = inputTypes (typing vs) n := by
  rw [List.map_map]
  exact List.map_congr_left fun x _ => typeAt_numberOf vs x

/-! ## Deciding about a node -/

variable {s : Session} {g : Graph} {vs : List Value}

/-- What was decided about a node, by names and types. -/
theorem Decided.describes {n : Node} {c : Choice} (h : Decided s g vs n c) :
    c.inputs = n.inputs.map (numberOf vs) ∧ c.outputs = n.outputs.map (numberOf vs) ∧
      c.types = s.outputTypes (typing vs) n ∧ c.info = s.told g (typing vs) n c.provider ∧
      s.catalog.kernels.lookup n.op n.domain (inputTypes (typing vs) n) (s.providerOf n) =
        .ok (c.definition, c.factory) ∧
      c.provider.id = s.providerOf n := by
  obtain ⟨hprovider, hin, hout, hlookup, htypes, hinfo⟩ := h
  have hinputs := (resolveAll_iff.mp hin).2
  have houtputs := (resolveAll_iff.mp hout).2
  have hlen : c.outputs.length = n.outputs.length := by rw [houtputs, List.length_map]
  rw [hinputs, inputTypes_eq] at hlookup htypes hinfo
  rw [hlen] at htypes
  refine ⟨hinputs, houtputs, htypes, ?_, hlookup, Session.provider_eq_ok hprovider⟩
  rw [hinfo, htypes]
  rfl

/-- A node with known names, a provider and a kernel to be looked up can be decided about. -/
theorem exists_choose {n : Node} {p : Provider} {d : KernelDefinition} {f : Factory}
    (hp : s.provider (s.providerOf n) = .ok p) (hreads : ∀ x ∈ n.reads, x ∈ names vs)
    (hmakes : ∀ x ∈ n.makes, x ∈ names vs)
    (hlookup : s.catalog.kernels.lookup n.op n.domain (inputTypes (typing vs) n) (s.providerOf n) =
      .ok (d, f)) :
    ∃ c, choose s g vs n = .ok c ∧ c.factory = f ∧ c.provider = p := by
  have hin : n.inputs.mapM (resolve vs n.name) = .ok (n.inputs.map (numberOf vs)) :=
    resolveAll_iff.mpr ⟨hreads, rfl⟩
  have hout : n.outputs.mapM (resolve vs n.name) = .ok (n.outputs.map (numberOf vs)) :=
    resolveAll_iff.mpr ⟨hmakes, rfl⟩
  have hchoose : ∃ c, choose s g vs n = .ok c := by
    rw [← inputTypes_eq, List.map_map] at hlookup
    unfold Session.providerOf at hp hlookup
    cases hc : choose s g vs n with
    | ok c => exact ⟨c, rfl⟩
    | error e =>
        -- Nothing is left that could fail.
        simp [choose, hp, hin, hout, hlookup, bind, Except.bind, pure, Except.pure] at hc
  obtain ⟨c, hc⟩ := hchoose
  have hdec := choose_eq_ok hc
  obtain ⟨-, -, -, -, hlookup', -⟩ := hdec.describes
  refine ⟨c, hc, ?_, Except.ok.inj (hdec.provider.symm.trans hp)⟩
  exact (Prod.mk.inj (Except.ok.inj (hlookup'.symm.trans hlookup))).2

/-! ## Types while nodes are planned -/

section Planning

variable {seen rest : List Node} {t : Typed}

/-- The number of a name, while nodes are planned. -/
theorem Planned.number?_eq (hl : LaidOut g vs (seen ++ rest)) (hp : Planned s g vs seen t)
    {name : String} {v : Nat} (hv : (names vs)[v]? = some name) : number? t.values name = some v := by
  have hdistinct : (names t.values).Nodup := hp.named ▸ hl.distinct
  exact (number?_eq_some hdistinct).mpr (hp.named ▸ hv)

/-- A given value has the type it was given with. -/
theorem Planned.typing_given (hl : LaidOut g vs (seen ++ rest)) (hp : Planned s g vs seen t)
    {x : String × DataType} (hx : x ∈ given g) : typing t.values x.1 = x.2 := by
  obtain ⟨v, hv⟩ := List.mem_iff_getElem?.mp hx
  have hlt : v < (given g).length := (List.getElem?_eq_some_iff.mp hv).1
  have hname : (names vs)[v]? = some x.1 := by rw [names_given hl hlt, hv, Option.map_some]
  have hkept : t.values[v]? = some (blank x) := by
    rw [hp.rest, hl.values, List.getElem?_map, List.getElem?_append_left hlt, hv, Option.map_some]
    intro n hn hout
    obtain ⟨j, hj⟩ := List.mem_iff_getElem?.mp hn
    obtain ⟨gn, name, hgn, hmade, hnum⟩ := hp.makes hj hout
    have hmem : gn ∈ seen ++ rest := List.mem_append_left _ (List.mem_of_getElem? hgn)
    exact hl.not_given hnum (List.mem_flatMap.mpr ⟨gn, hmem, hmade⟩) hlt
  simp [typing, hp.number?_eq hl hname, typeAt, hkept, blank]

/-- A value that a planned node makes has the type its schema infers. -/
theorem Planned.typing_made (hl : LaidOut g vs (seen ++ rest)) (hp : Planned s g vs seen t) {j : Nat}
    {n : Node} (hj : seen[j]? = some n) {x : String × DataType}
    (hx : x ∈ n.outputs.zip (s.outputTypes (typing t.values) n)) (hname : x.1.isEmpty = false) :
    typing t.values x.1 = x.2 := by
  obtain ⟨c, kernel, -, hplanned, hdec, -⟩ := hp.decided_at hj
  obtain ⟨-, houtputs, htypes, -⟩ := hdec.describes
  obtain ⟨i, hi⟩ := List.mem_iff_getElem?.mp hx
  obtain ⟨hout, htype⟩ := List.getElem?_zip_eq_some.mp hi
  -- The output's name has a number, since the node was decided about.
  have hmake : x.1 ∈ n.makes := List.mem_filter.mpr ⟨List.mem_of_getElem? hout, by simp [hname]⟩
  have hknown : x.1 ∈ names t.values := (resolveAll_iff.mp hdec.outputs).1 x.1 hmake
  obtain ⟨v, hv⟩ := List.mem_iff_getElem?.mp (hp.named ▸ hknown)
  have hnumber := hp.number?_eq hl hv
  have hzip : (some v, x.2) ∈ c.outputs.zip c.types := by
    refine List.mem_iff_getElem?.mpr ⟨i, List.getElem?_zip_eq_some.mpr ⟨?_, htypes ▸ htype⟩⟩
    rw [houtputs, List.getElem?_map, hout]
    simp [numberOf, hname, hnumber]
  obtain ⟨name, hval⟩ := hp.made hplanned hzip
  simp [typing, hnumber, typeAt, hval]

/-- **The types planning goes by are the only ones that go along the edges**: they agree with any such
    types on what the nodes up to the next one read. -/
theorem Planned.inputTypes_eq {τ : String → DataType} (hl : LaidOut g vs (seen ++ rest))
    (hp : Planned s g vs seen t) (hτ : s.Typing g τ)
    (hreads : ∀ n ∈ g.nodes, ∀ x ∈ n.reads, x ∈ names vs) :
    ∀ (j : Nat) (n : Node), (seen ++ rest)[j]? = some n → j ≤ seen.length →
      inputTypes (typing t.values) n = inputTypes τ n := by
  intro j
  -- By induction on the place: what a node reads is made by nodes before it.
  induction j using Nat.strongRecOn with
  | ind j ih =>
  intro n hj hle
  refine List.map_congr_left fun x hx => ?_
  cases hempty : x.isEmpty with
  | true => simp
  | false =>
      have hread : x ∈ n.reads := List.mem_filter.mpr ⟨hx, by simp [hempty]⟩
      have hknown := hreads n (hl.mem n (List.mem_of_getElem? hj)) x hread
      show typing t.values x = τ x
      rw [hl.names_eq] at hknown
      rcases List.mem_append.mp hknown with hgiven | hmade
      · obtain ⟨y, hy, rfl⟩ := List.mem_map.mp hgiven
        rw [hp.typing_given hl hy, hτ.given y hy]
      · -- The producer comes earlier, so its own inputs have these types already.
        obtain ⟨u, hu, m, hm, hmake⟩ := hl.earlier hj hread hmade
        have hseen : seen[u]? = some m := by
          rwa [List.getElem?_append_left (Nat.lt_of_lt_of_le hu hle)] at hm
        have houtputs : s.outputTypes (typing t.values) m = s.outputTypes τ m :=
          outputTypes_congr (ih u hu m hm (Nat.le_trans (Nat.le_of_lt hu) hle))
        obtain ⟨i, hi⟩ := List.mem_iff_getElem?.mp (List.mem_of_mem_filter hmake)
        have hlen : i < (s.outputTypes τ m).length := by
          rw [length_outputTypes]
          exact (List.getElem?_eq_some_iff.mp hi).1
        have hzip : (x, (s.outputTypes τ m)[i]) ∈ m.outputs.zip (s.outputTypes τ m) :=
          List.mem_iff_getElem?.mpr ⟨i, List.getElem?_zip_eq_some.mpr ⟨hi, List.getElem?_eq_getElem hlen⟩⟩
        have hmem : m ∈ g.nodes := hl.mem m (List.mem_of_getElem? hm)
        have htype := hτ.made m hmem _ hzip hempty
        exact (hp.typing_made hl hseen (by rw [houtputs]; exact hzip) hempty).trans htype.symm

end Planning

/-- What is planned has types that go along the edges. -/
theorem Planned.typing {nodes : List Node} {t : Typed} (hl : LaidOut g vs nodes)
    (hp : Planned s g vs nodes t) (hall : ∀ n ∈ g.nodes, n ∈ nodes) :
    s.Typing g (typing t.values) where
  given x hx := by
    have hl' : LaidOut g vs (nodes ++ []) := by simpa using hl
    exact hp.typing_given hl' hx
  made n hn x hx hname := by
    have hl' : LaidOut g vs (nodes ++ []) := by simpa using hl
    obtain ⟨j, hj⟩ := List.mem_iff_getElem?.mp (hall n hn)
    exact hp.typing_made hl' hj hx hname

/-- **Nodes that get a kernel can be planned, one after the other.** -/
theorem exists_planNodes {τ : String → DataType} (hτ : s.Typing g τ)
    (hfactories : ∀ e ∈ s.catalog.kernels.entries, e.2.newest = s.config.newest)
    (hreads : ∀ n ∈ g.nodes, ∀ x ∈ n.reads, x ∈ names vs)
    (hkernels : ∀ n ∈ g.nodes, s.Kernelled g τ n) :
    ∀ {rest seen : List Node} {t : Typed}, LaidOut g vs (seen ++ rest) → Planned s g vs seen t →
      ∃ t' life, planNodes s g t rest = (.ok t', life) := by
  intro rest
  induction rest with
  | nil => exact fun _ _ => ⟨_, _, rfl⟩
  | cons n rest ih =>
      intro seen t hl hp
      have hat : (seen ++ n :: rest)[seen.length]? = some n := by simp
      have hn : n ∈ g.nodes := hl.mem n (List.mem_of_getElem? hat)
      obtain ⟨p, d, f, hprovider, hlookup, hversion, hcreate⟩ := hkernels n hn
      have hinputs := hp.inputTypes_eq hl hτ hreads _ n hat (Nat.le_refl _)
      have hmakes : ∀ x ∈ n.makes, x ∈ names t.values := by
        intro x hx
        rw [hp.named, hl.names_eq]
        exact List.mem_append_right _ (List.mem_flatMap.mpr ⟨n, List.mem_of_getElem? hat, hx⟩)
      have hreads' : ∀ x ∈ n.reads, x ∈ names t.values := hp.named ▸ hreads n hn
      obtain ⟨c, hc, rfl, rfl⟩ := exists_choose (g := g) hprovider hreads' hmakes (hinputs ▸ hlookup)
      obtain ⟨-, -, -, hinfo, -⟩ := (choose_eq_ok hc).describes
      -- The kernel is told the same as under the given types, so it can be made.
      have htold : c.info = s.told g τ n c.provider := by
        rw [hinfo]
        unfold Session.told
        rw [hinputs, outputTypes_congr hinputs]
      have hnewest : c.factory.newest = s.config.newest :=
        hfactories _ (KernelTable.serves_of_lookup hlookup).1
      obtain ⟨kernel, life, hmake⟩ := Factory.instantiate_eq_ok.mpr ⟨hnewest ▸ hversion, htold ▸ hcreate⟩
      have hstep : ∃ t₁ life₁, planNode s g t n = (.ok t₁, life₁) := by
        unfold planNode
        simp only [hc, hmake]
        exact ⟨_, _, rfl⟩
      obtain ⟨t₁, life₁, hstep⟩ := hstep
      obtain ⟨t', life', hrest⟩ := ih (by simpa using hl) (hp.step hl hstep)
      exact ⟨t', life', by rw [planNodes, hstep]; exact hrest⟩

end Plan

end OpGraph
