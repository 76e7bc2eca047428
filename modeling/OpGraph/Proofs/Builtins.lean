import OpGraph.Proofs.Accepting
import OpGraph.Proofs.Blind
import Mathlib.Data.List.Nodup

/-!
# `Proofs.Builtins` — the built-in operators of a session

A session has the kernels of the operators it was brought up with and no others (`Session.mem_entries`).
Where the domain of the built-in operators holds them and nothing else, a look-up there finds the one
operator of the name and the provider, if it takes the inputs. Two built-in operators of one name are for
different providers and the same in everything else (`Builtin.Twins`), so whether a node gets a kernel, and
what the kernel computes, does not depend on the provider it is looked up on.
-/

namespace OpGraph

open Outcome Catalog

/-! ## Kernels of a session -/

/-- Registering a domain adds a kernel for each of its operators. -/
theorem Catalog.Reachable.mem_registered {c c' : Catalog} (h : c.Reachable) {domain : String}
    {ops : List Descriptor} {out : List OpSchema} (hreg : c.registerDomain domain ops = .ok (c', out))
    {e : KernelDefinition × Factory} :
    e ∈ c'.kernels.entries ↔ e ∈ c.kernels.entries ∨
      ∃ op ∈ ops, ∃ b, bindingOf op = .ok b ∧ e = (definitionOf domain op.signature b, ⟨op, c.newest⟩) := by
  have houtcome : ∃ out', (c.enroll domain ops).1 = .ok out' ∧ ((c.enroll domain ops).2, out') = (c', out) :=
    map_eq_ok.mp hreg
  obtain ⟨_, -, heq⟩ | ⟨st, hst, heq⟩ := h.lockstep.enroll_cases domain ops
  · rw [heq] at houtcome
    obtain ⟨_, hok, -⟩ := houtcome
    cases hok
  · rw [heq] at houtcome
    obtain ⟨_, -, hpair⟩ := houtcome
    obtain ⟨rfl, -⟩ := Prod.mk.inj hpair
    obtain ⟨bs, hbs, hkernels⟩ := (Gathered.stageAll hst).kernels
    show e ∈ c.kernels.entries ++ st.kernels ↔ _
    rw [List.mem_append, hkernels, List.mem_map]
    refine or_congr_right ⟨?_, ?_⟩
    · rintro ⟨⟨op, b⟩, hmem, rfl⟩
      obtain ⟨hop, hb⟩ := (mem_zip_of_mapM_eq_ok hbs).mp hmem
      exact ⟨op, hop, b, hb, rfl⟩
    · rintro ⟨op, hop, b, hb, rfl⟩
      exact ⟨(op, b), (mem_zip_of_mapM_eq_ok hbs).mpr ⟨hop, hb⟩, rfl⟩

namespace Session

variable {Job : Type} {setup : Setup} {m m' : Machine Job} {s : Session}

/-- Registering domains adds a kernel for each of their operators. -/
theorem mem_registered {ds : List (String × List Descriptor)} {c c' : Catalog} (hc : c.Reachable)
    (h : register c ds = .ok c') {e : KernelDefinition × Factory} :
    e ∈ c'.kernels.entries ↔ e ∈ c.kernels.entries ∨ ∃ d ∈ ds, ∃ op ∈ d.2, ∃ b,
      bindingOf op = .ok b ∧ e = (definitionOf d.1 op.signature b, ⟨op, c.newest⟩) := by
  have hall := foldlM_induction
    (fun (c' : Catalog) (seen : List (String × List Descriptor)) => (c'.Reachable ∧ c'.newest = c.newest) ∧
      (e ∈ c'.kernels.entries ↔ e ∈ c.kernels.entries ∨ ∃ d ∈ seen, ∃ op ∈ d.2, ∃ b,
        bindingOf op = .ok b ∧ e = (definitionOf d.1 op.signature b, ⟨op, c.newest⟩)))
    (fun c₁ seen d c₂ hc₁ hd => by
      obtain ⟨⟨hreachable, hnewest⟩, hmem⟩ := hc₁
      have hone : register c₁ [d] = .ok c₂ := by
        unfold register
        rw [List.foldlM_cons, bind_eq_ok]
        exact ⟨c₂, hd, rfl⟩
      obtain ⟨⟨c₃, out⟩, hreg, rfl⟩ := map_eq_ok.mp hd
      refine ⟨⟨hreachable.register hreg, (register_newest hone).trans hnewest⟩, ?_⟩
      rw [hreachable.mem_registered hreg, hmem, hnewest, or_assoc]
      refine or_congr_right ?_
      simp only [List.mem_append, List.mem_singleton, or_and_right, exists_or, exists_eq_left])
    ds c [] ⟨⟨hc, rfl⟩, by simp⟩ h
  simpa using hall.2

/-- **A session has the kernels of the operators it was brought up with, and no others.** -/
theorem Started.mem_entries (h : Started setup m m' s) {e : KernelDefinition × Factory} :
    e ∈ s.catalog.kernels.entries ↔ ∃ d ∈ domains setup, ∃ op ∈ d.2, ∃ b,
      bindingOf op = .ok b ∧ e = (definitionOf d.1 op.signature b, ⟨op, s.config.newest⟩) := by
  rw [mem_registered (.empty _) h.catalog, h.config]
  exact or_iff_right List.not_mem_nil

end Session

/-! ## States -/

/-- A state that the host holds computes what the operator does with one that it made. -/
theorem CustomOp.create_eq_ok {State : Type} {op : CustomOp State} {version : Nat} {info : KernelInfo}
    {state : KernelState} (h : (op.descriptor.create version info).result = .ok state) :
    ∃ s, (op.create version info).result = .ok s ∧ state.compute = op.compute s := by
  obtain ⟨s, hs, rfl⟩ := map_eq_ok.mp h
  exact ⟨s, hs, rfl⟩

/-! ## Twins -/

namespace Builtin

/-- Two operators that differ in the provider they are for and in nothing else. -/
structure Twins (op op' : Descriptor) : Prop where
  name : op'.signature.name = op.signature.name
  version : op'.signature.version = op.signature.version
  binding : bindingOf op' = bindingOf op
  create : op'.create = op.create

/-- Built-in operators of one name are twins. -/
theorem twins : ∀ op ∈ operators, ∀ op' ∈ operators, op'.signature.name = op.signature.name →
    Twins op op' := by
  intro op hop op' hop' hname
  simp only [operators, List.mem_cons, List.not_mem_nil, or_false] at hop hop'
  rcases hop with rfl | rfl | rfl | rfl | rfl <;> rcases hop' with rfl | rfl | rfl | rfl | rfl <;>
    first
    | exact ⟨rfl, rfl, rfl, rfl⟩
    | exact absurd hname (by decide)

/-- A built-in operator is known by its name and its provider. -/
theorem operators_keys : (operators.map fun op => (op.signature.name, op.signature.provider)).Nodup := by
  decide

/-- Built-in operators have bindings. -/
theorem exists_binding : ∀ op ∈ operators, ∃ b, bindingOf op = .ok b := by
  intro op hop
  simp only [operators, List.mem_cons, List.not_mem_nil, or_false] at hop
  rcases hop with rfl | rfl | rfl | rfl | rfl <;> exact ⟨_, rfl⟩

/-- Of the node, creating a built-in kernel looks at the attributes alone. -/
theorem create_congr {info info' : KernelInfo} (h : info'.attributes = info.attributes) (version : Nat) :
    ∀ op ∈ operators, op.create version info' = op.create version info := by
  have hfloat : info'.float = info.float := by
    unfold KernelInfo.float KernelInfo.attributeAs KernelInfo.attributeValue
    rw [h]
  intro op hop
  simp only [operators, List.mem_cons, List.not_mem_nil, or_false] at hop
  rcases hop with rfl | rfl | rfl | rfl | rfl
  case inr.inr.inr.inr =>
    have hfactor : factor info' = factor info := by
      unfold factor
      rw [hfloat]
    show Creation.map _ (Creation.mk [] (factor info')) = Creation.map _ (Creation.mk [] (factor info))
    rw [hfactor]
  all_goals rfl

/-- **Built-in kernels do not see where they run**, whatever state was made for them. -/
theorem compute_blind : ∀ op ∈ operators, ∀ version info state,
    (op.create version info).result = .ok state → state.compute.Blind := by
  intro op hop version info state hstate
  simp only [operators, List.mem_cons, List.not_mem_nil, or_false] at hop
  rcases hop with rfl | rfl | rfl | rfl | rfl
  case inr.inr.inr.inr =>
    obtain ⟨factor, -, heq⟩ := CustomOp.create_eq_ok hstate
    exact heq ▸ computeScale_blind factor
  all_goals obtain ⟨_, -, heq⟩ := CustomOp.create_eq_ok hstate
  · exact heq ▸ computeIdentity_blind
  · exact heq ▸ computeIdentity_blind
  · exact heq ▸ computeAdd_blind "Add"
  · exact heq ▸ computeAdd_blind "Add"

/-- Twins make kernels that compute the same, for nodes with the same attributes. -/
theorem instantiate_twins {f f' : Factory} (hop : f.descriptor ∈ operators)
    (htwins : Twins f.descriptor f'.descriptor) (hnewest : f'.newest = f.newest) {info info' : KernelInfo}
    (hattributes : info'.attributes = info.attributes) {kernel kernel' : Kernel} {life life' : List LifeEvent}
    (h : f.instantiate info = (.ok kernel, life)) (h' : f'.instantiate info' = (.ok kernel', life')) :
    kernel'.compute = kernel.compute ∧ kernel.compute.Blind := by
  have hcreate := create_congr hattributes f.descriptor.signature.version f.descriptor hop
  unfold Factory.instantiate Descriptor.instantiate at h h'
  rw [hnewest, htwins.version, htwins.create, hcreate] at h'
  split at h
  · cases h
  next hversion =>
    rw [if_neg hversion] at h'
    obtain ⟨state, hstate, rfl⟩ := map_eq_ok.mp (Prod.mk.inj h).1
    obtain ⟨state', hstate', rfl⟩ := map_eq_ok.mp (Prod.mk.inj h').1
    obtain rfl : state = state' := Except.ok.inj (hstate.symm.trans hstate')
    exact ⟨rfl, compute_blind _ hop _ _ _ hstate⟩

end Builtin

/-! ## Looking built-in operators up -/

/-- The domain of the built-in operators holds them and nothing else. -/
def Setup.HoldsBuiltins (setup : Setup) : Prop :=
  ∀ op, (∃ d ∈ Session.domains setup, d.1 = Builtin.domain ∧ op ∈ d.2) ↔ op ∈ Builtin.operators

/-- It does where the operators are brought up as they come and nobody else registers in their domain. -/
theorem Setup.holdsBuiltins {setup : Setup} (hbuiltins : setup.builtins = true)
    (hothers : ∀ d ∈ setup.domains, d.1 ≠ Builtin.domain) : setup.HoldsBuiltins := by
  intro op
  unfold Session.domains
  rw [if_pos hbuiltins]
  constructor
  · rintro ⟨d, hd, hdomain, hop⟩
    rcases List.mem_append.mp hd with hgiven | hlast
    · exact absurd hdomain (hothers d hgiven)
    · obtain rfl := List.mem_singleton.mp hlast
      exact hop
  · intro hop
    exact ⟨_, List.mem_append_right _ (List.mem_singleton_self _), rfl, hop⟩

namespace Session

variable {Job : Type} {setup : Setup} {m m' : Machine Job} {s : Session}

/-- The kernels in the domain of the built-in operators are theirs, one for each. -/
def HoldsBuiltins (s : Session) : Prop :=
  ∀ e : KernelDefinition × Factory, e.1.domain = Builtin.domain → (e ∈ s.catalog.kernels.entries ↔
    ∃ op ∈ Builtin.operators, ∃ b, bindingOf op = .ok b ∧
      e = (definitionOf Builtin.domain op.signature b, ⟨op, s.config.newest⟩))

theorem Started.holdsBuiltins (h : Started setup m m' s) (hsetup : setup.HoldsBuiltins) :
    s.HoldsBuiltins := by
  intro e hdomain
  rw [h.mem_entries]
  constructor
  · rintro ⟨d, hd, op, hop, b, hb, rfl⟩
    have hname : d.1 = Builtin.domain := hdomain
    exact ⟨op, (hsetup op).mp ⟨d, hd, hname, hop⟩, b, hb, by rw [hname]⟩
  · rintro ⟨op, hop, b, hb, rfl⟩
    obtain ⟨d, hd, hname, hin⟩ := (hsetup op).mpr hop
    exact ⟨d, hd, op, hin, b, hb, by rw [hname]⟩

/-- A look-up finds the operator of the name and the provider, if it takes the inputs. -/
theorem HoldsBuiltins.lookup_iff (h : s.HoldsBuiltins) {op : Descriptor} (hop : op ∈ Builtin.operators)
    {b : TypeBinding} (hb : bindingOf op = .ok b) {ts : List DataType} {d : KernelDefinition} {f : Factory} :
    s.catalog.kernels.lookup op.signature.name Builtin.domain ts op.signature.provider = .ok (d, f) ↔
      (b.matchInputs ts).isSome ∧ d = definitionOf Builtin.domain op.signature b ∧
        f = ⟨op, s.config.newest⟩ := by
  -- Whatever serves the name on the provider is the kernel of the operator.
  have honly : ∀ e ∈ s.catalog.kernels.entries,
      e.1.serves op.signature.name Builtin.domain ts op.signature.provider = true →
      e = (definitionOf Builtin.domain op.signature b, ⟨op, s.config.newest⟩) ∧
        (b.matchInputs ts).isSome := by
    intro e he hserves
    simp only [KernelDefinition.serves, Bool.and_eq_true, decide_eq_true_eq] at hserves
    obtain ⟨⟨⟨hdomain, hname⟩, hprovider⟩, hmatches⟩ := hserves
    obtain ⟨op', hop', b', hb', rfl⟩ := (h e hdomain).mp he
    have hkey : (op'.signature.name, op'.signature.provider) = (op.signature.name, op.signature.provider) :=
      Prod.ext hname hprovider
    obtain rfl : op' = op := List.inj_on_of_nodup_map Builtin.operators_keys hop' hop hkey
    obtain rfl : b' = b := Except.ok.inj (hb'.symm.trans hb)
    exact ⟨rfl, hmatches⟩
  unfold KernelTable.lookup
  cases hfind : s.catalog.kernels.entries.find?
      fun e => e.1.serves op.signature.name Builtin.domain ts op.signature.provider with
  | none =>
      constructor
      · intro hok
        cases hok
      rintro ⟨hmatches, rfl, rfl⟩
      have hin := (h (definitionOf Builtin.domain op.signature b, ⟨op, s.config.newest⟩) rfl).mpr
        ⟨op, hop, b, hb, rfl⟩
      refine absurd ?_ (List.find?_eq_none.mp hfind _ hin)
      simp [KernelDefinition.serves, definitionOf, hmatches]
  | some e =>
      have hserves : e.1.serves op.signature.name Builtin.domain ts op.signature.provider = true := by
        simpa using List.find?_some hfind
      obtain ⟨heq, hmatches⟩ := honly e (List.mem_of_find?_eq_some hfind) hserves
      rw [heq]
      simp [hmatches, eq_comm]

/-- The node uses a built-in operator: addition or copying on the host or on the simulated device, or
    scaling on the host. -/
structure Places (s : Session) (n : Node) : Prop where
  domain : n.domain = Builtin.domain
  op : (n.op = "Add" ∨ n.op = "Identity") ∧ (s.providerOf n = .cpu ∨ s.providerOf n = .sim) ∨
    n.op = "Scale" ∧ s.providerOf n = .cpu

/-- The operator it uses. -/
theorem Places.operator {n : Node} (h : s.Places n) :
    ∃ op ∈ Builtin.operators, op.signature.name = n.op ∧ op.signature.provider = s.providerOf n := by
  obtain ⟨hname | hname, hprovider | hprovider⟩ | ⟨hname, hprovider⟩ := h.op
  · exact ⟨Builtin.add none, by simp [Builtin.operators], hname.symm, hprovider.symm⟩
  · exact ⟨Builtin.add (some .sim), by simp [Builtin.operators], hname.symm, hprovider.symm⟩
  · exact ⟨Builtin.identity none, by simp [Builtin.operators], hname.symm, hprovider.symm⟩
  · exact ⟨Builtin.identity (some .sim), by simp [Builtin.operators], hname.symm, hprovider.symm⟩
  · exact ⟨Builtin.scale, by simp [Builtin.operators], hname.symm, hprovider.symm⟩

/-- It is on the host or on the simulated device. -/
theorem Places.provider {n : Node} (h : s.Places n) : s.providerOf n = .cpu ∨ s.providerOf n = .sim := by
  obtain ⟨-, hprovider⟩ | ⟨-, hprovider⟩ := h.op
  · exact hprovider
  · exact .inl hprovider

/-- **A kernel is found wherever the node is placed, or nowhere**: those that are found are twins. -/
theorem HoldsBuiltins.lookup_twins (h : s.HoldsBuiltins) {n n' : Node} (hn : s.Places n)
    (hn' : s.Places n') (hop : n'.op = n.op) {ts : List DataType} {d : KernelDefinition} {f : Factory}
    (hlookup : s.catalog.kernels.lookup n.op n.domain ts (s.providerOf n) = .ok (d, f)) :
    ∃ d' f', s.catalog.kernels.lookup n'.op n'.domain ts (s.providerOf n') = .ok (d', f') ∧
      f.descriptor ∈ Builtin.operators ∧ Builtin.Twins f.descriptor f'.descriptor ∧
      f'.newest = f.newest := by
  obtain ⟨op, hmem, hname, hprovider⟩ := hn.operator
  obtain ⟨op', hmem', hname', hprovider'⟩ := hn'.operator
  have htwins : Builtin.Twins op op' :=
    Builtin.twins op hmem op' hmem' (hname'.trans (hop.trans hname.symm))
  obtain ⟨b, hb⟩ := Builtin.exists_binding op hmem
  rw [← hname, hn.domain, ← hprovider, h.lookup_iff hmem hb] at hlookup
  obtain ⟨hmatches, -, rfl⟩ := hlookup
  rw [← hname', hn'.domain, ← hprovider']
  exact ⟨_, _, (h.lookup_iff hmem' (htwins.binding.trans hb)).mpr ⟨hmatches, rfl, rfl⟩, hmem, htwins, rfl⟩

end Session

end OpGraph
