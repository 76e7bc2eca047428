import OpGraph.Proofs.Lockstep

/-!
# `Proofs.Inference` — what schemas infer, said by kernels

A schema knows its bindings and no providers; a look-up sees the kernels of one provider. In a catalog in
lockstep, inference is by the first kernel of the operator that takes the inputs, on whatever provider it
runs. A look-up finds the same kernel exactly when that one runs on the provider asked for.
-/

namespace OpGraph

open Outcome

/-! ## The first kernel that takes some inputs -/

namespace KernelTable

variable {Maker : Type}

/-- The first kernel of an operator, on whatever provider, whose binding takes the inputs. -/
def firstTaking (t : KernelTable Maker) (name domain : String) (inputs : List DataType) :
    Option (KernelDefinition × Maker) :=
  (t.ofOperator name domain).find? fun e => (e.1.binding.matchInputs inputs).isSome

theorem lookup_eq_ok {t : KernelTable Maker} {name domain : String} {inputs : List DataType}
    {provider : ProviderId} {e : KernelDefinition × Maker} :
    t.lookup name domain inputs provider = .ok e ↔
      t.entries.find? (fun e => e.1.serves name domain inputs provider) = some e := by
  unfold lookup
  cases t.entries.find? fun e => e.1.serves name domain inputs provider <;> simp

/-- A kernel that was looked up serves what was asked for. -/
theorem serves_of_lookup {t : KernelTable Maker} {name domain : String} {inputs : List DataType}
    {provider : ProviderId} {e : KernelDefinition × Maker}
    (h : t.lookup name domain inputs provider = .ok e) :
    e ∈ t.entries ∧ e.1.name = name ∧ e.1.domain = domain ∧ e.1.provider = provider ∧
      (e.1.binding.matchInputs inputs).isSome := by
  rw [lookup_eq_ok] at h
  have hserves : e.1.serves name domain inputs provider = true := by simpa using List.find?_some h
  simp only [KernelDefinition.serves, Bool.and_eq_true, decide_eq_true_eq] at hserves
  obtain ⟨⟨⟨hdomain, hname⟩, hprovider⟩, htakes⟩ := hserves
  exact ⟨List.mem_of_find?_eq_some h, hname, hdomain, hprovider, htakes⟩

/-- Where a kernel serves, some kernel of the operator takes the inputs. -/
theorem exists_firstTaking {t : KernelTable Maker} {name domain : String} {inputs : List DataType}
    {provider : ProviderId} {e : KernelDefinition × Maker}
    (h : t.lookup name domain inputs provider = .ok e) :
    ∃ first, t.firstTaking name domain inputs = some first := by
  obtain ⟨hmem, hname, hdomain, -, htakes⟩ := serves_of_lookup h
  have hof : e ∈ t.ofOperator name domain := by simp [ofOperator, hmem, hname, hdomain]
  exact Option.isSome_iff_exists.mp (List.find?_isSome.mpr ⟨e, hof, htakes⟩)

/-- The first kernel that takes the inputs is found on its own provider. -/
theorem lookup_firstTaking {t : KernelTable Maker} {name domain : String} {inputs : List DataType}
    {first : KernelDefinition × Maker} (h : t.firstTaking name domain inputs = some first) :
    t.lookup name domain inputs first.1.provider = .ok first := by
  rw [lookup_eq_ok]
  unfold firstTaking ofOperator at h
  rw [List.find?_filter, List.find?_eq_some_iff_append] at h
  obtain ⟨htakes, before, after, hsplit, hnone⟩ := h
  rw [List.find?_eq_some_iff_append]
  refine ⟨?_, before, after, hsplit, fun e he => ?_⟩
  · simpa [KernelDefinition.serves, and_assoc] using htakes
  · have := hnone e he
    simp only [KernelDefinition.serves]
    grind

end KernelTable

/-! ## Inference of a schema -/

namespace TypeBinding

/-- Bindings of one shape agree on which numbers of outputs are allowed. -/
theorem infer_isSome {shape : FormalShape} {b : TypeBinding} (h : shape.Fits b)
    (inputs : List DataType) (count : Nat) :
    (b.infer inputs count).isSome =
      ((b.matchInputs inputs).isSome &&
        arityFits shape.outputs.length (FormalShape.lastVariadic shape.outputs) count) := by
  unfold infer resolveOutputs
  rw [h.outputs, h.variadicOutput]
  cases b.matchInputs inputs with
  | none => rfl
  | some w =>
      cases arityFits shape.outputs.length (FormalShape.lastVariadic shape.outputs) count <;> rfl

/-- Among bindings of one shape the first that infers is the first that takes the inputs. -/
theorem findSome?_infer {shape : FormalShape} {inputs : List DataType} {count : Nat} :
    ∀ {bs : List TypeBinding}, (∀ b ∈ bs, shape.Fits b) →
      (bs.findSome? fun b => b.infer inputs count) =
        (bs.find? fun b => (b.matchInputs inputs).isSome).bind (·.infer inputs count) := by
  intro bs
  induction bs with
  | nil => simp
  | cons b rest ih =>
      intro h
      have hrest := ih fun b hb => h b (List.mem_cons_of_mem _ hb)
      have hb := infer_isSome (h b List.mem_cons_self) inputs count
      cases hm : (b.matchInputs inputs).isSome with
      | false =>
          have hnone : b.infer inputs count = none := by simpa [hm] using hb
          rw [List.findSome?_cons, hnone, List.find?_cons, hm]
          exact hrest
      | true =>
          rw [List.findSome?_cons, List.find?_cons, hm]
          cases hi : b.infer inputs count with
          | some ts => simp [hi]
          | none =>
              -- The number of outputs is not allowed, so no other binding infers either.
              have hfit : arityFits shape.outputs.length
                  (FormalShape.lastVariadic shape.outputs) count = false := by
                simpa [hi, hm] using hb.symm
              simp only [Option.bind_some, hi, List.findSome?_eq_none_iff]
              intro b' hb'
              have := infer_isSome (h b' (List.mem_cons_of_mem _ hb')) inputs count
              simpa [hfit] using this

end TypeBinding

namespace Catalog

/-- **A schema infers by the first kernel of its operator that takes the inputs.** -/
theorem Lockstep.inferNode_eq {c : Catalog} (h : c.Lockstep) (name domain : String)
    (inputs : List DataType) (count : Nat) :
    ((c.schema? name domain).bind fun s => s.inferNode inputs count) =
      (c.kernels.firstTaking name domain inputs).bind fun e => e.1.binding.infer inputs count := by
  have hkernels : (c.kernels.firstTaking name domain inputs).map (·.1.binding) =
      (c.schemaBindings name domain).find? fun b => (b.matchInputs inputs).isSome := by
    rw [← h.bindings, KernelTable.bindings_eq]
    unfold KernelTable.firstTaking
    rw [List.find?_map]
    rfl
  have hbind : ((c.kernels.firstTaking name domain inputs).bind fun e =>
      e.1.binding.infer inputs count) =
        ((c.kernels.firstTaking name domain inputs).map (·.1.binding)).bind (·.infer inputs count) := by
    cases c.kernels.firstTaking name domain inputs <;> rfl
  rw [hbind, hkernels]
  unfold schemaBindings
  cases hs : c.schema? name domain with
  | none => rfl
  | some s =>
      show (s.captured.findSome? fun b => b.infer inputs count) = _
      rw [h.captured name domain s hs]
      exact TypeBinding.findSome?_infer (h.fits name domain s hs)

end Catalog

end OpGraph
