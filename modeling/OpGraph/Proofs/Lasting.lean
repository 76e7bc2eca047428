import Mathlib.Data.List.Induction
import OpGraph.Proofs.Inference
import OpGraph.Proofs.Registration

/-!
# `Proofs.Lasting` — what was resolved once is resolved the same way ever after

A look-up takes the first kernel that serves, and a schema infers by the first binding that fits. Later
registrations put kernels and bindings behind those that are there (`Enrolled.kernels`), so whatever was
found before still comes first. What is found only now was brought by an operator that came in since.
-/

namespace OpGraph

open Outcome

namespace KernelTable

variable {Maker : Type}

/-- A look-up searches the kernels of its operator. -/
theorem lookup_eq_ok_ofOperator {t : KernelTable Maker} {name domain : String} {inputs : List DataType}
    {provider : ProviderId} {e : KernelDefinition × Maker} :
    t.lookup name domain inputs provider = .ok e ↔
      (t.ofOperator name domain).find?
        (fun e => e.1.provider = provider && (e.1.binding.matchInputs inputs).isSome) = some e := by
  rw [lookup_eq_ok, ofOperator, List.find?_filter]
  simp only [KernelDefinition.serves, Bool.decide_and, Bool.decide_eq_true, Bool.and_assoc]

end KernelTable

namespace Catalog

/-- Output types of a node of an operator, as far as its schema infers any. -/
def infer? (c : Catalog) (name domain : String) (inputs : List DataType) (count : Nat) :
    Option (List DataType) :=
  (c.schema? name domain).bind fun s => s.inferNode inputs count

/-- A schema infers by the bindings of its kernels, in the order these came. -/
theorem Lockstep.infer?_eq {c : Catalog} (h : c.Lockstep) (name domain : String) (inputs : List DataType)
    (count : Nat) : c.infer? name domain inputs count =
      (c.kernels.ofOperator name domain).findSome? fun e => e.1.binding.infer inputs count := by
  have hbindings : (c.kernels.ofOperator name domain).map (·.1.binding) = c.schemaBindings name domain :=
    h.bindings name domain
  have hmap : ((c.kernels.ofOperator name domain).findSome? fun e => e.1.binding.infer inputs count) =
      (c.schemaBindings name domain).findSome? fun b => b.infer inputs count := by
    rw [← hbindings, List.findSome?_map]
    rfl
  rw [hmap]
  unfold infer? schemaBindings
  cases hs : c.schema? name domain with
  | none => rfl
  | some s =>
      show (s.captured.findSome? fun b => b.infer inputs count) = _
      rw [h.captured name domain s hs]
      rfl

/-! ## What stays -/

/-- Whatever one catalog resolves, the other resolves in the same way. -/
structure Upholds (c c' : Catalog) : Prop where
  /-- The kernel and what makes it. -/
  lookup : ∀ name domain inputs provider e, c.kernels.lookup name domain inputs provider = .ok e →
    c'.kernels.lookup name domain inputs provider = .ok e
  infer : ∀ name domain inputs count types, c.infer? name domain inputs count = some types →
    c'.infer? name domain inputs count = some types
  /-- The parameters of a schema and its type sets. -/
  shape : ∀ name domain s, c.schema? name domain = some s →
    ∃ s', c'.schema? name domain = some s' ∧ s'.shape = s.shape

theorem Upholds.refl (c : Catalog) : c.Upholds c :=
  ⟨fun _ _ _ _ _ h => h, fun _ _ _ _ _ h => h, fun _ _ s h => ⟨s, h, rfl⟩⟩

theorem Upholds.trans {c c' c'' : Catalog} (h : c.Upholds c') (h' : c'.Upholds c'') : c.Upholds c'' where
  lookup name domain inputs provider e he :=
    h'.lookup name domain inputs provider e (h.lookup name domain inputs provider e he)
  infer name domain inputs count types ht :=
    h'.infer name domain inputs count types (h.infer name domain inputs count types ht)
  shape name domain s hs := by
    obtain ⟨s', hs', hshape⟩ := h.shape name domain s hs
    obtain ⟨s'', hs'', hshape'⟩ := h'.shape name domain s' hs'
    exact ⟨s'', hs'', hshape'.trans hshape⟩

/-! ## What is new -/

/-- An operator of the domain has this name and this binding. -/
def Brings (domain : String) (ops : List Descriptor) (name domain' : String) (op : Descriptor)
    (b : TypeBinding) : Prop :=
  domain = domain' ∧ op ∈ ops ∧ op.signature.name = name ∧ bindingOf op = .ok b

/-- Whatever the other catalog resolves beyond the first comes from an operator of the domain. -/
structure Adds (c c' : Catalog) (domain : String) (ops : List Descriptor) : Prop where
  lookup : ∀ name domain' inputs provider e, c'.kernels.lookup name domain' inputs provider = .ok e →
    c.kernels.lookup name domain' inputs provider = .ok e ∨
      ∃ op b, Brings domain ops name domain' op b ∧ e = c.kernelOf domain (op, b)
  infer : ∀ name domain' inputs count types, c'.infer? name domain' inputs count = some types →
    c.infer? name domain' inputs count = some types ∨
      ∃ op b, Brings domain ops name domain' op b ∧ b.infer inputs count = some types

section

variable {c c' : Catalog} {domain : String} {ops : List Descriptor} {bs : List TypeBinding}
  {out : List OpSchema}

/-- The kernels of an operator that a domain added. -/
theorem Enrolled.mem_added (h : c.Enrolled c' domain ops bs out) {name domain' : String}
    {e : KernelDefinition × Factory}
    (he : e ∈ if domain = domain' then (named name (ops.zip bs)).map (c.kernelOf domain) else []) :
    ∃ op b, Brings domain ops name domain' op b ∧ e = c.kernelOf domain (op, b) := by
  split at he
  next hdomain =>
    obtain ⟨⟨op, b⟩, hmem, rfl⟩ := List.mem_map.mp he
    obtain ⟨hzip, hname⟩ := List.mem_filter.mp hmem
    obtain ⟨hop, hb⟩ := (mem_zip_of_mapM_eq_ok h.bound).mp hzip
    exact ⟨op, b, ⟨hdomain, hop, by simpa using hname, hb⟩, rfl⟩
  · cases he

/-- **A domain that came in changes nothing that was resolved before.** -/
theorem Enrolled.upholds (h : c.Enrolled c' domain ops bs out) (hc : c.Lockstep) (hc' : c'.Lockstep) :
    c.Upholds c' where
  lookup name domain' inputs provider e he := by
    rw [KernelTable.lookup_eq_ok_ofOperator] at he ⊢
    rw [h.kernels, List.find?_append, he]
    rfl
  infer name domain' inputs count types ht := by
    rw [hc.infer?_eq] at ht
    rw [hc'.infer?_eq, h.kernels, List.findSome?_append, ht]
    rfl
  shape := h.shapes

/-- **What is resolved for the first time comes from an operator that came in.** -/
theorem Enrolled.adds (h : c.Enrolled c' domain ops bs out) (hc : c.Lockstep) (hc' : c'.Lockstep) :
    c.Adds c' domain ops where
  lookup name domain' inputs provider e he := by
    rw [KernelTable.lookup_eq_ok_ofOperator] at he ⊢
    rw [h.kernels, List.find?_append, Option.or_eq_some_iff] at he
    exact he.imp id fun hnew => h.mem_added (List.mem_of_find?_eq_some hnew.2)
  infer name domain' inputs count types ht := by
    rw [hc'.infer?_eq, h.kernels, List.findSome?_append, Option.or_eq_some_iff] at ht
    rw [hc.infer?_eq]
    refine ht.imp id fun hnew => ?_
    obtain ⟨e, he, hinfer⟩ := List.exists_of_findSome?_eq_some hnew.2
    obtain ⟨op, b, hbrings, rfl⟩ := h.mem_added he
    exact ⟨op, b, hbrings, hinfer⟩

/-- A call that is refused leaves all as it was, and a call that is not adds at the end. -/
theorem Lockstep.enroll_upholds (h : c.Lockstep) (domain : String) (ops : List Descriptor) :
    c.Upholds (c.enroll domain ops).2 ∧ c.Adds (c.enroll domain ops).2 domain ops := by
  obtain ⟨e, -, heq⟩ | ⟨st, hst, heq⟩ := h.enroll_cases domain ops
  · rw [heq]
    exact ⟨.refl c, ⟨fun _ _ _ _ _ he => .inl he, fun _ _ _ _ _ ht => .inl ht⟩⟩
  · rw [heq]
    obtain ⟨bs, hin⟩ := h.enrolled hst
    exact ⟨hin.upholds h (h.committed hst), hin.adds h (h.committed hst)⟩

end

/-! ## Along a history -/

/-- Calls never change the newest version the host admits. -/
theorem history_newest (newest : Nat) (calls : List (String × List Descriptor)) :
    (history newest calls).newest = newest :=
  history_induction (P := fun c => c.newest = newest) newest rfl (fun _ _ _ _ _ h _ => h) calls

/-- **Later registrations never change earlier resolutions.** After any history, and any further calls,
    refused ones included: a kernel that was looked up is looked up still, with the same definition and
    maker; types that were inferred are inferred still; the shape and the type sets of a schema are what
    they were. A look-up or an inference that finds something only now finds what an operator of one of
    the further calls brought. -/
theorem later_registrations_uphold (newest : Nat) (calls further : List (String × List Descriptor)) :
    let c := history newest calls
    let c' := history newest (calls ++ further)
    c.Upholds c' ∧
      (∀ name domain inputs provider e, c'.kernels.lookup name domain inputs provider = .ok e →
        c.kernels.lookup name domain inputs provider = .ok e ∨
          ∃ call ∈ further, ∃ op b, Brings call.1 call.2 name domain op b ∧
            e = (definitionOf domain op.signature b, ⟨op, newest⟩)) ∧
      ∀ name domain inputs count types, c'.infer? name domain inputs count = some types →
        c.infer? name domain inputs count = some types ∨
          ∃ call ∈ further, ∃ op b, Brings call.1 call.2 name domain op b ∧
            b.infer inputs count = some types := by
  intro c
  induction further using List.reverseRecOn with
  | nil =>
      rw [List.append_nil]
      exact ⟨.refl c, fun _ _ _ _ _ he => .inl he, fun _ _ _ _ _ ht => .inl ht⟩
  | append_singleton further call ih =>
      obtain ⟨domain, ops⟩ := call
      obtain ⟨hupholds, hlookup, hinfer⟩ := ih
      obtain ⟨hstep, hadds⟩ := (history_lockstep newest (calls ++ further)).enroll_upholds domain ops
      rw [← List.append_assoc, history_append]
      have hlast : (domain, ops) ∈ further ++ [(domain, ops)] := by simp
      -- What an earlier one of the further calls brought is among all of them.
      have hearlier : ∀ {P : String × List Descriptor → Prop}, (∃ call ∈ further, P call) →
          ∃ call ∈ further ++ [(domain, ops)], P call :=
        fun ⟨call, hcall, hP⟩ => ⟨call, List.mem_append_left _ hcall, hP⟩
      refine ⟨hupholds.trans hstep, fun name domain' inputs provider e he => ?_,
        fun name domain' inputs count types ht => ?_⟩
      · rcases hadds.lookup name domain' inputs provider e he with hold | ⟨op, b, hbrings, rfl⟩
        · exact (hlookup name domain' inputs provider e hold).imp id hearlier
        · refine .inr ⟨_, hlast, op, b, hbrings, ?_⟩
          obtain ⟨rfl, -⟩ := hbrings
          rw [kernelOf, history_newest]
      · rcases hadds.infer name domain' inputs count types ht with hold | ⟨op, b, hbrings, hb⟩
        · exact (hinfer name domain' inputs count types hold).imp id hearlier
        · exact .inr ⟨_, hlast, op, b, hbrings, hb⟩

end Catalog

end OpGraph
