import Mathlib.Data.List.Induction
import OpGraph.Proofs.Outcome
import OpGraph.Operator.Schema

/-!
# `Proofs.Shape` — formal shapes and the bindings that fit them

A binding fits a shape when it has as many positions on each side and repeats its last position the way
the shape does. The shape of a signature fits the signature's own binding, and compatible shapes are fit
by the same bindings, so all bindings under one schema take and give the same numbers of values.
-/

namespace OpGraph.FormalShape

open Outcome

/-- A binding has the positions of a shape, and repeats the way it does. -/
structure Fits (shape : FormalShape) (b : TypeBinding) : Prop where
  inputs : b.inputs.length = shape.inputs.length
  outputs : b.outputs.length = shape.outputs.length
  variadicInput : b.variadicInput = lastVariadic shape.inputs
  variadicOutput : b.variadicOutput = lastVariadic shape.outputs

/-! ## The shape of a signature -/

/-- A shape has one parameter for each declared type. -/
theorem ofSignature_lengths {s : Signature} {shape : FormalShape} (h : ofSignature s = .ok shape) :
    shape.inputs.length = s.inputs.length ∧ shape.outputs.length = s.outputs.length := by
  unfold ofSignature at h
  rw [bind_eq_ok] at h
  obtain ⟨inputs, hin, h⟩ := h
  rw [bind_eq_ok] at h
  obtain ⟨outputs, hout, h⟩ := h
  obtain rfl := pure_eq_ok.mp h
  exact ⟨by simpa using length_of_mapM_eq_ok hin, by simpa using length_of_mapM_eq_ok hout⟩

/-- The binding of a signature fits the signature's shape. -/
theorem fits_binding {s : Signature} {shape : FormalShape} (h : ofSignature s = .ok shape) :
    shape.Fits (shape.binding s) := by
  obtain ⟨hin, hout⟩ := ofSignature_lengths h
  exact ⟨hin.symm, hout.symm, rfl, rfl⟩

/-! ## Names of type sets -/

/-- One more name joins the distinct ones when it is new. -/
theorem eraseDups_concat (names : List String) (name : String) :
    (names ++ [name]).eraseDups =
      if name ∈ names then names.eraseDups else names.eraseDups ++ [name] := by
  rw [List.eraseDups_append]
  by_cases h : name ∈ names
  · simp [List.removeAll, h]
  · simp [List.removeAll, h, List.eraseDups_cons]

theorem nodup_eraseDups (names : List String) : names.eraseDups.Nodup := by
  induction names using List.reverseRecOn with
  | nil => exact List.nodup_nil
  | append_singleton names name ih =>
      rw [eraseDups_concat]
      by_cases h : name ∈ names
      · rwa [if_pos h]
      · rw [if_neg h]
        refine List.nodup_append.mpr ⟨ih, by simp, fun a ha b hb hab => h ?_⟩
        exact List.mem_singleton.mp hb ▸ hab ▸ List.mem_eraseDups.mp ha

/-- Type sets are named once each, in the order in which parameters first use them. -/
theorem constraintsOf_eq (ps : List FormalParameter) : constraintsOf ps =
    (ps.map (·.typeName)).eraseDups.map fun n => ⟨n, DataType.tensorTypes⟩ := by
  unfold constraintsOf
  congr 1
  induction ps using List.reverseRecOn with
  | nil => rfl
  | append_singleton ps p ih =>
      rw [List.foldl_append, List.foldl_cons, List.foldl_nil, ih, List.map_append, List.map_singleton,
        eraseDups_concat]
      simp only [List.mem_eraseDups]

/-! ## Compatible shapes -/

/-- The forms of the parameters, inputs and outputs. -/
def forms (shape : FormalShape) : List ParameterForm × List ParameterForm :=
  (shape.inputs.map (·.form), shape.outputs.map (·.form))

theorem formDifference_eq_none {side : Side} {as bs : List FormalParameter} {i : Nat}
    (hlen : as.length = bs.length) :
    formDifference side i as bs = none ↔ as.map (·.form) = bs.map (·.form) := by
  induction as generalizing bs i with
  | nil =>
      obtain rfl : bs = [] := List.length_eq_zero_iff.mp hlen.symm
      simp [formDifference]
  | cons a as ih =>
      cases bs with
      | nil => simp at hlen
      | cons b bs =>
          by_cases hab : a.form = b.form
          · simp [formDifference, hab, ih (Nat.succ.inj hlen)]
          · simp [formDifference, hab]

theorem sideDifference_eq_none {side : Side} {as bs : List FormalParameter} :
    sideDifference side as bs = none ↔ as.map (·.form) = bs.map (·.form) := by
  unfold sideDifference
  by_cases hlen : as.length = bs.length
  · rw [if_neg (not_not_intro hlen), formDifference_eq_none hlen]
  · rw [if_pos hlen]
    simp only [reduceCtorEq, false_iff]
    exact fun heq => hlen (by simpa using congrArg List.length heq)

/-- **Shapes are compatible exactly if their parameters have the same forms.** -/
theorem ensureCompatible_eq_ok {registered now : FormalShape} {op : String} :
    registered.ensureCompatible op now = .ok () ↔ registered.forms = now.forms := by
  have hdifference : registered.difference now = none ↔ registered.forms = now.forms := by
    rw [difference, Option.or_eq_none_iff, sideDifference_eq_none, sideDifference_eq_none, forms, forms,
      Prod.mk.injEq]
  rw [← hdifference]
  unfold ensureCompatible
  cases registered.difference now <;> simp

theorem lastVariadic_eq (ps : List FormalParameter) :
    lastVariadic ps = (ps.map (·.form)).getLast?.bind (·.variadic?) := by
  unfold lastVariadic
  rw [List.getLast?_map]
  cases ps.getLast? <;> rfl

/-- Shapes of the same forms are fit by the same bindings. -/
theorem Fits.of_forms {a b : FormalShape} {t : TypeBinding} (h : b.Fits t) (hforms : a.forms = b.forms) :
    a.Fits t := by
  obtain ⟨hin, hout⟩ := Prod.mk.inj hforms
  have hinLen : a.inputs.length = b.inputs.length := by simpa using congrArg List.length hin
  have houtLen : a.outputs.length = b.outputs.length := by simpa using congrArg List.length hout
  refine ⟨?_, ?_, ?_, ?_⟩
  · rw [h.inputs, hinLen]
  · rw [h.outputs, houtLen]
  · rw [h.variadicInput, lastVariadic_eq, lastVariadic_eq, hin]
  · rw [h.variadicOutput, lastVariadic_eq, lastVariadic_eq, hout]

/-- **A binding that fits a shape fits every shape compatible with it.** -/
theorem fits_of_compatible {registered now : FormalShape} {op : String} {t : TypeBinding}
    (hc : registered.ensureCompatible op now = .ok ()) (h : now.Fits t) : registered.Fits t :=
  h.of_forms (ensureCompatible_eq_ok.mp hc)

end OpGraph.FormalShape
