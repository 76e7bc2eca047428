import OpGraph.Proofs.Shape

/-!
# `Proofs.Legal` — the signatures that have a shape

What a position ends up as depends on what the signature says of it and on whether its version knows of
that (`Signature.ends`). Only two things are refused: a position other than the last that ends up repeating,
and a single templated output where no input is templated. A signature with neither has a shape, and the
shape has no more in it than the signature says (`FormalShape.ofSignature_eq_ok_iff`).
-/

namespace OpGraph

open Outcome

namespace Signature

/-! ## What a signature says of a position -/

/-- The declared types on a side. -/
def types (s : Signature) : Side → List DataType
  | .input => s.inputs
  | .output => s.outputs

/-- The slot that tells how the positions on a side are filled. -/
def slot (s : Signature) : Side → Option (Nat → Characteristic)
  | .input => s.slots.inputCharacteristic
  | .output => s.slots.outputCharacteristic

/-- What the signature says of a position, covered by its version or not. -/
def declared (s : Signature) (side : Side) (i : Nat) : Characteristic :=
  ((s.slot side).map (· i)).getD .required

/-- What a position ends up as. It can be optional from version 8 on and repeat from version 14 on; an
    older version that says so means a single value. -/
def ends (s : Signature) (side : Side) (i : Nat) : ParameterOption :=
  match s.declared side i with
  | .required => .single
  | .optional => if 8 ≤ s.version then .optional else .single
  | .variadic => if 14 ≤ s.version then .variadic else .single

/-- The form of a position that ends up as the given option. Only one that repeats is homogeneous or not,
    and has a least number of values, as the signature says. -/
def formOf (s : Signature) (side : Side) (option : ParameterOption) : ParameterForm :=
  match option, side with
  | .variadic, .input =>
      { option, homogeneous := s.variadicInputHomogeneous, least := s.variadicInputLeast }
  | .variadic, .output =>
      { option, homogeneous := s.variadicOutputHomogeneous, least := s.variadicOutputLeast }
  | _, _ => { option }

/-- The parameter of a position, if the signature is legal. -/
def parameter (s : Signature) (side : Side) (i : Nat) (d : DataType) : FormalParameter :=
  ⟨FormalShape.positionName side i, FormalShape.typeName side i d, s.formOf side (s.ends side i)⟩

/-- What a signature must not say. -/
structure Legal (s : Signature) : Prop where
  /-- Nothing but the last position of a side repeats. -/
  last : 14 ≤ s.version → ∀ side i, i + 1 < (s.types side).length → s.declared side i ≠ .variadic
  /-- A single output is templated only where some input is. -/
  inferable : (∀ d ∈ s.inputs, d ≠ .undefined) → ∀ i, s.outputs[i]? = some .undefined →
    s.ends .output i ≠ .single

variable {s : Signature} {side : Side} {i : Nat} {d : DataType} {p : FormalParameter}

theorem ends_eq_variadic_iff : s.ends side i = .variadic ↔ 14 ≤ s.version ∧ s.declared side i = .variadic := by
  unfold ends
  cases s.declared side i with
  | required => simp
  | optional => by_cases h : 8 ≤ s.version <;> simp [h]
  | variadic => simp

@[simp] theorem formOf_option (s : Signature) (side : Side) (option : ParameterOption) :
    (s.formOf side option).option = option := by
  cases option <;> cases side <;> rfl

theorem formOf_of_ne_variadic {option : ParameterOption} (h : option ≠ .variadic) :
    s.formOf side option = { option } := by
  cases option with
  | single => rfl
  | optional => rfl
  | variadic => exact absurd rfl h

/-- Legality, position by position. -/
theorem legal_iff : s.Legal ↔
    (∀ side i d, (s.types side)[i]? = some d → s.ends side i = .variadic → i + 1 = (s.types side).length) ∧
      ∀ i d, s.outputs[i]? = some d →
        ¬(d = .undefined ∧ s.ends .output i = .single ∧ ∀ d ∈ s.inputs, d ≠ .undefined) := by
  constructor
  · refine fun h => ⟨fun side i d hd hends => ?_, fun i d hd ⟨hwild, hsingle, hnone⟩ => ?_⟩
    · have hlt : i < (s.types side).length := (List.getElem?_eq_some_iff.mp hd).1
      obtain ⟨hversion, hdeclared⟩ := ends_eq_variadic_iff.mp hends
      have hlast : ¬i + 1 < (s.types side).length := fun hlt' => h.last hversion side i hlt' hdeclared
      omega
    · exact h.inferable hnone i (hwild ▸ hd) hsingle
  · refine fun ⟨hlast, hinferable⟩ => ⟨fun hversion side i hlt hdeclared => ?_, fun hnone i hd hsingle => ?_⟩
    · have hget := List.getElem?_eq_getElem (l := s.types side) (i := i) (by omega)
      have := hlast side i _ hget (ends_eq_variadic_iff.mpr ⟨hversion, hdeclared⟩)
      omega
    · exact hinferable i _ hd ⟨rfl, hsingle, hnone⟩

end Signature

namespace FormalShape

open Signature

variable {s : Signature} {side : Side} {i : Nat} {d : DataType} {p : FormalParameter}

/-! ## One position -/

/-- Read through its version, a signature says nothing of a position before version 8. -/
theorem gated_characteristic (s : Signature) (side : Side) (i : Nat) :
    ((s.gated Interface.characteristics (s.slot side)).map (· i)).getD .required =
      if 8 ≤ s.version then s.declared side i else .required := by
  unfold gated declared Interface.supports Interface.characteristics
  by_cases h : 8 ≤ s.version <;> simp [h]

/-- A position has a form, unless it ends up repeating and is not the last. -/
theorem positionForm_eq_ok_iff {c : Characteristic} {count : Nat} {homogeneous : Bool} {least : Nat}
    (hc : c = if 8 ≤ s.version then s.declared side i else .required)
    (hform : s.formOf side .variadic = ⟨.variadic, homogeneous, least⟩) {form : ParameterForm} :
    positionForm s.version side i count c homogeneous least = .ok form ↔
      (s.ends side i = .variadic → i + 1 = count) ∧ form = s.formOf side (s.ends side i) := by
  have hsupports : Interface.supports s.version Interface.variadics = decide (14 ≤ s.version) := rfl
  subst hc
  unfold positionForm ends
  by_cases h8 : 8 ≤ s.version
  · rw [if_pos h8]
    cases s.declared side i with
    | required => simp [formOf, eq_comm]
    | optional => simp [formOf, h8, eq_comm]
    | variadic =>
        by_cases h14 : 14 ≤ s.version
        · by_cases hlast : i + 1 = count <;> simp [hsupports, h14, hlast, hform, eq_comm]
        · simp [hsupports, h14, formOf, eq_comm]
  · have h14 : ¬14 ≤ s.version := by omega
    rw [if_neg h8]
    cases s.declared side i <;> simp [formOf, h8, h14, eq_comm]

theorem inputParameter_eq_ok_iff : inputParameter s i d = .ok p ↔
    (s.ends .input i = .variadic → i + 1 = s.inputs.length) ∧ p = s.parameter .input i d := by
  have hposition : ∀ form, positionForm s.version .input i s.inputs.length (s.inputCharacteristic i)
      s.variadicInputHomogeneous s.variadicInputLeast = .ok form ↔ _ :=
    fun _ => positionForm_eq_ok_iff (gated_characteristic s .input i) rfl
  unfold inputParameter
  rw [bind_eq_ok]
  simp only [hposition, pure_eq_ok, and_assoc, exists_and_left, exists_eq_left, eq_comm (b := p)]
  rfl

theorem hasTemplatedInput_eq_false_iff : hasTemplatedInput s = false ↔ ∀ d ∈ s.inputs, d ≠ .undefined := by
  simp [hasTemplatedInput, DataType.isDefined]

theorem outputParameter_eq_ok_iff : outputParameter s i d = .ok p ↔
    ((s.ends .output i = .variadic → i + 1 = s.outputs.length) ∧
      ¬(d = .undefined ∧ s.ends .output i = .single ∧ ∀ d ∈ s.inputs, d ≠ .undefined)) ∧
        p = s.parameter .output i d := by
  have hposition : ∀ form, positionForm s.version .output i s.outputs.length (s.outputCharacteristic i)
      s.variadicOutputHomogeneous s.variadicOutputLeast = .ok form ↔ _ :=
    fun _ => positionForm_eq_ok_iff (gated_characteristic s .output i) rfl
  have hrefused : (!d.isDefined && s.ends .output i = .single && !hasTemplatedInput s) = true ↔
      d = .undefined ∧ s.ends .output i = .single ∧ ∀ d ∈ s.inputs, d ≠ .undefined := by
    rw [← hasTemplatedInput_eq_false_iff]
    simp [DataType.isDefined, and_assoc]
  unfold outputParameter
  rw [bind_eq_ok]
  simp only [hposition, unless_eq_ok, pure_eq_ok, and_assoc, exists_and_left, exists_eq_left,
    eq_comm (b := p), formOf_option, hrefused]
  rfl

/-! ## A whole signature -/

theorem invalid_eq_ok_iff {r : Except SignatureFault FormalParameter} :
    ofSignature.invalid s r = .ok p ↔ r = .ok p := by
  cases r <;> simp [ofSignature.invalid]

/-- Where a check of each position tells when it is passed and with which parameter, all of them are passed
    exactly if each is. -/
theorem mapM_invalid_eq_ok_iff {types : List DataType} {ps : List FormalParameter}
    {check : Nat → DataType → Except SignatureFault FormalParameter} {Passes : Nat → DataType → Prop}
    {parameter : Nat → DataType → FormalParameter}
    (hcheck : ∀ i d p, check i d = .ok p ↔ Passes i d ∧ p = parameter i d) :
    (types.mapIdx check).mapM (ofSignature.invalid s) = .ok ps ↔
      (∀ i d, types[i]? = some d → Passes i d) ∧ ps = types.mapIdx parameter := by
  have hone : ∀ i : Nat, ((types.mapIdx check).map (ofSignature.invalid s))[i]? = (ps.map .ok)[i]? ↔
      (∀ d, types[i]? = some d → Passes i d) ∧ ps[i]? = (types.mapIdx parameter)[i]? := by
    intro i
    simp only [List.getElem?_map, List.getElem?_mapIdx]
    cases types[i]? with
    | none => cases ps[i]? <;> simp
    | some d => cases ps[i]? <;> simp [invalid_eq_ok_iff, hcheck]
  have hsame : ps = types.mapIdx parameter ↔ ∀ i : Nat, ps[i]? = (types.mapIdx parameter)[i]? :=
    List.ext_getElem?_iff
  rw [mapM_eq_ok, hsame, List.ext_getElem?_iff]
  simp only [hone, forall_and]

end FormalShape

/-- The shape of a signature, if it is legal. -/
def Signature.shape (s : Signature) : FormalShape :=
  let inputs := s.inputs.mapIdx (s.parameter .input)
  let outputs := s.outputs.mapIdx (s.parameter .output)
  ⟨inputs, outputs, FormalShape.constraintsOf (inputs ++ outputs)⟩

namespace FormalShape

/-- The parameters on a side. -/
def parameters (shape : FormalShape) : Side → List FormalParameter
  | .input => shape.inputs
  | .output => shape.outputs

variable {s : Signature} {shape : FormalShape} {side : Side} {i : Nat} {p : FormalParameter}

/-- **Exactly the legal signatures have a shape**, and it is made of their positions. -/
theorem ofSignature_eq_ok_iff : ofSignature s = .ok shape ↔ s.Legal ∧ shape = s.shape := by
  unfold ofSignature
  rw [bind_eq_ok, Signature.legal_iff]
  simp only [bind_eq_ok, pure_eq_ok, mapM_invalid_eq_ok_iff fun _ _ _ => inputParameter_eq_ok_iff,
    mapM_invalid_eq_ok_iff fun _ _ _ => outputParameter_eq_ok_iff]
  constructor
  · rintro ⟨_, ⟨hinputs, rfl⟩, _, ⟨houtputs, rfl⟩, rfl⟩
    refine ⟨⟨fun side => ?_, fun i d hd => (houtputs i d hd).2⟩, rfl⟩
    cases side with
    | input => exact hinputs
    | output => exact fun i d hd => (houtputs i d hd).1
  · rintro ⟨⟨hlast, hinferable⟩, rfl⟩
    exact ⟨_, ⟨hlast .input, rfl⟩, _,
      ⟨fun i d hd => ⟨hlast .output i d hd, hinferable i d hd⟩, rfl⟩, rfl⟩

theorem parameters_shape (s : Signature) (side : Side) :
    s.shape.parameters side = (s.types side).mapIdx (s.parameter side) := by
  cases side <;> rfl

theorem parameters_shape_eq_some_iff : (s.shape.parameters side)[i]? = some p ↔
    ∃ d, (s.types side)[i]? = some d ∧ s.parameter side i d = p := by
  rw [parameters_shape, List.getElem?_mapIdx, Option.map_eq_some_iff]

/-- **A signature has a shape exactly if it is legal.** The shape has one parameter for each declared type,
    which is optional or repeats as far as the version goes along with what the signature says; only a last
    parameter that repeats is anything but homogeneous with a least number of one; and each type set that a
    parameter names is listed once, in the order in which they first come, inputs before outputs. -/
theorem accepts_exactly_the_legal (s : Signature) :
    ((∃ shape, ofSignature s = .ok shape) ↔ s.Legal) ∧
      ∀ shape, ofSignature s = .ok shape →
        (∀ side, (shape.parameters side).length = (s.types side).length) ∧
        (∀ side i p, (shape.parameters side)[i]? = some p →
          p.form.option = s.ends side i ∧
          ((p.form.homogeneous, p.form.least) ≠ (true, 1) →
            p.form.option = .variadic ∧ i + 1 = (shape.parameters side).length)) ∧
        (shape.constraints.map (·.typeName)).Nodup ∧
        shape.constraints = ((shape.inputs ++ shape.outputs).map (·.typeName)).eraseDups.map
          fun n => ⟨n, DataType.tensorTypes⟩ := by
  refine ⟨⟨fun ⟨_, h⟩ => (ofSignature_eq_ok_iff.mp h).1, fun h => ⟨_, ofSignature_eq_ok_iff.mpr ⟨h, rfl⟩⟩⟩,
    fun shape h => ?_⟩
  obtain ⟨hlegal, rfl⟩ := ofSignature_eq_ok_iff.mp h
  have hconstraints : s.shape.constraints = _ := constraintsOf_eq (s.shape.inputs ++ s.shape.outputs)
  refine ⟨fun side => by simp [parameters_shape], fun side i p hp => ?_, ?_, hconstraints⟩
  · obtain ⟨d, hd, rfl⟩ := parameters_shape_eq_some_iff.mp hp
    refine ⟨Signature.formOf_option .., fun hform => ?_⟩
    have hends : s.ends side i = .variadic := by
      by_contra hne
      exact hform (by rw [Signature.parameter, Signature.formOf_of_ne_variadic hne])
    refine ⟨(Signature.formOf_option ..).trans hends, ?_⟩
    rw [parameters_shape, List.length_mapIdx]
    exact (Signature.legal_iff.mp hlegal).1 side i d hd hends
  · rw [hconstraints, List.map_map]
    simpa [Function.comp_def] using nodup_eraseDups _

/-- An operator of version 14 with an optional input and one that repeats. -/
def gathering : Signature :=
  { name := "Gather", version := 14, providerName := none
    inputs := [.int64, .undefined, .undefined], outputs := [.undefined, .int64]
    slots :=
      { inputCharacteristic := some fun i => [.optional, .required].getD i .variadic
        variadicInputLeast := some 2
        variadicInputHomogeneous := some false } }

/-- Its shape has three inputs, of which the second ends up single, and three type sets. -/
theorem accepts_exactly_the_legal_gathering :
    gathering.Legal ∧ ∃ shape, ofSignature gathering = .ok shape ∧
      (∀ side i p, (shape.parameters side)[i]? = some p → p.form.option = gathering.ends side i) ∧
      shape.inputs.map (·.form.option) = [.optional, .single, .variadic] ∧
      shape.constraints.map (·.typeName) = ["Input0", "T", "Output1"] := by
  obtain ⟨hlegal, hall⟩ := accepts_exactly_the_legal gathering
  have hok : ofSignature gathering = .ok gathering.shape := rfl
  refine ⟨hlegal.mp ⟨_, hok⟩, _, hok, fun side i p hp => ((hall _ hok).2.1 side i p hp).1, rfl, ?_⟩
  decide

end FormalShape

end OpGraph
