import OpGraph.Operator.Error

/-!
# `Operator.Schema` — formal shapes and schemas

A signature's formal shape lists its parameters; `FormalShape.ofSignature` finds it or names the fault.
A schema is what all operators of one name and domain have in common: one shape, and the bindings of
all of them in the order they came. Inference takes the first binding that fits.
-/

namespace OpGraph

/-- The name of the type set that templated positions share. -/
def templateName : String := "T"

/-- The parameters of an operator, and the type sets they range over. -/
structure FormalShape where
  inputs : List FormalParameter
  outputs : List FormalParameter
  constraints : List TypeConstraint := []
  deriving DecidableEq

namespace FormalShape

/-! ## The shape of a signature -/

/-- The form of one position. Repeating is for the last position only, and only for versions that know
    of it; an older one that says so means a single value. -/
def positionForm (version : Nat) (side : Side) (position count : Nat)
    (characteristic : Characteristic) (homogeneous : Bool) (least : Nat) :
    Except SignatureFault ParameterForm :=
  match characteristic with
  | .required => .ok { option := .single }
  | .optional => .ok { option := .optional }
  | .variadic =>
      if Interface.supports version Interface.variadics then
        if position + 1 = count then .ok { option := .variadic, homogeneous, least }
        else .error (.variadicNotLast side (position + 1))
      else .ok { option := .single }

/-- The name of position `i` on a side. -/
def positionName (side : Side) (i : Nat) : String := side.title ++ toString i

/-- The type set of position `i`: its own when its type is declared, else the shared one. -/
def typeName (side : Side) (i : Nat) (d : DataType) : String :=
  if d.isDefined then positionName side i else templateName

/-- The parameter at input `i`. -/
def inputParameter (s : Signature) (i : Nat) (d : DataType) : Except SignatureFault FormalParameter := do
  let form ← positionForm s.version .input i s.inputs.length (s.inputCharacteristic i)
    s.variadicInputHomogeneous s.variadicInputLeast
  pure ⟨positionName .input i, typeName .input i d, form⟩

/-- Whether some input is templated. -/
def hasTemplatedInput (s : Signature) : Bool := s.inputs.any (! ·.isDefined)

/-- The parameter at output `i`. The type of a single templated output can only come from a templated
    input. -/
def outputParameter (s : Signature) (i : Nat) (d : DataType) :
    Except SignatureFault FormalParameter := do
  let form ← positionForm s.version .output i s.outputs.length (s.outputCharacteristic i)
    s.variadicOutputHomogeneous s.variadicOutputLeast
  if !d.isDefined && form.option = .single && !hasTemplatedInput s then
    throw (.templatedOutput (i + 1))
  pure ⟨positionName .output i, typeName .output i d, form⟩

/-- The type sets that parameters range over, each once, in order of first use. All allow every type. -/
def constraintsOf (ps : List FormalParameter) : List TypeConstraint :=
  (ps.foldl (fun names p => if p.typeName ∈ names then names else names ++ [p.typeName]) []).map
    fun n => ⟨n, DataType.tensorTypes⟩

/-- The formal shape of a signature. -/
def ofSignature (s : Signature) : Except OpError FormalShape := do
  let inputs ← (s.inputs.mapIdx fun i d => inputParameter s i d).mapM invalid
  let outputs ← (s.outputs.mapIdx fun i d => outputParameter s i d).mapM invalid
  pure ⟨inputs, outputs, constraintsOf (inputs ++ outputs)⟩
where
  /-- A fault of the signature as the operator's error. -/
  invalid {α : Type} : Except SignatureFault α → Except OpError α
    | .ok a => .ok a
    | .error f => .error (.invalidSignature s.name f)

/-! ## Bindings and comparison -/

/-- How the last of some parameters repeats, if it does. -/
def lastVariadic (ps : List FormalParameter) : Option Variadic :=
  ps.getLast?.bind fun p => p.form.variadic?

/-- The binding of a signature of this shape. -/
def binding (shape : FormalShape) (s : Signature) : TypeBinding :=
  ⟨s.inputs, s.outputs, lastVariadic shape.inputs, lastVariadic shape.outputs⟩

/-- Where two lists of forms, equally long, differ first; positions count from `i + 1`. -/
def formDifference (side : Side) (i : Nat) :
    List FormalParameter → List FormalParameter → Option ShapeDifference
  | a :: as, b :: bs =>
      if a.form = b.form then formDifference side (i + 1) as bs
      else some (.form side (i + 1) a.form b.form)
  | _, _ => none

/-- Where the parameters on one side differ first. -/
def sideDifference (side : Side) (registered now : List FormalParameter) : Option ShapeDifference :=
  if registered.length ≠ now.length then some (.count side registered.length now.length)
  else formDifference side 0 registered now

/-- Where two shapes differ first in the forms of their parameters, inputs before outputs. -/
def difference (registered now : FormalShape) : Option ShapeDifference :=
  (sideDifference .input registered.inputs now.inputs).or
    (sideDifference .output registered.outputs now.outputs)

/-- Refuse a shape that differs from the registered one. -/
def ensureCompatible (registered : FormalShape) (op : String) (now : FormalShape) :
    Except OpError Unit :=
  match registered.difference now with
  | none => .ok ()
  | some d => .error (.schemaMismatch op d)

/-- The shape inside diagnostics. -/
def literal (s : FormalShape) : String :=
  Text.record "FormalShape"
    [("inputs", Text.listing (s.inputs.map (·.literal))),
      ("outputs", Text.listing (s.outputs.map (·.literal))),
      ("type_constraints", Text.listing (s.constraints.map (·.literal)))]

end FormalShape

/-! ## Schemas -/

/-- The first version of every custom operator. -/
def customSince : Nat := 1

/-- What all operators of one name and domain have in common. -/
structure OpSchema where
  name : String
  domain : String
  shape : FormalShape
  bindings : List TypeBinding
  /-- The bindings its inference function was made of, when the schema was. -/
  captured : List TypeBinding := bindings
  deriving DecidableEq

namespace OpSchema

/-- The version the schema holds from. -/
def since (_ : OpSchema) : Nat := customSince

/-- Custom schemas take attributes that they do not declare. -/
def allowsUncheckedAttributes (_ : OpSchema) : Bool := true

/-- Types of `count` outputs by the first binding that fits. -/
def inferNode (s : OpSchema) (inputs : List DataType) (count : Nat) : Option (List DataType) :=
  s.captured.findSome? fun b => b.infer inputs count

/-- Types of the declared number of outputs by the first binding that fits. -/
def infer (s : OpSchema) (inputs : List DataType) : Option (List DataType) :=
  s.inferNode inputs s.shape.outputs.length

/-- The schema inside diagnostics. -/
def literal (s : OpSchema) : String :=
  Text.record "OpSchema"
    [("name", Text.quoted s.name), ("domain", Text.quoted s.domain),
      ("since_version", toString s.since), ("shape", s.shape.literal),
      ("bindings", Text.listing (s.bindings.map (·.literal)))]

end OpSchema

end OpGraph
