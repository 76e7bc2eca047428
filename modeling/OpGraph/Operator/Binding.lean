import OpGraph.Operator.Signature

/-!
# `Operator.Binding` — matching actual types against declared ones

A binding is one way to type an operator: the declared types of its inputs and outputs, and whether the
last input or output repeats. Matching reads the actual input types from left to right. An unknown
actual type matches anything; a declared `undefined` is the wildcard, which the first known type it
meets fixes for the whole binding. The outputs are then the declared ones with the wildcard filled in.
-/

namespace OpGraph

/-- How the last position of a binding repeats. -/
structure Variadic where
  /-- Least number of values in the repeated position. -/
  least : Nat
  /-- Whether all of them have the type of the first. -/
  homogeneous : Bool
  deriving DecidableEq

/-- Inside diagnostics. -/
def Variadic.literal (v : Variadic) : String :=
  Text.record "Variadic"
    [("min_arity", toString v.least), ("homogeneous", Text.bool v.homogeneous)]

/-- One way to type an operator. -/
structure TypeBinding where
  inputs : List DataType
  outputs : List DataType
  variadicInput : Option Variadic := none
  variadicOutput : Option Variadic := none
  deriving DecidableEq

namespace TypeBinding

/-- Number of declared positions, inputs and outputs. -/
def size (b : TypeBinding) : Nat := b.inputs.length + b.outputs.length

/-- Whether some position is templated. -/
def hasWildcard (b : TypeBinding) : Bool := (b.inputs ++ b.outputs).any (! ·.isDefined)

/-! ## Counts -/

/-- Whether `actual` values fill `declared` positions, the last of which may repeat. With no position
    at all there is nothing to repeat. -/
def arityFits (declared : Nat) (variadic : Option Variadic) (actual : Nat) : Bool :=
  match declared, variadic with
  | d + 1, some v => d + v.least ≤ actual
  | d, _ => actual = d

/-! ## Matching inputs -/

/-- The declared type that value `i` is held against: the last one beyond the end. -/
def declaredAt (types : List DataType) (i : Nat) : DataType :=
  types.getD (min i (types.length - 1)) .undefined

/-- Whether value `i` is held against a declared type. Only the first value of a heterogeneous
    repeated position is. -/
def isChecked (b : TypeBinding) (i : Nat) : Bool :=
  match b.variadicInput with
  | some v => v.homogeneous || i < b.inputs.length
  | none => true

/-- Hold one value against its position, given what the wildcard stands for so far. -/
def matchOne (b : TypeBinding) (wildcard : DataType) (i : Nat) (actual : DataType) :
    Option DataType :=
  if actual = .undefined || !b.isChecked i then some wildcard
  else
    let declared := declaredAt b.inputs i
    if declared ≠ .undefined then
      if declared = actual then some wildcard else none
    else if wildcard ≠ .undefined && wildcard ≠ actual then none
    else some actual

/-- Hold the values from position `i` on against the binding. -/
def matchFrom (b : TypeBinding) (wildcard : DataType) (i : Nat) : List DataType → Option DataType
  | [] => some wildcard
  | actual :: rest =>
      match b.matchOne wildcard i actual with
      | none => none
      | some w => matchFrom b w (i + 1) rest

/-- What the wildcard stands for when the binding takes these inputs: `undefined` if nothing fixed it. -/
def matchInputs (b : TypeBinding) (actual : List DataType) : Option DataType :=
  if arityFits b.inputs.length b.variadicInput actual.length then
    b.matchFrom .undefined 0 actual
  else none

/-! ## Resolving outputs -/

/-- Fill the wildcard in. -/
def fill (wildcard declared : DataType) : DataType :=
  if declared = .undefined then wildcard else declared

/-- Types of `count` outputs, when that many are allowed. -/
def resolveOutputs (b : TypeBinding) (count : Nat) (wildcard : DataType) :
    Option (List DataType) :=
  if arityFits b.outputs.length b.variadicOutput count then
    some ((List.range count).map fun i => fill wildcard (declaredAt b.outputs i))
  else none

/-- Types of `count` outputs from the types of the inputs. -/
def infer (b : TypeBinding) (inputs : List DataType) (count : Nat) : Option (List DataType) :=
  (b.matchInputs inputs).bind (b.resolveOutputs count)

/-! ## Inside diagnostics -/

/-- An optional repeated position inside diagnostics. -/
def variadicLiteral : Option Variadic → String
  | some v => Text.applied "Some" v.literal
  | none => "None"

/-- The binding inside diagnostics. -/
def literal (b : TypeBinding) : String :=
  Text.record "TypeBinding"
    [("inputs", Signature.typeListing b.inputs), ("outputs", Signature.typeListing b.outputs),
      ("variadic_input", variadicLiteral b.variadicInput),
      ("variadic_output", variadicLiteral b.variadicOutput)]

end TypeBinding

end OpGraph
