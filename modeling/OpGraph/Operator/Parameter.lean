import OpGraph.Operator.Binding

/-!
# `Operator.Parameter` — formal parameters

A parameter is one input or output of a schema. Its *form* is what all operators of one name must agree
on, position by position: whether it is single, optional or variadic, and how it repeats. Types are not
part of the form; they vary between the bindings of a schema.
-/

namespace OpGraph

/-- Which end of an operator a position is on. -/
inductive Side where
  | input
  | output
  deriving DecidableEq

/-- The side in running text. -/
def Side.name : Side → String
  | input => "input"
  | output => "output"

/-- The prefix of parameter names on a side. -/
def Side.title : Side → String
  | input => "Input"
  | output => "Output"

/-- Whether a parameter takes one value, at most one, or several. -/
inductive ParameterOption where
  | single
  | optional
  | variadic
  deriving DecidableEq, Inhabited

/-- The option's name. -/
def ParameterOption.name : ParameterOption → String
  | single => "Single"
  | optional => "Optional"
  | variadic => "Variadic"

/-- What operators of one name agree on at a position. -/
structure ParameterForm where
  option : ParameterOption
  homogeneous : Bool := true
  least : Nat := 1
  deriving DecidableEq

/-- The form in running text. -/
def ParameterForm.text (f : ParameterForm) : String :=
  s!"{f.option.name} (homogeneous: {Text.bool f.homogeneous}, min arity: {f.least})"

/-- How a parameter of this form repeats, if it does. -/
def ParameterForm.variadic? (f : ParameterForm) : Option Variadic :=
  if f.option = .variadic then some ⟨f.least, f.homogeneous⟩ else none

/-- One input or output of a schema. -/
structure FormalParameter where
  name : String
  /-- The name of the type set the parameter ranges over. -/
  typeName : String
  form : ParameterForm
  deriving DecidableEq

/-- The parameter inside diagnostics. -/
def FormalParameter.literal (p : FormalParameter) : String :=
  Text.record "FormalParameter"
    [("name", Text.quoted p.name), ("type_str", Text.quoted p.typeName),
      ("option", p.form.option.name), ("is_homogeneous", Text.bool p.form.homogeneous),
      ("min_arity", toString p.form.least)]

/-- The types a named type set allows. -/
structure TypeConstraint where
  typeName : String
  allowed : List DataType
  deriving DecidableEq

/-- The constraint inside diagnostics. -/
def TypeConstraint.literal (c : TypeConstraint) : String :=
  Text.record "TypeConstraint"
    [("type_str", Text.quoted c.typeName), ("allowed", Signature.typeListing c.allowed)]

end OpGraph
