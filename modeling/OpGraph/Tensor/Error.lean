import OpGraph.DataType
import OpGraph.Tensor.Shape
import OpGraph.Text.Literal

/-!
# `Tensor.Error` — why a tensor could not be made, read or written

Some of these are handed back as errors. The others are slips of the caller that end whatever is going on:
an index or a length that does not fit, or sizes that words do not hold.
-/

namespace OpGraph

/-- Why an operation on a tensor was refused. -/
inductive TensorError where
  /-- The tensor's elements are of another type than the one asked for. -/
  | dtypeMismatch (expected found : DataType)
  /-- The elements given are not as many as the shape holds. -/
  | shapeMismatch (shape : Shape) (expected found : Nat)
  /-- A tensor cannot be allocated without an element type. -/
  | undefinedType
  /-- An element past the end was to be written. -/
  | elementOutside (index count : Nat)
  /-- All elements were to be written over with another number of them. -/
  | lengthMismatch (expected found : Nat)
  /-- A word of 64 bits does not hold a size of the shape. -/
  | overflow
  /-- There cannot be storage of that size. -/
  | capacity
  deriving DecidableEq

namespace TensorError

/-- The diagnostic. -/
def message : TensorError → String
  | dtypeMismatch expected found => s!"tensor holds {found.label} elements, {expected.label} expected"
  | shapeMismatch shape expected found =>
      s!"shape {Text.numbers shape} needs {expected} elements, got {found}"
  | undefinedType => "cannot allocate a tensor of undefined element type"
  | elementOutside index count =>
      s!"index out of bounds: the len is {count} but the index is {index}"
  | lengthMismatch expected found =>
      s!"copy_from_slice: source slice length ({found}) does not match destination slice length ({expected})"
  | overflow => "attempt to multiply with overflow"
  | capacity => "capacity overflow"

/-- Whether it is no error that is handed back, but ends the computation it comes up in. -/
def panics : TensorError → Bool
  | dtypeMismatch .. => false
  | shapeMismatch .. => false
  | undefinedType => false
  | elementOutside .. => true
  | lengthMismatch .. => true
  | overflow => true
  | capacity => true

end TensorError

end OpGraph
