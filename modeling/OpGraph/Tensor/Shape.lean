/-!
# `Tensor.Shape` — dimensions, element counts and row-major strides

A shape lists the dimensions of a tensor, outermost first; the empty shape is a scalar. The stride of a
dimension is the number of elements one step along it passes over, which in row-major order is the
element count of everything further in.

Sizes are also worked out in words of 64 bits, one product after the other; where a product does not fit
there is no size.
-/

namespace OpGraph

/-- The dimensions of a tensor, outermost first. -/
abbrev Shape := List Nat

namespace Shape

/-- Number of elements. A scalar has one; any zero dimension leaves none. -/
def count : Shape → Nat
  | [] => 1
  | d :: rest => d * count rest

/-- Row-major strides, one a dimension. -/
def strides : Shape → List Nat
  | [] => []
  | _ :: rest => count rest :: strides rest

@[simp] theorem count_nil : count [] = 1 := rfl

@[simp] theorem count_cons (d : Nat) (s : Shape) : count (d :: s) = d * count s := rfl

@[simp] theorem length_strides (s : Shape) : (strides s).length = s.length := by
  induction s with
  | nil => rfl
  | cons d s ih => simp [strides, ih]

/-! ## Sizes in words -/

/-- The product of two numbers, where a word of 64 bits holds it. -/
def product? (a b : Nat) : Option Nat := if a * b < UInt64.size then some (a * b) else none

/-- The element count, worked out in words from the first dimension to the last. There is none if a product
    on the way does not fit. -/
def countInWords? (s : Shape) : Option Nat := s.foldlM product? 1

/-- The number of bytes that elements of a size take, worked out in words. -/
def bytesInWords? (s : Shape) (size : Nat) : Option Nat := do
  let n ← s.countInWords?
  product? n size

/-- The strides, worked out in words from the last dimension to the first: each is the one after it times
    the dimension of the one after it. There are none if a product does not fit. -/
def stridesInWords? : Shape → Option (List Nat)
  | [] => some []
  | [_] => some [1]
  | _ :: d :: rest => do
      let inner ← stridesInWords? (d :: rest)
      let stride ← product? (inner.headD 1) d
      pure (stride :: inner)

end Shape

end OpGraph
