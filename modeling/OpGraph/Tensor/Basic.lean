import OpGraph.Bytes
import OpGraph.Tensor.Error

/-!
# `Tensor.Basic` — host tensors

A tensor is an element type, a shape, the sizes worked out from them, and storage in whole 64-bit words.
Elements lie row-major and little-endian from the first byte of the words on. An element is the bit vector
of its type's width, so a float is known by its bits alone.

`bytes` is the view that stops where the elements do, and `elementsAs` the view that reads it in units of one
element. Whatever writes puts bytes in the place of others inside that view, so what lies behind it in the
last word stays as it was allocated: zeros.
-/

namespace OpGraph

/-! ## Word storage -/

namespace Words

/-- The least number of words that hold `n` bytes. -/
def needed (n : Nat) : Nat := (n + 7) / 8

/-- The largest number of words that can be allocated: their bytes are counted in words that have a sign. -/
def most : Nat := (UInt64.size / 2 - 1) / 8

/-- The words that bytes stand for. -/
def pack (bs : List UInt8) : List UInt64 := (Bytes.toNats 8 bs).map UInt64.ofNat

/-- All bytes of the words. -/
def unpack (ws : List UInt64) : List UInt8 := Bytes.ofNats 8 (ws.map (·.toNat))

/-- Write bytes in the place of those from place `o` on. -/
def write (o : Nat) (bs : List UInt8) (ws : List UInt64) : List UInt64 := pack (Bytes.splice o bs (unpack ws))

@[simp] theorem length_unpack (ws : List UInt64) : (unpack ws).length = ws.length * 8 := by
  simp [unpack]

end Words

/-- One element of type `d`, as its bits. -/
abbrev Element (d : DataType) := BitVec d.bits

/-- A dense tensor in host memory. -/
structure Tensor where
  dtype : DataType
  shape : Shape
  /-- Row-major strides. -/
  strides : List Nat
  /-- Bytes taken by the elements, without what is left of the last word. -/
  byteLength : Nat
  words : List UInt64
  deriving DecidableEq

namespace Tensor

/-- Number of elements. -/
def count (t : Tensor) : Nat := t.shape.count

/-- The bytes of the elements. -/
def bytes (t : Tensor) : List UInt8 := (Words.unpack t.words).take t.byteLength

/-- The tensor with bytes in the place of those from place `o` on. -/
def put (o : Nat) (bs : List UInt8) (t : Tensor) : Tensor := { t with words := Words.write o bs t.words }

/-! ## Reading and writing elements -/

/-- The bytes of a list of elements. -/
def encode (d : DataType) (xs : List (Element d)) : List UInt8 := Bytes.ofNats d.size (xs.map (·.toNat))

/-- The elements of a byte string. -/
def decode (d : DataType) (bs : List UInt8) : List (Element d) := (Bytes.toNats d.size bs).map (BitVec.ofNat _)

/-- The elements, read as those of type `d`. -/
def elementsAs (d : DataType) (t : Tensor) : List (Element d) := decode d t.bytes

/-- The elements of a tensor of type `d`. -/
def view (d : DataType) (t : Tensor) : Except TensorError (List (Element d)) :=
  if t.dtype = d then .ok (t.elementsAs d) else .error (.dtypeMismatch d t.dtype)

/-- Replace element `i` of a tensor of type `d`. -/
def write (d : DataType) (i : Nat) (x : Element d) (t : Tensor) : Except TensorError Tensor := do
  let xs ← t.view d
  if i < xs.length then .ok (t.put (d.size * i) (Bytes.ofNat d.size x.toNat))
  else .error (.elementOutside i xs.length)

/-- Replace all elements of a tensor of type `d` by as many others. -/
def overwrite (d : DataType) (xs : List (Element d)) (t : Tensor) : Except TensorError Tensor := do
  let old ← t.view d
  if xs.length = old.length then .ok (t.put 0 (encode d xs))
  else .error (.lengthMismatch old.length xs.length)

/-! ## Making tensors -/

/-- A tensor of zeros. -/
def zeros (d : DataType) (shape : Shape) : Except TensorError Tensor :=
  if !d.isDefined then .error .undefinedType
  else
    match shape.bytesInWords? d.size, shape.stridesInWords? with
    | some byteLength, some strides =>
        if Words.needed byteLength ≤ Words.most then
          .ok ⟨d, shape, strides, byteLength, List.replicate (Words.needed byteLength) 0⟩
        else .error .capacity
    | _, _ => .error .overflow

/-- A tensor with given elements, which must be as many as the shape holds. -/
def ofElements (d : DataType) (xs : List (Element d)) (shape : Shape) : Except TensorError Tensor :=
  match shape.countInWords? with
  | none => .error .overflow
  | some n =>
      if xs.length = n then do
        let t ← zeros d shape
        t.overwrite d xs
      else .error (.shapeMismatch shape n xs.length)

/-- A tensor of rank zero. -/
def scalar (d : DataType) (x : Element d) : Tensor :=
  put 0 (Bytes.ofNat d.size x.toNat) ⟨d, [], [], d.size, List.replicate (Words.needed d.size) 0⟩

/-! ## Single-precision elements -/

/-- The float an element stands for. -/
def toFloat (x : Element .float32) : Float32 := Float32.ofBits (UInt32.ofBitVec x)

/-- The element that stands for a float. -/
def ofFloat (x : Float32) : Element .float32 := x.toBits.toBitVec

end Tensor

end OpGraph
