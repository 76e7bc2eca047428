/-!
# `DataType` — the element types a tensor can hold

Each element type has a name, a wire code, a width in bytes and a label for diagnostics. `undefined` is
the absent type: it labels values whose type is not known and, in an operator's signature, a position
that takes any type. The codes are the interchange numbering, so they are neither dense nor in
declaration order.
-/

namespace OpGraph

/-- The type of the elements of a tensor; `undefined` stands for "not known". -/
inductive DataType where
  | undefined
  | float32
  | uint8
  | int8
  | uint16
  | int16
  | int32
  | int64
  | bool
  | float16
  | float64
  | uint32
  | uint64
  deriving DecidableEq, Inhabited

namespace DataType

/-- Every element type, in declaration order. -/
def all : List DataType :=
  [undefined, float32, uint8, int8, uint16, int16, int32, int64, bool, float16, float64, uint32,
    uint64]

/-- The types a tensor can be allocated with. -/
def tensorTypes : List DataType := all.filter (· ≠ undefined)

/-- Whether the type is known. -/
def isDefined (d : DataType) : Bool := d ≠ undefined

/-- The name used where values are listed in diagnostics. -/
def name : DataType → String
  | undefined => "Undefined"
  | float32 => "Float32"
  | uint8 => "Uint8"
  | int8 => "Int8"
  | uint16 => "Uint16"
  | int16 => "Int16"
  | int32 => "Int32"
  | int64 => "Int64"
  | bool => "Bool"
  | float16 => "Float16"
  | float64 => "Float64"
  | uint32 => "Uint32"
  | uint64 => "Uint64"

/-- The interchange code. Code 8 is not used. -/
def code : DataType → Nat
  | undefined => 0
  | float32 => 1
  | uint8 => 2
  | int8 => 3
  | uint16 => 4
  | int16 => 5
  | int32 => 6
  | int64 => 7
  | bool => 9
  | float16 => 10
  | float64 => 11
  | uint32 => 12
  | uint64 => 13

/-- Width of one element in bytes. -/
def size : DataType → Nat
  | undefined => 0
  | float32 => 4
  | uint8 => 1
  | int8 => 1
  | uint16 => 2
  | int16 => 2
  | int32 => 4
  | int64 => 8
  | bool => 1
  | float16 => 2
  | float64 => 8
  | uint32 => 4
  | uint64 => 8

/-- Width of one element in bits. -/
def bits (d : DataType) : Nat := 8 * d.size

/-- The label used in running text. -/
def label : DataType → String
  | undefined => "undefined"
  | float32 => "tensor(float)"
  | uint8 => "tensor(uint8)"
  | int8 => "tensor(int8)"
  | uint16 => "tensor(uint16)"
  | int16 => "tensor(int16)"
  | int32 => "tensor(int32)"
  | int64 => "tensor(int64)"
  | bool => "tensor(bool)"
  | float16 => "tensor(float16)"
  | float64 => "tensor(double)"
  | uint32 => "tensor(uint32)"
  | uint64 => "tensor(uint64)"

/-- The type with a given interchange code. -/
def ofCode? (c : Int) : Option DataType := all.find? fun d => (d.code : Int) = c

/-- The type with a given name. -/
def ofName? (n : String) : Option DataType := all.find? fun d => d.name = n

/-- Whether elements are two's-complement integers. -/
def isSigned : DataType → Bool
  | int8 | int16 | int32 | int64 => true
  | _ => false

theorem isDefined_iff {d : DataType} : d.isDefined = true ↔ d ≠ undefined := by
  simp [isDefined]

end DataType

end OpGraph
