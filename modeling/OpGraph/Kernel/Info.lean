import OpGraph.Assoc
import OpGraph.Logging
import OpGraph.Operator.Error
import OpGraph.Tensor.Basic

/-!
# `Kernel.Info` — what a kernel may ask while it is created

A kernel is created for one node of a graph and may ask for the node's name, the names and types of its
inputs and outputs, its attributes, the inputs whose value is already known, and the provider it will
run on.

Questions with an answer of variable length follow the *two-phase* protocol: without a buffer the answer
is the number of cells needed; with a buffer that is long enough the cells are written to its front and
the number is returned; with a shorter one the buffer is left alone and the error names the number.
-/

namespace OpGraph

/-- The value of a node's attribute. -/
inductive AttributeValue where
  | float (bits : Element .float32)
  | int (n : Int)
  | string (s : String)
  | tensor (t : Tensor)
  | floats (bits : List (Element .float32))
  | ints (ns : List Int)
  | strings (ss : List String)
  deriving DecidableEq

/-! ## The two-phase protocol -/

namespace TwoPhase

/-- Write `cells` into a buffer, if there is one. The second component is the buffer afterwards. -/
def write {α : Type} (cells : List α) (buffer : Option (List α)) :
    Except OpError Nat × Option (List α) :=
  match buffer with
  | none => (.ok cells.length, none)
  | some old =>
      if old.length < cells.length then (.error (.bufferTooSmall cells.length), some old)
      else (.ok cells.length, some (cells ++ old.drop cells.length))

/-- Answer a question whose cells may not be there to give. -/
def answer {α : Type} (cells : Except OpError (List α)) (buffer : Option (List α)) :
    Except OpError Nat × Option (List α) :=
  match cells with
  | .error e => (.error e, buffer)
  | .ok cs => write cs buffer

end TwoPhase

/-- The bytes of a string and the zero that ends it. -/
def terminated (s : String) : List UInt8 := s.toUTF8.toList ++ [0]

/-- The value recorded last under a key. -/
def lastValue? {α β : Type} [DecidableEq α] (key : α) (entries : List (α × β)) : Option β :=
  (entries.reverse.find? fun e => e.1 = key).map (·.2)

theorem lastValue?_cons {α β : Type} [DecidableEq α] (key : α) (e : α × β) (rest : List (α × β)) :
    lastValue? key (e :: rest) = (lastValue? key rest).or (if e.1 = key then some e.2 else none) := by
  unfold lastValue?
  rw [List.reverse_cons, List.find?_append]
  cases rest.reverse.find? fun e => e.1 = key with
  | some x => rfl
  | none => by_cases he : e.1 = key <;> simp [he]

theorem lastValue?_append {α β : Type} [DecidableEq α] (key : α) (es es' : List (α × β)) :
    lastValue? key (es ++ es') = (lastValue? key es').or (lastValue? key es) := by
  unfold lastValue?
  rw [List.reverse_append, List.find?_append, Option.map_or]

/-- Where every key comes once, the value recorded last is the only one. -/
theorem lastValue?_eq_some {α β : Type} [DecidableEq α] {es : List (α × β)} (hn : (es.map (·.1)).Nodup)
    {key : α} {value : β} : lastValue? key es = some value ↔ (key, value) ∈ es := by
  have hreverse : (es.reverse.map (·.1)).Nodup := by
    rw [List.map_reverse]
    exact List.pairwise_reverse.mpr (hn.imp Ne.symm)
  exact (Assoc.find?_eq_some hreverse).trans List.mem_reverse

/-- What a kernel may ask while it is created. -/
structure KernelInfo where
  node : String
  /-- Names and types of the inputs; the type `undefined` marks an argument of unknown type. -/
  inputs : List (String × DataType) := []
  outputs : List (String × DataType) := []
  /-- Attributes in the order they were given; of two with one name the last holds. -/
  attributes : List (String × AttributeValue) := []
  /-- Inputs whose value is known; of two for one index the last holds. -/
  constants : List (Nat × Tensor) := []
  provider : Option ProviderId := none
  logger : Option Logger := none

/-- A question with an answer of variable length. -/
inductive Inquiry where
  | nodeName
  | argumentName (side : Side) (i : Nat)
  | string (name : String)
  | floats (name : String)
  | ints (name : String)
  deriving DecidableEq

/-- What one cell of the answer holds. -/
abbrev Inquiry.Cell : Inquiry → Type
  | nodeName | argumentName _ _ | string _ => UInt8
  | floats _ => Element .float32
  | ints _ => Int

namespace KernelInfo

/-- The arguments on one side. -/
def arguments (info : KernelInfo) : Side → List (String × DataType)
  | .input => info.inputs
  | .output => info.outputs

/-- Argument `i` of a side. -/
def argument (info : KernelInfo) (side : Side) (i : Nat) : Except OpError (String × DataType) :=
  match (info.arguments side)[i]? with
  | some a => .ok a
  | none => .error (.indexOutOfBounds side i (info.arguments side).length)

/-! ## Names and types -/

/-- The node's name, in cells. -/
def nodeCells (info : KernelInfo) : Except OpError (List UInt8) := .ok (terminated info.node)

/-- The name of argument `i`, in cells. -/
def nameCells (info : KernelInfo) (side : Side) (i : Nat) : Except OpError (List UInt8) := do
  let a ← info.argument side i
  pure (terminated a.1)

/-- The type of argument `i`, which must be known. -/
def typeOf (info : KernelInfo) (side : Side) (i : Nat) : Except OpError DataType := do
  let a ← info.argument side i
  if a.2.isDefined then pure a.2 else throw (.missingInformation (.untyped side a.1))

/-! ## Attributes -/

/-- The attribute of a given name. -/
def attributeValue (info : KernelInfo) (name : String) : Except OpError AttributeValue :=
  match lastValue? name info.attributes with
  | some v => .ok v
  | none => .error (.attributeNotFound name)

/-- The attribute of a given name, read as one kind of value. -/
def attributeAs {α : Type} (info : KernelInfo) (expected : String)
    (read : AttributeValue → Option α) (name : String) : Except OpError α := do
  let v ← info.attributeValue name
  match read v with
  | some a => pure a
  | none => throw (.attributeType name expected)

/-- A float attribute. -/
def float (info : KernelInfo) : String → Except OpError (Element .float32) :=
  info.attributeAs "a float" fun | .float b => some b | _ => none

/-- An integer attribute. -/
def int (info : KernelInfo) : String → Except OpError Int :=
  info.attributeAs "an int" fun | .int n => some n | _ => none

/-- A string attribute, in cells. -/
def stringCells (info : KernelInfo) : String → Except OpError (List UInt8) :=
  info.attributeAs "a string" fun | .string s => some (terminated s) | _ => none

/-- A float array attribute, in cells. -/
def floatCells (info : KernelInfo) : String → Except OpError (List (Element .float32)) :=
  info.attributeAs "a float array" fun | .floats bs => some bs | _ => none

/-- An integer array attribute, in cells. -/
def intCells (info : KernelInfo) : String → Except OpError (List Int) :=
  info.attributeAs "an int array" fun | .ints ns => some ns | _ => none

/-- A string array attribute. -/
def strings (info : KernelInfo) : String → Except OpError (List String) :=
  info.attributeAs "a string array" fun | .strings ss => some ss | _ => none

/-- A tensor attribute. -/
def tensor (info : KernelInfo) : String → Except OpError Tensor :=
  info.attributeAs "a tensor" fun | .tensor t => some t | _ => none

/-! ## Answers of variable length -/

/-- The answer to an inquiry, in cells. -/
def cells (info : KernelInfo) : (q : Inquiry) → Except OpError (List q.Cell)
  | .nodeName => info.nodeCells
  | .argumentName side i => info.nameCells side i
  | .string name => info.stringCells name
  | .floats name => info.floatCells name
  | .ints name => info.intCells name

/-- Ask with a buffer or without one. The second component is the buffer afterwards. -/
def inquire (info : KernelInfo) (q : Inquiry) (buffer : Option (List q.Cell)) :
    Except OpError Nat × Option (List q.Cell) :=
  TwoPhase.answer (info.cells q) buffer

/-! ## Constants, provider, logger -/

/-- The value of input `i`, where it is known. -/
def constant (info : KernelInfo) (i : Nat) : Except OpError (Option Tensor) :=
  if i < info.inputs.length then .ok (lastValue? i info.constants)
  else .error (.indexOutOfBounds .input i info.inputs.length)

/-- The logger of the node's provider. -/
def providerLogger (info : KernelInfo) : Except OpError Logger :=
  match info.provider, info.logger with
  | none, _ => .error (.missingInformation .noProvider)
  | some p, none => .error (.missingInformation (.noProviderLogger p))
  | some _, some l => .ok l

end KernelInfo

end OpGraph
