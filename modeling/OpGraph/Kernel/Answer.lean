import OpGraph.Kernel.Info
import OpGraph.Stream.Basic

/-!
# `Kernel.Answer` — what operators report about their own work

An operator may keep a record of what it asked and what it was told, both when it creates a kernel and
when the kernel runs. These are the entries of such records.
-/

namespace OpGraph

/-- What a question or a step of a kernel came to. -/
inductive Answer where
  /-- Number of inputs and outputs. -/
  | counts (inputs outputs : Nat)
  /-- Cells that a two-phase question needs. -/
  | size (cells : Nat)
  | type (d : DataType)
  | float (bits : Element .float32)
  | int (n : Int)
  | strings (ss : List String)
  | tensor (t : Tensor)
  /-- The tensor asked for is not there. -/
  | noTensor
  | provider (p : Option ProviderId)
  | logger (l : Logger)
  /-- An output was put in place. -/
  | done
  | stream (s : Option Stream)
  | severity (s : Severity)
  /-- Whether a message was emitted. -/
  | emitted (b : Bool)
  deriving DecidableEq

/-- A buffer handed to a two-phase question, in the state it was left. -/
inductive Buffer where
  | bytes (bs : List UInt8)
  | floats (bits : List (Element .float32))
  | ints (ns : List Int)
  deriving DecidableEq

/-- A question asked while a kernel was created. -/
structure QueryReport where
  answer : Except OpError Answer
  buffer : Option Buffer

/-- A step of a running kernel, under the name of its node. -/
structure StepReport where
  node : String
  answer : Except OpError Answer

end OpGraph
