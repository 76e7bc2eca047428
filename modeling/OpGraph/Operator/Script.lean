import OpGraph.Operator.Descriptor

/-!
# `Operator.Script` — operators given by lists of questions and steps

A scripted operator asks a list of questions when a kernel is created and takes a list of steps when it
runs. It keeps a record of both: every answer, errors included. A question that *must* be answered and is
not refuses the kernel; a step that is refused ends the computation unless it was only *tried*. A panic
ends it always and leaves no answer.
-/

namespace OpGraph.Script

/-! ## Questions at creation -/

/-- What is asked of a node. -/
inductive Question where
  | counts
  | nodeName
  | inputName (i : Nat)
  | outputName (i : Nat)
  | inputType (i : Nat)
  | outputType (i : Nat)
  | float (name : String)
  | int (name : String)
  | string (name : String)
  | floats (name : String)
  | ints (name : String)
  | strings (name : String)
  | tensor (name : String)
  | constant (i : Nat)
  | provider
  | logger
  /-- Refuse the kernel under an operator's name. -/
  | refuse (op : String)
  deriving DecidableEq

/-- A question, the buffer it comes with, and whether it has to be answered. -/
structure Query where
  question : Question
  /-- Cells of the buffer, where there is one. -/
  capacity : Option Nat := none
  must : Bool := false
  deriving DecidableEq

/-- The bytes, floats and integers that buffers are filled with beforehand. -/
def blankByte : UInt8 := 0x78

/-- The float seven. -/
def blankFloat : Element .float32 := 0x40e00000#32

/-- The integer seven. -/
def blankInt : Int := 7

/-- A fresh buffer of cells that all hold the same, where one is brought. -/
def Query.buffer {α : Type} (q : Query) (blank : α) : Option (List α) :=
  q.capacity.map fun n => List.replicate n blank

/-- The report on a question that takes no buffer; one that was brought stays as it was. -/
def plain (q : Query) (answer : Except OpError Answer) : QueryReport :=
  ⟨answer, (q.buffer blankByte).map .bytes⟩

/-- The report on an inquiry: the number of cells, and the buffer as it was left. -/
def reported {α : Type} (keep : List α → Buffer) (outcome : Except OpError Nat × Option (List α)) :
    QueryReport :=
  ⟨outcome.1.map .size, outcome.2.map keep⟩

/-- A tensor that may not be there. -/
def tensorAnswer : Option Tensor → Answer
  | some t => .tensor t
  | none => .noTensor

/-- Ask one question. -/
def Query.ask (q : Query) (info : KernelInfo) : QueryReport :=
  match q.question with
  | .counts => plain q (.ok (.counts info.inputs.length info.outputs.length))
  | .nodeName => reported .bytes (info.inquire .nodeName (q.buffer blankByte))
  | .inputName i => reported .bytes (info.inquire (.argumentName .input i) (q.buffer blankByte))
  | .outputName i => reported .bytes (info.inquire (.argumentName .output i) (q.buffer blankByte))
  | .inputType i => plain q ((info.typeOf .input i).map .type)
  | .outputType i => plain q ((info.typeOf .output i).map .type)
  | .float name => plain q ((info.float name).map .float)
  | .int name => plain q ((info.int name).map .int)
  | .string name => reported .bytes (info.inquire (.string name) (q.buffer blankByte))
  | .floats name => reported .floats (info.inquire (.floats name) (q.buffer blankFloat))
  | .ints name => reported .ints (info.inquire (.ints name) (q.buffer blankInt))
  | .strings name => plain q ((info.strings name).map .strings)
  | .tensor name => plain q ((info.tensor name).map .tensor)
  | .constant i => plain q ((info.constant i).map tensorAnswer)
  | .provider => plain q (.ok (.provider info.provider))
  | .logger => plain q (info.providerLogger.map .logger)
  | .refuse op => plain q (.error (.kernelFailed op "create refused"))

/-- Ask questions in order, up to the first that must be answered and is not. -/
def askAll (info : KernelInfo) : List Query → List QueryReport × Except OpError Unit
  | [] => ([], .ok ())
  | q :: rest =>
      let report := q.ask info
      match q.must, report.answer with
      | true, .error e => ([report], .error e)
      | _, _ =>
          let (reports, result) := askAll info rest
          (report :: reports, result)

/-! ## Steps of a computation -/

/-- What a step does. -/
inductive Action where
  | counts
  | input (i : Nat)
  | required (i : Nat)
  /-- Allocate as planned. -/
  | output (o : Nat) (shape : Shape)
  /-- Allocate with a type of its own. -/
  | outputTyped (o : Nat) (d : DataType) (shape : Shape)
  /-- Hand over a tensor, or the error of making it. -/
  | set (o : Nat) (value : Except TensorError Tensor)
  /-- Hand an input on. -/
  | forward (i o : Nat)
  /-- Multiply and shift every element of an input. -/
  | affine (i o : Nat) (factor offset : Element .float32)
  /-- Sum up every element of every input. -/
  | sum (o : Nat)
  | stream
  | logger
  | log (s : Severity) (message : String)
  | fail (detail : String)
  /-- Panic, with a text or without one. -/
  | panic (payload : Option String)

/-- An action, and whether the computation goes on when it is refused. -/
structure Step where
  action : Action
  tried : Bool := false

/-- The origin of messages that steps emit. -/
def origin : Origin := ⟨"plugin.rs", 7⟩

/-- The output just made at a position. -/
def made (o : Nat) : KernelM Answer := do
  pure (tensorAnswer ((← get).output? o))

/-- Running total of the elements of some inputs, in order; an input that was left out adds nothing. -/
def total (acc : Float32) : List (Option Tensor) → KernelM Float32
  | [] => pure acc
  | none :: rest => total acc rest
  | some t :: rest => do
      let xs ← KernelM.view .float32 t
      total (xs.foldl (fun a x => a + Tensor.toFloat x) acc) rest

/-- Take one step, under the operator's name. -/
def Action.run (op : String) : Action → KernelM Answer
  | counts => do
      let c ← get
      pure (.counts c.inputs.length c.outputs.length)
  | input i => do pure (tensorAnswer (← KernelM.ask (·.input i)))
  | required i => do pure (.tensor (← KernelM.ask (·.requiredInput i)))
  | output o shape => do
      KernelM.update (·.allocatePlanned o shape)
      made o
  | outputTyped o d shape => do
      KernelM.update (·.allocate o d shape)
      made o
  | set o value => do
      let t ← KernelM.ask fun _ => value.mapError .tensor
      KernelM.update (·.setOutput o t)
      pure .done
  | forward i o => do
      let t ← KernelM.ask (·.requiredInput i)
      KernelM.update (·.setOutput o t)
      pure .done
  | affine i o factor offset => do
      let t ← KernelM.ask (·.requiredInput i)
      let xs ← KernelM.view .float32 t
      KernelM.update (·.allocatePlanned o t.shape)
      KernelM.update (·.overwriteOutput o .float32 (xs.map fun v =>
        Tensor.ofFloat (Tensor.toFloat v * Tensor.toFloat factor + Tensor.toFloat offset)))
      pure .done
  | sum o => do
      let s ← total 0 (← get).inputs
      KernelM.update (·.setOutput o (Tensor.scalar .float32 (Tensor.ofFloat s)))
      pure .done
  | stream => do pure (.stream (← get).stream)
  | logger => do pure (.severity (← KernelM.ask (·.contextLogger)).threshold)
  | log s message => do
      let l ← KernelM.ask (·.contextLogger)
      pure (.emitted (← KernelM.log l s message op (some origin)))
  | fail detail => KernelM.fail (.kernelFailed op detail)
  | panic payload => throw (.panic payload)

/-- Take one step and report its answer under the node's name. -/
def Step.run (op node : String) (s : Step) : KernelM Unit := do
  match ← KernelM.attempt (s.action.run op) with
  | .ok a => KernelM.report ⟨node, .ok a⟩
  | .error (.error e) =>
      KernelM.report ⟨node, .error e⟩
      if s.tried then pure () else KernelM.fail e
  | .error (.panic payload) => throw (.panic payload)

/-- Take steps in order. -/
def runAll (op node : String) : List Step → KernelM Unit
  | [] => pure ()
  | s :: rest => do
      s.run op node
      runAll op node rest

/-! ## What steps are made of -/

open KernelM (Composed)

theorem made_composed (o : Nat) : (made o).Composed := .bind .read fun _ => .pure _

theorem total_composed : ∀ (inputs : List (Option Tensor)) (acc : Float32), (total acc inputs).Composed := by
  intro inputs
  induction inputs with
  | nil => exact fun acc => .pure acc
  | cons input rest ih =>
      intro acc
      cases input with
      | none => exact ih acc
      | some t => exact .bind (.view ..) fun _ => ih _

theorem Action.run_composed (op : String) (a : Action) : (a.run op).Composed := by
  cases a with
  | counts => exact .bind .read fun _ => .pure _
  | input i => exact .bind (.ask _) fun _ => .pure _
  | required i => exact .bind (.ask _) fun _ => .pure _
  | output o shape => exact .bind (.output ..) fun _ => made_composed o
  | outputTyped o d shape => exact .bind (.outputTyped ..) fun _ => made_composed o
  | set o value => exact .bind (.ask _) fun _ => .bind (.setOutput ..) fun _ => .pure _
  | forward i o => exact .bind (.ask _) fun _ => .bind (.setOutput ..) fun _ => .pure _
  | affine i o factor offset =>
      exact .bind (.ask _) fun _ => .bind (.view ..) fun _ => .bind (.output ..) fun _ =>
        .bind (.overwrite ..) fun _ => .pure _
  | sum o =>
      exact .bind .read fun _ => .bind (total_composed ..) fun _ => .bind (.setOutput ..) fun _ => .pure _
  | stream => exact .bind .read fun _ => .pure _
  | logger => exact .bind (.ask _) fun _ => .pure _
  | log s message => exact .bind (.ask _) fun _ => .bind (.log ..) fun _ => .pure _
  | fail detail => exact .fail _
  | panic payload => exact .stop _

theorem Step.run_composed (op node : String) (s : Step) : (s.run op node).Composed := by
  refine .bind (.attempt (s.action.run_composed op)) fun ending => ?_
  rcases ending with (e | payload) | a
  · refine .bind (.report _) fun _ => ?_
    split
    · exact .pure ()
    · exact .fail e
  · exact .stop _
  · exact .report _

theorem runAll_composed (op node : String) (steps : List Step) : (runAll op node steps).Composed := by
  induction steps with
  | nil => exact .pure ()
  | cons s rest ih => exact .bind (s.run_composed op node) fun _ => ih

/-- A scripted operator. Its kernels keep the name of the node, under which they report. -/
def operator (s : Signature) (queries : List Query) (steps : List Step) : CustomOp String :=
  { signature := s
    create := fun _ info =>
      let (reports, result) := askAll info queries
      { queries := reports, result := result.map fun _ => info.node }
    compute := fun node => runAll s.name node steps
    composed := fun node => runAll_composed s.name node steps
    traced := true }

/-- A scripted operator as the host sees it. -/
def descriptor (s : Signature) (queries : List Query) (steps : List Step) : Descriptor :=
  (operator s queries steps).descriptor

end OpGraph.Script
