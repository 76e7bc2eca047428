import OpGraph.Operator.Descriptor

/-!
# `Operator.Builtin` — the operators that come with the library

Addition and copying, each for the host and for the simulated device, and scaling on the host. They are
operators like any plugin's and are registered the same way, under a domain of their own.
-/

namespace OpGraph.Builtin

/-- The domain of the built-in operators. -/
def domain : String := "sable.builtin"

/-- A signature of the newest version with every slot filled with its default. -/
def signature (name : String) (provider : Option ProviderId) (inputs outputs : List DataType) :
    Signature :=
  { name, version := Interface.newest, providerName := provider, inputs, outputs
    slots :=
      { inputCharacteristic := some fun _ => .required
        outputCharacteristic := some fun _ => .required
        inputMemory := some fun _ => .standard
        variadicInputLeast := some 1
        variadicInputHomogeneous := some true
        variadicOutputLeast := some 1
        variadicOutputHomogeneous := some true } }

/-- An operator whose kernels keep no state. -/
def stateless (s : Signature) (compute : KernelM Unit) (h : compute.Composed) : Descriptor :=
  let op : CustomOp Unit :=
    { signature := s
      create := fun _ _ => { result := .ok () }
      compute := fun _ => compute
      composed := fun _ => h }
  op.descriptor

/-! ## Addition -/

/-- Tell how many elements are added, where there is someone to tell. -/
def announce (op : String) (count : Nat) : KernelM Unit := do
  match (← get).logger with
  | some l => discard (KernelM.log l .verbose s!"adding {count} elements" op none)
  | none => pure ()

/-- Elementwise sum of two tensors of one shape. -/
def computeAdd (op : String) : KernelM Unit := do
  let a ← KernelM.ask (·.requiredInput 0)
  let b ← KernelM.ask (·.requiredInput 1)
  if a.shape ≠ b.shape then
    KernelM.fail (.kernelFailed op
      s!"shapes {Text.numbers a.shape} and {Text.numbers b.shape} differ")
  announce op a.count
  let xs ← KernelM.view .float32 a
  let ys ← KernelM.view .float32 b
  KernelM.update (·.allocatePlanned 0 a.shape)
  KernelM.update (·.overwriteOutput 0 .float32
    (List.zipWith (fun x y => Tensor.ofFloat (Tensor.toFloat x + Tensor.toFloat y)) xs ys))

theorem announce_composed (op : String) (count : Nat) : (announce op count).Composed := by
  refine .bind .read fun c => ?_
  cases c.logger with
  | none => exact .pure ()
  | some l => exact .bind (.log ..) fun _ => .pure ()

theorem computeAdd_composed (op : String) : (computeAdd op).Composed := by
  refine .bind (.ask _) fun a => .bind (.ask _) fun b => ?_
  have hrest : (do
      announce op a.count
      let xs ← KernelM.view .float32 a
      let ys ← KernelM.view .float32 b
      KernelM.update (·.allocatePlanned 0 a.shape)
      KernelM.update (·.overwriteOutput 0 .float32
        (List.zipWith (fun x y => Tensor.ofFloat (Tensor.toFloat x + Tensor.toFloat y)) xs ys)) :
        KernelM Unit).Composed :=
    .bind (announce_composed ..) fun _ => .bind (.view ..) fun _ => .bind (.view ..) fun _ =>
      .bind (.output ..) fun _ => .overwrite ..
  split
  · exact .bind (.fail _) fun _ => hrest
  · exact hrest

/-- Addition on a provider. -/
def add (provider : Option ProviderId) : Descriptor :=
  stateless (signature "Add" provider [.float32, .float32] [.float32]) (computeAdd "Add")
    (computeAdd_composed "Add")

/-! ## Copying -/

/-- Hand the input on. -/
def computeIdentity : KernelM Unit := do
  let x ← KernelM.ask (·.requiredInput 0)
  KernelM.update (·.setOutput 0 x)

theorem computeIdentity_composed : computeIdentity.Composed :=
  .bind (.ask _) fun _ => .setOutput ..

/-- Copying on a provider, for any element type. -/
def identity (provider : Option ProviderId) : Descriptor :=
  stateless (signature "Identity" provider [.undefined] [.undefined]) computeIdentity
    computeIdentity_composed

/-! ## Scaling -/

/-- The float one. -/
def one : Element .float32 := 0x3f800000#32

/-- The factor of a node: its attribute `alpha`, one when there is none. -/
def factor (info : KernelInfo) : Except OpError (Element .float32) :=
  match info.float "alpha" with
  | .error (.attributeNotFound _) => .ok one
  | r => r

/-- Elementwise product with a factor. -/
def computeScale (factor : Element .float32) : KernelM Unit := do
  let x ← KernelM.ask (·.requiredInput 0)
  let xs ← KernelM.view .float32 x
  KernelM.update (·.allocatePlanned 0 x.shape)
  KernelM.update (·.overwriteOutput 0 .float32
    (xs.map fun v => Tensor.ofFloat (Tensor.toFloat v * Tensor.toFloat factor)))

theorem computeScale_composed (factor : Element .float32) : (computeScale factor).Composed :=
  .bind (.ask _) fun _ => .bind (.view ..) fun _ => .bind (.output ..) fun _ => .overwrite ..

/-- Scaling by the factor of a node, which its kernel keeps. -/
def scaling : CustomOp (Element .float32) :=
  { signature := signature "Scale" none [.float32] [.float32]
    create := fun _ info => { result := factor info }
    compute := computeScale
    composed := computeScale_composed }

/-- Scaling on the host. -/
def scale : Descriptor := scaling.descriptor

/-- The built-in operators. -/
def operators : List Descriptor :=
  [identity (some .sim), identity none, add (some .sim), add none, scale]

end OpGraph.Builtin
