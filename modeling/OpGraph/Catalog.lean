import OpGraph.Kernel.Table
import OpGraph.Operator.Builtin

/-!
# `Catalog` — schemas and kernels of all registered operators

Operators are registered a domain at a time, and a domain goes in whole or not at all. Registration
first *stages* each operator in order: its shape is found and held against the schema of its name, its
binding joins the draft of that schema, and its kernel is checked against all others. Only when every
operator is staged does the catalog change. Staging is a fold of one step over the operators, so a
domain registered in one go and in two pieces passes the same checks.
-/

namespace OpGraph

/-- How kernels of a registered operator are made. -/
structure Factory where
  descriptor : Descriptor
  /-- The newest version the host admits. -/
  newest : Nat

/-- Create a kernel for a node, with the record of it. -/
def Factory.instantiate (f : Factory) (info : KernelInfo) :
    Except OpError Kernel × List LifeEvent :=
  f.descriptor.instantiate f.newest info

/-- The versions a custom domain covers. -/
def customRange : Nat × Nat := (1, 1000)

/-- Schemas and kernels of all registered operators. -/
structure Catalog where
  /-- The newest version the host admits. -/
  newest : Nat := Interface.newest
  /-- Schemas, in the order their names first came. -/
  schemas : List OpSchema := []
  /-- Versions covered by each known domain. -/
  ranges : List (String × Nat × Nat) := []
  kernels : KernelTable Factory := {}

namespace Catalog

/-! ## Looking up -/

/-- The schema of a name in a domain. -/
def schema? (c : Catalog) (name domain : String) : Option OpSchema :=
  c.schemas.find? fun s => s.domain = domain && s.name = name

/-- The versions a domain covers. -/
def range? (c : Catalog) (domain : String) : Option (Nat × Nat) := c.ranges.lookup domain

/-! ## Staging a domain -/

/-- A schema in the making. -/
structure Draft where
  name : String
  shape : FormalShape
  bindings : List TypeBinding

/-- What staging has gathered so far. -/
structure Staged where
  drafts : List Draft := []
  kernels : List (KernelDefinition × Factory) := []

/-- Memory types of the inputs, where the signature declares them. -/
def memoryOf (s : Signature) : List (Nat × MemoryType) :=
  (List.range s.inputs.length).filterMap fun i => (s.inputMemory i).map fun m => (i, m)

/-- Type sets of a kernel. A declared type allows itself alone; templated positions share one set of
    all types, listed where the first of them stands. -/
def constraintsOf (s : Signature) : List TypeConstraint :=
  let positions :=
    s.inputs.mapIdx (fun i d => (FormalShape.positionName .input i, d)) ++
      s.outputs.mapIdx fun i d => (FormalShape.positionName .output i, d)
  positions.foldl (fun acc (name, d) =>
    if d.isDefined then acc ++ [⟨name, [d]⟩]
    else if acc.any (·.typeName = templateName) then acc
    else acc ++ [⟨templateName, DataType.tensorTypes⟩]) []

/-- The draft of a name: the one begun in this domain, else the schema that exists, else a new one of
    the given shape. -/
def draftFor (c : Catalog) (domain : String) (staged : Staged) (name : String)
    (shape : FormalShape) : Draft :=
  match staged.drafts.find? fun d => d.name = name with
  | some d => d
  | none =>
      match c.schema? name domain with
      | some s => ⟨name, s.shape, s.bindings⟩
      | none => ⟨name, shape, []⟩

/-- Put a draft in the place of the one of its name, or at the end. -/
def putDraft (d : Draft) : List Draft → List Draft
  | [] => [d]
  | e :: rest => if e.name = d.name then d :: rest else e :: putDraft d rest

/-- The kernel definition of an operator. -/
def definitionOf (domain : String) (s : Signature) (binding : TypeBinding) : KernelDefinition :=
  { name := s.name, domain, since := customSince, provider := s.provider, binding
    memory := memoryOf s, constraints := constraintsOf s }

/-- Stage one operator. -/
def stage (c : Catalog) (domain : String) (staged : Staged) (op : Descriptor) :
    Except OpError Staged := do
  let s := op.signature
  let shape ← FormalShape.ofSignature s
  let draft := c.draftFor domain staged s.name shape
  draft.shape.ensureCompatible s.name shape
  let binding := shape.binding s
  let definition := definitionOf domain s binding
  if definition.key ∈ c.kernels.keys ++ staged.kernels.map (·.1.key) then
    throw (.duplicateKernel definition.text)
  pure
    { drafts := putDraft { draft with bindings := draft.bindings ++ [binding] } staged.drafts
      kernels := staged.kernels ++ [(definition, ⟨op, c.newest⟩)] }

/-! ## Committing it -/

/-- Put a schema in the place of the one of its name and domain, or at the end. -/
def putSchema (s : OpSchema) : List OpSchema → List OpSchema
  | [] => [s]
  | e :: rest =>
      if e.domain = s.domain && e.name = s.name then s :: rest else e :: putSchema s rest

/-- The schema a draft ends as. -/
def Draft.finish (domain : String) (d : Draft) : OpSchema :=
  { name := d.name, domain, shape := d.shape, bindings := d.bindings }

/-- Record the versions of a domain, unless they are known. -/
def putRange (c : Catalog) (domain : String) : List (String × Nat × Nat) :=
  if (c.range? domain).isSome then c.ranges else c.ranges ++ [(domain, customRange)]

/-- Register kernels one after the other, up to the first that is refused. -/
def registerAll (t : KernelTable Factory) :
    List (KernelDefinition × Factory) → Except OpError Unit × KernelTable Factory
  | [] => (.ok (), t)
  | k :: rest =>
      match t.register k.1 k.2 with
      | .ok t' => registerAll t' rest
      | .error e => (.error e, t)

/-- Change the catalog by what was staged: first its domains, then its schemas, then its kernels. The
    outcome is the schemas that are new or longer. Were a kernel refused, what came before it would
    stay. -/
def commit (c : Catalog) (domain : String) (ops : List Descriptor) (staged : Staged) :
    Except OpError (List OpSchema) × Catalog :=
  let committed := staged.drafts.map (·.finish domain)
  let (outcome, kernels) := registerAll c.kernels staged.kernels
  (outcome.map fun _ => committed,
    { c with
      ranges := if ops.isEmpty then c.ranges else c.putRange domain
      schemas := committed.foldl (fun ss s => putSchema s ss) c.schemas
      kernels })

/-- Stage the operators of a domain, one after the other. -/
def stageAll (c : Catalog) (domain : String) (ops : List Descriptor) : Except OpError Staged :=
  ops.foldlM (c.stage domain) {}

/-- Register the operators of a domain: the outcome, and the catalog as it is afterwards. -/
def enroll (c : Catalog) (domain : String) (ops : List Descriptor) :
    Except OpError (List OpSchema) × Catalog :=
  match c.stageAll domain ops with
  | .error e => (.error e, c)
  | .ok staged => c.commit domain ops staged

/-- Register every operator of a domain. The schemas that came in or grew are given in the order their
    names first occur. -/
def registerDomain (c : Catalog) (domain : String) (ops : List Descriptor) :
    Except OpError (Catalog × List OpSchema) :=
  let (outcome, c') := c.enroll domain ops
  outcome.map fun out => (c', out)

/-- Register the built-in operators. -/
def registerBuiltins (c : Catalog) : Except OpError (Catalog × List OpSchema) :=
  c.registerDomain Builtin.domain Builtin.operators

end Catalog

end OpGraph
