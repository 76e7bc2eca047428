import OpGraph.Plan.Basic
import OpGraph.Stream.Handles

/-!
# `Plan.Waits` — streams, and waits between providers

Each provider that makes streams gets one, made for the first of its nodes; this orders the nodes of one
provider among themselves. A node that reads from a stream of another provider waits for the node that
made the value, once however much it reads of it. An output of the graph that was made on a stream is
waited for on the host. The notification of a node is made for as many waits as there are.
-/

namespace OpGraph.Plan

/-! ## Streams -/

/-- Streams made so far, each with the provider it is for. -/
abbrev StreamTable := List (ProviderId × Stream)

/-- The number of a provider's stream. -/
def streamNumber? (table : StreamTable) (provider : ProviderId) : Option Nat :=
  table.findIdx? fun e => e.1 = provider

/-- Make the stream of a provider, unless it has one or makes none. -/
def openFor {Job : Type} (h : StreamHandles) (acc : StreamTable × Machine Job)
    (provider : ProviderId) : Except StreamError (StreamTable × Machine Job) :=
  if (streamNumber? acc.1 provider).isNone && h.hasFactory provider then
    (h.createStream provider acc.2).map fun (s, m) => (acc.1 ++ [(provider, s)], m)
  else .ok acc

/-- Give a node the stream of its provider. -/
def place (table : StreamTable) (n : PlannedNode) : PlannedNode :=
  { n with stream := streamNumber? table n.provider }

/-! ## Waits -/

/-- The wait of a node for the producer of a value, if it has to wait. -/
def edgeWait (h : StreamHandles) (nodes : List PlannedNode) (consumer : PlannedNode)
    (producer : Nat) : Except StreamError (Option PlannedWait) :=
  match nodes[producer]? with
  | none => .ok none
  | some p =>
      if p.stream.isNone || p.provider = consumer.provider then .ok none
      else (h.lookupWait p.provider consumer.provider).map fun f => some ⟨producer, f⟩

/-- Add the wait for a producer that is not waited for yet. -/
def addWait (h : StreamHandles) (nodes : List PlannedNode) (consumer : PlannedNode)
    (waits : List PlannedWait) (producer : Nat) : Except StreamError (List PlannedWait) :=
  if waits.any (·.producer = producer) then .ok waits
  else (edgeWait h nodes consumer producer).map fun w => waits ++ w.toList

/-- The producers of the values a node reads, once for each reading. -/
def producersOf (vs : List Value) (n : PlannedNode) : List Nat :=
  n.inputs.filterMap fun v => v.bind fun v => (vs[v]?).bind (·.producer)

/-- The node with its waits. -/
def withWaits (h : StreamHandles) (vs : List Value) (nodes : List PlannedNode) (n : PlannedNode) :
    Except StreamError PlannedNode :=
  ((producersOf vs n).foldlM (addWait h nodes n) []).map fun waits => { n with waits }

/-- The wait before an output of the graph is read. -/
def outputWait (h : StreamHandles) (nodes : List PlannedNode) (v : Value) :
    Except StreamError (Option PlannedWait) :=
  match v.producer with
  | none => .ok none
  | some producer =>
      match nodes[producer]? with
      | none => .ok none
      | some p =>
          if p.stream.isNone then .ok none
          else (h.lookupWait p.provider .cpu).map fun f => some ⟨producer, f⟩

/-- Plan an output of the graph. -/
def planOutput (h : StreamHandles) (vs : List Value) (nodes : List PlannedNode) (name : String) :
    Except SessionError PlannedOutput :=
  match vs.zipIdx.find? fun e => e.1.name = name with
  | none => .error (.invalidGraph (.undefinedOutput name))
  | some (v, i) =>
      match outputWait h nodes v with
      | .ok wait => .ok ⟨i, wait⟩
      | .error e => .error (.stream e)

/-- Number of waits for a node. -/
def consumersOf (nodes : List PlannedNode) (outputs : List PlannedOutput) (producer : Nat) : Nat :=
  ((nodes.flatMap (·.waits) ++ outputs.filterMap (·.wait)).filter (·.producer = producer)).length

/-- Tell every node how many wait for it. -/
def withConsumers (nodes : List PlannedNode) (outputs : List PlannedOutput) : List PlannedNode :=
  nodes.mapIdx fun i n => { n with consumers := consumersOf nodes outputs i }

end OpGraph.Plan
