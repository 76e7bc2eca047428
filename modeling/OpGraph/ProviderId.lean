import OpGraph.Text.Literal

/-!
# `ProviderId` — naming an execution provider

A provider is known by its name alone, so two providers are the same to every table exactly when their
names are. Three names belong to the providers a session can bring up by itself.
-/

namespace OpGraph

/-- The name of an execution provider. -/
structure ProviderId where
  name : String
  deriving DecidableEq, Inhabited

namespace ProviderId

/-- The host. -/
def cpu : ProviderId := ⟨"CPUExecutionProvider"⟩

/-- The simulated accelerator. -/
def sim : ProviderId := ⟨"SimExecutionProvider"⟩

/-- The graphics device. -/
def gpu : ProviderId := ⟨"WgpuExecutionProvider"⟩

/-- The id as a value inside diagnostics. -/
def literal (p : ProviderId) : String := Text.applied "ProviderId" (Text.quoted p.name)

instance : ToString ProviderId := ⟨name⟩

/-- Order of two ids by the bytes of their names. -/
def compare (a b : ProviderId) : Ordering :=
  go a.name.toUTF8.toList b.name.toUTF8.toList
where
  go : List UInt8 → List UInt8 → Ordering
    | [], [] => .eq
    | [], _ :: _ => .lt
    | _ :: _, [] => .gt
    | x :: xs, y :: ys => if x < y then .lt else if y < x then .gt else go xs ys

end ProviderId

end OpGraph
