import OpGraph.Operator.Signature

/-!
# `Session.Config` — what a session is set to

Three settings: the provider of nodes that name none, the newest plugin version that is taken, and the
providers that are brought up without being asked for one by one. A version limit must lie between one
and the newest version the host knows.
-/

namespace OpGraph

/-- Providers that a session can bring up by itself. -/
inductive ProviderKind where
  | cpu
  | sim
  | gpu
  deriving DecidableEq

namespace ProviderKind

/-- Every kind. -/
def all : List ProviderKind := [cpu, sim, gpu]

/-- The name of a kind in settings. -/
def name : ProviderKind → String
  | cpu => "cpu"
  | sim => "sim"
  | gpu => "wgpu"

/-- The kind of a name. -/
def ofName? (s : String) : Option ProviderKind := all.find? fun k => k.name = s

/-- The provider of a kind. -/
def id : ProviderKind → ProviderId
  | cpu => .cpu
  | sim => .sim
  | gpu => .gpu

end ProviderKind

/-- What is wrong with settings. -/
inductive ConfigFault where
  | versionZero
  | versionTooNew (version : Nat)
  /-- The default provider is not there. -/
  | noDefault (provider : ProviderId)
  deriving DecidableEq

/-- The fault in running text. -/
def ConfigFault.text : ConfigFault → String
  | versionZero => "max_api_version must be at least 1"
  | versionTooNew version =>
      s!"max_api_version {version} exceeds the host maximum {Interface.newest}"
  | noDefault provider => s!"default provider '{provider}' is not among the registered providers"

/-- Settings of a session. -/
structure Config where
  /-- Provider of nodes that name none. -/
  defaultProvider : ProviderKind := .cpu
  /-- Newest plugin version that is taken; the host's own when it is not set. -/
  newest? : Option Nat := none
  /-- Providers that are brought up. -/
  providers : List ProviderKind := [.cpu]
  deriving DecidableEq

namespace Config

/-- Refuse a version limit out of range. -/
def validate (c : Config) : Except ConfigFault Unit :=
  match c.newest? with
  | none => .ok ()
  | some v =>
      if v = 0 then .error .versionZero
      else if Interface.newest < v then .error (.versionTooNew v)
      else .ok ()

/-- The newest plugin version that is taken. -/
def newest (c : Config) : Nat := c.newest?.getD Interface.newest

end Config

end OpGraph
