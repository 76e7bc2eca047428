import OpGraph.Catalog
import OpGraph.Provider
import OpGraph.Session.Error

/-!
# `Session.Basic` — providers, handles and operators brought together

A session is brought up from its settings, the providers it is given and the domains of operators it
takes. Providers that are given come before those the settings ask for, and the host is always there. No
two providers of a session share an id, so each writes entries of its own into the table of handles and
the order in which they do does not matter.
-/

namespace OpGraph

/-- What a session is brought up from. -/
structure Setup where
  config : Config := {}
  /-- Providers that are there already. -/
  providers : List Provider := []
  /-- Operators, by domain. -/
  domains : List (String × List Descriptor) := []
  /-- Whether the built-in operators come in as well. -/
  builtins : Bool := true
  /-- The context on the graphics hardware that is found, or why there is none. -/
  adapter : Except String GraphicsContext := .error "no adapter"

/-- Providers, handles and operators brought together. -/
structure Session where
  config : Config
  providers : List Provider
  handles : StreamHandles
  catalog : Catalog

namespace Session

/-! ## Providers -/

/-- The provider of an id. -/
def find? (ps : List Provider) (id : ProviderId) : Option Provider := ps.find? fun p => p.id = id

/-- Add a provider whose id is not taken. -/
def addGiven (ps : List Provider) (p : Provider) : Except SessionError (List Provider) :=
  if (find? ps p.id).isSome then .error (.duplicateProvider p.id) else .ok (ps ++ [p])

/-- Bring up a provider of a kind, on this graphics hardware if it needs any. -/
def bringUp {Job : Type} (adapter : Except String GraphicsContext) (m : Machine Job) :
    ProviderKind → Except SessionError (Provider × Machine Job)
  | .cpu => .ok (Provider.host, m)
  | .sim =>
      let (timeline, m) := m.addTimeline
      .ok (Provider.simulated timeline .sim [], m)
  | .gpu =>
      match adapter with
      | .ok context => .ok (Provider.graphics context, m)
      | .error detail => .error (.bringUp .gpu detail)

/-- Bring up a provider the settings ask for, unless it is there. -/
def addConfigured {Job : Type} (adapter : Except String GraphicsContext) (acc : List Provider × Machine Job)
    (k : ProviderKind) : Except SessionError (List Provider × Machine Job) := do
  if (find? acc.1 k.id).isSome then pure acc
  else
    let (p, m) ← bringUp adapter acc.2 k
    pure (acc.1 ++ [p], m)

/-- All providers of a session. -/
def gather {Job : Type} (s : Setup) (m : Machine Job) :
    Except SessionError (List Provider × Machine Job) := do
  let given ← s.providers.foldlM addGiven []
  let (ps, m) ← s.config.providers.foldlM (addConfigured s.adapter) (given, m)
  pure (if (find? ps .cpu).isSome then ps else ps ++ [Provider.host], m)

/-- Let every provider write what it offers. -/
def wire (ps : List Provider) : StreamHandles × List LogEvent :=
  ps.foldl (fun (h, events) p =>
    let (h, more) := p.register h
    (h, events ++ more)) ({}, [])

/-! ## Operators -/

/-- All domains of operators, in order. -/
def domains (s : Setup) : List (String × List Descriptor) :=
  s.domains ++ if s.builtins then [(Builtin.domain, Builtin.operators)] else []

/-- Register one domain after the other. -/
def register (c : Catalog) (ds : List (String × List Descriptor)) : Except OpError Catalog :=
  ds.foldlM (fun c d => (c.registerDomain d.1 d.2).map (·.1)) c

/-! ## Bringing it up -/

/-- The providers of valid settings, the default one among them. -/
def ready {Job : Type} (s : Setup) (m : Machine Job) :
    Except SessionError (List Provider × Machine Job) := do
  match s.config.validate with
  | .error fault => throw (.config fault)
  | .ok _ => pure ()
  let (ps, m) ← gather s m
  if (find? ps s.config.defaultProvider.id).isSome then pure (ps, m)
  else throw (.config (.noDefault s.config.defaultProvider.id))

/-- Bring a session up, with what is reported on the way. -/
def start {Job : Type} (s : Setup) (m : Machine Job) :
    Except SessionError (Session × Machine Job) × List LogEvent :=
  match ready s m with
  | .error e => (.error e, [])
  | .ok (providers, m) =>
      let (handles, events) := wire providers
      match register { newest := s.config.newest } (domains s) with
      | .error e => (.error (.op e), events)
      | .ok catalog => (.ok ({ config := s.config, providers, handles, catalog }, m), events)

/-! ## Reading it -/

/-- The provider of nodes that name none. -/
def defaultProvider (s : Session) : ProviderId := s.config.defaultProvider.id

/-- The provider of an id. -/
def provider (s : Session) (id : ProviderId) : Except SessionError Provider :=
  match find? s.providers id with
  | some p => .ok p
  | none => .error (.unknownProvider id)

end Session

end OpGraph
