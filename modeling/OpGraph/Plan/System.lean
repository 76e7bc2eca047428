import OpGraph.Plan.Build
import OpGraph.Plan.Run

/-!
# `Plan.System` — sessions, plans and runs on one machine

A system is everything that goes on at one time: the sessions that were brought up, the plans they
prepared, and the runs of these plans that were started, over or not. It changes by one step of somebody:
a device is put up, a session comes up, a plan is prepared or refused, a run is started, or the host of a
run or a worker goes on. The steps come in any order, so a run of a plan may come after any others and
next to any others.
-/

namespace OpGraph

/-- The device is there. -/
def Device.On {Job : Type} (m : Machine Job) : Device → Prop
  | .sim timeline _ => timeline < m.timelines.length
  | .gpu _ => True

/-- The devices of the providers are there. -/
def Provider.On {Job : Type} (m : Machine Job) (p : Provider) : Prop := ∀ d, p.device = some d → d.On m

/-- Sessions, plans and runs on one machine. -/
structure System where
  sessions : List Session := []
  plans : List Plan := []
  /-- What each run was fed, by its number. -/
  feeds : List (List (String × Tensor)) := []
  execution : Execution := {}

namespace System

/-- The machine everything runs on. -/
def machine (σ : System) : Machine NodeJob := σ.execution.machine

/-- The runs that were started. -/
def runs (σ : System) : List Run := σ.execution.runs

/-- The system on another machine. -/
def onMachine (σ : System) (m : Machine NodeJob) : System :=
  { σ with execution := { σ.execution with machine := m } }

/-- A step of somebody. -/
inductive Step : System → System → Prop
  /-- A simulated device is put up. -/
  | device (σ : System) : Step σ (σ.onMachine σ.machine.addTimeline.2)
  /-- A session comes up, with providers on devices that are there. -/
  | session {σ : System} {setup : Setup} {s : Session} {m : Machine NodeJob} {events : List LogEvent} :
      (∀ p ∈ setup.providers, p.On σ.machine) → Session.start setup σ.machine = (.ok (s, m), events) →
      Step σ { σ.onMachine m with sessions := s :: σ.sessions }
  /-- A plan is prepared. -/
  | prepare {σ : System} {s : Session} {g : Graph} {p : Plan} {life : List LifeEvent}
      {m : Machine NodeJob} :
      s ∈ σ.sessions → Plan.build s g σ.machine = ((.ok p, life), m) →
      Step σ { σ.onMachine m with plans := p :: σ.plans }
  /-- A graph is refused. -/
  | refuse {σ : System} {s : Session} {g : Graph} {e : SessionError} {life : List LifeEvent}
      {m : Machine NodeJob} :
      s ∈ σ.sessions → Plan.build s g σ.machine = ((.error e, life), m) → Step σ (σ.onMachine m)
  /-- A run is started with feeds that fit. -/
  | begin {σ : System} {p : Plan} {fed : List (String × Tensor)} {r : Run} :
      p ∈ σ.plans → Run.start p fed = .ok r →
      Step σ { σ with feeds := σ.feeds ++ [fed], execution := (σ.execution.begin r).2 }
  /-- The host of a run goes on. -/
  | host {σ : System} {i : Nat} {x : Execution} :
      σ.execution.hostStep i = some x → Step σ { σ with execution := x }
  /-- A worker goes on. -/
  | work {σ : System} {w : Machine.Worker} {x : Execution} :
      σ.execution.workerStep w = some x → Step σ { σ with execution := x }

/-- Systems that can come about. -/
inductive Reached : System → Prop
  | empty : Reached {}
  | step {σ σ' : System} : Reached σ → Step σ σ' → Reached σ'

end System

end OpGraph
