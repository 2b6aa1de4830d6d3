import ModuleRecovery.Run

/-!
What a run tells those who watch it: each merge with the clusters after it, and at the end the
reason to stop.
-/

namespace ModuleRecovery

inductive Event where
  | merged (step : MergeStep) (after : Clusters)
  | stopped (reason : StopReason) (final : Clusters)
  deriving DecidableEq, Repr

/-- All that a run tells, in order. -/
def Run.events (r : Run) : List Event :=
  r.merges.map (fun (step, after) => .merged step after) ++ [.stopped r.stop r.final]

/-- Those who watch a run: one named listener, nobody, or a group of such. -/
inductive Audience (α : Type) where
  | listener (name : α)
  | silent
  | group (members : List (Audience α))

namespace Audience

variable {α : Type}

mutual

/-- One event as it reaches the listeners from left to right. -/
def deliver (event : Event) : Audience α → List (α × Event)
  | .listener name => [(name, event)]
  | .silent => []
  | .group members => deliverAll event members

def deliverAll (event : Event) : List (Audience α) → List (α × Event)
  | [] => []
  | a :: rest => deliver event a ++ deliverAll event rest

end

/-- A series of events as it reaches the listeners: each event reaches all of them before the
next one. -/
def announce (audience : Audience α) (events : List Event) : List (α × Event) :=
  events.flatMap fun event => audience.deliver event

end Audience

end ModuleRecovery
