import ModuleRecovery.CallGraph.Samples
import ModuleRecovery.Coupling
import ModuleRecovery.Run.Event
import ModuleRecovery.Proofs.Components

/-!
What those who watch a series of runs get to see. Every event shows clusters that accepted merges
lead to, the very merges that were told of up to then. Main statement: whatever the rule and the
budgets, all clusters that are ever shown are a partition of the classes, each known by its least
member and connected by the calls between its own members.
-/

namespace ModuleRecovery

namespace Event

/-- The clusters that are shown. -/
def clusters : Event → Clusters
  | merged _ after => after
  | stopped _ final => final

/-- The merge that is told of, if it is one. -/
def step? : Event → Option MergeStep
  | merged step _ => some step
  | stopped _ _ => none

end Event

theorem Run.filterMap_step?_events (r : Run) : r.events.filterMap (·.step?) = r.outcome.steps := by
  simp [events, outcome, Event.step?, List.filterMap_append, List.filterMap_map]

theorem Run.stopped_mem_events (r : Run) : .stopped r.stop r.final ∈ r.events := by
  simp [events]

namespace Rule

variable {rule : Rule} {g : CouplingGraph} {start c final : Clusters} {made : Nat}
  {steps : List MergeStep} {merges : List (MergeStep × Clusters)}
  {told later : List Event} {event : Event}

/-- Each event of a run shows what the merges up to it lead to. -/
theorem Path.reaches_event (path : rule.Path g made c merges final)
    (hreaches : rule.Reaches g start steps c) {reason : StopReason}
    (hevents : (Run.mk merges reason final).events = told ++ event :: later) :
    rule.Reaches g start (steps ++ (told ++ [event]).filterMap (·.step?)) event.clusters := by
  induction path generalizing steps told with
  | nil made c =>
      cases told with
      | nil =>
          obtain ⟨rfl, -⟩ := List.cons.inj hevents
          simpa [Event.step?, Event.clusters] using hreaches
      | cons first told =>
          obtain ⟨-, hrest⟩ := List.cons.inj hevents
          simp at hrest
  | @cons made c final pair merges haccepts _ ih =>
      have hmerge := hreaches.merge made haccepts
      cases told with
      | nil =>
          obtain ⟨rfl, -⟩ := List.cons.inj hevents
          exact hmerge
      | cons first told =>
          obtain ⟨rfl, hrest⟩ := List.cons.inj hevents
          have hlater := ih hmerge hrest
          simpa [Event.step?] using hlater

/-- Each event of a series of runs shows what all merges up to it lead to, those of earlier runs
included. -/
theorem Reaches.runAll_event {budgets : List (Option Nat)}
    (hreaches : rule.Reaches g start steps c)
    (hevents : (rule.runAll g budgets c).flatMap (·.events) = told ++ event :: later) :
    rule.Reaches g start (steps ++ (told ++ [event]).filterMap (·.step?)) event.clusters := by
  induction budgets generalizing c steps told with
  | nil => simp [runAll] at hevents
  | cons budget budgets ih =>
      have path := rule.path_run g budget c
      have hfirst := path.reaches hreaches
      have hsteps := (rule.run g budget c).filterMap_step?_events
      simp only [runAll, List.flatMap_cons] at hevents
      rcases List.append_eq_append_iff.1 hevents with ⟨more, rfl, hmore⟩ | ⟨more, hsplit, hmore⟩
      · have hrest := ih hfirst hmore
        simpa [hsteps, Run.outcome] using hrest
      · cases more with
        | nil =>
            have htold : told = (rule.run g budget c).events := by simpa using hsplit.symm
            have hnext : (rule.runAll g budgets (rule.run g budget c).final).flatMap (·.events) =
                [] ++ event :: later := hmore.symm
            have hrest := ih hfirst hnext
            simpa [htold, hsteps, Run.outcome] using hrest
        | cons first more =>
            obtain ⟨rfl, -⟩ := List.cons.inj hmore
            exact path.reaches_event hreaches hsplit

/-- At every event of any runs, one after the other from single classes, and at the end of each of
them, every cluster is known by its least member, and its members are connected by calls that do
not leave it. -/
theorem runAll_shows_cohesive (rule : Rule) (g : CouplingGraph) (budgets : List (Option Nat)) :
    ∀ r ∈ rule.runAll g budgets (.singletons g),
      (∀ event ∈ r.events,
        event.clusters.IsPartition g.classSet ∧ event.clusters.IsCohesive g) ∧
      r.final.IsPartition g.classSet ∧ r.final.IsCohesive g := by
  intro r hr
  have hshown : ∀ event ∈ r.events,
      event.clusters.IsPartition g.classSet ∧ event.clusters.IsCohesive g := by
    intro event hevent
    have hmem : event ∈ (rule.runAll g budgets (.singletons g)).flatMap (·.events) :=
      List.mem_flatMap.2 ⟨r, hr, hevent⟩
    obtain ⟨told, later, hevents⟩ := List.append_of_mem hmem
    exact (Reaches.start.runAll_event hevents).cohesive
  exact ⟨hshown, hshown _ r.stopped_mem_events⟩

theorem runAll_shows_cohesive_layeredShop :
    let g := CallGraph.Samples.layeredShop.couplingGraph
    ∃ r ∈ (Rule.identification 7 (.ofNat 1)).runAll g [some 1, none] (.singletons g),
      r.final.membersOf "Billing" = ["Billing", "CartController", "CartView", "PaymentGateway"] ∧
        (g.coupled.induce {x | x ∈ r.final.membersOf "Billing"}).Connected := by
  intro g
  have hrun : ∃ r ∈ (Rule.identification 7 (.ofNat 1)).runAll g [some 1, none] (.singletons g),
      "Billing" ∈ r.final.keys ∧
        r.final.membersOf "Billing" =
          ["Billing", "CartController", "CartView", "PaymentGateway"] := by
    decide +kernel
  obtain ⟨r, hr, hkey, hmembers⟩ := hrun
  have h := (runAll_shows_cohesive (.identification 7 (.ofNat 1)) g [some 1, none] r hr).2
  exact ⟨r, hr, hmembers, h.2.connected "Billing" hkey⟩

end Rule

end ModuleRecovery
