import ModuleRecovery.Proofs.Attempts
import ModuleRecovery.Proofs.Trace

/-!
What those who watch a run are told of it. A run tells of each merge together with the clusters
just after it, and last of the reason to stop. Main statement: what is told is an exact account of
the outcome, it reaches every listener of an audience, however deeply grouped, in the order in
which it is told, and an analysis tells of its two runs one after the other.
-/

namespace ModuleRecovery

/-! ## Accounts of a run -/

/-- What was told is an account of a run from `start`: each merge as the outcome has it, with the
clusters that this merge and those before it lead to, and then nothing but the end. -/
structure Recounts (told : List Event) (start : Clusters) (outcome : Outcome) (final : Clusters) :
    Prop where
  length_eq : told.length = outcome.steps.length + 1
  merged : ∀ (i : Nat) (hi : i < outcome.steps.length), ∃ after,
    start.replay (outcome.steps.take (i + 1)) = .ok after ∧
      told[i]? = some (.merged outcome.steps[i] after)
  replay_eq : start.replay outcome.steps = .ok final
  stopped : told[outcome.steps.length]? = some (.stopped outcome.stop final)

namespace Rule

variable {rule : Rule} {g : CouplingGraph} {made : Nat} {c final : Clusters}

/-- The clusters recorded with the last merge of a path are those that it leads to. -/
theorem Path.final_eq {merges : List (MergeStep × Clusters)} {m : MergeStep × Clusters}
    (path : rule.Path g made c (merges ++ [m]) final) : final = m.2 := by
  obtain ⟨before, -, hlast⟩ := path.split
  cases hlast with
  | cons _ hrest =>
      cases hrest with
      | nil => rfl

/-- Making the first merges of a path again leads to the clusters recorded with the last of
them. -/
theorem Path.replay_take {merges : List (MergeStep × Clusters)}
    (path : rule.Path g made c merges final) {i : Nat} (hi : i < merges.length) :
    c.replay ((merges.map Prod.fst).take (i + 1)) = .ok merges[i].2 := by
  have hsplit : merges = merges.take (i + 1) ++ merges.drop (i + 1) :=
    (List.take_append_drop (i + 1) merges).symm
  rw [hsplit] at path
  obtain ⟨middle, hfirst, -⟩ := path.split
  have hreplay := hfirst.replay
  rw [List.take_add_one, List.getElem?_eq_getElem hi] at hfirst
  rw [hfirst.final_eq, List.map_take] at hreplay
  exact hreplay

theorem recounts_events_run (rule : Rule) (g : CouplingGraph) (budget : Option Nat)
    (start : Clusters) :
    let r := rule.run g budget start
    Recounts r.events start r.outcome r.final := by
  intro r
  have path : rule.Path g 0 start r.merges r.final := rule.path_run g budget start
  constructor
  case length_eq => simp [Run.events, Run.outcome]
  case merged =>
    intro i hi
    have hi' : i < r.merges.length := by simpa [Run.outcome] using hi
    refine ⟨r.merges[i].2, path.replay_take hi', ?_⟩
    simp [Run.events, Run.outcome, List.getElem?_append_left, hi']
  case replay_eq => exact path.replay
  case stopped => simp [Run.events, Run.outcome]

end Rule

/-! ## Audiences -/

namespace Audience

variable {α : Type}

mutual

/-- All listeners, from left to right. -/
def listeners : Audience α → List α
  | .listener name => [name]
  | .silent => []
  | .group members => listenersAll members

def listenersAll : List (Audience α) → List α
  | [] => []
  | a :: rest => listeners a ++ listenersAll rest

end

/-- What one listener has heard of all that was delivered. -/
def heardBy [DecidableEq α] (name : α) (delivered : List (α × Event)) : List Event :=
  delivered.filterMap fun (hearer, event) => if hearer = name then some event else none

mutual

/-- An event is delivered once to each listener, from left to right. -/
theorem deliver_eq (event : Event) (audience : Audience α) :
    audience.deliver event = audience.listeners.map fun name => (name, event) := by
  cases audience with
  | listener name => rfl
  | silent => rfl
  | group members => exact deliverAll_eq event members

theorem deliverAll_eq (event : Event) (members : List (Audience α)) :
    deliverAll event members = (listenersAll members).map fun name => (name, event) := by
  cases members with
  | nil => rfl
  | cons a rest =>
      rw [deliverAll, deliver_eq event a, deliverAll_eq event rest, listenersAll, List.map_append]

end

theorem announce_eq (audience : Audience α) (events : List Event) :
    audience.announce events =
      events.flatMap fun event => audience.listeners.map fun name => (name, event) := by
  simp only [announce, deliver_eq]

theorem heardBy_map [DecidableEq α] (name : α) (hearers : List α) (event : Event) :
    heardBy name (hearers.map fun hearer => (hearer, event)) =
      List.replicate (hearers.count name) event := by
  induction hearers with
  | nil => rfl
  | cons hearer rest ih =>
      by_cases h : hearer = name
      · simpa [heardBy, h, List.replicate_succ] using ih
      · simpa [heardBy, h] using ih

/-- Each listener hears every event as often as it stands in the audience. -/
theorem heardBy_announce [DecidableEq α] (audience : Audience α) (name : α) (events : List Event) :
    heardBy name (audience.announce events) =
      events.flatMap (List.replicate (audience.listeners.count name)) := by
  rw [announce_eq]
  induction events with
  | nil => rfl
  | cons event events ih =>
      have hfirst := heardBy_map name audience.listeners event
      rw [List.flatMap_cons, List.flatMap_cons, ← hfirst, ← ih]
      exact List.filterMap_append

end Audience

/-- Those who watch see exactly the run. Whatever the rule, the graph, the budget and the clusters
at the start, what has been told when a run is over is an account of its outcome. In any audience
each event reaches all listeners from left to right before the next one does, so that each of them
hears this very account. An analysis with valid settings tells of the hierarchical run and then of
the module identification, which again starts from one cluster for each class. -/
theorem listeners_hear_exactly_the_run :
    (∀ (rule : Rule) (g : CouplingGraph) (budget : Option Nat) (start : Clusters) (passes : Nat),
      let r := rule.run g budget start
      r.outcome.mergeCount < passes →
      ∃ told, rule.attempt g budget passes 0 start = some ⟨told, .ok r⟩ ∧
        Recounts told start r.outcome r.final) ∧
    (∀ (α : Type) [DecidableEq α] (audience : Audience α) (events : List Event),
      audience.announce events =
          events.flatMap (fun event => audience.listeners.map fun name => (name, event)) ∧
        (∀ name, Audience.heardBy name (audience.announce events) =
          events.flatMap (List.replicate (audience.listeners.count name))) ∧
        (audience.listeners.Nodup → ∀ name ∈ audience.listeners,
          Audience.heardBy name (audience.announce events) = events)) ∧
    ∀ (callGraph : CallGraph) (settings : Settings) (passes : Nat), ¬settings.IsInvalid →
      let start := Clusters.singletons callGraph.couplingGraph
      callGraph.couplingGraph.classCount < passes →
      ∃ analysis toldFirst toldThen,
        callGraph.attempt settings passes = some ⟨toldFirst ++ toldThen, .ok analysis⟩ ∧
        callGraph.analyze settings = .ok analysis ∧
        Recounts toldFirst start analysis.report.hierarchical.outcome analysis.clustering.final ∧
        Recounts toldThen start analysis.report.modules.outcome analysis.identification.final := by
  refine ⟨?_, ?_, ?_⟩
  · intro rule g budget start passes r hpasses
    refine ⟨r.events, ?_, rule.recounts_events_run g budget start⟩
    rw [Rule.attempt_run]
    exact if_pos hpasses
  · intro α _ audience events
    refine ⟨audience.announce_eq events, fun name => audience.heardBy_announce name events, ?_⟩
    intro hnodup name hname
    rw [audience.heardBy_announce, List.count_eq_one_of_mem hnodup hname]
    exact List.flatMap_singleton' events
  · intro callGraph settings passes hvalid start hpasses
    have hok : settings.validate = .ok () := Settings.validate_eq_ok_iff.2 hvalid
    obtain ⟨analysis, hanalyze, hattempt⟩ := CallGraph.attempt_of_ok hok hpasses
    have hruns := hanalyze.symm.trans (callGraph.analyze_of_ok hok)
    cases hruns
    exact ⟨_, _, _, hattempt, hanalyze, Rule.recounts_events_run _ _ _ _,
      Rule.recounts_events_run _ _ _ _⟩

theorem listeners_hear_exactly_the_run_layeredShop :
    let shop := CallGraph.Samples.layeredShop
    let g := shop.couplingGraph
    let start := Clusters.singletons g
    let rule := Rule.identification 7 (.ofNat 1)
    let r := rule.run g none start
    let audience : Audience String :=
      .group [.listener "trace", .group [.silent, .group [.listener "count"]], .listener "screen"]
    (r.outcome.mergeCount = 4 ∧
      ∃ told, rule.attempt g none 5 0 start = some ⟨told, .ok r⟩ ∧
        Recounts told start r.outcome r.final ∧
        ∀ name ∈ ["trace", "count", "screen"],
          Audience.heardBy name (audience.announce told) = told) ∧
    (¬Settings.standard.IsInvalid ∧ g.classCount < 8 ∧
      ∃ analysis toldFirst toldThen,
        shop.attempt .standard 8 = some ⟨toldFirst ++ toldThen, .ok analysis⟩ ∧
        Recounts toldFirst start analysis.report.hierarchical.outcome analysis.clustering.final ∧
        Recounts toldThen start analysis.report.modules.outcome analysis.identification.final) := by
  intro shop g start rule r audience
  have hcount : r.outcome.mergeCount = 4 := by decide +kernel
  have hvalid : ¬Settings.standard.IsInvalid := Settings.validate_eq_ok_iff.1 (by decide +kernel)
  have hpasses : g.classCount < 8 := by decide +kernel
  have hnodup : audience.listeners.Nodup := by decide
  obtain ⟨hruns, haudiences, hanalyses⟩ := listeners_hear_exactly_the_run
  obtain ⟨told, hattempt, haccount⟩ := hruns rule g none start 5 (hcount ▸ by decide)
  obtain ⟨-, -, hheard⟩ := haudiences String audience told
  obtain ⟨analysis, toldFirst, toldThen, hanalysis, -, hfirst, hthen⟩ :=
    hanalyses shop .standard 8 hvalid hpasses
  exact ⟨⟨hcount, told, hattempt, haccount, hheard hnodup⟩,
    hvalid, hpasses, analysis, toldFirst, toldThen, hanalysis, hfirst, hthen⟩

end ModuleRecovery
