import ModuleRecovery.CallGraph.Samples
import ModuleRecovery.Coupling
import ModuleRecovery.Proofs.Components
import ModuleRecovery.Proofs.Rounding

/-!
Rules that differ in when they stop, and not in what they merge. A run under the stricter of two
rules makes the first merges of a run under the looser one, so its clusters are parts of the
clusters there. Main statement: module identification makes the first merges of hierarchical
clustering, and all of them where neither its bound nor its minimum can stop it.
-/

namespace ModuleRecovery

/-- The step without the average that only some rules look at. -/
def MergeStep.withoutAverage (step : MergeStep) : MergeStep := { step with average := none }

namespace Clusters

variable {c d e : Clusters} {g : CouplingGraph} {classes : Set ClassName}

/-- Each cluster lies within one of the other clusters. -/
def Finer (c d : Clusters) : Prop :=
  ∀ key ∈ c.keys, ∃ key' ∈ d.keys, c.memberSet key ⊆ d.memberSet key'

theorem Finer.refl (c : Clusters) : c.Finer c := by
  intro key hkey
  exact ⟨key, hkey, subset_rfl⟩

theorem Finer.trans (hcd : c.Finer d) (hde : d.Finer e) : c.Finer e := by
  intro key hkey
  obtain ⟨key', hkey', hsub⟩ := hcd key hkey
  obtain ⟨key'', hkey'', hsub'⟩ := hde key' hkey'
  exact ⟨key'', hkey'', hsub.trans hsub'⟩

theorem finer_join {p : Candidate} (hp : c.IsClosest g p) : c.Finer (c.join p.keep p.absorb) := by
  have hne := hp.keep_lt.ne
  have hkeep : p.keep ∈ (c.join p.keep p.absorb).keys :=
    (mem_keys_join hp.keep_mem hne).2 ⟨hp.keep_mem, hne⟩
  intro key hkey
  by_cases hk : key = p.keep
  · subst hk
    refine ⟨p.keep, hkeep, ?_⟩
    rw [memberSet_join_keep]
    exact Set.subset_union_left
  · by_cases ha : key = p.absorb
    · subst ha
      refine ⟨p.keep, hkeep, ?_⟩
      rw [memberSet_join_keep]
      exact Set.subset_union_right
    · refine ⟨key, (mem_keys_join hp.keep_mem hne).2 ⟨hkey, ha⟩, ?_⟩
      rw [memberSet_join_of_ne hk ha]

/-- Of two partitions of the same classes, the clusters of the coarser one are made of those of
the finer one. -/
theorem Finer.memberSet_eq (h : c.Finer d) (hc : c.IsPartition classes) (hd : d.IsPartition classes)
    (key : ClassName) :
    d.memberSet key =
      ⋃ part ∈ {part | part ∈ c.keys ∧ c.memberSet part ⊆ d.memberSet key}, c.memberSet part := by
  ext x
  simp only [Set.mem_iUnion, exists_prop, Set.mem_ofPred_eq]
  constructor
  · intro hx
    have hclass : x ∈ classes := (hd.mem_iff x).2 ⟨key, hx⟩
    obtain ⟨part, hpart⟩ := (hc.mem_iff x).1 hclass
    have hlive := mem_keys_of_mem hpart
    obtain ⟨key', -, hsub⟩ := h part hlive
    have hkey : key' = key := hd.unique (hsub hpart) hx
    exact ⟨part, ⟨hlive, hkey ▸ hsub⟩, hpart⟩
  · rintro ⟨part, ⟨-, hsub⟩, hx⟩
    exact hsub hx

/-- A cluster with a member lies within one cluster only. -/
theorem Finer.existsUnique (h : c.Finer d) (hd : d.IsPartition classes) {key x : ClassName}
    (hkey : key ∈ c.keys) (hx : x ∈ c.memberSet key) :
    ∃! key', key' ∈ d.keys ∧ c.memberSet key ⊆ d.memberSet key' := by
  obtain ⟨key', hkey', hsub⟩ := h key hkey
  refine ⟨key', ⟨hkey', hsub⟩, ?_⟩
  rintro other ⟨-, hother⟩
  exact hd.unique (hother hx) (hsub hx)

end Clusters

namespace Rule

variable {strict loose : Rule} {g : CouplingGraph} {made : Nat} {c final : Clusters}
variable {γ : Type} {view : MergeStep → γ}

theorem Path.finer {rule : Rule} {merges : List (MergeStep × Clusters)}
    (path : rule.Path g made c merges final) : c.Finer final := by
  induction path with
  | nil => exact .refl _
  | cons haccepts _ ih => exact (Clusters.finer_join haccepts.isClosest).trans ih

/-- The looser rule accepts whatever the stricter rule accepts, and writes down the same as far
as it is viewed. -/
structure Stricter (strict loose : Rule) (g : CouplingGraph) (view : MergeStep → γ) : Prop where
  accepts : ∀ {c pair}, strict.Accepts g c pair → loose.Accepts g c pair
  view_record : ∀ made c pair,
    view (loose.record g made c pair) = view (strict.record g made c pair)

/-- The looser rule can go every way that the stricter one goes. -/
theorem Path.loosen (h : strict.Stricter loose g view) {merges : List (MergeStep × Clusters)}
    (path : strict.Path g made c merges final) :
    ∃ merges', loose.Path g made c merges' final ∧
      merges'.map (fun m => view m.1) = merges.map fun m => view m.1 := by
  induction path with
  | nil made c => exact ⟨[], .nil made c, rfl⟩
  | cons haccepts _ ih =>
      obtain ⟨merges', path', hviews⟩ := ih
      refine ⟨_, .cons (h.accepts haccepts) path', ?_⟩
      rw [List.map_cons, List.map_cons, hviews, h.view_record]

/-- Under the looser rule and a budget that is no smaller, a run makes the merges of the stricter
run first and goes on from there. -/
theorem Stricter.run_eq (h : strict.Stricter loose g view) {budget wider : Option Nat}
    (hbudget : ∀ b, wider = some b → ∃ b', budget = some b' ∧ b' ≤ b) (c : Clusters) :
    ∃ rest,
      loose.Path g (strict.run g budget c).outcome.mergeCount (strict.run g budget c).final rest
        (loose.run g wider c).final ∧
      (loose.run g wider c).outcome.steps.map view =
        (strict.run g budget c).outcome.steps.map view ++ rest.map fun m => view m.1 := by
  let cut := strict.run g budget c
  obtain ⟨merges, path, hviews⟩ := (strict.path_run g budget c).loosen h
  have hlength : merges.length = cut.outcome.mergeCount := by
    have hlengths := congrArg List.length hviews
    rw [mergeCount_run]
    simpa only [List.length_map] using hlengths
  have hroom : ∀ b, wider = some b → 0 + merges.length ≤ b := by
    intro b hb
    obtain ⟨b', rfl, hle⟩ := hbudget b hb
    have hcut : cut.outcome.mergeCount ≤ b' := strict.mergeCount_run_le g c b'
    omega
  let rest := loose.runFrom g wider cut.outcome.mergeCount cut.final
  have hrun : loose.run g wider c = ⟨merges ++ rest.merges, rest.stop, rest.final⟩ := by
    have heq := path.runFrom_eq hroom
    rw [Nat.zero_add, hlength] at heq
    exact heq
  refine ⟨rest.merges, ?_, ?_⟩
  · rw [hrun]
    exact loose.path_runFrom g wider _ _
  · rw [hrun]
    simp only [Run.outcome, List.map_append, List.map_map, Function.comp_def, hviews]

/-- Of two rules that accept the same, each under the same budget, runs end in the same clusters. -/
theorem Stricter.run_eq_of_stricter {back : MergeStep → γ} (h : strict.Stricter loose g view)
    (h' : loose.Stricter strict g back) (budget : Option Nat) (c : Clusters) :
    (loose.run g budget c).outcome.steps.map view =
        (strict.run g budget c).outcome.steps.map view ∧
      (loose.run g budget c).final = (strict.run g budget c).final := by
  have hbudget : ∀ b, budget = some b → ∃ b', budget = some b' ∧ b' ≤ b :=
    fun b hb => ⟨b, hb, le_rfl⟩
  obtain ⟨rest, path, hsteps⟩ := h.run_eq hbudget c
  obtain ⟨rest', -, hsteps'⟩ := h'.run_eq hbudget c
  have hlength := congrArg List.length hsteps
  have hlength' := congrArg List.length hsteps'
  simp only [List.length_map, List.length_append] at hlength hlength'
  have hnil : rest = [] := List.length_eq_zero_iff.1 (by omega)
  subst hnil
  refine ⟨by simpa using hsteps, ?_⟩
  generalize (loose.run g budget c).final = final at path
  cases path
  rfl

/-! ## Module identification and hierarchical clustering -/

theorem modules_stricter_hierarchical (g : CouplingGraph) (bound : Nat) (minimum : Binary64) :
    (Rule.modules bound minimum).Stricter .hierarchical g MergeStep.withoutAverage where
  accepts := by
    intro c pair h
    have hp := h.isClosest
    refine ⟨?_, h.closest, by simp⟩
    by_contra hsize
    have hone := Clusters.size_le_one_iff.1 (Nat.not_lt.1 hsize)
    exact hp.keep_lt.ne (hone _ hp.keep_mem _ hp.absorb_mem)
  view_record := by
    intro made c pair
    rfl

/-- No average is below a minimum that is at most zero or not a number. -/
theorem not_averageCoupling_lt (g : CouplingGraph) (members : List ClassName)
    {minimum : Binary64} (h : minimum ≤ .zero ∨ minimum = .nan) :
    ¬g.averageCoupling members < minimum := by
  apply Binary64.not_lt_of_zero_le _ h
  simp only [CouplingGraph.averageCoupling]
  split
  · decide
  · exact Binary64.zero_le_quotient _ _

theorem hierarchical_stricter_modules (g : CouplingGraph) {bound : Nat} {minimum : Binary64}
    (hbound : bound ≤ 1) (hminimum : minimum ≤ .zero ∨ minimum = .nan) :
    Rule.hierarchical.Stricter (.modules bound minimum) g MergeStep.withoutAverage where
  accepts := by
    intro c pair h
    refine ⟨hbound.trans_lt h.bound_lt, h.closest, ?_⟩
    rintro _ _ ⟨⟩
    exact not_averageCoupling_lt g _ hminimum
  view_record := by
    intro made c pair
    rfl

theorem Path.map_withoutAverage {merges : List (MergeStep × Clusters)}
    (path : Rule.hierarchical.Path g made c merges final) :
    (merges.map Prod.fst).map MergeStep.withoutAverage = merges.map Prod.fst := by
  induction path with
  | nil => rfl
  | cons _ _ ih =>
      rw [List.map_cons, List.map_cons, ih]
      rfl

/-- Module identification makes the first merges of hierarchical clustering under the same
budget. So each module lies within one cluster, and each cluster is made of modules. If at most
one class is counted on and the minimum rejects nothing, both make the same merges and end in the
same clusters. -/
theorem identification_prefix_hierarchical (g : CouplingGraph) (totalClasses : Nat)
    (minimum : Binary64) (budget : Option Nat) :
    let modules := (Rule.identification totalClasses minimum).run g budget (.singletons g)
    let whole := Rule.hierarchical.run g budget (.singletons g)
    modules.outcome.steps.map .withoutAverage <+: whole.outcome.steps ∧
    (∀ key ∈ modules.final.keys, ∃! key', key' ∈ whole.final.keys ∧
      modules.final.memberSet key ⊆ whole.final.memberSet key') ∧
    (∀ key' ∈ whole.final.keys, ∃ parts : Set ClassName,
      (∀ key ∈ parts, key ∈ modules.final.keys) ∧
      whole.final.memberSet key' = ⋃ key ∈ parts, modules.final.memberSet key) ∧
    (totalClasses ≤ 1 → (minimum ≤ .zero ∨ minimum = .nan) →
      modules.outcome.steps.map .withoutAverage = whole.outcome.steps ∧
        modules.final = whole.final) := by
  intro modules whole
  have hstricter := modules_stricter_hierarchical g (moduleBound totalClasses) minimum
  have hwhole : whole.outcome.steps.map .withoutAverage = whole.outcome.steps :=
    (Rule.hierarchical.path_run g budget (.singletons g)).map_withoutAverage
  obtain ⟨hpart, hcohesive⟩ := ((Rule.identification totalClasses minimum).path_run g budget
    (.singletons g)).cohesive
  obtain ⟨hpart', -⟩ := (Rule.hierarchical.path_run g budget (.singletons g)).cohesive
  obtain ⟨rest, path, hsteps⟩ := hstricter.run_eq (fun b hb => ⟨b, hb, le_rfl⟩) (.singletons g)
  have hfiner : modules.final.Finer whole.final := path.finer
  refine ⟨?_, ?_, ?_, ?_⟩
  · rw [← hwhole]
    exact ⟨_, hsteps.symm⟩
  · intro key hkey
    exact hfiner.existsUnique hpart' hkey (hcohesive.least key hkey).1
  · intro key' _
    exact ⟨_, fun key hkey => hkey.1, hfiner.memberSet_eq hpart hpart' key'⟩
  · intro hclasses hminimum
    have hbound : moduleBound totalClasses ≤ 1 := by
      unfold moduleBound
      omega
    have hback := hierarchical_stricter_modules g hbound hminimum
    obtain ⟨hsame, hfinal⟩ := hstricter.run_eq_of_stricter hback budget (.singletons g)
    exact ⟨hsame.symm.trans hwhole, hfinal.symm⟩

theorem identification_prefix_hierarchical_layeredShop :
    let g := CallGraph.Samples.layeredShop.couplingGraph
    let modules := (Rule.identification 1 .zero).run g none (.singletons g)
    let whole := Rule.hierarchical.run g none (.singletons g)
    1 ≤ 1 ∧ Binary64.zero ≤ Binary64.zero ∧
      modules.outcome.steps.map .withoutAverage = whole.outcome.steps ∧
      modules.final = whole.final := by
  intro g modules whole
  have hzero : Binary64.zero ≤ Binary64.zero := by decide
  have hsame := (identification_prefix_hierarchical g 1 .zero none).2.2.2 le_rfl (Or.inl hzero)
  exact ⟨le_rfl, hzero, hsame⟩

end Rule

end ModuleRecovery
