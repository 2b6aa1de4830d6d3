import ModuleRecovery.CallGraph.Samples
import ModuleRecovery.Proofs.Rejections
import ModuleRecovery.Proofs.Renaming

/-!
Names break ties and do nothing else. Under other names a run sees the same couplings, so where no
two pairs are equally strong it merges the images of the same clusters, only known by other keys
perhaps; and where names stay in order so do keys and pairs, ties included. Main statement: runs
under other names mirror each other event by event as long as one pair alone is strongest, and they
are the same runs renamed if the renaming is increasing.
-/

namespace ModuleRecovery

namespace Clusters

/-- One pair of clusters is more strongly coupled than every other pair. -/
def HasOneStrongest (c : Clusters) (g : CouplingGraph) : Prop :=
  ∃ a ∈ c.keys, ∃ b ∈ c.keys, a < b ∧
    ∀ x ∈ c.keys, ∀ y ∈ c.keys, x < y → (x, y) ≠ (a, b) →
      c.interCoupling g x y < c.interCoupling g a b

instance (c : Clusters) (g : CouplingGraph) : Decidable (c.HasOneStrongest g) :=
  inferInstanceAs (Decidable (∃ a ∈ c.keys, ∃ b ∈ c.keys, _))

/-- The clusters are the images of the others, by whatever keys. -/
def IsImage (f : ClassName → ClassName) (c c' : Clusters) : Prop :=
  {s | ∃ key ∈ c'.keys, s = c'.memberSet key} = {s | ∃ key ∈ c.keys, s = f '' c.memberSet key}

/-- The second two clusters are the images of the first two, in either order. -/
def IsImagePair (f : ClassName → ClassName) (c c' : Clusters) (a b a' b' : ClassName) : Prop :=
  c'.memberSet a' = f '' c.memberSet a ∧ c'.memberSet b' = f '' c.memberSet b ∨
    c'.memberSet a' = f '' c.memberSet b ∧ c'.memberSet b' = f '' c.memberSet a

theorem HasOneStrongest.pair_eq {c : Clusters} {g : CouplingGraph} {p : Candidate}
    (h : c.HasOneStrongest g) (hp : c.IsClosest g p) {x y : ClassName} (hx : x ∈ c.keys)
    (hy : y ∈ c.keys) (hlt : x < y) (hcoupling : c.interCoupling g x y = p.coupling) :
    x = p.keep ∧ y = p.absorb := by
  obtain ⟨a, ha, b, hb, hab, hmax⟩ := h
  have honly {x y : ClassName} (hx : x ∈ c.keys) (hy : y ∈ c.keys) (hlt : x < y)
      (hcoupling : c.interCoupling g x y = p.coupling) : x = a ∧ y = b := by
    by_contra hne
    have hless := hmax x hx y hy hlt fun heq => hne (Prod.mk.inj heq)
    have hle := hp.coupling_max a ha b hb hab.ne
    omega
  obtain ⟨hka, hab'⟩ := honly hp.keep_mem hp.absorb_mem hp.keep_lt hp.coupling_eq.symm
  obtain ⟨hxa, hyb⟩ := honly hx hy hlt hcoupling
  exact ⟨hxa.trans hka.symm, hyb.trans hab'.symm⟩

namespace Mirrors

variable {f κ : ClassName → ClassName} {c c' : Clusters} {g : CouplingGraph} {p : Candidate}
  {a b a' b' : ClassName}

theorem isImage (m : c.Mirrors f κ c') : c.IsImage f c' := by
  ext s
  constructor
  · rintro ⟨key', hkey', rfl⟩
    obtain ⟨key, hkey, rfl⟩ := (m.mem_keys_iff key').1 hkey'
    exact ⟨key, hkey, m.memberSet_eq key hkey⟩
  · rintro ⟨key, hkey, rfl⟩
    exact ⟨κ key, m.mem_keys hkey, (m.memberSet_eq key hkey).symm⟩

theorem isImagePair (m : c.Mirrors f κ c') (ha : a ∈ c.keys) (hb : b ∈ c.keys)
    (hpair : SamePair κ a b a' b') : c.IsImagePair f c' a b a' b' := by
  rcases hpair with ⟨rfl, rfl⟩ | ⟨rfl, rfl⟩
  · exact Or.inl ⟨m.memberSet_eq a ha, m.memberSet_eq b hb⟩
  · exact Or.inr ⟨m.memberSet_eq b hb, m.memberSet_eq a ha⟩

section Choice

variable (m : c.Mirrors f κ c') (hf : Set.InjOn f g.names) (hpart : c.IsPartition g.classSet)

include m hf hpart

theorem closestPair_eq_none (h : c.closestPair g = none) :
    c'.closestPair (g.rename f) = none := by
  rw [closestPair_eq_none_iff] at h ⊢
  intro a' ha' b' hb' hne
  obtain ⟨a, ha, rfl⟩ := (m.mem_keys_iff a').1 ha'
  obtain ⟨b, hb, rfl⟩ := (m.mem_keys_iff b').1 hb'
  rw [m.interCoupling_eq hf hpart ha hb]
  apply h a ha b hb
  rintro rfl
  exact hne rfl

/-- The closest of the images are the images of two clusters that are coupled as strongly as the
closest ones. -/
theorem exists_closest (hp : c.IsClosest g p) :
    ∃ p' x y, c'.closestPair (g.rename f) = some p' ∧ x ∈ c.keys ∧ y ∈ c.keys ∧ x ≠ y ∧
      p' = ⟨κ x, κ y, p.coupling⟩ ∧ c.interCoupling g x y = p.coupling := by
  have himage := m.interCoupling_eq hf hpart hp.keep_mem hp.absorb_mem
  have hdistinct : κ p.keep ≠ κ p.absorb :=
    mt (m.injOn hp.keep_mem hp.absorb_mem) hp.keep_lt.ne
  cases hpair : c'.closestPair (g.rename f) with
  | none =>
      have hzero := closestPair_eq_none_iff.1 hpair _ (m.mem_keys hp.keep_mem) _
        (m.mem_keys hp.absorb_mem) hdistinct
      have hpos := hp.coupling_pos
      rw [himage, ← hp.coupling_eq] at hzero
      omega
  | some p' =>
      have hp' := isClosest_of_closestPair hpair
      obtain ⟨x, hx, hkeep⟩ := (m.mem_keys_iff _).1 hp'.keep_mem
      obtain ⟨y, hy, habsorb⟩ := (m.mem_keys_iff _).1 hp'.absorb_mem
      have hne : x ≠ y := by
        rintro rfl
        exact hp'.keep_lt.ne (hkeep.symm.trans habsorb)
      have hxy : p'.coupling = c.interCoupling g x y := by
        rw [hp'.coupling_eq, ← hkeep, ← habsorb, m.interCoupling_eq hf hpart hx hy]
      have hle : p'.coupling ≤ p.coupling := hxy ▸ hp.coupling_max x hx y hy hne
      have hge : p.coupling ≤ p'.coupling := by
        have hmax := hp'.coupling_max _ (m.mem_keys hp.keep_mem) _ (m.mem_keys hp.absorb_mem)
          hdistinct
        rwa [himage, ← hp.coupling_eq] at hmax
      have heq : p'.coupling = p.coupling := le_antisymm hle hge
      refine ⟨p', x, y, rfl, hx, hy, hne, ?_, hxy.symm.trans heq⟩
      rw [hkeep, habsorb, ← heq]

/-- Where one pair is strongest alone, its image is. -/
theorem exists_samePair (hone : c.HasOneStrongest g) (hp : c.IsClosest g p) :
    ∃ p', c'.closestPair (g.rename f) = some p' ∧ p'.coupling = p.coupling ∧
      SamePair κ p.keep p.absorb p'.keep p'.absorb := by
  obtain ⟨p', x, y, hpair, hx, hy, hne, rfl, hxy⟩ := m.exists_closest hf hpart hp
  refine ⟨_, hpair, rfl, ?_⟩
  rcases lt_or_gt_of_ne hne with hlt | hlt
  · obtain ⟨rfl, rfl⟩ := hone.pair_eq hp hx hy hlt hxy
    exact Or.inl ⟨rfl, rfl⟩
  · rw [interCoupling_comm] at hxy
    obtain ⟨rfl, rfl⟩ := hone.pair_eq hp hy hx hlt hxy
    exact Or.inr ⟨rfl, rfl⟩

end Choice

end Mirrors

end Clusters

/-! ## Events that mirror each other -/

/-- The images of the same two clusters are merged, with the same numbers. -/
structure MergeStep.Mirrors (f : ClassName → ClassName) (c c' : Clusters)
    (step step' : MergeStep) : Prop where
  step_eq : step'.step = step.step
  pair : c.IsImagePair f c' step.kept step.absorbed step'.kept step'.absorbed
  coupling_eq : step'.coupling = step.coupling
  mergedSize_eq : step'.mergedSize = step.mergedSize
  average_eq : step'.average = step.average

/-- The reasons are the same, with the same numbers; a rejected merge is that of the images of the
same two clusters. -/
def StopReason.Mirrors (f : ClassName → ClassName) (c c' : Clusters) :
    StopReason → StopReason → Prop
  | .belowThreshold keep absorb average minimum,
      .belowThreshold keep' absorb' average' minimum' =>
        c.IsImagePair f c' keep absorb keep' absorb' ∧ average' = average ∧ minimum' = minimum
  | reason, reason' => reason' = reason

namespace Event

/-- Two clusters were looked at: they are merged, or their merge is rejected. -/
def ConcernsPair : Event → Prop
  | merged _ _ => True
  | stopped (.belowThreshold _ _ _ _) _ => True
  | stopped _ _ => False

instance (event : Event) : Decidable event.ConcernsPair := by
  unfold ConcernsPair
  split <;> infer_instance

def Mirrors (f : ClassName → ClassName) (c c' : Clusters) : Event → Event → Prop
  | merged step after, merged step' after' =>
      step.Mirrors f c c' step' ∧ after.IsImage f after'
  | stopped reason final, stopped reason' final' =>
      reason.Mirrors f c c' reason' ∧ final.IsImage f final'
  | _, _ => False

/-- Each event with the clusters before it. -/
def moments (c : Clusters) : List Event → List (Clusters × Event)
  | [] => []
  | event :: rest => (c, event) :: moments event.clusters rest

theorem moments_append (c : Clusters) (told : List Event) (event : Event) (rest : List Event) :
    moments c (told ++ [event] ++ rest) =
      moments c (told ++ [event]) ++ moments event.clusters rest := by
  induction told generalizing c with
  | nil => rfl
  | cons first told ih => exact congrArg _ (ih first.clusters)

end Event

theorem Run.moments_append (c : Clusters) (r : Run) (rest : List Event) :
    Event.moments c (r.events ++ rest) =
      Event.moments c r.events ++ Event.moments r.final rest :=
  Event.moments_append c _ (.stopped r.stop r.final) rest

namespace Rule

variable {rule : Rule} {f κ : ClassName → ClassName} {g : CouplingGraph} {budget : Option Nat}
  {made : Nat} {c c' : Clusters} {steps : List MergeStep} {pair pair' : Candidate}

/-! ## One move -/

section Move

variable (m : c.Mirrors f κ c') (hf : Set.InjOn f g.names) (hpart : c.IsPartition g.classSet)

include m hf hpart

/-- A rule takes the images of two clusters for what they are. -/
theorem Accepts.mirrored (h : rule.Accepts g c pair)
    (hpair : c'.closestPair (g.rename f) = some pair')
    (hsame : Clusters.SamePair κ pair.keep pair.absorb pair'.keep pair'.absorb) :
    rule.Accepts (g.rename f) c' pair' ∧
      rule.average? (g.rename f) c' pair' = rule.average? g c pair := by
  have hp := h.isClosest
  have haverage := m.mergedAverage_eq hf hpart hp.keep_mem hp.absorb_mem hsame
  refine ⟨⟨?_, hpair, ?_⟩, ?_⟩
  · rw [m.size_eq]
    exact h.bound_lt
  · intro bound minimum hrule
    rw [haverage]
    exact h.reaches_minimum bound minimum hrule
  · cases rule with
    | hierarchical => rfl
    | modules bound minimum => exact congrArg some haverage

theorem Accepts.sizeOf_mirrored (h : rule.Accepts g c pair)
    (hsame : Clusters.SamePair κ pair.keep pair.absorb pair'.keep pair'.absorb) :
    (c'.join pair'.keep pair'.absorb).sizeOf pair'.keep =
      (c.join pair.keep pair.absorb).sizeOf pair.keep := by
  have hp := h.isClosest
  have hjoin := m.join hp.keep_mem hp.absorb_mem hp.keep_lt.ne hsame
  have hkeep : pair.keep ∈ (c.join pair.keep pair.absorb).keys :=
    (Clusters.mem_keys_join hp.keep_mem hp.keep_lt.ne).2 ⟨hp.keep_mem, hp.keep_lt.ne⟩
  have hsize := hjoin.sizeOf_eq hf (hpart.join _ _) hkeep
  rwa [Function.update_self] at hsize

/-- A run stops at the images where it stops at the clusters. The reason is the same, except that
a rejected merge is known by the keys there. -/
theorem Stops.mirrored {reason : StopReason} (h : rule.Stops g budget made c reason) :
    (∀ keep absorb average minimum, reason ≠ .belowThreshold keep absorb average minimum) →
      rule.Stops (g.rename f) budget made c' reason := by
  intro hreason
  cases reason with
  | singleCluster => exact ⟨h.1, m.size_eq ▸ h.2⟩
  | moduleLimit bound => exact ⟨h.1, m.size_eq ▸ h.2⟩
  | stepBudget b => exact ⟨m.size_eq ▸ h.1, h.2⟩
  | noCoupling => exact ⟨m.size_eq ▸ h.1, h.2.1, m.closestPair_eq_none hf hpart h.2.2⟩
  | belowThreshold keep absorb average minimum => exact absurd rfl (hreason _ _ _ _)

theorem Stops.mirrored_rejection {average minimum : Binary64}
    (h : rule.Stops g budget made c (.belowThreshold pair.keep pair.absorb average minimum))
    (hkeep : pair.keep ∈ c.keys) (habsorb : pair.absorb ∈ c.keys)
    (hpair : c'.closestPair (g.rename f) = some pair')
    (hsame : Clusters.SamePair κ pair.keep pair.absorb pair'.keep pair'.absorb) :
    rule.Stops (g.rename f) budget made c'
      (.belowThreshold pair'.keep pair'.absorb average minimum) := by
  obtain ⟨hrule, hsize, hbudget, -, rfl, hlt⟩ := h
  have haverage := m.mergedAverage_eq hf hpart hkeep habsorb hsame
  exact ⟨hrule, m.size_eq ▸ hsize, hbudget, ⟨pair'.coupling, hpair⟩, haverage.symm, hlt⟩

end Move

/-! ## Runs without ties -/

section Tieless

variable (hf : Set.InjOn f g.names)

include hf

theorem Accepts.exists_mirrored (made : Nat) (m : c.Mirrors f κ c')
    (hpart : c.IsPartition g.classSet) (hone : c.HasOneStrongest g) (h : rule.Accepts g c pair) :
    ∃ pair', rule.Accepts (g.rename f) c' pair' ∧
      Clusters.SamePair κ pair.keep pair.absorb pair'.keep pair'.absorb ∧
      (rule.record g made c pair).Mirrors f c c' (rule.record (g.rename f) made c' pair') := by
  have hp := h.isClosest
  obtain ⟨pair', hpair, hcoupling, hsame⟩ := m.exists_samePair hf hpart hone hp
  obtain ⟨haccepts, haverage⟩ := h.mirrored m hf hpart hpair hsame
  refine ⟨pair', haccepts, hsame, ?_⟩
  exact
    { step_eq := rfl
      pair := m.isImagePair hp.keep_mem hp.absorb_mem hsame
      coupling_eq := hcoupling
      mergedSize_eq := h.sizeOf_mirrored m hf hpart hsame
      average_eq := haverage }

theorem Stops.exists_mirrored (m : c.Mirrors f κ c') (hpart : c.IsPartition g.classSet)
    {reason : StopReason} (hone : (Event.stopped reason c).ConcernsPair → c.HasOneStrongest g)
    (h : rule.Stops g budget made c reason) :
    ∃ reason', rule.Stops (g.rename f) budget made c' reason' ∧
      reason.Mirrors f c c' reason' := by
  by_cases hreason : ∃ keep absorb average minimum,
      reason = .belowThreshold keep absorb average minimum
  · obtain ⟨keep, absorb, average, minimum, rfl⟩ := hreason
    obtain ⟨coupling, hclosest⟩ := h.2.2.2.1
    have hp := Clusters.isClosest_of_closestPair hclosest
    obtain ⟨pair', hpair, -, hsame⟩ := m.exists_samePair hf hpart (hone trivial) hp
    exact ⟨_, h.mirrored_rejection m hf hpart hp.keep_mem hp.absorb_mem hpair hsame,
      m.isImagePair hp.keep_mem hp.absorb_mem hsame, rfl, rfl⟩
  · push Not at hreason
    refine ⟨reason, h.mirrored m hf hpart hreason, ?_⟩
    cases reason with
    | belowThreshold keep absorb average minimum => exact absurd rfl (hreason _ _ _ _)
    | _ => rfl

/-- Event by event, a run from the images mirrors a run in which one pair alone is strongest
whenever a pair is looked at. -/
theorem runFrom_mirrored (m : c.Mirrors f κ c')
    (hreaches : rule.Reaches g (.singletons g) steps c)
    (hone : ∀ moment ∈ Event.moments c (rule.runFrom g budget made c).events,
      moment.2.ConcernsPair → moment.1.HasOneStrongest g) :
    List.Forall₂ (fun moment moment' => moment.2.Mirrors f moment.1 moment'.1 moment'.2)
        (Event.moments c (rule.runFrom g budget made c).events)
        (Event.moments c' (rule.runFrom (g.rename f) budget made c').events) ∧
      ∃ κ', (rule.runFrom g budget made c).final.Mirrors f κ'
        (rule.runFrom (g.rename f) budget made c').final := by
  induction made, c using Rule.runFrom.induct rule g budget generalizing κ c' steps with
  | case1 made c reason hnext =>
      have hpart := hreaches.cohesive.1
      rw [runFrom_of_stop hnext] at hone ⊢
      obtain ⟨reason', hstops, hreason⟩ := (stops_of_next hnext).exists_mirrored hf m hpart
        (hone _ List.mem_cons_self)
      rw [runFrom_of_stop (next_of_stops hstops)]
      exact ⟨.cons ⟨hreason, m.isImage⟩ .nil, κ, m⟩
  | case2 made c pair average hnext hlt after =>
      rename_i ih
      have hpart := hreaches.cohesive.1
      obtain ⟨haccepts, -, hbudget⟩ := accepts_of_next hnext
      have hp := haccepts.isClosest
      rw [runFrom_of_merge hnext] at hone ⊢
      obtain ⟨hhere, hlater⟩ := List.forall_mem_cons.1 hone
      obtain ⟨pair', haccepts', hsame, hrecord⟩ :=
        haccepts.exists_mirrored hf made m hpart (hhere trivial)
      have hjoin := m.join hp.keep_mem hp.absorb_mem hp.keep_lt.ne hsame
      obtain ⟨hrest, hfinal⟩ := ih hjoin (hreaches.merge made haccepts) hlater
      rw [runFrom_of_merge (next_of_accepts haccepts' hbudget)]
      exact ⟨.cons ⟨hrecord, hjoin.isImage⟩ hrest, hfinal⟩

theorem runAll_mirrored (budgets : List (Option Nat)) (m : c.Mirrors f κ c')
    (hreaches : rule.Reaches g (.singletons g) steps c)
    (hone : ∀ moment ∈ Event.moments c ((rule.runAll g budgets c).flatMap (·.events)),
      moment.2.ConcernsPair → moment.1.HasOneStrongest g) :
    List.Forall₂ (fun moment moment' => moment.2.Mirrors f moment.1 moment'.1 moment'.2)
      (Event.moments c ((rule.runAll g budgets c).flatMap (·.events)))
      (Event.moments c' ((rule.runAll (g.rename f) budgets c').flatMap (·.events))) := by
  induction budgets generalizing κ c c' steps with
  | nil => exact .nil
  | cons budget budgets ih =>
      simp only [runAll, List.flatMap_cons, Run.moments_append] at hone ⊢
      obtain ⟨hfirst, hlater⟩ := List.forall_mem_append.1 hone
      obtain ⟨hevents, κ', hfinal⟩ := runFrom_mirrored hf m hreaches hfirst
      have hreaches' := (rule.path_run g budget c).reaches hreaches
      exact List.rel_append hevents (ih hfinal hreaches' hlater)

end Tieless

end Rule

/-! ## Names that stay in order -/

def Candidate.rename (f : ClassName → ClassName) (p : Candidate) : Candidate :=
  ⟨f p.keep, f p.absorb, p.coupling⟩

def MergeStep.rename (f : ClassName → ClassName) (step : MergeStep) : MergeStep :=
  { step with kept := f step.kept, absorbed := f step.absorbed }

def StopReason.rename (f : ClassName → ClassName) : StopReason → StopReason
  | belowThreshold keep absorb average minimum =>
      belowThreshold (f keep) (f absorb) average minimum
  | reason => reason

/-- The run with the image of each name in place of the name. -/
def Run.rename (f : ClassName → ClassName) (r : Run) : Run where
  merges := r.merges.map fun (step, after) => (step.rename f, after.rename f)
  stop := r.stop.rename f
  final := r.final.rename f

theorem Clusters.Mirrors.eq_rename {f : ClassName → ClassName} {c c' : Clusters}
    (m : c.Mirrors f f c') : c' = c.rename f :=
  m.eq (mirrors_rename m.injOn)

theorem Candidate.samePair_rename (f : ClassName → ClassName) (p : Candidate) :
    Clusters.SamePair f p.keep p.absorb (p.rename f).keep (p.rename f).absorb :=
  Or.inl ⟨rfl, rfl⟩

section Ordered

variable {rule : Rule} {f : ClassName → ClassName} {g : CouplingGraph} {budget : Option Nat}
  {made : Nat} {c c' : Clusters} {steps : List MergeStep} {pair : Candidate}
  (hf : StrictMonoOn f g.names)

include hf

/-- Pairs come in the same order, so the first of the strongest ones does not change. -/
theorem Clusters.Mirrors.closestPair_eq_rename (m : c.Mirrors f f c')
    (hpart : c.IsPartition g.classSet) (hcohesive : c.IsCohesive g) {p : Candidate}
    (h : c.closestPair g = some p) : c'.closestPair (g.rename f) = some (p.rename f) := by
  have hp := isClosest_of_closestPair h
  have hlt {a b : ClassName} (ha : a ∈ c.keys) (hb : b ∈ c.keys) : f a < f b ↔ a < b :=
    hf.lt_iff_lt (hcohesive.mem_names hpart ha) (hcohesive.mem_names hpart hb)
  have hcoupling {a b : ClassName} (ha : a ∈ c.keys) (hb : b ∈ c.keys) :
      c'.interCoupling (g.rename f) (f a) (f b) = c.interCoupling g a b :=
    m.interCoupling_eq hf.injOn hpart ha hb
  rw [closestPair_eq_some_iff]
  constructor
  case keep_mem => exact m.mem_keys hp.keep_mem
  case absorb_mem => exact m.mem_keys hp.absorb_mem
  case keep_lt => exact (hlt hp.keep_mem hp.absorb_mem).2 hp.keep_lt
  case coupling_eq => exact hp.coupling_eq.trans (hcoupling hp.keep_mem hp.absorb_mem).symm
  case coupling_pos => exact hp.coupling_pos
  case coupling_max =>
    intro a' ha' b' hb' hne
    obtain ⟨a, ha, rfl⟩ := (m.mem_keys_iff a').1 ha'
    obtain ⟨b, hb, rfl⟩ := (m.mem_keys_iff b').1 hb'
    rw [hcoupling ha hb]
    exact hp.coupling_max a ha b hb fun heq => hne (congrArg f heq)
  case first =>
    intro a' ha' b' hb' hab heq
    obtain ⟨a, ha, rfl⟩ := (m.mem_keys_iff a').1 ha'
    obtain ⟨b, hb, rfl⟩ := (m.mem_keys_iff b').1 hb'
    rw [hcoupling ha hb] at heq
    rcases hp.first a ha b hb ((hlt ha hb).1 hab) heq with hkeep | ⟨rfl, habsorb⟩
    · exact Or.inl ((hlt hp.keep_mem ha).2 hkeep)
    · exact Or.inr ⟨rfl, not_lt.1 (mt (hlt hb hp.absorb_mem).1 (not_lt.2 habsorb))⟩

namespace Rule

theorem Accepts.renamed (made : Nat) (m : c.Mirrors f f c') (hpart : c.IsPartition g.classSet)
    (hcohesive : c.IsCohesive g) (h : rule.Accepts g c pair) :
    rule.Accepts (g.rename f) c' (pair.rename f) ∧
      rule.record (g.rename f) made c' (pair.rename f) = (rule.record g made c pair).rename f := by
  have hsame := pair.samePair_rename f
  have hpair := m.closestPair_eq_rename hf hpart hcohesive h.closest
  obtain ⟨haccepts, haverage⟩ := h.mirrored m hf.injOn hpart hpair hsame
  have hsize := h.sizeOf_mirrored m hf.injOn hpart hsame
  refine ⟨haccepts, ?_⟩
  simp only [record, MergeStep.rename, haverage, hsize]
  rfl

theorem Stops.renamed (m : c.Mirrors f f c') (hpart : c.IsPartition g.classSet)
    (hcohesive : c.IsCohesive g) {reason : StopReason}
    (h : rule.Stops g budget made c reason) :
    rule.Stops (g.rename f) budget made c' (reason.rename f) := by
  cases reason with
  | belowThreshold keep absorb average minimum =>
      obtain ⟨coupling, hclosest⟩ := h.2.2.2.1
      have hp := Clusters.isClosest_of_closestPair hclosest
      have hpair := m.closestPair_eq_rename hf hpart hcohesive hclosest
      exact h.mirrored_rejection m hf.injOn hpart hp.keep_mem hp.absorb_mem hpair
        (Candidate.samePair_rename f _)
  | _ => exact h.mirrored m hf.injOn hpart (by simp)

theorem runFrom_renamed (m : c.Mirrors f f c')
    (hreaches : rule.Reaches g (.singletons g) steps c) :
    rule.runFrom (g.rename f) budget made c' = (rule.runFrom g budget made c).rename f := by
  induction made, c using Rule.runFrom.induct rule g budget generalizing c' steps with
  | case1 made c reason hnext =>
      obtain ⟨hpart, hcohesive⟩ := hreaches.cohesive
      have hstops := (stops_of_next hnext).renamed hf m hpart hcohesive
      rw [runFrom_of_stop hnext, runFrom_of_stop (next_of_stops hstops), m.eq_rename]
      rfl
  | case2 made c pair average hnext hlt after =>
      rename_i ih
      obtain ⟨hpart, hcohesive⟩ := hreaches.cohesive
      obtain ⟨haccepts, -, hbudget⟩ := accepts_of_next hnext
      have hp := haccepts.isClosest
      obtain ⟨haccepts', hrecord⟩ := haccepts.renamed hf made m hpart hcohesive
      have hjoin := m.join hp.keep_mem hp.absorb_mem hp.keep_lt.ne (pair.samePair_rename f)
      rw [show Function.update f pair.keep (pair.rename f).keep = f from
        Function.update_eq_self pair.keep f] at hjoin
      have hafter := hjoin.eq_rename
      have hrest := ih hjoin (hreaches.merge made haccepts)
      rw [hafter] at hrest
      rw [runFrom_of_merge hnext, runFrom_of_merge (next_of_accepts haccepts' hbudget), hrecord]
      simp only [hafter, hrest]
      rfl

theorem runAll_renamed (budgets : List (Option Nat)) (m : c.Mirrors f f c')
    (hreaches : rule.Reaches g (.singletons g) steps c) :
    rule.runAll (g.rename f) budgets c' = (rule.runAll g budgets c).map (.rename f) := by
  induction budgets generalizing c c' steps with
  | nil => rfl
  | cons budget budgets ih =>
      have hfirst : rule.run (g.rename f) budget c' = (rule.run g budget c).rename f :=
        runFrom_renamed hf m hreaches
      have hreaches' := (rule.path_run g budget c).reaches hreaches
      have hfinal : (rule.run g budget c).final.Mirrors f f
          (rule.run (g.rename f) budget c').final := by
        obtain ⟨hpart, hcohesive⟩ := hreaches'.cohesive
        rw [hfirst]
        exact Clusters.mirrors_rename
          (hf.injOn.mono fun key hkey => hcohesive.mem_names hpart hkey)
      rw [runAll, runAll, List.map_cons, ih hfinal hreaches', hfirst]

end Rule

end Ordered

/-- Names matter for ties only. Where on a graph one pair of clusters alone is strongest whenever a
pair is looked at, all runs on the graph under other names tell of the same events: the images of
the same two clusters are merged, or their merge is rejected, with the same numbers, the clusters
are the images of the clusters, and the reasons to stop are the same. If the names stay in order,
runs on the renamed graph are the runs on the graph renamed, ties or no ties. -/
theorem names_break_ties_only (rule : Rule) (g : CouplingGraph) (f : ClassName → ClassName)
    (budgets : List (Option Nat)) :
    let start := Clusters.singletons g
    let start' := Clusters.singletons (g.rename f)
    let runs := rule.runAll g budgets start
    let runs' := rule.runAll (g.rename f) budgets start'
    (Set.InjOn f g.names →
      (∀ moment ∈ Event.moments start (runs.flatMap (·.events)),
        moment.2.ConcernsPair → moment.1.HasOneStrongest g) →
      List.Forall₂ (fun moment moment' => moment.2.Mirrors f moment.1 moment'.1 moment'.2)
        (Event.moments start (runs.flatMap (·.events)))
        (Event.moments start' (runs'.flatMap (·.events)))) ∧
    (StrictMonoOn f g.names → runs' = runs.map (.rename f)) := by
  intro start start' runs runs'
  constructor
  · intro hf hone
    exact Rule.runAll_mirrored hf budgets (Clusters.mirrors_singletons hf) .start hone
  · intro hf
    exact Rule.runAll_renamed hf budgets (Clusters.mirrors_singletons hf.injOn) .start

theorem strictMono_append_right (pre : String) : StrictMono fun name => pre ++ name := by
  intro a b hlt
  rw [String.lt_iff_toList_lt] at hlt
  change pre ++ a < pre ++ b
  rw [String.lt_iff_toList_lt, String.toList_append, String.toList_append]
  exact List.Lex.append_left _ hlt pre.toList

/-- The triangle with two of its names exchanged, and the shop in a package. In the triangle the
image of the class that is kept comes second, so it is absorbed. -/
theorem names_break_ties_only_triangle_and_shop :
    let f := Equiv.swap "A" "C"
    let g := Rule.triangleAndPair
    let rule := Rule.identification g.classCount (.quotient 3 2)
    let start := Clusters.singletons g
    let start' := Clusters.singletons (g.rename f)
    let events := (rule.runAll g [some 1, none] start).flatMap (·.events)
    let events' := (rule.runAll (g.rename f) [some 1, none] start').flatMap (·.events)
    let shop := CallGraph.Samples.layeredShop.couplingGraph
    let packed := shop.rename fun name => "shop." ++ name
    (∀ moment ∈ Event.moments start events,
      moment.2.ConcernsPair → moment.1.HasOneStrongest g) ∧
    List.Forall₂ (fun moment moment' => moment.2.Mirrors f moment.1 moment'.1 moment'.2)
      (Event.moments start events) (Event.moments start' events') ∧
    (events.filterMap (·.step?)).map (·.kept) = ["A"] ∧
    (events'.filterMap (·.step?)).map (·.kept) = ["B"] ∧
    rule.runAll packed [none] (.singletons packed) =
      (rule.runAll shop [none] (.singletons shop)).map (.rename fun name => "shop." ++ name) := by
  intro f g rule start start' events events' shop packed
  have hone : ∀ moment ∈ Event.moments start events,
      moment.2.ConcernsPair → moment.1.HasOneStrongest g := by
    decide +kernel
  have hmirrored := (names_break_ties_only rule g f [some 1, none]).1 f.injective.injOn hone
  have hpacked := (names_break_ties_only rule shop _ [none]).2
    ((strictMono_append_right "shop.").strictMonoOn shop.names)
  exact ⟨hone, hmirrored, by decide +kernel, by decide +kernel, hpacked⟩

end ModuleRecovery
