import ModuleRecovery.CommandLine.Session
import ModuleRecovery.Proofs.Messages

/-!
Exit codes of whole uses of the command line. Main statement: a use succeeds exactly if no step of
its request fails; a failure is of the kind of a step that has failed and leaves the files as they
are, with directories besides if it came to writing; and its exit code is that of its kind, unless
a path or a line of a settings file that it quotes holds a phrase for another kind.
-/

namespace ModuleRecovery

/-! ## What can be said of a file -/

namespace FileTree

variable {t : FileTree} {place : Place} {e : FileError}

theorem withDirectories_withDirectories (t : FileTree) (made more : List (List String)) :
    (t.withDirectories made).withDirectories more = t.withDirectories (more ++ made) := by
  simp only [withDirectories, List.append_assoc]

theorem walk_error {names : List String} (h : t.walk place names = .error e) :
    e ∈ FileError.ofWriting := by
  induction names generalizing place with
  | nil => cases h
  | cons name rest ih =>
      rw [walk] at h
      split_ifs at h with hdirectory hallowed hfile
      · exact ih h
      · cases h
        decide
      · cases h
        decide
      · cases h
        decide

/-- What the making of one directory can come to. -/
theorem makeDirectory_cases (t : FileTree) (place : Place) (names : List String) :
    (∃ path, t.makeDirectory place names = .ok (t.withDirectories [path])) ∨
      ∃ e ∈ FileError.ofWriting, t.makeDirectory place names = .error e := by
  rw [makeDirectory]
  cases hwalk : t.walk place names with
  | error e => exact Or.inr ⟨e, walk_error hwalk, rfl⟩
  | ok reached =>
      simp only
      split_ifs with hthere
      · exact Or.inr ⟨_, by decide, rfl⟩
      · cases reached with
        | inside path =>
            simp only
            split_ifs with hallowed
            · exact Or.inl ⟨path, rfl⟩
            · exact Or.inr ⟨_, by decide, rfl⟩
        | above => exact Or.inr ⟨_, by decide, rfl⟩
        | unknown => exact Or.inr ⟨_, by decide, rfl⟩

theorem forgive_error {names : List String} {reason : FileError}
    (h : t.forgive place names reason = .error e) : e = reason := by
  rw [forgive] at h
  split at h
  · split_ifs at h
    · cases h
      rfl
  · cases h
    rfl

theorem put_error {path : List String} {content : String} (h : t.put path content = .error e) :
    e = .refused := by
  simp only [put] at h
  split_ifs at h <;> exact (Except.error.inj h).symm

theorem putAt_error {names : List String} {slash : Bool} {content : String}
    (h : t.putAt place names slash content = .error e) : e ∈ FileError.ofWriting := by
  rw [putAt] at h
  split at h
  · rename_i hwalk
    cases h
    exact walk_error hwalk
  · split_ifs at h with hdirectory
    · cases h
      decide
    · split at h
      · rw [put_error h]
        decide
      · cases h
        decide

/-- What may come of an attempt to make directories: some were made and nothing else has changed,
and if it failed, the system had a reason. -/
def Makes (t : FileTree) (outcome : Except FileError Unit × FileTree) : Prop :=
  (∃ made, outcome.2 = t.withDirectories made) ∧
    ∀ e, outcome.1 = .error e → e ∈ FileError.ofWriting

theorem Makes.trans {outcome : Except FileError Unit × FileTree} {made : List (List String)}
    (h : (t.withDirectories made).Makes outcome) : t.Makes outcome := by
  obtain ⟨⟨more, hmore⟩, hreason⟩ := h
  exact ⟨⟨more ++ made, by rw [hmore, withDirectories_withDirectories]⟩, hreason⟩

theorem makes_withDirectories (t : FileTree) (path : List String) :
    t.Makes (.ok (), t.withDirectories [path]) :=
  ⟨⟨[path], rfl⟩, nofun⟩

theorem makes_forgive (t : FileTree) (place : Place) (names : List String)
    (he : e ∈ FileError.ofWriting) : t.Makes (t.forgive place names e, t) := by
  refine ⟨⟨[], rfl⟩, ?_⟩
  intro reason hforgive
  rw [forgive_error hforgive]
  exact he

theorem makes_makeDirectories (t : FileTree) (place : Place) (names : List String) :
    t.Makes (t.makeDirectories place names) := by
  induction names with
  | nil => exact ⟨⟨[], rfl⟩, nofun⟩
  | cons name above ih =>
      rw [makeDirectories]
      rcases t.makeDirectory_cases place (name :: above).reverse with
        ⟨path, hfirst⟩ | ⟨reason, hreason, hfirst⟩
      · rw [hfirst]
        exact t.makes_withDirectories path
      · simp only [hfirst]
        split_ifs with hmissing
        · -- The directories above are made first, and the rest goes on with the tree they leave.
          rcases habove : t.makeDirectories place above with ⟨result, left⟩
          rw [habove] at ih
          cases result with
          | error reason' => exact ih
          | ok done =>
              obtain ⟨made, hleft : left = t.withDirectories made⟩ := ih.1
              subst hleft
              apply Makes.trans
              rcases (t.withDirectories made).makeDirectory_cases place (name :: above).reverse with
                ⟨path, hsecond⟩ | ⟨reason', hreason', hsecond⟩
              · simp only [hsecond]
                exact makes_withDirectories _ path
              · simp only [hsecond]
                exact makes_forgive _ place _ hreason'
        · exact t.makes_forgive place _ hreason

theorem write_error {path content : String} {left : FileTree}
    (h : t.write path content = (.error e, left)) :
    e ∈ FileError.ofWriting ∧ ∃ made, left = t.withDirectories made := by
  have hmakes := t.makes_makeDirectories (origin path) ((properNames path).reverse.drop 1)
  rw [write] at h
  rcases hmade : t.makeDirectories (origin path) ((properNames path).reverse.drop 1) with
    ⟨result, reached⟩
  rw [hmade] at h hmakes
  obtain ⟨hleft, hreason⟩ := hmakes
  cases result with
  | error reason =>
      cases h
      exact ⟨hreason e rfl, hleft⟩
  | ok done =>
      simp only at h
      split at h
      · rename_i hput
        cases h
        exact ⟨putAt_error hput, hleft⟩
      · cases h

/-- The slash at the end is told of when the directory is there. -/
example : (ofFiles []).write "new/plots/" "" =
    (.error .isDirectory, (ofFiles []).withDirectories [["new"]]) := by decide +kernel

end FileTree

/-! ## Steps of a request -/

theorem Settings.checked_cases (s : Settings) :
    (∃ fault : InvalidSetting, s.validate = .error fault ∧
        s.checked = .error (.invalid fault.message)) ∨
      s.validate = .ok () ∧ s.checked = .ok s := by
  cases h : s.validate with
  | error fault => exact Or.inl ⟨fault, rfl, by rw [checked, h]⟩
  | ok valid => exact Or.inr ⟨rfl, by rw [checked, h]⟩

theorem CallGraph.pairwiseCoupling_cases (g : CallGraph) (a b : ClassName) :
    (∃ error, g.pairwiseCoupling a b = .error error ∧ (a = "" ∨ b = "")) ∨
      ∃ share, g.pairwiseCoupling a b = .ok share ∧ ¬(a = "" ∨ b = "") := by
  unfold pairwiseCoupling
  split_ifs with ha hb hnone
  · exact Or.inl ⟨_, rfl, Or.inl ha⟩
  · exact Or.inl ⟨_, rfl, Or.inr hb⟩
  · exact Or.inr ⟨_, rfl, not_or.2 ⟨ha, hb⟩⟩
  · exact Or.inr ⟨_, rfl, not_or.2 ⟨ha, hb⟩⟩

theorem Settings.ofText_cases (text : String) :
    (∃ error, ofText text = .error error ∧
        ((∃ detail, error = .unreadable detail) ∨
          ∃ fault : InvalidSetting, error = .invalid fault.message)) ∨
      ∃ s, ofText text = .ok s ∧ s.validate = .ok () := by
  cases hread : read text.toList with
  | error fault =>
      exact Or.inl ⟨.unreadable (fault.message text.toList), by simp only [ofText, hread],
        Or.inl ⟨_, rfl⟩⟩
  | ok s =>
      rcases s.checked_cases with ⟨fault, -, hchecked⟩ | ⟨hvalid, hchecked⟩
      · exact Or.inl ⟨_, by simp only [ofText, hread, hchecked], Or.inr ⟨fault, rfl⟩⟩
      · exact Or.inr ⟨s, by simp only [ofText, hread, hchecked], hvalid⟩

namespace Command

/-- The coupling of two classes needs no settings. -/
def NeedsSettings : Command → Prop
  | .coupling _ _ _ => False
  | _ => True

/-- The settings that the arguments of a command leave. -/
def chosen (command : Command) (s : Settings) : Settings :=
  match command with
  | .coupling _ _ _ | .graph _ _ _ => s
  | .cluster stepBudget _ => s.override none none stepBudget
  | .modules minCoupling totalClasses stepBudget _ =>
      s.override minCoupling totalClasses stepBudget
  | .analyze minCoupling _ _ => s.override minCoupling none none

end Command

namespace Request

/-- A step before any writing fails that is about this: reading or parsing the call graph; loading
the settings, or checking them once the arguments have changed them; or naming the classes. -/
def FailsBeforeWriting (r : Request) (read : Reading) : FailureKind → Prop
  | .callGraph => ∃ failure, r.loadCallGraph read = .error failure
  | .settings =>
      r.command.NeedsSettings ∧
        ((∃ failure, r.loadSettings read = .error failure) ∨
          ∃ s fault, r.loadSettings read = .ok s ∧
            (r.command.chosen s).validate = .error fault)
  | .argument =>
      ∃ source target format, r.command = .coupling source target format ∧
        (source = "" ∨ target = "")
  | .other => False

/-- A step of the request fails that is about this. The only one that is about none of the others
is writing the file of a result. -/
def Fails (r : Request) (t : FileTree) (kind : FailureKind) : Prop :=
  r.FailsBeforeWriting t.reading kind ∨
    kind = .other ∧ ∃ product failure, r.execute t.reading = .ok product ∧
      (t.writeOutput product.file).1 = .error failure

/-- What a result of the steps before any writing tells of them: a failure that one of them has
failed, and a product that none has. -/
def Settles (r : Request) (read : Reading) : Except Failure Product → Prop
  | .error failure => failure.Arises ∧ r.FailsBeforeWriting read failure.kind
  | .ok _ => ∀ kind, ¬r.FailsBeforeWriting read kind

variable {r : Request} {read : Reading}

theorem settles_callGraph {path : String} {error : InputError}
    (h : r.loadCallGraph read = .error (.callGraph path error)) :
    r.Settles read (.error (.callGraph path error)) :=
  ⟨trivial, _, h⟩

theorem settles_settings (hneeds : r.command.NeedsSettings) {path : String} {error : SettingsError}
    (h : r.loadSettings read = .error (.settings path error))
    (harises : (Failure.settings path error).Arises) :
    r.Settles read (.error (.settings path error)) :=
  ⟨harises, hneeds, Or.inl ⟨_, h⟩⟩

theorem settles_product (hneeds : r.command.NeedsSettings) {s : Settings} {g : CallGraph}
    (hsettings : r.loadSettings read = .ok s) (hvalid : (r.command.chosen s).validate = .ok ())
    (hgraph : r.loadCallGraph read = .ok g) (product : Product) :
    r.Settles read (.ok product) := by
  intro kind hfails
  cases kind with
  | callGraph =>
      obtain ⟨failure, hfailure⟩ := hfails
      cases hgraph.symm.trans hfailure
  | settings =>
      obtain ⟨-, ⟨failure, hfailure⟩ | ⟨s', fault, hs', hfault⟩⟩ := hfails
      · cases hsettings.symm.trans hfailure
      · cases hsettings.symm.trans hs'
        cases hvalid.symm.trans hfault
  | argument =>
      obtain ⟨source, target, format, hcommand, -⟩ := hfails
      rw [hcommand] at hneeds
      exact hneeds
  | other => exact hfails

theorem loadCallGraph_cases (r : Request) (read : Reading) :
    (∃ error, r.loadCallGraph read = .error (.callGraph r.input error)) ∨
      ∃ g, r.loadCallGraph read = .ok g := by
  rw [loadCallGraph, CallGraph.load]
  cases read.text r.input with
  | error e => exact Or.inl ⟨_, rfl⟩
  | ok text =>
      cases hgraph : CallGraph.ofText text with
      | error error => exact Or.inl ⟨error, by simp only [hgraph]; rfl⟩
      | ok g => exact Or.inr ⟨g, by simp only [hgraph]; rfl⟩

/-- Settings that can be loaded are valid. -/
theorem loadSettings_cases (r : Request) (read : Reading) :
    (∃ path error, r.loadSettings read = .error (.settings path error) ∧
        (Failure.settings path error).Arises) ∨
      ∃ s, r.loadSettings read = .ok s ∧ s.validate = .ok () := by
  rw [loadSettings]
  cases r.settings with
  | none => exact Or.inr ⟨.standard, rfl, by decide +kernel⟩
  | some path =>
      rw [Settings.load]
      split_ifs with hthere
      · cases read.text path with
        | error e => exact Or.inl ⟨path, _, rfl, Or.inr (Or.inl ⟨_, rfl⟩)⟩
        | ok text =>
            rcases Settings.ofText_cases text with ⟨error, htext, herror⟩ | ⟨s, htext, hvalid⟩
            · exact Or.inl ⟨path, error, by simp only [htext]; rfl, Or.inr herror⟩
            · exact Or.inr ⟨s, by simp only [htext]; rfl, hvalid⟩
      · exact Or.inl ⟨path, _, rfl, Or.inl rfl⟩

theorem settles_runCoupling {source target : ClassName} {format : Format}
    (hcommand : r.command = .coupling source target format) :
    r.Settles read (r.runCoupling read source target format) := by
  rcases r.loadCallGraph_cases read with ⟨error, hgraph⟩ | ⟨g, hgraph⟩
  · rw [runCoupling, hgraph]
    exact settles_callGraph hgraph
  · rw [runCoupling, hgraph]
    rcases g.pairwiseCoupling_cases source target with
      ⟨error, hshare, hempty⟩ | ⟨value, hshare, hnamed⟩
    · have hresult : r.Settles read (.error (.coupling error)) :=
        ⟨trivial, source, target, format, hcommand, hempty⟩
      simp only [bind, Except.bind, hshare, Except.mapError]
      exact hresult
    · have hresult (product : Product) : r.Settles read (.ok product) := by
        intro kind hfails
        cases kind with
        | callGraph =>
            obtain ⟨failure, hfailure⟩ := hfails
            cases hgraph.symm.trans hfailure
        | settings =>
            obtain ⟨hneeds, -⟩ := hfails
            rw [hcommand] at hneeds
            exact hneeds
        | argument =>
            obtain ⟨source', target', format', hcommand', hempty⟩ := hfails
            cases hcommand.symm.trans hcommand'
            exact hnamed hempty
        | other => exact hfails
      simp only [bind, Except.bind, hshare, Except.mapError, pure, Except.pure]
      exact hresult _

/-- A command that gets its settings ready, then reads the call graph and cannot fail any more. -/
theorem settles_ready (hneeds : r.command.NeedsSettings) {ready : Except Failure Settings}
    (hready : (∃ failure, ready = .error failure ∧ r.Settles read (.error failure)) ∨
      ∃ s, r.loadSettings read = .ok s ∧ (r.command.chosen s).validate = .ok () ∧
        ready = .ok (r.command.chosen s)) (product : Settings → CallGraph → Product) :
    r.Settles read (do return product (← ready) (← r.loadCallGraph read)) := by
  rcases hready with ⟨failure, hsettings, hsettles⟩ | ⟨s, hload, hvalid, hsettings⟩
  · rw [hsettings]
    exact hsettles
  · rcases r.loadCallGraph_cases read with ⟨error, hgraph⟩ | ⟨g, hgraph⟩
    · rw [hsettings, hgraph]
      exact settles_callGraph hgraph
    · rw [hsettings, hgraph]
      exact settles_product hneeds hload hvalid hgraph _

theorem settles_runGraph {format : GraphFormat} {withoutIsolated : Bool} {output : Option String}
    (hcommand : r.command = .graph format withoutIsolated output) :
    r.Settles read (r.runGraph read format withoutIsolated output) := by
  have hneeds : r.command.NeedsSettings := by
    rw [hcommand]
    trivial
  have hchosen (s : Settings) : r.command.chosen s = s := by
    rw [hcommand]
    rfl
  apply settles_ready hneeds
  rcases r.loadSettings_cases read with ⟨path, error, hload, harises⟩ | ⟨s, hload, hvalid⟩
  · exact Or.inl ⟨_, hload, settles_settings hneeds hload harises⟩
  · exact Or.inr ⟨s, hload, (hchosen s).symm ▸ hvalid, (hchosen s).symm ▸ hload⟩

/-- Settings that the arguments have changed are checked before the call graph is looked at. -/
theorem chosenSettings_cases (hneeds : r.command.NeedsSettings) {minimum : Option Binary64}
    {totalClasses stepBudget : Option Nat}
    (hchosen : ∀ s, r.command.chosen s = s.override minimum totalClasses stepBudget) :
    (∃ failure, r.chosenSettings read minimum totalClasses stepBudget = .error failure ∧
        r.Settles read (.error failure)) ∨
      ∃ s, r.loadSettings read = .ok s ∧ (r.command.chosen s).validate = .ok () ∧
        r.chosenSettings read minimum totalClasses stepBudget = .ok (r.command.chosen s) := by
  rcases r.loadSettings_cases read with ⟨path, error, hsettings, harises⟩ | ⟨s, hsettings, -⟩
  · refine Or.inl ⟨_, ?_, settles_settings hneeds hsettings harises⟩
    rw [chosenSettings, hsettings]
    rfl
  · rw [chosenSettings, hsettings]
    rcases (r.command.chosen s).checked_cases with ⟨fault, hfault, hchecked⟩ | ⟨hvalid, hchecked⟩
    · refine Or.inl ⟨.refused (.invalid fault.message), ?_, ⟨fault, rfl⟩, hneeds,
        Or.inr ⟨s, fault, hsettings, hfault⟩⟩
      rw [hchosen] at hchecked
      simp only [hchecked, bind, Except.bind, Except.mapError]
    · refine Or.inr ⟨s, rfl, hvalid, ?_⟩
      rw [hchosen] at hchecked ⊢
      simp only [hchecked, bind, Except.bind, Except.mapError]

theorem settles_runCluster {stepBudget : Option Nat} {format : Format}
    (hcommand : r.command = .cluster stepBudget format) :
    r.Settles read (r.runCluster read stepBudget format) := by
  have hneeds : r.command.NeedsSettings := by
    rw [hcommand]
    trivial
  have hchosen (s : Settings) : r.command.chosen s = s.override none none stepBudget := by
    rw [hcommand]
    rfl
  exact settles_ready hneeds (chosenSettings_cases hneeds hchosen) _

theorem settles_runModules {minCoupling : Option Binary64} {totalClasses stepBudget : Option Nat}
    {format : Format} (hcommand : r.command = .modules minCoupling totalClasses stepBudget format) :
    r.Settles read (r.runModules read minCoupling totalClasses stepBudget format) := by
  have hneeds : r.command.NeedsSettings := by
    rw [hcommand]
    trivial
  have hchosen (s : Settings) :
      r.command.chosen s = s.override minCoupling totalClasses stepBudget := by
    rw [hcommand]
    rfl
  exact settles_ready hneeds (chosenSettings_cases hneeds hchosen) _

/-- An analysis checks its settings last. -/
theorem settles_runAnalyze {minCoupling : Option Binary64} {dot : Option String} {format : Format}
    (hcommand : r.command = .analyze minCoupling dot format) :
    r.Settles read (r.runAnalyze read minCoupling dot format) := by
  have hneeds : r.command.NeedsSettings := by
    rw [hcommand]
    trivial
  have hchosen (s : Settings) : r.command.chosen s = s.override minCoupling none none := by
    rw [hcommand]
    rfl
  rcases r.loadSettings_cases read with ⟨path, error, hsettings, harises⟩ | ⟨s, hsettings, -⟩
  · rw [runAnalyze, hsettings]
    exact settles_settings hneeds hsettings harises
  · rcases r.loadCallGraph_cases read with ⟨error, hgraph⟩ | ⟨g, hgraph⟩
    · rw [runAnalyze, hsettings, hgraph]
      exact settles_callGraph hgraph
    · rw [runAnalyze, hsettings, hgraph]
      rcases (r.command.chosen s).checked_cases with
        ⟨fault, hfault, hchecked⟩ | ⟨hvalid, hchecked⟩
      · have hresult : r.Settles read (.error (.analysis (.invalid fault.message))) :=
          ⟨⟨fault, rfl⟩, hneeds, Or.inr ⟨s, fault, hsettings, hfault⟩⟩
        rw [hchosen] at hchecked
        simp only [bind, Except.bind, CallGraph.analyze, hchecked, Except.mapError]
        exact hresult
      · have hresult := settles_product hneeds hsettings hvalid hgraph
        rw [hchosen] at hchecked
        simp only [bind, Except.bind, CallGraph.analyze, hchecked, Except.mapError, pure,
          Except.pure]
        exact hresult _

theorem settles_execute (r : Request) (read : Reading) : r.Settles read (r.execute read) := by
  rw [execute]
  cases hcommand : r.command with
  | coupling source target format => exact settles_runCoupling hcommand
  | graph format withoutIsolated output => exact settles_runGraph hcommand
  | cluster stepBudget format => exact settles_runCluster hcommand
  | modules minCoupling totalClasses stepBudget format => exact settles_runModules hcommand
  | analyze minCoupling dot format => exact settles_runAnalyze hcommand

end Request

/-! ## Whole uses -/

namespace FileTree

theorem writeOutput_error {t left : FileTree} {file : Option OutputFile} {failure : Failure}
    (h : t.writeOutput file = (.error failure, left)) :
    failure.Arises ∧ failure.kind = .other ∧ ∃ made, left = t.withDirectories made := by
  cases file with
  | none => cases h
  | some file =>
      rcases hwrite : t.write file.path file.content with ⟨written, reached⟩
      simp only [writeOutput, hwrite] at h
      cases written with
      | ok done => cases h
      | error e =>
          cases h
          obtain ⟨he, hleft⟩ := write_error hwrite
          exact ⟨⟨e, he, rfl⟩, rfl, hleft⟩

variable {t : FileTree} {arguments : List String} {environment : Option String}
  {request : Request}

/-- A use ends with the failure of a step, or no step has failed. Only for a failure to write there
may be directories that were made. -/
theorem use_cases (haccepted : Request.ofArguments arguments environment = .ok request) :
    (∃ failure made, t.use arguments environment =
          ⟨failure.exitCode, "", some failure, none, t.withDirectories made⟩ ∧
        failure.Arises ∧ request.Fails t failure.kind ∧ (failure.kind ≠ .other → made = [])) ∨
      ∃ printed note after, t.use arguments environment = ⟨0, printed, none, note, after⟩ ∧
        ∀ kind, ¬request.Fails t kind := by
  have hsettles := request.settles_execute t.reading
  cases hexecute : request.execute t.reading with
  | error failure =>
      rw [hexecute] at hsettles
      obtain ⟨harises, hfails⟩ := hsettles
      exact Or.inl ⟨failure, [], by simp only [use, haccepted, hexecute]; rfl, harises,
        Or.inl hfails, fun _ => rfl⟩
  | ok product =>
      rw [hexecute] at hsettles
      rcases hwrite : t.writeOutput product.file with ⟨written, left⟩
      cases written with
      | error failure =>
          obtain ⟨harises, hkind, made, rfl⟩ := writeOutput_error hwrite
          have hfails : request.Fails t failure.kind :=
            Or.inr ⟨hkind, product, failure, hexecute, by rw [hwrite]⟩
          exact Or.inl ⟨failure, made, by simp only [use, haccepted, hexecute, hwrite], harises,
            hfails, fun hother => absurd hkind hother⟩
      | ok done =>
          refine Or.inr ⟨product.printed, product.file.bind OutputFile.note, left,
            by simp only [use, haccepted, hexecute, hwrite], ?_⟩
          rintro kind (hfails | ⟨-, product', failure, hexecute', hfailure⟩)
          · exact hsettles kind hfails
          · cases hexecute.symm.trans hexecute'
            rw [hwrite] at hfailure
            cases hfailure

/-- The exit codes of all accepted arguments on all files, also on files that hold no text or that
the system refuses. A use succeeds, with the code 0, exactly if no step of its request fails.
Otherwise a step has failed of the kind of the failure that it ends with; no file has changed, and
directories were made only if the file of a result could not be written; and the exit code is that
of the kind which the message seems to be of. This is the kind of the failure itself if no text
that it quotes holds one of the phrases. -/
theorem use_exit_code (t : FileTree) (arguments : List String) (environment : Option String)
    (request : Request) (haccepted : Request.ofArguments arguments environment = .ok request) :
    let ending := t.use arguments environment
    (ending.failure = none ↔ ∀ kind, ¬request.Fails t kind) ∧
    (ending.failure = none → ending.code = 0) ∧
    ∀ failure, ending.failure = some failure →
      request.Fails t failure.kind ∧
      (∃ made, ending.files = t.withDirectories made ∧ (failure.kind ≠ .other → made = [])) ∧
      ending.code = failure.apparentKind.code ∧
      ((∀ text ∈ failure.quoted, ∀ phrase ∈ Failure.phrases, ¬Failure.Mentions phrase text) →
        ending.code = failure.kind.code) := by
  intro ending
  rcases use_cases haccepted with
    ⟨failure, made, hused, harises, hfails, hmade⟩ | ⟨printed, note, after, hused, hnone⟩
  · have hending : ending = ⟨failure.exitCode, "", some failure, none, t.withDirectories made⟩ :=
      hused
    have hcode := Failure.exitCode_eq harises
    rw [hending]
    refine ⟨⟨nofun, fun hnone => absurd hfails (hnone _)⟩, nofun, ?_⟩
    rintro _ ⟨⟩
    refine ⟨hfails, ⟨made, rfl, hmade⟩, hcode, ?_⟩
    intro hquiet
    have hkind : failure.apparentKind = failure.kind := by
      apply Failure.apparentKind_eq_kind
      rintro phrase hphrase ⟨text, htext, hmentions⟩
      exact hquiet text htext phrase hphrase hmentions
    exact hcode.trans (congrArg FailureKind.code hkind)
  · have hending : ending = ⟨0, printed, none, note, after⟩ := hused
    rw [hending]
    exact ⟨⟨fun _ => hnone, fun _ => rfl⟩, fun _ => rfl, nofun⟩

theorem use_exit_code_onto_directory :
    let t := ofFiles [("cg.json", "\x7b\x7d"), ("out/notes.txt", "")]
    let arguments := ["graph", "cg.json", "--output", "out"]
    let request : Request := ⟨"cg.json", none, false, 0, .graph (.plain .text) false (some "out")⟩
    Request.ofArguments arguments none = .ok request ∧ request.Fails t .other ∧
      (t.use arguments none).code = 1 := by
  intro t arguments request
  have haccepted : Request.ofArguments arguments none = .ok request := by decide +kernel
  have hfailure : (t.use arguments none).failure =
      some (.output "out" ⟨FileError.isDirectory.message⟩) := by
    decide +kernel
  obtain ⟨-, -, hfailures⟩ := use_exit_code t arguments none request haccepted
  obtain ⟨hfails, -, -, hcode⟩ := hfailures _ hfailure
  exact ⟨haccepted, hfails, hcode (by decide +kernel)⟩

/-- A file cannot be written either way, but the name of the directory decides on the exit code. -/
theorem exit_code_quotes_path :
    let t := ofFiles [("cg.json", "\x7b\x7d"), ("config/notes.txt", "")]
    let arguments := ["graph", "cg.json", "--output", "config"]
    let failure : Failure := .output "config" ⟨FileError.isDirectory.message⟩
    (t.use arguments none).failure = some failure ∧ failure.kind = .other ∧
      FailureKind.other.code = 1 ∧ (t.use arguments none).code = 2 := by
  decide +kernel

end FileTree

end ModuleRecovery
