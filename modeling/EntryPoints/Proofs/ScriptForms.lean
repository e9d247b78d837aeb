import EntryPoints.Proofs.LeftInterpreters

/-!
The runtime forms of scripts. A command that names a file with a directive always has a form: the
interpreter of the directive, looked up, then the directive's own words, then the script, anchored,
and the arguments of the command (`isScriptForm_of_directive`). Only the interpreter is ever looked
up; one that is found nowhere stays, and one notice tells of it.
-/
namespace EntryPoints

def Notice.isInterpreterUnresolved : Notice → Bool
  | .interpreterUnresolved _ => true
  | _ => false

namespace RuntimeForm

variable {s : Stage} {files : FileTree} {declared interpreter word : Text}
  {arguments directive options : List Text}

/-- The interpreter that a directive names, and its options. The launcher gives way to the word
after it, once and if there is one. -/
inductive Names : List Text → Text → List Text → Prop where
  | launched (interpreter : Text) (options : List Text) :
      Names (launcher :: interpreter :: options) interpreter options
  | launcher : Names [launcher] launcher []
  | direct {interpreter : Text} (h : interpreter ≠ RuntimeForm.launcher) (options : List Text) :
      Names (interpreter :: options) interpreter options

theorem exists_names (h : directive ≠ []) :
    ∃ interpreter options, Names directive interpreter options := by
  obtain ⟨first, rest, rfl⟩ := List.exists_cons_of_ne_nil h
  by_cases hfirst : first = launcher
  · subst hfirst
    cases rest with
    | nil => exact ⟨_, _, .launcher⟩
    | cons second rest => exact ⟨_, _, .launched second rest⟩
  · exact ⟨_, _, .direct hfirst rest⟩

theorem dropLauncher_of_names (h : Names directive interpreter options) :
    dropLauncher directive = interpreter :: options := by
  cases h with
  | launched interpreter options => simp [dropLauncher]
  | launcher => rfl
  | direct hdirect options => cases options <;> simp [dropLauncher, hdirect]

/-- Nothing takes the place of the interpreter: it is the launcher, or it is found nowhere. -/
def IsLost (s : Stage) (files : FileTree) (interpreter : Text) : Prop :=
  interpreter = launcher ∨ s.resolve files interpreter = .missing

theorem path_of_not_lost (h : ¬ IsLost s files interpreter) :
    interpreter ≠ launcher ∧ ∃ path, (s.resolve files interpreter).path? = some path := by
  obtain ⟨hlauncher, hheld⟩ := not_or.mp h
  refine ⟨hlauncher, ?_⟩
  cases hresolve : s.resolve files interpreter with
  | missing => exact absurd hresolve hheld
  | literal path => exact ⟨path, rfl⟩
  | searched path m => exact ⟨path, rfl⟩

theorem front_of_lost (h : Names directive interpreter options)
    (hlost : IsLost s files interpreter) :
    front s files word directive =
      ⟨interpreter :: options, [.interpreterUnresolved interpreter], []⟩ := by
  simp only [front, dropLauncher_of_names h]
  split
  · rfl
  · rename_i hlauncher
    rw [hlost.resolve_left hlauncher]

/-- An interpreter with a path gives way to it. Its search is told of, if there was one. -/
theorem front_of_path (h : Names directive interpreter options) (hlauncher : interpreter ≠ launcher)
    {path : Text} (hpath : (s.resolve files interpreter).path? = some path) (word : Text) :
    (front s files word directive).words = path :: options ∧
      ∀ n ∈ (front s files word directive).notices, n.isInterpreterUnresolved = false := by
  simp only [front, dropLauncher_of_names h, if_neg hlauncher]
  cases hresolve : s.resolve files interpreter with
  | missing => simp [hresolve, Referent.path?] at hpath
  | literal found =>
    obtain rfl : found = path := by simpa [hresolve, Referent.path?] using hpath
    exact ⟨rfl, by simp⟩
  | searched found m =>
    obtain rfl : found = path := by simpa [hresolve, Referent.path?] using hpath
    exact ⟨rfl, by simp [Notice.isInterpreterUnresolved]⟩

theorem front_of_directive (s : Stage) (files : FileTree) (hscript : directive ≠ []) (word : Text) :
    ∃ interpreter options lead, Names directive interpreter options ∧
      (front s files word directive).words = lead :: options ∧
      (IsLost s files interpreter → lead = interpreter ∧
        (front s files word directive).notices.filter Notice.isInterpreterUnresolved =
          [.interpreterUnresolved interpreter]) ∧
      ∀ path, interpreter ≠ launcher → (s.resolve files interpreter).path? = some path →
        lead = path ∧
          (front s files word directive).notices.filter Notice.isInterpreterUnresolved = [] := by
  obtain ⟨interpreter, options, hnames⟩ := exists_names hscript
  by_cases hlost : IsLost s files interpreter
  · refine ⟨interpreter, options, interpreter, hnames, ?_, fun _ => ⟨rfl, ?_⟩, ?_⟩
    · rw [front_of_lost hnames hlost]
    · rw [front_of_lost hnames hlost]
      rfl
    · intro path hlauncher hpath
      simp [hlost.resolve_left hlauncher, Referent.path?] at hpath
  · obtain ⟨hlauncher, path, hpath⟩ := path_of_not_lost hlost
    obtain ⟨hwords, htells⟩ := front_of_path hnames hlauncher hpath word
    refine ⟨interpreter, options, path, hnames, hwords, fun h => absurd h hlost, ?_⟩
    intro path' _ hpath'
    refine ⟨Option.some.inj (hpath.symm.trans hpath'), ?_⟩
    exact List.filter_eq_nil_iff.mpr fun n hn => by simp [htells n hn]

theorem filter_ofPath {interpreted : Bool} {f : Front} {path : Text} :
    (ofPath s declared interpreted f path arguments).notices.filter
        Notice.isInterpreterUnresolved =
      f.notices.filter Notice.isInterpreterUnresolved := by
  apply filter_notices_ofPath
  intro n hexplains
  cases n with
  | interpreterUnresolved interpreter => cases hexplains
  | _ => rfl

/-- The form of a script with these arguments, whose file has this directive. -/
structure IsScriptForm (s : Stage) (files : FileTree) (directive : List Text) (script : Text)
    (arguments : List Text) (form : RuntimeForm) : Prop where
  text : ∃ interpreter options lead, Names directive interpreter options ∧
    form.text? = some (Words.unsplit (lead :: options ++ anchored s script :: arguments)) ∧
    (IsLost s files interpreter → lead = interpreter ∧
      form.notices.filter Notice.isInterpreterUnresolved = [.interpreterUnresolved interpreter]) ∧
    ∀ path, interpreter ≠ launcher → (s.resolve files interpreter).path? = some path →
      lead = path ∧ form.notices.filter Notice.isInterpreterUnresolved = []
  found : ∀ command, .commandNotFound command ∉ form.notices
  unsearched : ∀ command path origin, .commandSearched command path origin ∉ form.notices

/-- A command that is a script is where it says, so its form is that of its path. -/
theorem ofDeclared_of_directive (hrelative : Path.isAbsolute declared = false)
    (hwords : commandWords? s declared = some (word :: arguments))
    (hdirective : directiveOf s files word = .ok directive) (hscript : directive ≠ []) :
    ofDeclared s files declared =
      .ok (ofPath s declared true (front s files word directive) (s.relative word) arguments) := by
  have hresolve := resolve_of_directive hdirective hscript
  have hinterpreted : directive.isEmpty = false := by simpa using hscript
  rw [ofDeclared_of_words hrelative hwords hdirective]
  simp [ofWords, hresolve, hinterpreted]

theorem isScriptForm_of_directive (hrelative : Path.isAbsolute declared = false)
    (hwords : commandWords? s declared = some (word :: arguments))
    (hfile : files.isFile (Path.join s.root (s.relative word)) = true)
    (hread : Directive.read files (Path.join s.root (s.relative word)) = .ok directive)
    (hscript : directive ≠ []) :
    ∃ form, ofDeclared s files declared = .ok form ∧
      IsScriptForm s files directive (s.relative word) arguments form := by
  have hdirective : directiveOf s files word = .ok directive := by simp [directiveOf, hfile, hread]
  have hform := ofDeclared_of_directive hrelative hwords hdirective hscript
  have htold := told_of_ofDeclared hform
  refine ⟨_, hform, ?_, ?_, ?_⟩
  · obtain ⟨interpreter, options, lead, hnames, hfront, hlost, hheld⟩ :=
      front_of_directive s files hscript word
    refine ⟨interpreter, options, lead, hnames, by simp [ofPath, hfront], ?_, ?_⟩
    · rw [filter_ofPath]
      exact hlost
    · rw [filter_ofPath]
      exact hheld
  · intro command hn
    simpa [ofPath] using htold.none_iff_fatal.mpr ⟨_, hn, rfl⟩
  · intro command path origin hn
    rcases mem_shaped (htold.shaped _ rfl) hn with htells | htells
    · cases htells with
      | commandSearched hplain _ _ =>
        exact hplain (isInterpreted_of_directive hwords hdirective hscript)
    · cases htells

theorem isScriptForm_run_now :
    Path.isAbsolute (Text.of "$SNAP/bin/run  now") = false ∧
      commandWords? scriptStage (Text.of "$SNAP/bin/run  now") =
        some [Text.of "bin/run", Text.of "now"] ∧
      scriptTree.isFile (Path.join scriptStage.root (scriptStage.relative (Text.of "bin/run"))) =
        true ∧
      Directive.read scriptTree
          (Path.join scriptStage.root (scriptStage.relative (Text.of "bin/run"))) =
        .ok [launcher, Text.of "widget", Text.of "-u"] ∧
      ∃ form, ofDeclared scriptStage scriptTree (Text.of "$SNAP/bin/run  now") = .ok form ∧
        IsScriptForm scriptStage scriptTree [launcher, Text.of "widget", Text.of "-u"]
          (scriptStage.relative (Text.of "bin/run")) [Text.of "now"] form := by
  have hwords : commandWords? scriptStage (Text.of "$SNAP/bin/run  now") =
      some [Text.of "bin/run", Text.of "now"] := by rfl
  have hfile : scriptTree.isFile
      (Path.join scriptStage.root (scriptStage.relative (Text.of "bin/run"))) = true := by rfl
  have hread : Directive.read scriptTree
      (Path.join scriptStage.root (scriptStage.relative (Text.of "bin/run"))) =
        .ok [launcher, Text.of "widget", Text.of "-u"] := by rfl
  exact ⟨by decide, hwords, hfile, hread,
    isScriptForm_of_directive (by decide) hwords hfile hread (List.cons_ne_nil _ _)⟩

end RuntimeForm
end EntryPoints
