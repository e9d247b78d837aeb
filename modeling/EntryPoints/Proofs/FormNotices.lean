import EntryPoints.FileTree.Build
import EntryPoints.Proofs.FormCases
import EntryPoints.Settings

/-!
Which notices a runtime form comes with. Either the command is not found, and that is all there is
to tell, or at most one search is told of and then, if the text changed, why (`Shaped`).
-/
namespace EntryPoints

def Notice.isWrapperGenerated : Notice → Bool
  | .wrapperGenerated .. => true
  | _ => false

/-- The notice tells why a text was changed. -/
def Notice.isExplanation : Notice → Bool
  | .redundantAnchor .. | .interpreterAdded .. | .commandChanged .. => true
  | _ => false

namespace RuntimeForm

variable {s : Stage} {files : FileTree} {declared : Text} {form : RuntimeForm}

def IsCommandWord (s : Stage) (declared word : Text) : Prop :=
  ∃ arguments, commandWords? s declared = some (word :: arguments)

/-- The command of a declared text is a script: the file that it names has a directive. -/
def IsInterpreted (s : Stage) (files : FileTree) (declared : Text) : Prop :=
  ∃ word directive, IsCommandWord s declared word ∧ directiveOf s files word = .ok directive ∧
    directive ≠ []

/-- The notices of a search, with the path and the origin that the stage resolves a word to. A
script's interpreter is searched for, and otherwise the command itself. -/
inductive TellsSearch (s : Stage) (files : FileTree) (declared : Text) : Notice → Prop where
  | interpreterUnresolved (hscript : IsInterpreted s files declared) {interpreter : Text}
      (hresolve : interpreter = launcher ∨ s.resolve files interpreter = .missing) :
      TellsSearch s files declared (.interpreterUnresolved interpreter)
  | interpreterSearched (hscript : IsInterpreted s files declared) {interpreter command path : Text}
      {m : Match} (hcommand : IsCommandWord s declared command)
      (hresolve : s.resolve files interpreter = .searched path m) :
      TellsSearch s files declared (.interpreterSearched interpreter command path m.origin)
  | commandSearched (hplain : ¬ IsInterpreted s files declared) {word path : Text} {m : Match}
      (hword : IsCommandWord s declared word)
      (hresolve : s.resolve files word = .searched path m) :
      TellsSearch s files declared (.commandSearched word path m.origin)

/-- The notices that explain why `result` took the place of the declared text: a needless anchor
before all, then an interpreter, then anything else. -/
inductive Explains (s : Stage) (files : FileTree) (declared result : Text) : Notice → Prop where
  | redundantAnchor (hanchor : s.anchor <+: declared) :
      Explains s files declared result (.redundantAnchor declared s.anchor)
  | interpreterAdded (hanchor : ¬ s.anchor <+: declared)
      (hscript : IsInterpreted s files declared) :
      Explains s files declared result (.interpreterAdded declared result)
  | commandChanged (hanchor : ¬ s.anchor <+: declared) (hplain : ¬ IsInterpreted s files declared) :
      Explains s files declared result (.commandChanged declared result)

/-- The notices of a form with the text `result`. -/
def Shaped (s : Stage) (files : FileTree) (declared result : Text) (notices : List Notice) : Prop :=
  ∃ searches explanations, notices = searches ++ explanations ∧
    (searches = [] ∨ ∃ n, searches = [n] ∧ TellsSearch s files declared n) ∧
    (result = declared ∧ explanations = [] ∨
      result ≠ declared ∧ ∃ n, explanations = [n] ∧ Explains s files declared result n)

theorem front_shape (hscript : IsInterpreted s files declared) {word : Text}
    (hword : IsCommandWord s declared word) (directive : List Text) :
    (front s files word directive).notices = [] ∨
      ∃ n, (front s files word directive).notices = [n] ∧ TellsSearch s files declared n := by
  rw [front]
  split
  · exact .inl rfl
  · rename_i interpreter arguments _
    split
    · rename_i hlauncher
      exact .inr ⟨_, rfl, .interpreterUnresolved hscript (.inl hlauncher)⟩
    · split
      · rename_i hresolve
        exact .inr ⟨_, rfl, .interpreterUnresolved hscript (.inr hresolve)⟩
      · exact .inl rfl
      · rename_i path m hresolve
        exact .inr ⟨_, rfl, .interpreterSearched hscript hword hresolve⟩

theorem startsWith_iff_isPrefix {start text : Text} :
    Text.startsWith start text = true ↔ start <+: text :=
  Text.startsWith_iff

theorem explanation_shape (result : Text) {interpreted : Bool}
    (h : interpreted = true ↔ IsInterpreted s files declared) :
    result = declared ∧ explanation s declared result interpreted = [] ∨
      result ≠ declared ∧ ∃ n, explanation s declared result interpreted = [n] ∧
        Explains s files declared result n := by
  by_cases hsame : result = declared
  · exact .inl ⟨hsame, if_pos hsame⟩
  · refine .inr ⟨hsame, ?_⟩
    rw [explanation, if_neg hsame]
    by_cases hanchor : s.anchor <+: declared
    · rw [if_pos (startsWith_iff_isPrefix.mpr hanchor)]
      exact ⟨_, rfl, .redundantAnchor hanchor⟩
    · rw [if_neg (mt startsWith_iff_isPrefix.mp hanchor)]
      cases interpreted with
      | true => exact ⟨_, rfl, .interpreterAdded hanchor (h.mp rfl)⟩
      | false => exact ⟨_, rfl, .commandChanged hanchor (by simpa using mt h.mpr)⟩

theorem isExplanation_of_mem {result : Text} {interpreted : Bool} {n : Notice}
    (h : n ∈ explanation s declared result interpreted) : n.isExplanation = true := by
  unfold explanation at h
  split at h
  · exact absurd h List.not_mem_nil
  · split at h
    · rw [List.mem_singleton.mp h]
      rfl
    · split at h <;> rw [List.mem_singleton.mp h] <;> rfl

/-- Behind the notices of its front a form has explanations only. -/
theorem filter_notices_ofPath {test : Notice → Bool}
    (htest : ∀ n, n.isExplanation = true → test n = false) (declared : Text) (interpreted : Bool)
    (f : Front) (path : Text) (arguments : List Text) :
    (ofPath s declared interpreted f path arguments).notices.filter test =
      f.notices.filter test := by
  have hexplained (result : Text) :
      (explanation s declared result interpreted).filter test = [] :=
    List.filter_eq_nil_iff.mpr fun n hn => by simp [htest n (isExplanation_of_mem hn)]
  simp only [ofPath, List.filter_append, hexplained, List.append_nil]

theorem isInterpreted_of_directive {word : Text} {arguments directive : List Text}
    (hwords : commandWords? s declared = some (word :: arguments))
    (hdirective : directiveOf s files word = .ok directive) (hscript : directive ≠ []) :
    IsInterpreted s files declared :=
  ⟨word, directive, ⟨arguments, hwords⟩, hdirective, hscript⟩

theorem not_isInterpreted_of_directive {word : Text} {arguments : List Text}
    (hwords : commandWords? s declared = some (word :: arguments))
    (hdirective : directiveOf s files word = .ok []) : ¬ IsInterpreted s files declared := by
  rintro ⟨word', directive, ⟨arguments', hwords'⟩, hdirective', hscript⟩
  obtain ⟨rfl, _⟩ : word = word' ∧ arguments = arguments' := by simpa [hwords] using hwords'
  rw [hdirective, Except.ok.injEq] at hdirective'
  exact hscript hdirective'.symm

/-- A form without a text tells of a missing command and of nothing else; all others are shaped. -/
theorem formed_shape (h : Formed s files declared form) :
    (form.text? = none ∧ ∃ command, form.notices = [.commandNotFound command]) ∨
      ∃ result, form.text? = some result ∧ Shaped s files declared result form.notices := by
  cases h with
  | absolute _ => exact .inr ⟨declared, rfl, [], [], rfl, .inl rfl, .inl ⟨rfl, rfl⟩⟩
  | empty _ _ => exact .inl ⟨rfl, declared, rfl⟩
  | missing _ _ _ _ => exact .inl ⟨rfl, _, rfl⟩
  | literal _ hwords hdirective _ =>
    have hplain := not_isInterpreted_of_directive hwords hdirective
    refine .inr ⟨_, rfl, [], _, rfl, .inl rfl, explanation_shape _ ?_⟩
    simp [hplain]
  | searched _ hwords hdirective hresolve =>
    have hplain := not_isInterpreted_of_directive hwords hdirective
    refine .inr ⟨_, rfl, [_], _, rfl, .inr ⟨_, rfl, ?_⟩, explanation_shape _ ?_⟩
    · exact .commandSearched hplain ⟨_, hwords⟩ hresolve
    · simp [hplain]
  | interpreted _ hwords hdirective hscript _ =>
    have hinterpreted := isInterpreted_of_directive hwords hdirective hscript
    refine .inr ⟨_, rfl, _, _, rfl, front_shape hinterpreted ⟨_, hwords⟩ _, explanation_shape _ ?_⟩
    simp [hinterpreted]

theorem mem_shaped {result : Text} {notices : List Notice}
    (h : Shaped s files declared result notices) {n : Notice} (hn : n ∈ notices) :
    TellsSearch s files declared n ∨ Explains s files declared result n := by
  obtain ⟨searches, explanations, rfl, hsearches, hexplanations⟩ := h
  rcases List.mem_append.mp hn with hn | hn
  · rcases hsearches with rfl | ⟨told, rfl, htold⟩
    · exact absurd hn List.not_mem_nil
    · obtain rfl := List.mem_singleton.mp hn
      exact .inl htold
  · rcases hexplanations with ⟨_, rfl⟩ | ⟨_, told, rfl, htold⟩
    · exact absurd hn List.not_mem_nil
    · obtain rfl := List.mem_singleton.mp hn
      exact .inr htold

theorem failure?_of_shaped {result : Text} {notices : List Notice}
    (h : Shaped s files declared result notices) {n : Notice} (hn : n ∈ notices) :
    n.failure? = none := by
  rcases mem_shaped h hn with htold | htold <;> cases htold <;> rfl

theorem mem_notices (h : ofDeclared s files declared = .ok form) {n : Notice}
    (hn : n ∈ form.notices) :
    (∃ command, n = .commandNotFound command) ∨ TellsSearch s files declared n ∨
      ∃ result, Explains s files declared result n := by
  rcases formed_shape (formed_of_ofDeclared h) with ⟨_, missed, hnotices⟩ | ⟨result, _, hshaped⟩
  · rw [hnotices, List.mem_singleton] at hn
    exact .inl ⟨missed, hn⟩
  · rcases mem_shaped hshaped hn with htold | htold
    · exact .inr (.inl htold)
    · exact .inr (.inr ⟨result, htold⟩)

theorem isWrapperGenerated_of_ofDeclared (h : ofDeclared s files declared = .ok form) {n : Notice}
    (hn : n ∈ form.notices) : n.isWrapperGenerated = false := by
  rcases mem_notices h hn with ⟨_, rfl⟩ | htold | ⟨_, htold⟩
  · rfl
  · cases htold <;> rfl
  · cases htold <;> rfl

theorem text?_eq_none_iff (h : ofDeclared s files declared = .ok form) :
    form.text? = none ↔ (firstFailure? form.notices).isSome = true := by
  rcases formed_shape (formed_of_ofDeclared h) with
    ⟨htext, command, hnotices⟩ | ⟨result, htext, hshaped⟩
  · simp [htext, hnotices, firstFailure?, Notice.failure?]
  · have hnone : firstFailure? form.notices = none :=
      List.findSome?_eq_none_iff.mpr fun n hn => failure?_of_shaped hshaped hn
    simp [htext, hnone]

theorem firstFailure?_of_text {text : Text} (h : ofDeclared s files declared = .ok form)
    (htext : form.text? = some text) : firstFailure? form.notices = none := by
  have hnone := text?_eq_none_iff h
  simpa [htext] using hnone

theorem exists_isFatal_iff (ns : List Notice) :
    (∃ n ∈ ns, n.isFatal = true) ↔ (firstFailure? ns).isSome = true := by
  simp only [firstFailure?, List.isSome_findSome?, List.any_eq_true,
    Notice.isFatal_eq_isSome_failure?]

theorem resolve_of_interpreterSearched (h : ofDeclared s files declared = .ok form)
    {interpreter command path : Text} {origin : Origin}
    (hn : .interpreterSearched interpreter command path origin ∈ form.notices) :
    ∃ m, s.resolve files interpreter = .searched path m ∧ m.origin = origin := by
  rcases mem_notices h hn with ⟨_, hmissed⟩ | htold | ⟨_, htold⟩
  · cases hmissed
  · cases htold with
    | interpreterSearched _ _ hresolve => exact ⟨_, hresolve, rfl⟩
  · cases htold

theorem resolve_of_commandSearched (h : ofDeclared s files declared = .ok form)
    {command path : Text} {origin : Origin}
    (hn : .commandSearched command path origin ∈ form.notices) :
    ∃ m, s.resolve files command = .searched path m ∧ m.origin = origin := by
  rcases mem_notices h hn with ⟨_, hmissed⟩ | htold | ⟨_, htold⟩
  · cases hmissed
  · cases htold with
    | commandSearched _ _ hresolve => exact ⟨_, hresolve, rfl⟩
  · cases htold

/-- What the notices of a runtime form tell. -/
structure Told (s : Stage) (files : FileTree) (declared : Text) (form : RuntimeForm) : Prop where
  /-- Without a text some notice is fatal, and only then. -/
  none_iff_fatal : form.text? = none ↔ ∃ n ∈ form.notices, n.isFatal = true
  none_iff_failure : form.text? = none ↔ (firstFailure? form.notices).isSome = true
  /-- A fatal notice is the only one: the command is not found. -/
  missing : form.text? = none → ∃ command, form.notices = [.commandNotFound command]
  /-- At most one search is told of, and then one explanation if and only if the text changed. -/
  shaped : ∀ result, form.text? = some result → Shaped s files declared result form.notices
  no_wrapper : ∀ n ∈ form.notices, n.isWrapperGenerated = false
  /-- A search is told with the path and the origin that the word it names resolves to. -/
  interpreter : ∀ interpreter command path origin,
    .interpreterSearched interpreter command path origin ∈ form.notices →
      ∃ m, s.resolve files interpreter = .searched path m ∧ m.origin = origin
  command : ∀ command path origin, .commandSearched command path origin ∈ form.notices →
    ∃ m, s.resolve files command = .searched path m ∧ m.origin = origin

theorem told_of_ofDeclared (h : ofDeclared s files declared = .ok form) :
    Told s files declared form where
  none_iff_fatal := (text?_eq_none_iff h).trans (exists_isFatal_iff _).symm
  none_iff_failure := text?_eq_none_iff h
  missing := by
    intro hnone
    rcases formed_shape (formed_of_ofDeclared h) with ⟨_, hmissing⟩ | ⟨result, hresult, _⟩
    · exact hmissing
    · simp [hnone] at hresult
  shaped := by
    intro result hresult
    rcases formed_shape (formed_of_ofDeclared h) with ⟨hnone, _⟩ | ⟨result', hresult', hshaped⟩
    · simp [hnone] at hresult
    · obtain rfl : result' = result := by simpa [hresult'] using hresult
      exact hshaped
  no_wrapper := fun _ hn => isWrapperGenerated_of_ofDeclared h hn
  interpreter := fun _ _ _ _ hn => resolve_of_interpreterSearched h hn
  command := fun _ _ _ hn => resolve_of_commandSearched h hn

def scriptTree : FileTree :=
  (FileTree.empty.addFile (Text.of "/stage/bin/run")
    ⟨Text.Utf8.encode (Text.of "#!/usr/bin/env widget -u\n"), 0o755⟩).toOption.getD .empty

def scriptStage : Stage :=
  ({} : Settings).stage scriptTree (Text.of "/stage")
    (.named (.ofList [(Text.of "widget", Text.of "/opt/widget")]))

def scriptForm : RuntimeForm where
  text? := some (Text.of "/opt/widget -u $SNAP/bin/run now")
  notices :=
    [.interpreterSearched (Text.of "widget") (Text.of "bin/run") (Text.of "/opt/widget") .host,
      .redundantAnchor (Text.of "$SNAP/bin/run  now") (Text.of "$SNAP/")]
  found := [⟨Text.of "widget", Text.of "/opt/widget", .host⟩]

theorem told_scriptForm :
    ofDeclared scriptStage scriptTree (Text.of "$SNAP/bin/run  now") = .ok scriptForm ∧
      Told scriptStage scriptTree (Text.of "$SNAP/bin/run  now") scriptForm := by
  have hform : ofDeclared scriptStage scriptTree (Text.of "$SNAP/bin/run  now") =
      .ok scriptForm := by rfl
  exact ⟨hform, told_of_ofDeclared hform⟩

end RuntimeForm
end EntryPoints
