import EntryPoints.RuntimeForm

/-!
The ways of a declared command to its runtime form, each with what the stage and the files have to
be like (`formed_of_ofDeclared`). A file with a directive is found where the command says, so only a
command that is not a script is ever searched for or missed.
-/
namespace EntryPoints.RuntimeForm

variable {s : Stage} {files : FileTree}

def commandWords? (s : Stage) (declared : Text) : Option (List Text) :=
  Words.split? (Text.dropStart s.anchor declared)

/-- The forms that a declared text can take, by what its first word names. -/
inductive Formed (s : Stage) (files : FileTree) (declared : Text) : RuntimeForm → Prop where
  | absolute (habsolute : Path.isAbsolute declared = true) :
      Formed s files declared ⟨some declared, [], []⟩
  | empty (hrelative : Path.isAbsolute declared = false)
      (hwords : commandWords? s declared = some []) :
      Formed s files declared ⟨none, [.commandNotFound declared], []⟩
  | missing (hrelative : Path.isAbsolute declared = false) {word : Text} {arguments : List Text}
      (hwords : commandWords? s declared = some (word :: arguments))
      (hdirective : directiveOf s files word = .ok [])
      (hresolve : s.resolve files word = .missing) :
      Formed s files declared ⟨none, [.commandNotFound word], []⟩
  | literal (hrelative : Path.isAbsolute declared = false) {word : Text} {arguments : List Text}
      (hwords : commandWords? s declared = some (word :: arguments))
      (hdirective : directiveOf s files word = .ok [])
      (hresolve : s.resolve files word = .literal (s.relative word)) :
      Formed s files declared
        (ofPath s declared false ⟨[], [], []⟩ (s.relative word) arguments)
  | searched (hrelative : Path.isAbsolute declared = false) {word : Text} {arguments : List Text}
      {path : Text} {m : Match}
      (hwords : commandWords? s declared = some (word :: arguments))
      (hdirective : directiveOf s files word = .ok [])
      (hresolve : s.resolve files word = .searched path m) :
      Formed s files declared
        (ofPath s declared false ⟨[], [.commandSearched word path m.origin], [m]⟩ path arguments)
  | interpreted (hrelative : Path.isAbsolute declared = false) {word : Text}
      {arguments directive : List Text}
      (hwords : commandWords? s declared = some (word :: arguments))
      (hdirective : directiveOf s files word = .ok directive) (hscript : directive ≠ [])
      (hresolve : s.resolve files word = .literal (s.relative word)) :
      Formed s files declared
        (ofPath s declared true (front s files word directive) (s.relative word) arguments)

/-- A word has no directive, or that of the line in its file, or one that cannot be read. -/
theorem directiveOf_cases (s : Stage) (files : FileTree) (word : Text) :
    directiveOf s files word = .ok [] ∨
      (∃ path cause, directiveOf s files word = .error (.io path cause)) ∨
      ∃ bytes line, Directive.line? bytes = some line ∧
        directiveOf s files word = Words.split line := by
  unfold directiveOf Directive.read Directive.ofBytes
  dsimp only
  split
  · split
    · rename_i bytes _
      split
      · exact .inl rfl
      · rename_i line hline
        exact .inr (.inr ⟨bytes, line, hline, rfl⟩)
    · exact .inr (.inl ⟨_, _, rfl⟩)
  · exact .inl rfl

theorem resolve_of_holds {word : Text}
    (h : files.holds (Path.join s.root (s.relative word)) = true) :
    s.resolve files word = .literal (s.relative word) := by
  simp [Stage.resolve, h]

theorem resolve_of_isExecutable {word : Text} (hword : s.relative word = word)
    (h : files.isExecutable (Path.join s.root word) = true) :
    s.resolve files word = .literal word := by
  have hholds := FileTree.holds_of_isExecutable h
  rw [← hword] at hholds
  rw [resolve_of_holds hholds, hword]

/-- A relative word that leads nowhere spells something only with its anchor. -/
theorem anchor_of_missing {word : Text} (hmissing : s.resolve files word = .missing)
    (hrelative : Path.isAbsolute word = false)
    (hholds : files.holds (Path.join s.root word) = true) : s.anchor <+: word := by
  apply Decidable.byContradiction
  intro hanchor
  have hword : s.relative word = word := Stage.relative_eq_self_iff.mpr ⟨hrelative, hanchor⟩
  rw [← hword] at hholds
  rw [resolve_of_holds hholds] at hmissing
  cases hmissing

theorem holds_of_literal {word path : Text} (h : s.resolve files word = .literal path) :
    files.holds (Path.join s.root path) = true := by
  simp only [Stage.resolve] at h
  split at h
  · rename_i hholds
    cases h
    exact hholds
  · split at h <;> cases h

theorem eq_relative_of_literal {word path : Text} (h : s.resolve files word = .literal path) :
    path = s.relative word := by
  simp only [Stage.resolve] at h
  split at h
  · cases h
    rfl
  · split at h <;> cases h

theorem resolve_of_directive {word : Text} {directive : List Text}
    (hdirective : directiveOf s files word = .ok directive) (hscript : directive ≠ []) :
    s.resolve files word = .literal (s.relative word) := by
  rw [directiveOf] at hdirective
  split at hdirective
  · rename_i hfile
    exact resolve_of_holds (FileTree.holds_of_isFile hfile)
  · cases hdirective
    exact absurd rfl hscript

/-- The form depends on the files and the search only through what command words lead to. -/
theorem ofDeclared_congr {search : Search} {files' : FileTree} {declared : Text}
    (hresolve : ∀ word, s.resolve files word = { s with search }.resolve files' word)
    (hdirective : ∀ word, directiveOf s files word = directiveOf s files' word) :
    ofDeclared s files declared = ofDeclared { s with search } files' declared := by
  have hfront : front s files = front { s with search } files' := by
    funext word directive
    simp only [front, hresolve]
  have hwords : ofWords s files = ofWords { s with search } files' := by
    funext declared word arguments directive
    simp only [ofWords, hfront, hresolve]
    rfl
  simp only [ofDeclared, hdirective, hwords]
  rfl

theorem ofWords_plain (declared word : Text) (arguments : List Text) :
    ofWords s files declared word arguments [] =
      match s.resolve files word with
      | .missing => ⟨none, [.commandNotFound word], []⟩
      | .literal path => ofPath s declared false ⟨[], [], []⟩ path arguments
      | .searched path m =>
        ofPath s declared false ⟨[], [.commandSearched word path m.origin], [m]⟩ path
          arguments := by
  rfl

theorem formed_of_ofDeclared {declared : Text} {form : RuntimeForm}
    (h : ofDeclared s files declared = .ok form) : Formed s files declared form := by
  rw [ofDeclared] at h
  split at h
  · rename_i habsolute
    cases h
    exact .absolute habsolute
  · rename_i hrelative
    have hrelative : Path.isAbsolute declared = false := by simpa using hrelative
    dsimp only at h
    split at h
    · cases h
    · rename_i hwords
      cases h
      exact .empty hrelative (Words.split_eq_ok_iff.mp hwords)
    · rename_i word arguments hsplit
      have hwords : commandWords? s declared = some (word :: arguments) :=
        Words.split_eq_ok_iff.mp hsplit
      split at h
      · cases h
      · rename_i directive hdirective
        cases h
        by_cases hscript : directive = []
        · subst hscript
          rw [ofWords_plain]
          cases hresolve : s.resolve files word with
          | missing => exact .missing hrelative hwords hdirective hresolve
          | literal path =>
            obtain rfl := eq_relative_of_literal hresolve
            exact .literal hrelative hwords hdirective hresolve
          | searched path m => exact .searched hrelative hwords hdirective hresolve
        · -- A file with a directive is there, so its word was not searched for.
          have hresolve := resolve_of_directive hdirective hscript
          have hsome : directive.isEmpty = false := by simpa using hscript
          simp only [ofWords, hresolve, hsome]
          exact .interpreted hrelative hwords hdirective hscript hresolve

end EntryPoints.RuntimeForm
