import EntryPoints.Proofs.FormNotices
import EntryPoints.Proofs.WordLayouts

/-!
The words of a runtime form. A command is taken apart into words, the words are replaced one by
one, and the result is put together again. The words that were declared come out as they went in;
a path that was looked up need not be a word, and the form splits into the words that it was made of
exactly if its paths are words (`split_iff_paths_are_words`).
-/
namespace EntryPoints.RuntimeForm

variable {s : Stage} {files : FileTree} {declared : Text}

def runtimeText? (s : Stage) (files : FileTree) (declared : Text) : Option Text :=
  (ofDeclared s files declared).toOption.bind RuntimeForm.text?

/-- The word for a program that lies at `path`. A script is anchored for its interpreter. -/
def program (s : Stage) (directive : List Text) (path : Text) : Text :=
  if directive.isEmpty then path else anchored s path

/-- The words that take the place of those of a command: the interpreter with its arguments, if
there is a directive, then the program, then the command's own arguments. -/
def rewritten (s : Stage) (files : FileTree) (word : Text) (arguments directive : List Text)
    (path : Text) : List Text :=
  (front s files word directive).words ++ program s directive path :: arguments

/-- The declared text has these command words, and what it is rewritten by: the directive of the
file that its first word names, and the path that this word leads to. -/
structure Rewrites (s : Stage) (files : FileTree) (declared word : Text)
    (arguments directive : List Text) (path : Text) : Prop where
  words : commandWords? s declared = some (word :: arguments)
  directive : directiveOf s files word = .ok directive
  leads : (s.resolve files word).path? = some path

theorem text?_ofWords (declared word : Text) (arguments directive : List Text) :
    (ofWords s files declared word arguments directive).text? =
      (s.resolve files word).path?.map fun path =>
        Words.unsplit (rewritten s files word arguments directive path) := by
  rw [ofWords]
  cases s.resolve files word with
  | missing => rfl
  | literal path => cases directive <;> rfl
  | searched path m => cases directive <;> rfl

theorem ofDeclared_of_words (hrelative : Path.isAbsolute declared = false) {word : Text}
    {arguments directive : List Text}
    (hwords : commandWords? s declared = some (word :: arguments))
    (hdirective : directiveOf s files word = .ok directive) :
    ofDeclared s files declared = .ok (ofWords s files declared word arguments directive) := by
  rw [commandWords?] at hwords
  simp [ofDeclared, hrelative, Words.split_eq_ok_iff.mpr hwords, hdirective]

theorem runtimeText?_of_ofDeclared {form : RuntimeForm}
    (h : ofDeclared s files declared = .ok form) :
    runtimeText? s files declared = form.text? := by
  simp [runtimeText?, h, Except.toOption]

theorem runtimeText?_of_words (hrelative : Path.isAbsolute declared = false) {word : Text}
    {arguments directive : List Text}
    (hwords : commandWords? s declared = some (word :: arguments))
    (hdirective : directiveOf s files word = .ok directive) :
    runtimeText? s files declared = (s.resolve files word).path?.map fun path =>
      Words.unsplit (rewritten s files word arguments directive path) := by
  rw [runtimeText?_of_ofDeclared (ofDeclared_of_words hrelative hwords hdirective), text?_ofWords]

theorem runtimeText?_eq_some_iff (hrelative : Path.isAbsolute declared = false) {text : Text} :
    runtimeText? s files declared = some text ↔
      ∃ word arguments directive path, Rewrites s files declared word arguments directive path ∧
        text = Words.unsplit (rewritten s files word arguments directive path) := by
  constructor
  · intro h
    have hwords : ∃ word arguments directive,
        commandWords? s declared = some (word :: arguments) ∧
          directiveOf s files word = .ok directive := by
      cases hform : ofDeclared s files declared with
      | error f => simp [runtimeText?, hform, Except.toOption] at h
      | ok form =>
        have hformed := formed_of_ofDeclared hform
        rw [runtimeText?_of_ofDeclared hform] at h
        cases hformed with
        | absolute habsolute => simp [hrelative] at habsolute
        | empty _ _ => cases h
        | missing _ _ _ _ => cases h
        | literal _ hwords hdirective _ => exact ⟨_, _, _, hwords, hdirective⟩
        | searched _ hwords hdirective _ => exact ⟨_, _, _, hwords, hdirective⟩
        | interpreted _ hwords hdirective _ _ => exact ⟨_, _, _, hwords, hdirective⟩
    obtain ⟨word, arguments, directive, hwords, hdirective⟩ := hwords
    rw [runtimeText?_of_words hrelative hwords hdirective] at h
    obtain ⟨path, hpath, htext⟩ := Option.map_eq_some_iff.mp h
    exact ⟨word, arguments, directive, path, ⟨hwords, hdirective, hpath⟩, htext.symm⟩
  · rintro ⟨word, arguments, directive, path, hrewrites, rfl⟩
    rw [runtimeText?_of_words hrelative hrewrites.words hrewrites.directive, hrewrites.leads]
    rfl

theorem commandWords?_of_split? (hanchor : ¬ s.anchor <+: declared) {words : List Text}
    (h : Words.split? declared = some words) : commandWords? s declared = some words := by
  rw [commandWords?, Text.dropStart_eq_self hanchor, h]

theorem ne_unsplit_rewritten {word : Text} {arguments directive : List Text} {text : Text}
    (hwords : Words.split? text = some (word :: arguments))
    (hrelative : Path.isAbsolute word = false) (hscript : directive ≠ []) :
    text ≠ Words.unsplit (rewritten s files word arguments directive word) := by
  intro htext
  -- Words keep their slashes, so that of the anchor is one too many.
  have hgap : Words.isGap '/' = false := by decide
  have hprogram : program s directive word = s.anchor ++ word := by
    simp [program, hscript, anchored, hrelative]
  have hslash : 0 < s.anchor.count '/' := List.count_pos_iff.mpr (by simp [Stage.anchor])
  have hcount := congrArg (List.count '/') htext
  rw [Words.count_unsplit _ hgap, ← Words.count_of_split? hwords hgap, rewritten, hprogram,
    List.flatten_append, List.flatten_cons, List.flatten_cons, List.count_append,
    List.count_append, List.count_append, List.count_append] at hcount
  omega

/-- A command that begins with a word from the root is its own runtime form exactly if it has single
spaces, its file has no directive, and its first word leads to the path that it spells. -/
theorem runtimeText?_eq_self_iff (hrelative : Path.isAbsolute declared = false)
    (hanchor : ¬ s.anchor <+: declared) {word : Text} {arguments : List Text}
    (hwords : Words.split? declared = some (word :: arguments)) (hword : s.relative word = word) :
    runtimeText? s files declared = some declared ↔
      directiveOf s files word = .ok [] ∧
        ∃ path, (s.resolve files word).path? = some path ∧
          Words.unsplit (path :: arguments) = declared := by
  have hcommand := commandWords?_of_split? hanchor hwords
  constructor
  · intro h
    obtain ⟨word', arguments', directive, path, hrewrites, htext⟩ :=
      (runtimeText?_eq_some_iff hrelative).mp h
    obtain ⟨rfl, rfl⟩ : word = word' ∧ arguments = arguments' := by
      simpa [hcommand] using hrewrites.words
    by_cases hscript : directive = []
    · subst hscript
      exact ⟨hrewrites.directive, path, hrewrites.leads, htext.symm⟩
    · obtain rfl : word = path := by
        simpa [resolve_of_directive hrewrites.directive hscript, Referent.path?, hword] using
          hrewrites.leads
      have hplain := (Stage.relative_eq_self_iff.mp hword).1
      exact absurd htext (ne_unsplit_rewritten hwords hplain hscript)
  · rintro ⟨hdirective, path, hpath, htext⟩
    rw [runtimeText?_of_words hrelative hcommand hdirective, hpath]
    exact congrArg some htext

theorem line_of_directive {word : Text} {directive : List Text}
    (h : directiveOf s files word = .ok directive) (hscript : directive ≠ []) :
    ∃ bytes line, Directive.line? bytes = some line ∧ Words.split? line = some directive := by
  rcases directiveOf_cases s files word with
    hnone | ⟨path, cause, hio⟩ | ⟨bytes, line, hline, hread⟩
  · rw [hnone] at h
    exact absurd (Except.ok.inj h).symm hscript
  · rw [hio] at h
    cases h
  · rw [hread] at h
    exact ⟨bytes, line, hline, Words.split_eq_ok_iff.mp h⟩

theorem isWord_of_directive {word : Text} {directive : List Text}
    (h : directiveOf s files word = .ok directive) {w : Text} (hw : w ∈ directive) :
    Words.IsWord w := by
  obtain ⟨_, line, _, hsplit⟩ := line_of_directive h (List.ne_nil_of_mem hw)
  exact Words.isWord_of_mem_split? hsplit hw

theorem mem_of_mem_dropLauncher {directive : List Text} {w : Text}
    (h : w ∈ dropLauncher directive) : w ∈ directive := by
  unfold dropLauncher at h
  split at h
  · split at h
    · exact List.mem_cons_of_mem _ h
    · exact h
  · exact h

theorem tail_front (word : Text) (directive : List Text) :
    (front s files word directive).words.tail = (dropLauncher directive).tail := by
  rw [front]
  split
  · rename_i h
    simp [h]
  · rename_i interpreter arguments h
    rw [h]
    split
    · rfl
    · split <;> rfl

/-- Words that were declared stay words, so all are if those that were looked up are. -/
theorem forall_isWord_rewritten {word : Text} {arguments directive : List Text} {path : Text}
    (h : Rewrites s files declared word arguments directive path) :
    (∀ w ∈ rewritten s files word arguments directive path, Words.IsWord w) ↔
      (∀ interpreter, (front s files word directive).words.head? = some interpreter →
        Words.IsWord interpreter) ∧ Words.IsWord (program s directive path) := by
  have harguments : ∀ w ∈ arguments, Words.IsWord w := fun w hw =>
    Words.isWord_of_mem_split? h.words (List.mem_cons_of_mem _ hw)
  have htail : ∀ w ∈ (front s files word directive).words.tail, Words.IsWord w := by
    intro w hw
    rw [tail_front] at hw
    exact isWord_of_directive h.directive (mem_of_mem_dropLauncher (List.mem_of_mem_tail hw))
  rw [rewritten, List.forall_mem_append, List.forall_mem_cons]
  constructor
  · rintro ⟨hfront, hprogram, _⟩
    exact ⟨fun interpreter hhead => hfront interpreter (List.mem_of_head? hhead), hprogram⟩
  · rintro ⟨hhead, hprogram⟩
    refine ⟨fun w hw => ?_, hprogram, harguments⟩
    obtain ⟨first, others, hwords⟩ := List.exists_cons_of_ne_nil (List.ne_nil_of_mem hw)
    rw [hwords] at hhead htail hw
    rcases List.mem_cons.mp hw with rfl | hw
    · exact hhead w rfl
    · exact htail w hw

/-- The runtime form of a command that is not absolute is made of the words that the command is
rewritten to, and it splits into them again exactly if the program and its interpreter, which were
looked up, are words. -/
theorem split_iff_paths_are_words (hrelative : Path.isAbsolute declared = false) {text : Text}
    (h : runtimeText? s files declared = some text) :
    ∃ word arguments directive path, Rewrites s files declared word arguments directive path ∧
      text = Words.unsplit (rewritten s files word arguments directive path) ∧
      (Words.split? text = some (rewritten s files word arguments directive path) ↔
        (∀ interpreter, (front s files word directive).words.head? = some interpreter →
          Words.IsWord interpreter) ∧ Words.IsWord (program s directive path)) := by
  obtain ⟨word, arguments, directive, path, hrewrites, htext⟩ :=
    (runtimeText?_eq_some_iff hrelative).mp h
  refine ⟨word, arguments, directive, path, hrewrites, htext, ?_⟩
  rw [← forall_isWord_rewritten hrewrites, htext]
  constructor
  · intro hsplit w hw
    exact Words.isWord_of_mem_split? hsplit hw
  · exact Words.split?_unsplit

theorem split_run_now :
    Path.isAbsolute (Text.of "$SNAP/bin/run  now") = false ∧
      runtimeText? scriptStage scriptTree (Text.of "$SNAP/bin/run  now") =
        some (Text.of "/opt/widget -u $SNAP/bin/run now") ∧
      ∃ word arguments directive path,
        Rewrites scriptStage scriptTree (Text.of "$SNAP/bin/run  now") word arguments directive
          path ∧
        Text.of "/opt/widget -u $SNAP/bin/run now" =
          Words.unsplit (rewritten scriptStage scriptTree word arguments directive path) ∧
        (Words.split? (Text.of "/opt/widget -u $SNAP/bin/run now") =
            some (rewritten scriptStage scriptTree word arguments directive path) ↔
          (∀ interpreter,
            (front scriptStage scriptTree word directive).words.head? = some interpreter →
              Words.IsWord interpreter) ∧
            Words.IsWord (program scriptStage directive path)) := by
  have htext : runtimeText? scriptStage scriptTree (Text.of "$SNAP/bin/run  now") =
      some (Text.of "/opt/widget -u $SNAP/bin/run now") := by rfl
  exact ⟨by decide, htext, split_iff_paths_are_words (by decide) htext⟩

def spacedTree : FileTree :=
  (FileTree.empty.addFile (Text.of "/stage/my bin/tool") ⟨[], 0o755⟩).toOption.getD .empty

def spacedSettings : Settings := { binDirs := [Text.of "my bin"] }

def spacedStage : Stage := spacedSettings.stage spacedTree (Text.of "/stage") (.named (.ofList []))

/-- Under valid settings a path with a space in it is found and put in the place of one word. The
form then splits inside of that path. -/
theorem spaced_path_is_two_words :
    spacedSettings.fault? = none ∧
      Rewrites spacedStage spacedTree (Text.of "tool --serve") (Text.of "tool") [Text.of "--serve"]
        [] (Text.of "my bin/tool") ∧
      rewritten spacedStage spacedTree (Text.of "tool") [Text.of "--serve"] []
        (Text.of "my bin/tool") = [Text.of "my bin/tool", Text.of "--serve"] ∧
      runtimeText? spacedStage spacedTree (Text.of "tool --serve") =
        some (Text.of "my bin/tool --serve") ∧
      Words.split? (Text.of "my bin/tool --serve") =
        some [Text.of "my", Text.of "bin/tool", Text.of "--serve"] := by
  refine ⟨by decide, ⟨by rfl, by rfl, by rfl⟩, by rfl, by rfl, by rfl⟩

end EntryPoints.RuntimeForm
