import EntryPoints.Proofs.FormWords
import EntryPoints.Proofs.Invocation

/-!
Interpreters that are found nowhere. The form of a script keeps such an interpreter as its first
word, for the runtime may have it. Settling then takes this word for the program of the command and
looks for it in the staged root, so the command settles only behind a wrapper
(`unresolved_settles_iff`).
-/
namespace EntryPoints

namespace RuntimeForm

variable {s : Stage} {files : FileTree} {declared interpreter : Text} {form : RuntimeForm}

theorem front_of_unresolved {word : Text} {directive : List Text}
    (h : .interpreterUnresolved interpreter ∈ (front s files word directive).notices) :
    (∃ arguments, dropLauncher directive = interpreter :: arguments ∧
      (front s files word directive).words = interpreter :: arguments) ∧
      (interpreter = launcher ∨ s.resolve files interpreter = .missing) := by
  unfold front at h ⊢
  split at h
  · exact absurd h List.not_mem_nil
  · rename_i first arguments hdirective
    rw [hdirective]
    split at h
    · rename_i hlauncher
      obtain rfl : interpreter = first := by simpa using h
      rw [if_pos hlauncher]
      exact ⟨⟨arguments, rfl, rfl⟩, .inl hlauncher⟩
    · rename_i hlauncher
      rw [if_neg hlauncher]
      split at h
      · rename_i hmissing
        obtain rfl : interpreter = first := by simpa using h
        rw [hmissing]
        exact ⟨⟨arguments, rfl, rfl⟩, .inr rfl⟩
      · exact absurd h List.not_mem_nil
      · simp at h

theorem not_mem_explanation {declared result : Text} {interpreted : Bool} :
    .interpreterUnresolved interpreter ∉ explanation s declared result interpreted := by
  intro h
  cases isExplanation_of_mem h

theorem text?_of_unresolved (h : ofDeclared s files declared = .ok form)
    (hn : .interpreterUnresolved interpreter ∈ form.notices) :
    (∃ rest, form.text? = some (interpreter ++ ' ' :: rest)) ∧ Words.IsWord interpreter ∧
      (interpreter = launcher ∨ s.resolve files interpreter = .missing) := by
  cases formed_of_ofDeclared h with
  | absolute _ => exact absurd hn List.not_mem_nil
  | empty _ _ => simp at hn
  | missing _ _ _ _ => simp at hn
  | literal _ _ _ _ => exact absurd hn (by simpa [ofPath] using not_mem_explanation)
  | searched _ _ _ _ => exact absurd hn (by simpa [ofPath] using not_mem_explanation)
  | interpreted _ hwords hdirective hscript _ =>
    rcases List.mem_append.mp hn with hn | hn
    · obtain ⟨⟨arguments, hdrop, hfront⟩, hleft⟩ := front_of_unresolved hn
      refine ⟨?_, ?_, hleft⟩
      · simp only [ofPath, hfront, List.cons_append]
        rw [Words.unsplit_cons _ (by simp)]
        exact ⟨_, rfl⟩
      · refine isWord_of_directive hdirective (mem_of_mem_dropLauncher ?_)
        rw [hdrop]
        exact List.mem_cons_self
    · exact absurd hn not_mem_explanation

end RuntimeForm

namespace EntryPoint

variable {e : EntryPoint} {p : Policy} {s : Stage} {files : FileTree}

theorem checkRunnable_of_word {word rest : Text} (hcommand : e.command = word ++ ' ' :: rest)
    (hword : Words.IsWord word) (hneeds : needsWrapper e.command = false) :
    e.checkRunnable s files =
      if files.isExecutable (Path.join s.root word) then .ok ()
      else .error (.notExecutable e.app e.command) := by
  have hsome := Words.split?_isSome_of_no_mark fun c hc => isMark_of_needsWrapper hneeds hc
  obtain ⟨words, hsplit⟩ := Option.isSome_iff_exists.mp hsome
  have hfirst := hsplit
  rw [hcommand, Words.split?_word_append hword] at hfirst
  obtain ⟨others, _, hwords⟩ := Option.map_eq_some_iff.mp hfirst
  subst hwords
  simp only [checkRunnable, Words.split_eq_ok_iff.mpr hsplit]

theorem concluding_isOk_iff {outcome : Except Failure Text} {settled : EntryPoint}
    (h : Concluding e p s files outcome settled) (hmay : p.mayWrap = true) :
    (outcome.isOk = true ↔ needsWrapper e.command = true ∨ e.checkRunnable s files = .ok ()) ∧
      ∀ f, outcome = .error f →
        needsWrapper e.command = false ∧ e.checkRunnable s files = .error f := by
  cases h with
  | wrapped hneeds _ => simp [hneeds, Except.isOk, Except.toBool]
  | refused _ hmay' => simp [hmay] at hmay'
  | direct hneeds hruns => simp [hruns, Except.isOk, Except.toBool]
  | stuck hneeds hruns => simp [hneeds, hruns, Except.isOk, Except.toBool]

/-- A command whose form begins with a word settles behind a wrapper, or if that word is the path of
an executable file. -/
theorem settle_isOk_iff_of_word (hfresh : e.wrapped? = none) {form : RuntimeForm}
    (hform : RuntimeForm.ofDeclared s files e.command = .ok form) {word rest : Text}
    (htext : form.text? = some (word ++ ' ' :: rest)) (hword : Words.IsWord word) :
    ((e.settle ⟨true, true⟩ s files).outcome.isOk = true ↔
      needsWrapper (word ++ ' ' :: rest) = true ∨
        files.isExecutable (Path.join s.root word) = true) ∧
      ∀ f, (e.settle ⟨true, true⟩ s files).outcome = .error f →
        f = .notExecutable e.app (word ++ ' ' :: rest) := by
  have hcommand : (e.inForm form).command = word ++ ' ' :: rest := by simp [inForm, htext]
  have hchecked (hneeds : needsWrapper (word ++ ' ' :: rest) = false) :
      (e.inForm form).checkRunnable s files =
        if files.isExecutable (Path.join s.root word) then .ok ()
        else .error (.notExecutable e.app (word ++ ' ' :: rest)) := by
    rw [← hcommand] at hneeds ⊢
    exact checkRunnable_of_word hcommand hword hneeds
  obtain ⟨hok, herror⟩ := concluding_isOk_iff
    (concluding_settle_of_form (p := ⟨true, true⟩) hfresh rfl hform htext) rfl
  rw [hcommand] at hok herror
  constructor
  · rw [hok]
    cases hneeds : needsWrapper (word ++ ' ' :: rest) with
    | true => simp
    | false => simp [hchecked hneeds]
  · intro f hf
    obtain ⟨hneeds, hruns⟩ := herror f hf
    rw [hchecked hneeds] at hruns
    split at hruns
    · cases hruns
    · exact (Except.error.inj hruns).symm

theorem isAbsolute_of_needsWrapper {word rest : Text}
    (hneeds : needsWrapper (word ++ ' ' :: rest) = false) : Path.isAbsolute word = false := by
  obtain ⟨_, hrelative, _⟩ := needsWrapper_eq_false_iff.mp hneeds
  cases word with
  | nil => rfl
  | cons c word => rwa [Path.isAbsolute_of_append (List.cons_ne_nil c word)] at hrelative

/-- A lost interpreter leads to an executable file only if it is named from the anchor. -/
theorem anchored_of_isExecutable {interpreter rest : Text}
    (hlost : interpreter = RuntimeForm.launcher ∨ s.resolve files interpreter = .missing)
    (hneeds : needsWrapper (interpreter ++ ' ' :: rest) = false)
    (hexecutable : files.isExecutable (Path.join s.root interpreter) = true) :
    s.anchor <+: interpreter := by
  have hrelative := isAbsolute_of_needsWrapper hneeds
  rcases hlost with rfl | hmissing
  · cases hrelative
  · have hholds := FileTree.holds_of_isExecutable hexecutable
    exact RuntimeForm.anchor_of_missing hmissing hrelative hholds

/-- With an interpreter that is found nowhere in front of it, a script settles if its form goes
behind a wrapper. Otherwise it does not, unless the interpreter is named from the anchor and that
very name leads to an executable file. -/
theorem unresolved_settles_iff {interpreter : Text} (hfresh : e.wrapped? = none)
    {form : RuntimeForm}
    (hform : RuntimeForm.ofDeclared s files e.command = .ok form)
    (hleft : .interpreterUnresolved interpreter ∈ form.notices) :
    ∃ text rest, form.text? = some text ∧ text = interpreter ++ ' ' :: rest ∧
      ((e.settle ⟨true, true⟩ s files).outcome.isOk = true ↔
        needsWrapper text = true ∨
          s.anchor <+: interpreter ∧ files.isExecutable (Path.join s.root interpreter) = true) ∧
      ∀ f, (e.settle ⟨true, true⟩ s files).outcome = .error f → f = .notExecutable e.app text := by
  obtain ⟨⟨rest, htext⟩, hword, hlost⟩ := RuntimeForm.text?_of_unresolved hform hleft
  obtain ⟨hok, herror⟩ := settle_isOk_iff_of_word hfresh hform htext hword
  refine ⟨_, rest, htext, rfl, ?_, herror⟩
  rw [hok]
  constructor
  · rintro (hneeds | hexecutable)
    · exact .inl hneeds
    · cases hneeds : needsWrapper (interpreter ++ ' ' :: rest) with
      | true => exact .inl rfl
      | false => exact .inr ⟨anchored_of_isExecutable hlost hneeds hexecutable, hexecutable⟩
  · rintro (hneeds | ⟨_, hexecutable⟩)
    · exact .inl hneeds
    · exact .inr hexecutable

def hostlessStage : Stage :=
  ({} : Settings).stage RuntimeForm.scriptTree (Text.of "/stage") (.named (.ofList []))

def lostScript : EntryPoint := declare (Text.of "app") (Text.of "serve") (Text.of "bin/run")

def lostForm : RuntimeForm where
  text? := some (Text.of "widget -u $SNAP/bin/run")
  notices :=
    [.interpreterUnresolved (Text.of "widget"),
      .interpreterAdded (Text.of "bin/run") (Text.of "widget -u $SNAP/bin/run")]
  found := []

theorem ofDeclared_lostScript :
    RuntimeForm.ofDeclared hostlessStage RuntimeForm.scriptTree lostScript.command =
      .ok lostForm := by
  rfl

theorem lostScript_settles_iff :
    lostScript.wrapped? = none ∧
      RuntimeForm.ofDeclared hostlessStage RuntimeForm.scriptTree lostScript.command =
        .ok lostForm ∧
      .interpreterUnresolved (Text.of "widget") ∈ lostForm.notices ∧
      ∃ text rest, lostForm.text? = some text ∧ text = Text.of "widget" ++ ' ' :: rest ∧
        ((lostScript.settle ⟨true, true⟩ hostlessStage RuntimeForm.scriptTree).outcome.isOk = true ↔
          needsWrapper text = true ∨ hostlessStage.anchor <+: Text.of "widget" ∧
            RuntimeForm.scriptTree.isExecutable
              (Path.join hostlessStage.root (Text.of "widget")) = true) ∧
        ∀ f, (lostScript.settle ⟨true, true⟩ hostlessStage RuntimeForm.scriptTree).outcome =
          .error f → f = .notExecutable lostScript.app text := by
  have hleft : .interpreterUnresolved (Text.of "widget") ∈ lostForm.notices := List.mem_cons_self
  exact ⟨rfl, ofDeclared_lostScript, hleft, unresolved_settles_iff rfl ofDeclared_lostScript hleft⟩

/-- Under valid settings a script whose interpreter is left to the runtime does not settle. -/
theorem lostScript_does_not_settle :
    ({} : Settings).fault? = none ∧ lostScript.wrapped? = none ∧
      RuntimeForm.ofDeclared hostlessStage RuntimeForm.scriptTree lostScript.command =
        .ok lostForm ∧
      .interpreterUnresolved (Text.of "widget") ∈ lostForm.notices ∧
      firstFailure? lostForm.notices = none ∧
      (lostScript.settle ⟨true, true⟩ hostlessStage RuntimeForm.scriptTree).outcome =
        .error (.notExecutable (Text.of "app") (Text.of "widget -u $SNAP/bin/run")) := by
  refine ⟨by decide, rfl, ofDeclared_lostScript, List.mem_cons_self, rfl, by rfl⟩

end EntryPoint
end EntryPoints
