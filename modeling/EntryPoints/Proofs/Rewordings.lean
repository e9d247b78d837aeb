import EntryPoints.Proofs.FormWords
import EntryPoints.Proofs.Settling

/-!
Declared texts that say the same. A command is read as the words behind its anchor, if it has one,
so the anchor and the gaps between words have no say in what becomes of it
(`treatsAlike_of_saysSame`). Only what is told about the text itself hangs on how it was written:
the notices that explain a change, and the failure for a text without words.
-/
namespace EntryPoints

/-- The notice tells what a word was found to lead to, or that it leads nowhere. -/
def Notice.isLookup : Notice → Bool
  | .commandSearched .. | .interpreterUnresolved _ | .interpreterSearched .. => true
  | _ => false

variable {s : Stage} {files : FileTree} {a b : Text}

/-- Neither text is absolute, and both have the same words behind their anchor, if there is one. -/
structure SaysSame (s : Stage) (a b : Text) : Prop where
  relative : Path.isAbsolute a = false
  relative' : Path.isAbsolute b = false
  words : ∃ words, RuntimeForm.commandWords? s a = some words ∧
    RuntimeForm.commandWords? s b = some words

theorem saysSame_anchored (hvalid : Path.isAbsolute s.anchor = false)
    (hrelative : Path.isAbsolute a = false) (hanchor : ¬ s.anchor <+: a) {words : List Text}
    (hwords : Words.split? a = some words) : SaysSame s a (s.anchor ++ a) where
  relative := hrelative
  relative' := by
    have hne : s.anchor ≠ [] := by simp [Stage.anchor]
    rwa [Path.isAbsolute_of_append hne]
  words := by
    refine ⟨words, RuntimeForm.commandWords?_of_split? hanchor hwords, ?_⟩
    rw [RuntimeForm.commandWords?, Text.dropStart_append, hwords]

namespace RuntimeForm

/-- What comes of bringing `a` and `b` into their runtime forms: both fail for one reason, both lack
a word to look up, or their forms differ in explanations only. -/
inductive FormsAlike (a b : Text) :
    Except Failure RuntimeForm → Except Failure RuntimeForm → Prop where
  | unread (f : Failure) : FormsAlike a b (.error f) (.error f)
  | empty : FormsAlike a b (.ok ⟨none, [.commandNotFound a], []⟩)
      (.ok ⟨none, [.commandNotFound b], []⟩)
  | missing (word : Text) : FormsAlike a b (.ok ⟨none, [.commandNotFound word], []⟩)
      (.ok ⟨none, [.commandNotFound word], []⟩)
  | formed {form form' : RuntimeForm} {text : Text} (htext : form.text? = some text)
      (htext' : form'.text? = some text)
      (hlookups : form.notices.filter Notice.isLookup = form'.notices.filter Notice.isLookup)
      (hfound : form.found = form'.found) : FormsAlike a b (.ok form) (.ok form')

/-- The declared text has a say in the explanations of a form and nowhere else. -/
theorem formsAlike_ofWords {word : Text} {directive : List Text}
    (hdirective : directiveOf s files word = .ok directive) (arguments : List Text) :
    FormsAlike a b (.ok (ofWords s files a word arguments directive))
      (.ok (ofWords s files b word arguments directive)) := by
  have hplain : ∀ n : Notice, n.isExplanation = true → n.isLookup = false := by
    intro n hexplains
    cases n with
    | redundantAnchor command anchor => rfl
    | interpreterAdded command result => rfl
    | commandChanged command result => rfl
    | _ => cases hexplains
  cases hresolve : s.resolve files word with
  | missing =>
    have hscript : directive = [] := by
      apply Classical.byContradiction
      intro hscript
      simp [resolve_of_directive hdirective hscript] at hresolve
    subst hscript
    simp only [ofWords_plain, hresolve]
    exact .missing word
  | literal path =>
    simp only [ofWords, hresolve]
    refine .formed rfl rfl ?_ rfl
    rw [filter_notices_ofPath hplain, filter_notices_ofPath hplain]
  | searched path m =>
    simp only [ofWords, hresolve]
    refine .formed rfl rfl ?_ rfl
    rw [filter_notices_ofPath hplain, filter_notices_ofPath hplain]

theorem formsAlike_of_saysSame (h : SaysSame s a b) :
    FormsAlike a b (ofDeclared s files a) (ofDeclared s files b) := by
  obtain ⟨words, hwords, hwords'⟩ := h.words
  rw [commandWords?, ← Words.split_eq_ok_iff] at hwords hwords'
  simp only [ofDeclared, h.relative, h.relative', hwords, hwords', Bool.false_eq_true, if_false]
  cases words with
  | nil => exact .empty
  | cons word arguments =>
    cases hdirective : directiveOf s files word with
    | error f =>
      simp only [hdirective]
      exact .unread f
    | ok directive =>
      simp only [hdirective]
      exact formsAlike_ofWords hdirective arguments

end RuntimeForm

namespace EntryPoint

variable {e e' : EntryPoint} {p : Policy}

theorem settle_of_unread (hfresh : e.wrapped? = none) (hadapts : p.adapts = true) {f : Failure}
    (hform : RuntimeForm.ofDeclared s files e.command = .error f) :
    (e.settle p s files).outcome = .error f ∧ (e.settle p s files).entry.wrapped? = none := by
  simp [settle, adapt, hfresh, hadapts, hform]

theorem settle_of_missing (hfresh : e.wrapped? = none) (hadapts : p.adapts = true) {command : Text}
    (hform : RuntimeForm.ofDeclared s files e.command =
      .ok ⟨none, [.commandNotFound command], []⟩) :
    (e.settle p s files).outcome = .error (.commandNotFound command) ∧
      (e.settle p s files).entry.wrapped? = none := by
  have hfatal : firstFailure? [.commandNotFound command] = some (.commandNotFound command) := rfl
  simp [settle, hfresh, hadapts, adapt_of_fatal hform hfatal, inForm]

/-- The notices that were taken before have no part in how a command is decided on. -/
theorem concluding_alike (hfresh : e.wrapped? = none) {ns : List Notice}
    {outcome outcome' : Except Failure Text} {settled settled' : EntryPoint}
    (h : Concluding e p s files outcome settled)
    (h' : Concluding { e with notices := ns } p s files outcome' settled') :
    outcome = outcome' ∧ settled.wrapped? = settled'.wrapped? := by
  have hfresh' : { e with notices := ns }.wrapped? = none := hfresh
  obtain ⟨rfl, rfl⟩ := conclude_of_concluding hfresh' h'
  have hrequires : { e with notices := ns }.requiresWrapper = needsWrapper e.command := by
    simp [requiresWrapper, hfresh]
  have hsame : { e with notices := ns }.checkRunnable s files = e.checkRunnable s files := rfl
  rw [conclude, hrequires, hsame]
  cases h with
  | wrapped hneeds hmay =>
    simp only [hneeds, hmay, if_true]
    exact ⟨rfl, rfl⟩
  | refused hneeds hmay => simp [hneeds, hmay]
  | direct hneeds hruns => simp [hneeds, hruns, EntryPoint.settled]
  | stuck hneeds hruns => simp [hneeds, hruns]

/-- The outcomes of settling commands with the texts `a` and `b`: the same text, the same failure,
or for either the failure that tells its own text. -/
inductive OutcomesAlike (a b : Text) : Except Failure Text → Except Failure Text → Prop where
  | settled (text : Text) : OutcomesAlike a b (.ok text) (.ok text)
  | failed (f : Failure) : OutcomesAlike a b (.error f) (.error f)
  | empty : OutcomesAlike a b (.error (.commandNotFound a)) (.error (.commandNotFound b))

theorem outcomesAlike_self (a b : Text) (outcome : Except Failure Text) :
    OutcomesAlike a b outcome outcome := by
  cases outcome with
  | ok text => exact .settled text
  | error f => exact .failed f

section Fresh
variable (happ : e.app = e'.app) (hname : e.name = e'.name) (hfresh : e.wrapped? = none)
  (hfresh' : e'.wrapped? = none) (hadapts : p.adapts = true)
include happ hname hfresh hfresh' hadapts

theorem settle_of_formsAlike
    (h : RuntimeForm.FormsAlike e.command e'.command
      (RuntimeForm.ofDeclared s files e.command) (RuntimeForm.ofDeclared s files e'.command)) :
    OutcomesAlike e.command e'.command (e.settle p s files).outcome
        (e'.settle p s files).outcome ∧
      (e.settle p s files).entry.wrapped? = (e'.settle p s files).entry.wrapped? := by
  generalize hform : RuntimeForm.ofDeclared s files e.command = result,
    hform' : RuntimeForm.ofDeclared s files e'.command = result' at h
  cases h with
  | unread f =>
    obtain ⟨houtcome, hnone⟩ := settle_of_unread hfresh hadapts hform
    obtain ⟨houtcome', hnone'⟩ := settle_of_unread hfresh' hadapts hform'
    rw [houtcome, houtcome', hnone, hnone']
    exact ⟨.failed f, rfl⟩
  | empty =>
    obtain ⟨houtcome, hnone⟩ := settle_of_missing hfresh hadapts hform
    obtain ⟨houtcome', hnone'⟩ := settle_of_missing hfresh' hadapts hform'
    rw [houtcome, houtcome', hnone, hnone']
    exact ⟨.empty, rfl⟩
  | missing word =>
    obtain ⟨houtcome, hnone⟩ := settle_of_missing hfresh hadapts hform
    obtain ⟨houtcome', hnone'⟩ := settle_of_missing hfresh' hadapts hform'
    rw [houtcome, houtcome', hnone, hnone']
    exact ⟨.failed _, rfl⟩
  | @formed form form' text htext htext' _ _ =>
    have hconcluding := concluding_settle_of_form hfresh hadapts hform htext
    have hconcluding' := concluding_settle_of_form hfresh' hadapts hform' htext'
    -- The two are decided on with the same text, and differ in their notices only.
    have hentry : e'.inForm form' =
        { e.inForm form with notices := (e'.inForm form').notices } := by
      simp [inForm, htext, htext', happ, hname, hfresh, hfresh']
    rw [hentry] at hconcluding'
    have hnone : (e.inForm form).wrapped? = none := hfresh
    obtain ⟨houtcome, hwrapped⟩ := concluding_alike hnone hconcluding hconcluding'
    rw [houtcome]
    exact ⟨outcomesAlike_self _ _ _, hwrapped⟩

end Fresh

/-- The stage makes no difference between the commands of two entry points. -/
structure TreatsAlike (s : Stage) (files : FileTree) (p : Policy) (e e' : EntryPoint) : Prop where
  forms : RuntimeForm.FormsAlike e.command e'.command
    (RuntimeForm.ofDeclared s files e.command) (RuntimeForm.ofDeclared s files e'.command)
  outcomes : OutcomesAlike e.command e'.command (e.settle p s files).outcome
    (e'.settle p s files).outcome
  wrapped : (e.settle p s files).entry.wrapped? = (e'.settle p s files).entry.wrapped?

/-- Entry points of one name whose commands say the same are treated alike: their commands have the
same runtime form, found in the same way, and settle to the same text and wrapper, or fail alike. -/
theorem treatsAlike_of_saysSame (happ : e.app = e'.app) (hname : e.name = e'.name)
    (hfresh : e.wrapped? = none) (hfresh' : e'.wrapped? = none) (hadapts : p.adapts = true)
    (h : SaysSame s e.command e'.command) : TreatsAlike s files p e e' := by
  have hforms : RuntimeForm.FormsAlike e.command e'.command
      (RuntimeForm.ofDeclared s files e.command) (RuntimeForm.ofDeclared s files e'.command) :=
    RuntimeForm.formsAlike_of_saysSame h
  obtain ⟨houtcomes, hwrapped⟩ :=
    settle_of_formsAlike happ hname hfresh hfresh' hadapts hforms
  exact ⟨hforms, houtcomes, hwrapped⟩

def runBy (text : Text) : EntryPoint := declare (Text.of "app") (Text.of "serve") text

/-- Neither the anchor nor other gaps change anything, though the two are told apart. -/
theorem runBy_treatsAlike :
    SaysSame RuntimeForm.scriptStage (Text.of "bin/run now") (Text.of "$SNAP/bin/run now") ∧
      SaysSame RuntimeForm.scriptStage (Text.of "$SNAP/bin/run now") (Text.of " bin/run \t now ") ∧
      TreatsAlike RuntimeForm.scriptStage RuntimeForm.scriptTree ⟨true, true⟩
        (runBy (Text.of "bin/run now")) (runBy (Text.of "$SNAP/bin/run now")) ∧
      TreatsAlike RuntimeForm.scriptStage RuntimeForm.scriptTree ⟨true, true⟩
        (runBy (Text.of "$SNAP/bin/run now")) (runBy (Text.of " bin/run \t now ")) ∧
      ((runBy (Text.of "bin/run now")).settle ⟨true, true⟩ RuntimeForm.scriptStage
          RuntimeForm.scriptTree).entry.wrapped? =
        some (Text.of "/opt/widget -u $SNAP/bin/run now") := by
  have hwords : Words.split? (Text.of "bin/run now") =
      some [Text.of "bin/run", Text.of "now"] := by rfl
  have hanchored : SaysSame RuntimeForm.scriptStage (Text.of "bin/run now")
      (Text.of "$SNAP/bin/run now") :=
    saysSame_anchored (by decide) (by decide) (by decide) hwords
  have hspaced : SaysSame RuntimeForm.scriptStage (Text.of "$SNAP/bin/run now")
      (Text.of " bin/run \t now ") :=
    ⟨by decide, by decide, _, by rfl, by rfl⟩
  have htreats (a b : Text) (h : SaysSame RuntimeForm.scriptStage a b) :
      TreatsAlike RuntimeForm.scriptStage RuntimeForm.scriptTree ⟨true, true⟩ (runBy a) (runBy b) :=
    treatsAlike_of_saysSame rfl rfl rfl rfl rfl h
  exact ⟨hanchored, hspaced, htreats _ _ hanchored, htreats _ _ hspaced, by rfl⟩

end EntryPoint
end EntryPoints
