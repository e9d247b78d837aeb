import EntryPoints.Proofs.LeftInterpreters
import EntryPoints.Proofs.Verbatim

/-!
What a settling that fails leaves behind. Until the command is decided on, a failure leaves the
command as it was; a failure of the decision leaves the text that was decided on
(`failsAsTold_of_fresh`). The notices are only ever added to, and no earlier one changes the outcome
(`settle_recalling`).
-/
namespace EntryPoints

namespace RuntimeForm

variable {s : Stage} {files : FileTree} {declared : Text}

/-- The ways in which a text cannot be read: a quotation in it stays open, or its file fails. -/
inductive Unread : Failure → Prop where
  | unbalancedQuotes (text : Text) : Unread (.unbalancedQuotes text)
  | io (path : Path) (cause : Cause) : Unread (.io path cause)

theorem unread_of_split {text : Text} {f : Failure} (h : Words.split text = .error f) :
    Unread f := by
  obtain ⟨_, rfl⟩ := Words.split_eq_error_iff.mp h
  exact .unbalancedQuotes text

theorem unread_of_directiveOf {word : Text} {f : Failure}
    (h : directiveOf s files word = .error f) :
    Unread f := by
  rcases directiveOf_cases s files word with hnone | ⟨path, cause, hio⟩ | ⟨_, line, _, hread⟩
  · rw [hnone] at h
    cases h
  · rw [hio] at h
    cases h
    exact .io path cause
  · rw [hread] at h
    exact unread_of_split h

theorem unread_of_ofDeclared {f : Failure} (h : ofDeclared s files declared = .error f) :
    Unread f := by
  rw [ofDeclared] at h
  split at h
  · cases h
  · dsimp only at h
    split at h
    · rename_i hsplit
      cases h
      exact unread_of_split hsplit
    · cases h
    · split at h
      · rename_i hdirective
        cases h
        exact unread_of_directiveOf hdirective
      · cases h

/-- The notices that come with the form of a declared text. -/
def formNotices (s : Stage) (files : FileTree) (declared : Text) : List Notice :=
  (ofDeclared s files declared).toOption.elim [] RuntimeForm.notices

theorem formNotices_of_ofDeclared {form : RuntimeForm}
    (h : ofDeclared s files declared = .ok form) :
    formNotices s files declared = form.notices := by
  simp [formNotices, h, Except.toOption]

/-- A form with a fatal notice has no text, and tells that a command is missing and nothing else. -/
theorem missing_of_failure {form : RuntimeForm} (h : ofDeclared s files declared = .ok form)
    {f : Failure} (hfatal : firstFailure? form.notices = some f) :
    form.text? = none ∧ ∃ command, f = .commandNotFound command ∧
      form.notices = [.commandNotFound command] := by
  have htext : form.text? = none := (text?_eq_none_iff h).mpr (by simp [hfatal])
  obtain ⟨command, hnotices⟩ := (told_of_ofDeclared h).missing htext
  refine ⟨htext, command, ?_, hnotices⟩
  simpa [hnotices, firstFailure?, Notice.failure?, eq_comm] using hfatal

end RuntimeForm

namespace EntryPoint

variable {e : EntryPoint} {p : Policy} {s : Stage} {files : FileTree}

def recalling (e : EntryPoint) (ns : List Notice) : EntryPoint :=
  { e with notices := ns ++ e.notices }

theorem adapt_recalling (ns : List Notice) :
    (e.recalling ns).adapt s files =
      { e.adapt s files with entry := (e.adapt s files).entry.recalling ns } := by
  have hcommand : (e.recalling ns).command = e.command := rfl
  rw [adapt, adapt, hcommand]
  cases RuntimeForm.ofDeclared s files e.command with
  | error f => rfl
  | ok form =>
    cases hfailure : firstFailure? form.notices <;> simp [hfailure, recalling]

theorem conclude_recalling (ns : List Notice) :
    (e.recalling ns).conclude p s files =
      { e.conclude p s files with entry := (e.conclude p s files).entry.recalling ns } := by
  have hrequires : (e.recalling ns).requiresWrapper = e.requiresWrapper := rfl
  have hruns : (e.recalling ns).checkRunnable s files = e.checkRunnable s files := rfl
  rw [conclude, conclude, hrequires, hruns]
  split
  · split
    · have hwrap : (e.recalling ns).wrap = e.wrap.recalling ns := by
        simp only [recalling, wrap, List.append_assoc]
        rfl
      rw [hwrap]
      rfl
    · rfl
  · cases e.checkRunnable s files <;> rfl

/-- Settling never looks at earlier notices, fatal ones among them. -/
theorem settle_recalling (ns : List Notice) :
    (e.recalling ns).settle p s files =
      { e.settle p s files with entry := (e.settle p s files).entry.recalling ns } := by
  have hwrapped : (e.recalling ns).wrapped? = e.wrapped? := rfl
  rw [settle, settle, hwrapped, adapt_recalling]
  split
  · rfl
  · split
    · dsimp only
      cases (e.adapt s files).outcome with
      | error f => rfl
      | ok text => simp only [conclude_recalling]
    · exact conclude_recalling ns

theorem outcome_of_notices (ns : List Notice) :
    ({ e with notices := ns }.settle p s files).outcome = (e.settle p s files).outcome := by
  have hblank (notices : List Notice) :
      ({ e with notices }.settle p s files).outcome =
        ({ e with notices := [] }.settle p s files).outcome := by
    simpa [recalling] using
      congrArg Settlement.outcome (settle_recalling (e := { e with notices := [] }) notices)
  rw [hblank, ← hblank e.notices]

/-- The text that a command is decided on, if it comes to that. -/
def decidedText? (e : EntryPoint) (p : Policy) (s : Stage) (files : FileTree) : Option Text :=
  if p.adapts then RuntimeForm.runtimeText? s files e.command else some e.command

theorem decidedText?_of_ofDeclared (hadapts : p.adapts = true) {form : RuntimeForm}
    (hform : RuntimeForm.ofDeclared s files e.command = .ok form) :
    e.decidedText? p s files = form.text? := by
  simp [decidedText?, hadapts, RuntimeForm.runtimeText?_of_ofDeclared hform]

def noticesBefore (e : EntryPoint) (p : Policy) (s : Stage) (files : FileTree) : List Notice :=
  if p.adapts then RuntimeForm.formNotices s files e.command else []

def decidedOn (e : EntryPoint) (p : Policy) (s : Stage) (files : FileTree) (text : Text) :
    EntryPoint :=
  { e with command := text, notices := e.notices ++ e.noticesBefore p s files }

/-- The first word of a text is missing, or it is not the path of an executable file. -/
def LacksProgram (s : Stage) (files : FileTree) (text : Text) : Prop :=
  ∃ words, Words.split? text = some words ∧ ∀ word, words.head? = some word →
    files.isExecutable (Path.join s.root word) = false

theorem lacksProgram_iff {text : Text} (hneeds : needsWrapper text = false) :
    LacksProgram s files text ↔ ¬ s.Invokes files text := by
  have hsome := Words.split?_isSome_of_no_mark fun c hc => isMark_of_needsWrapper hneeds hc
  obtain ⟨words, hwords⟩ := Option.isSome_iff_exists.mp hsome
  cases words with
  | nil => simp [LacksProgram, Stage.Invokes, hwords]
  | cons word arguments => simp [LacksProgram, Stage.Invokes, hwords, hneeds]

/-- The three ways of settling an entry point that is not wrapped yet. -/
inductive Attempt (e : EntryPoint) (p : Policy) (s : Stage) (files : FileTree) :
    Except Failure Text → EntryPoint → Prop where
  | unread (hadapts : p.adapts = true) (hundecided : e.decidedText? p s files = none) {f : Failure}
      (hf : RuntimeForm.Unread f) : Attempt e p s files (.error f) e
  | missed (hadapts : p.adapts = true) (hundecided : e.decidedText? p s files = none)
      (command : Text) :
      Attempt e p s files (.error (.commandNotFound command))
        { e with notices := e.notices ++ [.commandNotFound command] }
  | decided {text : Text} (htext : e.decidedText? p s files = some text)
      {outcome : Except Failure Text} {entry : EntryPoint}
      (hconcluding : Concluding (e.decidedOn p s files text) p s files outcome entry) :
      Attempt e p s files outcome entry

theorem attempt_settle (hfresh : e.wrapped? = none) (p : Policy) (s : Stage) (files : FileTree) :
    Attempt e p s files (e.settle p s files).outcome (e.settle p s files).entry := by
  have hsettling := settling_settle e p s files
  generalize (e.settle p s files).outcome = outcome, (e.settle p s files).entry = entry
    at hsettling ⊢
  cases hsettling with
  | kept hwrapped => simp [hfresh] at hwrapped
  | unformed _ hadapts hform =>
    have hundecided : e.decidedText? p s files = none := by
      simp [decidedText?, hadapts, RuntimeForm.runtimeText?, hform, Except.toOption]
    exact .unread hadapts hundecided (RuntimeForm.unread_of_ofDeclared hform)
  | missing _ hadapts hform hfatal =>
    obtain ⟨htext, command, rfl, hnotices⟩ := RuntimeForm.missing_of_failure hform hfatal
    have hundecided := (decidedText?_of_ofDeclared hadapts hform).trans htext
    simpa [inForm, htext, hnotices] using Attempt.missed hadapts hundecided command
  | @adapted _ hadapts form hform hfatal _ _ hconcluding =>
    have hsome : form.text? ≠ none := fun hnone => by
      simpa [hfatal] using (RuntimeForm.text?_eq_none_iff hform).mp hnone
    obtain ⟨text, htext⟩ := Option.ne_none_iff_exists'.mp hsome
    refine .decided ((decidedText?_of_ofDeclared hadapts hform).trans htext) ?_
    simpa [decidedOn, noticesBefore, hadapts, RuntimeForm.formNotices_of_ofDeclared hform, inForm,
      htext] using hconcluding
  | verbatim _ hadapts hconcluding =>
    have hdecided : e.decidedText? p s files = some e.command := by simp [decidedText?, hadapts]
    refine .decided hdecided ?_
    simpa [decidedOn, noticesBefore, hadapts] using hconcluding

/-- Why an application's command is refused when it is decided on. -/
inductive Refusal (app : Text) (p : Policy) (s : Stage) (files : FileTree) (command : Text) :
    Failure → Prop where
  | invalidFormat (hmay : p.mayWrap = false) (hneeds : needsWrapper command = true) :
      Refusal app p s files command (.invalidFormat app command)
  | notExecutable (hneeds : needsWrapper command = false)
      (hlacks : LacksProgram s files command) :
      Refusal app p s files command (.notExecutable app command)

theorem concluding_error_iff {outcome : Except Failure Text} {entry : EntryPoint}
    (h : Concluding e p s files outcome entry) (f : Failure) :
    outcome = .error f ↔ Refusal e.app p s files e.command f := by
  cases h with
  | wrapped hneeds hmay =>
    refine iff_of_false (by simp) ?_
    rintro (⟨hrefused, _⟩ | ⟨hdirect, _⟩)
    · simp [hmay] at hrefused
    · simp [hneeds] at hdirect
  | refused hneeds hmay =>
    constructor
    · intro herror
      cases herror
      exact .invalidFormat hmay hneeds
    · rintro (_ | ⟨hdirect, _⟩)
      · rfl
      · simp [hneeds] at hdirect
  | direct hneeds hruns =>
    refine iff_of_false (by simp) ?_
    rintro (⟨_, hrefused⟩ | ⟨_, hlacks⟩)
    · simp [hneeds] at hrefused
    · exact (lacksProgram_iff hneeds).mp hlacks ⟨hneeds, checkRunnable_ok hruns⟩
  | stuck hneeds hruns =>
    have hstuck : ¬ s.Invokes files e.command := fun hinvokes => by
      simp [checkRunnable_of_invokes hinvokes] at hruns
    rw [checkRunnable_of_not_invokes hneeds hstuck, Except.error.injEq] at hruns
    subst hruns
    constructor
    · intro herror
      cases herror
      exact .notExecutable hneeds ((lacksProgram_iff hneeds).mpr hstuck)
    · rintro (⟨_, hrefused⟩ | _)
      · simp [hneeds] at hrefused
      · rfl

theorem concluding_error_entry {f : Failure} {entry : EntryPoint}
    (h : Concluding e p s files (.error f) entry) : entry = e := by
  cases h <;> rfl

theorem outcome_error_iff_of_decided (hfresh : e.wrapped? = none) {text : Text}
    (htext : e.decidedText? p s files = some text) (f : Failure) :
    (e.settle p s files).outcome = .error f ↔ Refusal e.app p s files text f := by
  have hattempt := attempt_settle hfresh p s files
  generalize (e.settle p s files).outcome = outcome, (e.settle p s files).entry = entry
    at hattempt ⊢
  cases hattempt with
  | unread _ hundecided _ => simp [hundecided] at htext
  | missed _ hundecided _ => simp [hundecided] at htext
  | decided htext' hconcluding =>
    obtain rfl := Option.some.inj (htext.symm.trans htext')
    exact concluding_error_iff hconcluding f

/-- The failures of a settling that leaves `entry`. -/
inductive Failing (e : EntryPoint) (p : Policy) (s : Stage) (files : FileTree)
    (entry : EntryPoint) : Failure → Prop where
  | unbalancedQuotes (hadapts : p.adapts = true) (hentry : entry = e) (text : Text) :
      Failing e p s files entry (.unbalancedQuotes text)
  | io (hadapts : p.adapts = true) (hentry : entry = e) (path : Path) (cause : Cause) :
      Failing e p s files entry (.io path cause)
  | commandNotFound (hadapts : p.adapts = true) {command : Text}
      (hentry : entry = { e with notices := e.notices ++ [.commandNotFound command] }) :
      Failing e p s files entry (.commandNotFound command)
  | invalidFormat {text : Text} (htext : e.decidedText? p s files = some text)
      (hmay : p.mayWrap = false) (hneeds : needsWrapper text = true)
      (hentry : entry = e.decidedOn p s files text) :
      Failing e p s files entry (.invalidFormat e.app text)
  | notExecutable {text : Text} (htext : e.decidedText? p s files = some text)
      (hneeds : needsWrapper text = false) (hlacks : LacksProgram s files text)
      (hentry : entry = e.decidedOn p s files text) :
      Failing e p s files entry (.notExecutable e.app text)

theorem failing_of_error (hfresh : e.wrapped? = none) {f : Failure}
    (h : (e.settle p s files).outcome = .error f) :
    Failing e p s files (e.settle p s files).entry f := by
  have hattempt := attempt_settle hfresh p s files
  rw [h] at hattempt
  generalize (e.settle p s files).entry = entry at hattempt ⊢
  cases hattempt with
  | unread hadapts _ hunread =>
    cases hunread with
    | unbalancedQuotes text => exact .unbalancedQuotes hadapts rfl text
    | io path cause => exact .io hadapts rfl path cause
  | missed hadapts _ command => exact .commandNotFound hadapts rfl
  | decided htext hconcluding =>
    have hentry := concluding_error_entry hconcluding
    cases (concluding_error_iff hconcluding f).mp rfl with
    | invalidFormat hmay hneeds => exact .invalidFormat htext hmay hneeds hentry
    | notExecutable hneeds hlacks => exact .notExecutable htext hneeds hlacks hentry

/-- What the failures of a settling mean, and what each of them leaves. -/
structure FailsAsTold (e : EntryPoint) (p : Policy) (s : Stage) (files : FileTree) : Prop where
  unwrapped : ∀ f, (e.settle p s files).outcome = .error f →
    (e.settle p s files).entry.wrapped? = none
  unbalancedQuotes : ∀ text, (e.settle p s files).outcome = .error (.unbalancedQuotes text) →
    p.adapts = true ∧ (e.settle p s files).entry = e
  io : ∀ path cause, (e.settle p s files).outcome = .error (.io path cause) →
    p.adapts = true ∧ (e.settle p s files).entry = e
  commandNotFound : ∀ command,
    (e.settle p s files).outcome = .error (.commandNotFound command) →
      p.adapts = true ∧ (e.settle p s files).entry =
        { e with notices := e.notices ++ [.commandNotFound command] }
  invalidFormat_iff : ∀ app command,
    (e.settle p s files).outcome = .error (.invalidFormat app command) ↔
      app = e.app ∧ e.decidedText? p s files = some command ∧
        p.mayWrap = false ∧ needsWrapper command = true
  invalidFormat : ∀ app command,
    (e.settle p s files).outcome = .error (.invalidFormat app command) →
      (e.settle p s files).entry = e.decidedOn p s files command
  notExecutable_iff : ∀ app command,
    (e.settle p s files).outcome = .error (.notExecutable app command) ↔
      app = e.app ∧ e.decidedText? p s files = some command ∧
        needsWrapper command = false ∧ LacksProgram s files command
  notExecutable : ∀ app command,
    (e.settle p s files).outcome = .error (.notExecutable app command) →
      (e.settle p s files).entry = e.decidedOn p s files command
  /-- With any other notices from earlier calls the outcome would be the same. -/
  forgetful : ∀ ns,
    ({ e with notices := ns }.settle p s files).outcome = (e.settle p s files).outcome

/-- Each failure of an entry point that is not wrapped yet comes when it is told to, and leaves what
it is told to leave. -/
theorem failsAsTold_of_fresh (hfresh : e.wrapped? = none) : e.FailsAsTold p s files where
  unwrapped := by
    intro f h
    cases failing_of_error hfresh h <;> simp [*, decidedOn]
  unbalancedQuotes := by
    intro text h
    cases failing_of_error hfresh h with
    | unbalancedQuotes hadapts hentry => exact ⟨hadapts, hentry⟩
  io := by
    intro path cause h
    cases failing_of_error hfresh h with
    | io hadapts hentry => exact ⟨hadapts, hentry⟩
  commandNotFound := by
    intro command h
    cases failing_of_error hfresh h with
    | commandNotFound hadapts hentry => exact ⟨hadapts, hentry⟩
  invalidFormat_iff := by
    intro app command
    constructor
    · intro h
      cases failing_of_error hfresh h with
      | invalidFormat htext hmay hneeds _ => exact ⟨rfl, htext, hmay, hneeds⟩
    · rintro ⟨rfl, htext, hmay, hneeds⟩
      exact (outcome_error_iff_of_decided hfresh htext _).mpr (.invalidFormat hmay hneeds)
  invalidFormat := by
    intro app command h
    cases failing_of_error hfresh h with
    | invalidFormat _ _ _ hentry => exact hentry
  notExecutable_iff := by
    intro app command
    constructor
    · intro h
      cases failing_of_error hfresh h with
      | notExecutable htext hneeds hlacks _ => exact ⟨rfl, htext, hneeds, hlacks⟩
    · rintro ⟨rfl, htext, hneeds, hlacks⟩
      exact (outcome_error_iff_of_decided hfresh htext _).mpr (.notExecutable hneeds hlacks)
  notExecutable := by
    intro app command h
    cases failing_of_error hfresh h with
    | notExecutable _ _ _ hentry => exact hentry
  forgetful := outcome_of_notices

def missedScript : EntryPoint :=
  { lostScript with notices := [.commandNotFound lostScript.command] }

theorem missedScript_failsAsTold :
    missedScript.wrapped? = none ∧
      missedScript.FailsAsTold ⟨true, true⟩ hostlessStage RuntimeForm.scriptTree :=
  ⟨rfl, failsAsTold_of_fresh rfl⟩

end EntryPoint
end EntryPoints
