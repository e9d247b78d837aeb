import EntryPoints.CommandLine.Outcome
import EntryPoints.Proofs.Invocation

/-!
Commands that are handed over as they are declared. Settling looks at such a command and leaves it
alone; of the stage it needs the root only. The check of a command on the command line, which sees
no files, tells beforehand whether the command is refused for its form.
-/
namespace EntryPoints

namespace CommandLine

/-- The outcome says that a wrapper is needed, and fails for it. -/
def Outcome.AsksForWrapper (o : Outcome) : Prop :=
  o.exit = 1 ∧ Text.of "requires_wrapper: true" ∈ Text.cut '\n' o.stdout

theorem invocation_check (verbose : Bool) (command : Text) :
    invocation verbose [Text.of "check", Text.of "--", command] =
      .ok ⟨verbose, .check command⟩ := by
  cases verbose <;> rfl

theorem asksForWrapper_check (files : FileTree) (command : Text) :
    (check files command).AsksForWrapper ↔ needsWrapper command = true := by
  unfold Outcome.AsksForWrapper check
  cases hneeds : needsWrapper command with
  | false => simp
  | true =>
    have hinvocable : isInvocable command = false := by
      simpa [needsWrapper_eq_not_isInvocable] using hneeds
    simp only [hinvocable, if_true, true_and, iff_true]
    decide

end CommandLine

namespace EntryPoint

variable {e : EntryPoint} {p : Policy} {s s' : Stage} {files : FileTree}

/-- A command that needs no wrapper has no quotation, so it fails the check only for its program. -/
theorem checkRunnable_of_not_invokes (hneeds : needsWrapper e.command = false)
    (h : ¬ s.Invokes files e.command) :
    e.checkRunnable s files = .error (.notExecutable e.app e.command) := by
  have hsome := Words.split?_isSome_of_no_mark fun c hc => isMark_of_needsWrapper hneeds hc
  obtain ⟨words, hwords⟩ := Option.isSome_iff_exists.mp hsome
  unfold checkRunnable
  rw [Words.split_eq_ok_iff.mpr hwords]
  cases words with
  | nil => rfl
  | cons word arguments =>
    have hstuck : ¬ files.isExecutable (Path.join s.root word) = true := by
      intro hruns
      exact h ⟨hneeds, word, arguments, hwords, hruns⟩
    simp [hstuck]

theorem checkRunnable_of_invokes (h : s.Invokes files e.command) :
    e.checkRunnable s files = .ok () := by
  obtain ⟨_, word, arguments, hwords, hruns⟩ := h
  unfold checkRunnable
  simp [Words.split_eq_ok_iff.mpr hwords, hruns]

section Verbatim
variable (hfresh : e.wrapped? = none) (hadapts : p.adapts = false)
include hfresh hadapts

theorem settle_of_invokes (h : s.Invokes files e.command) : e.settle p s files = e.settled := by
  simp [settle, conclude, requiresWrapper, hfresh, hadapts, h.1, checkRunnable_of_invokes h]

theorem settle_of_not_invokes (hneeds : needsWrapper e.command = false)
    (h : ¬ s.Invokes files e.command) :
    e.settle p s files = ⟨.error (.notExecutable e.app e.command), e, []⟩ := by
  simp [settle, conclude, requiresWrapper, hfresh, hadapts, hneeds,
    checkRunnable_of_not_invokes hneeds h]

theorem settle_of_needsWrapper (hmay : p.mayWrap = false) (hneeds : needsWrapper e.command = true) :
    e.settle p s files = ⟨.error (.invalidFormat e.app e.command), e, []⟩ := by
  simp [settle, conclude, requiresWrapper, hfresh, hadapts, hmay, hneeds]

theorem settle_of_root (hroot : s'.root = s.root) :
    e.settle p s' files = e.settle p s files := by
  simp [settle, conclude, checkRunnable, hfresh, hadapts, hroot]

end Verbatim

/-- What comes of settling an entry point under the policy that neither adapts nor wraps. -/
structure SettlesVerbatim (e : EntryPoint) (s : Stage) (files : FileTree) : Prop where
  entry : (e.settle Adapter.verbatim.policy s files).entry = e
  root : ∀ s' : Stage, s'.root = s.root →
    e.settle Adapter.verbatim.policy s' files = e.settle Adapter.verbatim.policy s files
  ok_iff : ∀ text, (e.settle Adapter.verbatim.policy s files).outcome = .ok text ↔
    text = e.command ∧ s.Invokes files e.command
  error_iff : ∀ f, (e.settle Adapter.verbatim.policy s files).outcome = .error f ↔
    (f = .invalidFormat e.app e.command ∧ needsWrapper e.command = true) ∨
      (f = .notExecutable e.app e.command ∧ needsWrapper e.command = false ∧
        ¬ s.Invokes files e.command)
  checkable : ∀ verbose,
    CommandLine.invocation verbose [Text.of "check", Text.of "--", e.command] =
      .ok ⟨verbose, .check e.command⟩
  /-- The check of the command says the first beforehand, whatever the files and the host. -/
  checked_iff : ∀ (tree : FileTree) (host : Host) (i : CommandLine.Invocation),
    i.request = .check e.command →
      ((CommandLine.answer tree host i).AsksForWrapper ↔
        (e.settle Adapter.verbatim.policy s files).outcome =
          .error (.invalidFormat e.app e.command))

theorem verbatim_cases (s : Stage) (files : FileTree) (hfresh : e.wrapped? = none) :
    (needsWrapper e.command = true ∧ e.settle Adapter.verbatim.policy s files =
      ⟨.error (.invalidFormat e.app e.command), e, []⟩) ∨
    (s.Invokes files e.command ∧ e.settle Adapter.verbatim.policy s files = e.settled) ∨
    (needsWrapper e.command = false ∧ ¬ s.Invokes files e.command ∧
      e.settle Adapter.verbatim.policy s files =
        ⟨.error (.notExecutable e.app e.command), e, []⟩) := by
  cases hneeds : needsWrapper e.command with
  | true => exact .inl ⟨rfl, settle_of_needsWrapper hfresh rfl rfl hneeds⟩
  | false =>
    by_cases hinvokes : s.Invokes files e.command
    · exact .inr (.inl ⟨hinvokes, settle_of_invokes hfresh rfl hinvokes⟩)
    · exact .inr (.inr ⟨rfl, hinvokes, settle_of_not_invokes hfresh rfl hneeds hinvokes⟩)

theorem outcome_invalidFormat_iff (hfresh : e.wrapped? = none) :
    (e.settle Adapter.verbatim.policy s files).outcome = .error (.invalidFormat e.app e.command) ↔
      needsWrapper e.command = true := by
  rcases verbatim_cases s files hfresh with
    ⟨hneeds, hsettle⟩ | ⟨⟨hneeds, _⟩, hsettle⟩ | ⟨hneeds, _, hsettle⟩
  · simp [hsettle, hneeds]
  · simp [hsettle, hneeds, settled]
  · simp [hsettle, hneeds]

/-- An entry point that is not wrapped yet settles verbatim with its command as it is declared, or
fails for the form of the command or for its program, and stays as it is in any case. -/
theorem settlesVerbatim_of_fresh (hfresh : e.wrapped? = none) : e.SettlesVerbatim s files where
  entry := by
    rcases verbatim_cases s files hfresh with
      ⟨_, hsettle⟩ | ⟨_, hsettle⟩ | ⟨_, _, hsettle⟩ <;> rw [hsettle]
    rfl
  root := fun s' hroot => settle_of_root hfresh rfl hroot
  ok_iff := by
    intro text
    rcases verbatim_cases s files hfresh with
      ⟨hneeds, hsettle⟩ | ⟨hinvokes, hsettle⟩ | ⟨_, hstuck, hsettle⟩
    · simp [hsettle, Stage.Invokes, hneeds]
    · simp [hsettle, settled, hinvokes, eq_comm]
    · simp [hsettle, hstuck]
  error_iff := by
    intro f
    rcases verbatim_cases s files hfresh with
      ⟨hneeds, hsettle⟩ | ⟨hinvokes, hsettle⟩ | ⟨hneeds, hstuck, hsettle⟩
    · simp [hsettle, hneeds, eq_comm]
    · simp [hsettle, settled, hinvokes, hinvokes.1]
    · simp [hsettle, hneeds, hstuck, eq_comm]
  checkable := fun verbose => CommandLine.invocation_check verbose e.command
  checked_iff := by
    intro tree host i hrequest
    have hanswer : CommandLine.answer tree host i = CommandLine.check tree e.command := by
      simp only [CommandLine.answer, hrequest]
    rw [hanswer, outcome_invalidFormat_iff hfresh]
    exact CommandLine.asksForWrapper_check tree e.command

/-- A script that is declared with a wide gap keeps the gap, and gets no interpreter. -/
theorem spacedScript_settlesVerbatim :
    (declare (Text.of "app") (Text.of "serve") (Text.of "bin/run  now")).wrapped? = none ∧
      (declare (Text.of "app") (Text.of "serve") (Text.of "bin/run  now")).SettlesVerbatim
        RuntimeForm.scriptStage RuntimeForm.scriptTree ∧
      ((declare (Text.of "app") (Text.of "serve") (Text.of "bin/run  now")).settle
        Adapter.verbatim.policy RuntimeForm.scriptStage RuntimeForm.scriptTree).outcome =
          .ok (Text.of "bin/run  now") :=
  ⟨rfl, settlesVerbatim_of_fresh rfl, by rfl⟩

/-- Spaces have the form of a command, but there is no program in them. -/
example :
    ((declare (Text.of "app") (Text.of "serve") (Text.of "  ")).settle Adapter.verbatim.policy
      RuntimeForm.scriptStage RuntimeForm.scriptTree).outcome =
        .error (.notExecutable (Text.of "app") (Text.of "  ")) := by rfl

end EntryPoint
end EntryPoints
