import EntryPoints.EntryPoint
import EntryPoints.Proofs.FormNotices

/-!
All that can come of settling an entry point (`settling_settle`): which answer it gives, what the
entry point is afterwards, and when.
-/
namespace EntryPoints.EntryPoint

variable {e : EntryPoint} {p : Policy} {s : Stage} {files : FileTree}

/-- The entry point with the runtime form of its command. A form without a text leaves the command
as it was. -/
def inForm (e : EntryPoint) (form : RuntimeForm) : EntryPoint :=
  { e with command := form.text?.getD e.command, notices := e.notices ++ form.notices }

inductive Concluding (e : EntryPoint) (p : Policy) (s : Stage) (files : FileTree) :
    Except Failure Text → EntryPoint → Prop where
  | wrapped (hneeds : needsWrapper e.command = true) (hmay : p.mayWrap = true) :
      Concluding e p s files (.ok e.wrapperName) e.wrap
  | refused (hneeds : needsWrapper e.command = true) (hmay : p.mayWrap = false) :
      Concluding e p s files (.error (.invalidFormat e.app e.command)) e
  | direct (hneeds : needsWrapper e.command = false) (hruns : e.checkRunnable s files = .ok ()) :
      Concluding e p s files (.ok e.command) e
  | stuck (hneeds : needsWrapper e.command = false) {f : Failure}
      (hruns : e.checkRunnable s files = .error f) :
      Concluding e p s files (.error f) e

inductive Settling (e : EntryPoint) (p : Policy) (s : Stage) (files : FileTree) :
    Except Failure Text → EntryPoint → Prop where
  | kept {wrapped : Text} (hwrapped : e.wrapped? = some wrapped) :
      Settling e p s files (.ok e.command) e
  | unformed (hfresh : e.wrapped? = none) (hadapts : p.adapts = true) {f : Failure}
      (hform : RuntimeForm.ofDeclared s files e.command = .error f) :
      Settling e p s files (.error f) e
  | missing (hfresh : e.wrapped? = none) (hadapts : p.adapts = true) {form : RuntimeForm}
      (hform : RuntimeForm.ofDeclared s files e.command = .ok form) {f : Failure}
      (hfatal : firstFailure? form.notices = some f) :
      Settling e p s files (.error f) (e.inForm form)
  | adapted (hfresh : e.wrapped? = none) (hadapts : p.adapts = true) {form : RuntimeForm}
      (hform : RuntimeForm.ofDeclared s files e.command = .ok form)
      (hfatal : firstFailure? form.notices = none) {outcome : Except Failure Text}
      {settled : EntryPoint} (hconcluding : Concluding (e.inForm form) p s files outcome settled) :
      Settling e p s files outcome settled
  | verbatim (hfresh : e.wrapped? = none) (hadapts : p.adapts = false)
      {outcome : Except Failure Text} {settled : EntryPoint}
      (hconcluding : Concluding e p s files outcome settled) :
      Settling e p s files outcome settled

theorem concluding_conclude (hfresh : e.wrapped? = none) :
    Concluding e p s files (e.conclude p s files).outcome (e.conclude p s files).entry := by
  have hrequires : e.requiresWrapper = needsWrapper e.command := by simp [requiresWrapper, hfresh]
  rw [conclude, hrequires]
  cases hneeds : needsWrapper e.command with
  | true =>
    cases hmay : p.mayWrap with
    | true => exact .wrapped hneeds hmay
    | false => exact .refused hneeds hmay
  | false =>
    cases hruns : e.checkRunnable s files with
    | ok done => exact .direct hneeds hruns
    | error f => exact .stuck hneeds hruns

/-- A decision can come out in one way only. -/
theorem conclude_of_concluding (hfresh : e.wrapped? = none) {outcome : Except Failure Text}
    {settled : EntryPoint} (h : Concluding e p s files outcome settled) :
    (e.conclude p s files).outcome = outcome ∧ (e.conclude p s files).entry = settled := by
  have hrequires : e.requiresWrapper = needsWrapper e.command := by simp [requiresWrapper, hfresh]
  rw [conclude, hrequires]
  cases h with
  | wrapped hneeds hmay => simp [hneeds, hmay, EntryPoint.settled, wrap]
  | refused hneeds hmay => simp [hneeds, hmay]
  | direct hneeds hruns => simp [hneeds, hruns, EntryPoint.settled]
  | stuck hneeds hruns => simp [hneeds, hruns]

theorem concluding_names {outcome : Except Failure Text} {settled : EntryPoint}
    (h : Concluding e p s files outcome settled) :
    settled.app = e.app ∧ settled.name = e.name := by
  cases h <;> exact ⟨rfl, rfl⟩

theorem settling_names {outcome : Except Failure Text} {settled : EntryPoint}
    (h : Settling e p s files outcome settled) :
    settled.app = e.app ∧ settled.name = e.name := by
  cases h with
  | kept _ => exact ⟨rfl, rfl⟩
  | unformed _ _ _ => exact ⟨rfl, rfl⟩
  | missing _ _ _ _ => exact ⟨rfl, rfl⟩
  | adapted _ _ _ _ hconcluding =>
    obtain ⟨happ, hname⟩ := concluding_names hconcluding
    exact ⟨happ, hname⟩
  | verbatim _ _ hconcluding => exact concluding_names hconcluding

/-- A fatal form has no text, so the entry point that it leaves is `inForm` as well. -/
theorem adapt_of_fatal {form : RuntimeForm} {f : Failure}
    (hform : RuntimeForm.ofDeclared s files e.command = .ok form)
    (hfatal : firstFailure? form.notices = some f) :
    e.adapt s files = ⟨.error f, e.inForm form, form.found.map Event.located⟩ := by
  have htext : form.text? = none :=
    (RuntimeForm.text?_eq_none_iff hform).mpr (by simp [hfatal])
  simp [adapt, hform, hfatal, inForm, htext]

theorem adapt_of_form {form : RuntimeForm}
    (hform : RuntimeForm.ofDeclared s files e.command = .ok form)
    (hfatal : firstFailure? form.notices = none) :
    e.adapt s files =
      ⟨.ok (e.inForm form).command, e.inForm form, form.found.map Event.located⟩ := by
  simp [adapt, hform, hfatal, inForm]

theorem settling_settle (e : EntryPoint) (p : Policy) (s : Stage) (files : FileTree) :
    Settling e p s files (e.settle p s files).outcome (e.settle p s files).entry := by
  cases hfresh : e.wrapped? with
  | some wrapped =>
    rw [settle, hfresh]
    exact .kept hfresh
  | none =>
    cases hadapts : p.adapts with
    | false =>
      simp only [settle, hfresh, hadapts, Option.isSome_none, Bool.false_eq_true, if_false]
      exact .verbatim hfresh hadapts (concluding_conclude hfresh)
    | true =>
      simp only [settle, hfresh, hadapts, Option.isSome_none, Bool.false_eq_true, if_false, if_true]
      cases hform : RuntimeForm.ofDeclared s files e.command with
      | error f =>
        have hadapt : e.adapt s files = ⟨.error f, e, []⟩ := by simp [adapt, hform]
        rw [hadapt]
        exact .unformed hfresh hadapts hform
      | ok form =>
        cases hfatal : firstFailure? form.notices with
        | some f =>
          rw [adapt_of_fatal hform hfatal]
          exact .missing hfresh hadapts hform hfatal
        | none =>
          rw [adapt_of_form hform hfatal]
          exact .adapted hfresh hadapts hform hfatal (concluding_conclude hfresh)

theorem concluding_settle_of_form (hfresh : e.wrapped? = none) (hadapts : p.adapts = true)
    {form : RuntimeForm} {text : Text}
    (hform : RuntimeForm.ofDeclared s files e.command = .ok form) (htext : form.text? = some text) :
    Concluding (e.inForm form) p s files (e.settle p s files).outcome
      (e.settle p s files).entry := by
  have hquiet := RuntimeForm.firstFailure?_of_text hform htext
  have hsettling := settling_settle e p s files
  generalize (e.settle p s files).outcome = outcome, (e.settle p s files).entry = entry
    at hsettling ⊢
  cases hsettling with
  | kept hwrapped =>
    rw [hfresh] at hwrapped
    cases hwrapped
  | unformed _ _ hform' =>
    rw [hform] at hform'
    cases hform'
  | missing _ _ hform' hfatal =>
    rw [hform, Except.ok.injEq] at hform'
    subst hform'
    rw [hquiet] at hfatal
    cases hfatal
  | adapted _ _ hform' _ hconcluding =>
    rw [hform, Except.ok.injEq] at hform'
    subst hform'
    exact hconcluding
  | verbatim _ hadapts' _ =>
    rw [hadapts] at hadapts'
    cases hadapts'

end EntryPoints.EntryPoint
