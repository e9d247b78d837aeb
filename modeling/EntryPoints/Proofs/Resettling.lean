import EntryPoints.Proofs.FormWords
import EntryPoints.Proofs.History
import EntryPoints.Proofs.Invocation

/-!
The same call twice. A wrapper ends the matter, but an entry point without one has its command
brought into a runtime form again, and settles as before exactly if that is the command itself
(`repeats_iff`).
-/
namespace EntryPoints.EntryPoint

open RuntimeForm (runtimeText? runtimeText?_of_ofDeclared runtimeText?_eq_self_iff directiveOf)

variable {e settled : EntryPoint} {p : Policy} {s : Stage} {files : FileTree} {c : Call}
  {text : Text}

/-- The second call answers like the first and changes neither the command nor its wrapper. -/
structure Repeats (e : EntryPoint) (c : Call) : Prop where
  answer : (e.after c).answer c = e.answer c
  command : ((e.after c).after c).command = (e.after c).command
  wrapped : ((e.after c).after c).wrapped? = (e.after c).wrapped?

theorem settling_command (h : Settling e p s files (.ok text) settled) :
    settled.command = text := by
  cases h with
  | kept _ => rfl
  | adapted _ _ _ _ hconcluding => cases hconcluding <;> rfl
  | verbatim _ _ hconcluding => cases hconcluding <;> rfl

theorem concluding_unwrapped (h : Concluding e p s files (.ok text) settled)
    (hnone : settled.wrapped? = none) :
    settled = e ∧ needsWrapper e.command = false ∧ e.checkRunnable s files = .ok () := by
  cases h with
  | wrapped _ _ => cases hnone
  | direct hneeds hruns => exact ⟨rfl, hneeds, hruns⟩

theorem settling_unwrapped (h : Settling e p s files (.ok text) settled)
    (hnone : settled.wrapped? = none) :
    needsWrapper settled.command = false ∧ settled.checkRunnable s files = .ok () := by
  cases h with
  | kept hwrapped =>
    rw [hnone] at hwrapped
    cases hwrapped
  | adapted _ _ _ _ hconcluding =>
    obtain ⟨rfl, hchecked⟩ := concluding_unwrapped hconcluding hnone
    exact hchecked
  | verbatim _ _ hconcluding =>
    obtain ⟨rfl, hchecked⟩ := concluding_unwrapped hconcluding hnone
    exact hchecked

theorem settling_form (h : Settling e p s files (.ok text) settled) (hfresh : e.wrapped? = none)
    (hadapts : p.adapts = true) (hnone : settled.wrapped? = none) :
    runtimeText? s files e.command = some text := by
  have hcommand := settling_command h
  cases h with
  | kept hwrapped =>
    rw [hfresh] at hwrapped
    cases hwrapped
  | adapted _ _ hform hfatal hconcluding =>
    obtain ⟨rfl, _⟩ := concluding_unwrapped hconcluding hnone
    rw [runtimeText?_of_ofDeclared hform, ← hcommand]
    cases htext : RuntimeForm.text? _ with
    | none =>
      have hsome := (RuntimeForm.text?_eq_none_iff hform).mp htext
      simp [hfatal] at hsome
    | some text => simp [inForm, htext]
  | verbatim _ hadapts' _ =>
    rw [hadapts] at hadapts'
    cases hadapts'

theorem concluding_checked {outcome : Except Failure Text}
    (h : Concluding e p s files outcome settled) (hneeds : needsWrapper e.command = false)
    (hruns : e.checkRunnable s files = .ok ()) : outcome = .ok e.command ∧ settled = e := by
  cases h with
  | wrapped hneeds' _ => simp [hneeds] at hneeds'
  | refused hneeds' _ => simp [hneeds] at hneeds'
  | direct _ _ => exact ⟨rfl, rfl⟩
  | stuck _ hruns' => simp [hruns] at hruns'

theorem settle_verbatim (hfresh : e.wrapped? = none) (hadapts : p.adapts = false)
    (hneeds : needsWrapper e.command = false) (hruns : e.checkRunnable s files = .ok ()) :
    (e.settle p s files).outcome = .ok e.command ∧ (e.settle p s files).entry = e := by
  have hsettle : e.settle p s files = e.conclude p s files := by simp [settle, hfresh, hadapts]
  rw [hsettle]
  exact concluding_checked (concluding_conclude hfresh) hneeds hruns

theorem settle_form (hfresh : e.wrapped? = none) (hadapts : p.adapts = true)
    (htext : runtimeText? s files e.command = some e.command)
    (hneeds : needsWrapper e.command = false) (hruns : e.checkRunnable s files = .ok ()) :
    (e.settle p s files).outcome = .ok e.command ∧
      (e.settle p s files).entry.command = e.command ∧
      (e.settle p s files).entry.wrapped? = none := by
  cases hform : RuntimeForm.ofDeclared s files e.command with
  | error f => simp [runtimeText?, hform, Except.toOption] at htext
  | ok form =>
    rw [runtimeText?_of_ofDeclared hform] at htext
    have hcommand : (e.inForm form).command = e.command := by simp [inForm, htext]
    have hruns' : (e.inForm form).checkRunnable s files = .ok () := by
      rw [← hruns, checkRunnable, checkRunnable, hcommand]
      rfl
    obtain ⟨houtcome, hentry⟩ := concluding_checked
      (concluding_settle_of_form hfresh hadapts hform htext) (hcommand ▸ hneeds) hruns'
    rw [houtcome, hentry, hcommand]
    exact ⟨rfl, rfl, hfresh⟩

theorem repeats_of_wrapped (h : e.answer c = .ok text) (hcommand : (e.after c).command = text)
    (hwrapped : (e.after c).wrapped?.isSome) : e.Repeats c := by
  obtain ⟨hanswer, hafter⟩ := settle_of_wrapped c hwrapped
  exact ⟨by rw [hanswer, h, hcommand], by rw [hafter], by rw [hafter]⟩

theorem repeats_unwrapped_iff (h : e.answer c = .ok text) (hcommand : (e.after c).command = text)
    (hnone : (e.after c).wrapped? = none) (hneeds : needsWrapper text = false)
    (hruns : (e.after c).checkRunnable c.stage c.files = .ok ()) :
    e.Repeats c ↔ c.policy.adapts = false ∨ runtimeText? c.stage c.files text = some text := by
  subst hcommand
  cases hadapts : c.policy.adapts with
  | false =>
    obtain ⟨hanswer, hafter⟩ := settle_verbatim hnone hadapts hneeds hruns
    refine iff_of_true ⟨?_, ?_, ?_⟩ (.inl rfl)
    · rw [h]
      exact hanswer
    · exact congrArg command hafter
    · exact congrArg wrapped? hafter
  | true =>
    constructor
    · -- The second call took the form of the command too, and came to no wrapper again.
      intro hrepeats
      have hsettling := settling_of_answer (hrepeats.answer.trans h)
      exact .inr (settling_form hsettling hnone hadapts (hrepeats.wrapped.trans hnone))
    · rintro (hverbatim | htext)
      · cases hverbatim
      · obtain ⟨hanswer, hcommand, hwrapped⟩ := settle_form hnone hadapts htext hneeds hruns
        exact ⟨hanswer.trans h.symm, hcommand, hwrapped.trans hnone.symm⟩

/-- A checked command leads to its program as it is spelt, so it is its own runtime form exactly if
it has single spaces and that program has no directive. -/
theorem runtimeText?_of_checked (hneeds : needsWrapper e.command = false)
    (hruns : e.checkRunnable s files = .ok ()) {word : Text} {arguments : List Text}
    (hwords : Words.split? e.command = some (word :: arguments)) (hword : s.relative word = word)
    (hanchor : ¬ s.anchor <+: e.command) :
    runtimeText? s files e.command = some e.command ↔
      Words.unsplit (word :: arguments) = e.command ∧ directiveOf s files word = .ok [] := by
  obtain ⟨_, hrelative, _⟩ := needsWrapper_eq_false_iff.mp hneeds
  have hresolve : s.resolve files word = .literal word := by
    obtain ⟨first, others, hsplit, hexecutable⟩ := checkRunnable_ok hruns
    obtain ⟨rfl, _⟩ : first = word ∧ others = arguments := by simpa [hwords, eq_comm] using hsplit
    exact RuntimeForm.resolve_of_isExecutable hword hexecutable
  rw [runtimeText?_eq_self_iff hrelative hanchor hwords hword, hresolve]
  simp [Referent.path?, and_comm]

/-- After a call that settles, the same call settles alike if there is a wrapper, if no form is
asked for, or if the command is its own runtime form, and only then. A command that begins with a
word from the root is so exactly if it has single spaces and the file of that word has no
directive. -/
theorem repeats_iff (h : e.answer c = .ok text) :
    (e.after c).command = text ∧
      (e.Repeats c ↔ (e.after c).wrapped?.isSome ∨ c.policy.adapts = false ∨
        runtimeText? c.stage c.files text = some text) ∧
      ∀ word arguments, (e.after c).wrapped? = none →
        Words.split? text = some (word :: arguments) → c.stage.relative word = word →
        ¬ c.stage.anchor <+: text →
        (runtimeText? c.stage c.files text = some text ↔
          Words.unsplit (word :: arguments) = text ∧
            directiveOf c.stage c.files word = .ok []) := by
  have hsettling := settling_of_answer h
  have hcommand : (e.after c).command = text := settling_command hsettling
  refine ⟨hcommand, ?_, ?_⟩
  · cases hwrapped : (e.after c).wrapped? with
    | some wrapped =>
      simp [repeats_of_wrapped h hcommand (by simp [hwrapped])]
    | none =>
      obtain ⟨hneeds, hruns⟩ := settling_unwrapped hsettling hwrapped
      simpa using repeats_unwrapped_iff h hcommand hwrapped (hcommand ▸ hneeds) hruns
  · intro word arguments hnone hwords hword hanchor
    obtain ⟨hneeds, hruns⟩ := settling_unwrapped hsettling hnone
    subst hcommand
    exact runtimeText?_of_checked hneeds hruns hwords hword hanchor

def foundScript : EntryPoint := declare (Text.of "app") (Text.of "serve") (Text.of "run")

def scriptCall : Call := ⟨⟨true, true⟩, RuntimeForm.scriptStage, RuntimeForm.scriptTree⟩

theorem answer_foundScript : foundScript.answer scriptCall = .ok (Text.of "bin/run") := by rfl

theorem foundScript_repeats_iff :
    foundScript.answer scriptCall = .ok (Text.of "bin/run") ∧
      (foundScript.Repeats scriptCall ↔ (foundScript.after scriptCall).wrapped?.isSome ∨
        scriptCall.policy.adapts = false ∨
        runtimeText? scriptCall.stage scriptCall.files (Text.of "bin/run") =
          some (Text.of "bin/run")) ∧
      (runtimeText? scriptCall.stage scriptCall.files (Text.of "bin/run") =
          some (Text.of "bin/run") ↔
        Words.unsplit [Text.of "bin/run"] = Text.of "bin/run" ∧
          directiveOf scriptCall.stage scriptCall.files (Text.of "bin/run") = .ok []) := by
  obtain ⟨_, hrepeats, hform⟩ := repeats_iff answer_foundScript
  exact ⟨answer_foundScript, hrepeats, hform _ _ (by rfl) (by rfl) (by decide) (by decide)⟩

/-- Under valid settings the same call answers first with the script that was found, and then with a
wrapper for its interpreter. -/
theorem foundScript_moves_on :
    ({} : Settings).fault? = none ∧ foundScript.answer scriptCall = .ok (Text.of "bin/run") ∧
      (foundScript.after scriptCall).wrapped? = none ∧
      (foundScript.after scriptCall).answer scriptCall = .ok (Text.of "serve-app.wrapper") ∧
      ((foundScript.after scriptCall).after scriptCall).command = Text.of "serve-app.wrapper" ∧
      ((foundScript.after scriptCall).after scriptCall).wrapped? =
        some (Text.of "/opt/widget -u $SNAP/bin/run") := by
  refine ⟨by decide, answer_foundScript, by rfl, by rfl, by rfl, by rfl⟩

end EntryPoints.EntryPoint
