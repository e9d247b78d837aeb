import EntryPoints.Proofs.CanonicalTexts
import EntryPoints.Proofs.FailedSettlements
import EntryPoints.Proofs.FirstLines
import EntryPoints.Proofs.ScriptForms
import EntryPoints.Proofs.WrappedWords
import EntryPoints.Proofs.WriteSteps

/-!
The lines of a wrapper. A script has two of them if and only if no newline goes into it, and what
goes into it is never looked at again. So newlines stay that a declared text has between its words,
if it is left as it is, or within them, if it is taken apart (`isTwoLines_iff_of_writeWrapper`).
A directive brings none, for it is read from one line.
-/
namespace EntryPoints

namespace Wrapper

/-- The line that names the shell and one that it executes, which passes the arguments on. -/
def IsTwoLines (text : Text) : Prop :=
  ∃ line, text = Text.of "#!/bin/sh\n" ++ line ++ ['\n'] ∧ '\n' ∉ line ∧
    Text.of "exec " <+: line ∧ Text.of " \"$@\"" <:+ line

theorem isTwoLines_script_iff {invoked : Text} :
    IsTwoLines (script invoked) ↔ '\n' ∉ invoked := by
  have hscript : script invoked =
      Text.of "#!/bin/sh\n" ++ (Text.of "exec " ++ invoked ++ Text.of " \"$@\"") ++ ['\n'] := by
    simp [script, Text.of]
  rw [hscript]
  constructor
  · rintro ⟨line, hline, hnewline, _, _⟩
    obtain rfl := List.append_cancel_left (List.append_cancel_right hline)
    intro hmem
    exact hnewline (List.mem_append_left _ (List.mem_append_right _ hmem))
  · intro hinvoked
    refine ⟨_, rfl, ?_, ?_, List.suffix_append _ _⟩
    · simp [Text.of, hinvoked]
    · rw [List.append_assoc]
      exact List.prefix_append _ _

end Wrapper

namespace RuntimeForm

variable {s : Stage} {files : FileTree} {declared word path : Text}
  {arguments directive : List Text}

theorem newline_not_mem_directive (h : directiveOf s files word = .ok directive) {w : Text}
    (hw : w ∈ directive) : '\n' ∉ w := by
  obtain ⟨_, line, hline, hsplit⟩ := line_of_directive h (List.ne_nil_of_mem hw)
  intro hnewline
  exact Directive.newline_not_mem_line hline (Words.subset_of_mem_split? hsplit hw hnewline)

/-- What brings a newline into the form of a command with these arguments, whose first word leads to
`path` and to a file with this directive. -/
inductive BringsNewline (s : Stage) (files : FileTree) (arguments directive : List Text)
    (path : Text) : Prop where
  | argument {w : Text} (hw : w ∈ arguments) (hnewline : '\n' ∈ w) :
      BringsNewline s files arguments directive path
  | program (hnewline : '\n' ∈ path) : BringsNewline s files arguments directive path
  | interpreter {interpreter : Text} {options : List Text}
      (hnames : Names directive interpreter options) (hlauncher : interpreter ≠ launcher)
      {found : Text} {m : Match} (hsearched : s.resolve files interpreter = .searched found m)
      (hnewline : '\n' ∈ found) : BringsNewline s files arguments directive path

theorem searched_of_newline (hpath : (s.resolve files word).path? = some path)
    (hword : '\n' ∉ word) (hnewline : '\n' ∈ path) :
    ∃ m, s.resolve files word = .searched path m := by
  cases hresolve : s.resolve files word with
  | missing => simp [hresolve, Referent.path?] at hpath
  | literal found =>
    obtain rfl : found = path := by simpa [hresolve, Referent.path?] using hpath
    rw [eq_relative_of_literal hresolve] at hnewline
    exact absurd ((s.relative_suffix word).subset hnewline) hword
  | searched found m =>
    obtain rfl : found = path := by simpa [hresolve, Referent.path?] using hpath
    exact ⟨m, rfl⟩

/-- The words of a front stand in the directive, but for an interpreter that was searched for. -/
theorem newline_mem_front_iff (hdirective : directiveOf s files word = .ok directive) :
    (∃ w ∈ (front s files word directive).words, '\n' ∈ w) ↔
      ∃ interpreter options found m, Names directive interpreter options ∧
        interpreter ≠ launcher ∧ s.resolve files interpreter = .searched found m ∧
          '\n' ∈ found := by
  constructor
  · rintro ⟨w, hw, hnewline⟩
    have hscript : directive ≠ [] := by
      rintro rfl
      cases hw
    obtain ⟨interpreter, options, hnames⟩ := exists_names hscript
    -- A directive is one line, so a newline can only come from a path that was found.
    have hplain : ∀ v ∈ interpreter :: options, '\n' ∉ v := by
      intro v hv
      rw [← dropLauncher_of_names hnames] at hv
      exact newline_not_mem_directive hdirective (mem_of_mem_dropLauncher hv)
    by_cases hlost : IsLost s files interpreter
    · rw [front_of_lost hnames hlost] at hw
      exact absurd hnewline (hplain w hw)
    · obtain ⟨hlauncher, found, hfound⟩ := path_of_not_lost hlost
      rw [(front_of_path hnames hlauncher hfound word).1] at hw
      rcases List.mem_cons.mp hw with rfl | hw
      · obtain ⟨m, hsearched⟩ :=
          searched_of_newline hfound (hplain interpreter List.mem_cons_self) hnewline
        exact ⟨interpreter, options, w, m, hnames, hlauncher, hsearched, hnewline⟩
      · exact absurd hnewline (hplain w (List.mem_cons_of_mem _ hw))
  · rintro ⟨interpreter, options, found, m, hnames, hlauncher, hsearched, hnewline⟩
    have hfound : (s.resolve files interpreter).path? = some found := by
      rw [hsearched]
      rfl
    rw [(front_of_path hnames hlauncher hfound word).1]
    exact ⟨found, List.mem_cons_self, hnewline⟩

section Placeholder
variable (hplaceholder : '\n' ∉ s.placeholder)
include hplaceholder

theorem newline_mem_anchor_append (text : Text) : '\n' ∈ s.anchor ++ text ↔ '\n' ∈ text := by
  simp [Stage.anchor, hplaceholder]

theorem newline_mem_program_iff : '\n' ∈ program s directive path ↔ '\n' ∈ path := by
  rw [program, anchored]
  split
  · rfl
  · split
    · rfl
    · exact newline_mem_anchor_append hplaceholder path

theorem newline_mem_rewritten_iff (h : Rewrites s files declared word arguments directive path) :
    '\n' ∈ Words.unsplit (rewritten s files word arguments directive path) ↔
      BringsNewline s files arguments directive path := by
  have hprogram : '\n' ∈ program s directive path ↔ '\n' ∈ path :=
    newline_mem_program_iff hplaceholder
  have hparts : '\n' ∈ Words.unsplit (rewritten s files word arguments directive path) ↔
      (∃ w ∈ (front s files word directive).words, '\n' ∈ w) ∨ '\n' ∈ path ∨
        ∃ w ∈ arguments, '\n' ∈ w := by
    rw [Words.mem_unsplit (by decide), ← hprogram]
    simp [rewritten, or_and_right, exists_or]
  rw [hparts, newline_mem_front_iff h.directive]
  constructor
  · rintro (⟨_, _, _, _, hnames, hlauncher, hsearched, hnewline⟩ | hnewline | ⟨w, hw, hnewline⟩)
    · exact .interpreter hnames hlauncher hsearched hnewline
    · exact .program hnewline
    · exact .argument hw hnewline
  · intro hbrings
    cases hbrings with
    | argument hw hnewline => exact .inr (.inr ⟨_, hw, hnewline⟩)
    | program hnewline => exact .inr (.inl hnewline)
    | interpreter hnames hlauncher hsearched hnewline =>
      exact .inl ⟨_, _, _, _, hnames, hlauncher, hsearched, hnewline⟩

end Placeholder
end RuntimeForm

namespace EntryPoint
open RuntimeForm (Rewrites runtimeText?)

variable {e : EntryPoint} {p : Policy} {s : Stage} {files left : FileTree} {wrapped : Text}
  {path : Path}
  {log : List Event}

/-- What brings a newline into the text that a command is decided on. -/
inductive BringsNewline (e : EntryPoint) (p : Policy) (s : Stage) (files : FileTree) : Prop where
  | verbatim (hverbatim : p.adapts = false ∨ Path.isAbsolute e.command = true)
      (hnewline : '\n' ∈ e.command) : BringsNewline e p s files
  | rewritten (hadapts : p.adapts = true) (hrelative : Path.isAbsolute e.command = false)
      {word : Text} {arguments directive : List Text} {path : Text}
      (hrewrites : Rewrites s files e.command word arguments directive path)
      (hbrings : RuntimeForm.BringsNewline s files arguments directive path) :
      BringsNewline e p s files

theorem decidedText?_of_verbatim (h : p.adapts = false ∨ Path.isAbsolute e.command = true) :
    e.decidedText? p s files = some e.command := by
  cases hadapts : p.adapts with
  | false => simp [decidedText?, hadapts]
  | true =>
    have habsolute : Path.isAbsolute e.command = true := by simpa [hadapts] using h
    have hform : RuntimeForm.ofDeclared s files e.command = .ok ⟨some e.command, [], []⟩ := by
      simp [RuntimeForm.ofDeclared, habsolute]
    exact decidedText?_of_ofDeclared hadapts hform

theorem newline_mem_decided_iff (hplaceholder : '\n' ∉ s.placeholder) {text : Text}
    (htext : e.decidedText? p s files = some text) :
    '\n' ∈ text ↔ e.BringsNewline p s files := by
  by_cases hverbatim : p.adapts = false ∨ Path.isAbsolute e.command = true
  · obtain rfl : text = e.command :=
      Option.some.inj (htext.symm.trans (decidedText?_of_verbatim hverbatim))
    constructor
    · exact .verbatim hverbatim
    · intro hbrings
      cases hbrings with
      | verbatim _ hnewline => exact hnewline
      | rewritten hadapts hrelative _ _ => simp [hadapts, hrelative] at hverbatim
  · obtain ⟨hadapts, hrelative⟩ :
        p.adapts = true ∧ Path.isAbsolute e.command = false := by simpa using hverbatim
    have hruntime : runtimeText? s files e.command = some text := by
      simpa [decidedText?, hadapts] using htext
    constructor
    · intro hnewline
      obtain ⟨word, arguments, directive, path, hrewrites, rfl⟩ :=
        (RuntimeForm.runtimeText?_eq_some_iff hrelative).mp hruntime
      exact .rewritten hadapts hrelative hrewrites
        ((RuntimeForm.newline_mem_rewritten_iff hplaceholder hrewrites).mp hnewline)
    · intro hbrings
      cases hbrings with
      | verbatim h _ => exact absurd h hverbatim
      | rewritten _ _ hrewrites hbrings =>
        have hsame := (RuntimeForm.runtimeText?_eq_some_iff hrelative).mpr
          ⟨_, _, _, _, hrewrites, rfl⟩
        rw [Option.some.inj (hruntime.symm.trans hsame)]
        exact (RuntimeForm.newline_mem_rewritten_iff hplaceholder hrewrites).mpr hbrings

theorem decidedText?_of_wrapped (hfresh : e.wrapped? = none)
    (hwrapped : (e.settle p s files).entry.wrapped? = some wrapped) :
    e.decidedText? p s files = some wrapped := by
  have hattempt := attempt_settle hfresh p s files
  generalize (e.settle p s files).outcome = outcome, (e.settle p s files).entry = entry
    at hattempt hwrapped
  cases hattempt with
  | unread _ _ _ => simp [hfresh] at hwrapped
  | missed _ _ _ => simp [hfresh] at hwrapped
  | decided htext hconcluding =>
    cases hconcluding with
    | wrapped _ _ =>
      rw [htext]
      exact hwrapped
    | refused _ _ => simp [decidedOn, hfresh] at hwrapped
    | direct _ _ => simp [decidedOn, hfresh] at hwrapped
    | stuck _ _ => simp [decidedOn, hfresh] at hwrapped

/-- Once a command was put behind a wrapper and this was written, its file holds the script of the
text that was decided on. That has two lines if and only if nothing brought a newline into it. -/
theorem isTwoLines_iff_of_writeWrapper (hplaceholder : '\n' ∉ s.placeholder)
    (hfresh : e.wrapped? = none)
    (hwrapped : (e.settle p s files).entry.wrapped? = some wrapped) {files' : FileTree}
    (hwrite : (e.settle p s files).entry.writeWrapper s files' = .ok (left, some path, log)) :
    left.read path = .ok (Text.Utf8.encode (Wrapper.script (invoked s wrapped))) ∧
      (Wrapper.IsTwoLines (Wrapper.script (invoked s wrapped)) ↔ '\n' ∉ wrapped) ∧
      (Wrapper.IsTwoLines (Wrapper.script (invoked s wrapped)) ↔
        ¬ e.BringsNewline p s files) := by
  have hlines : Wrapper.IsTwoLines (Wrapper.script (invoked s wrapped)) ↔ '\n' ∉ wrapped := by
    rw [Wrapper.isTwoLines_script_iff, invoked]
    split
    · rfl
    · rw [RuntimeForm.newline_mem_anchor_append hplaceholder]
  obtain ⟨hstore, hpath⟩ := writes_of_writeWrapper hwrite
  rw [Writes, hwrapped] at hstore
  obtain ⟨place, hwritten⟩ := Wrapper.written_of_store hstore
  obtain rfl : path = (e.settle p s files).entry.wrapperPath s := by
    simpa [hwrapped] using hpath
  refine ⟨hwritten.read, hlines, ?_⟩
  rw [hlines, newline_mem_decided_iff hplaceholder (decidedText?_of_wrapped hfresh hwrapped)]

theorem quotedTool_isTwoLines :
    '\n' ∉ (toolCall .legacy).stage.placeholder ∧ quotedTool.wrapped? = none ∧
      ∃ left log,
        (quotedTool.settle ⟨true, true⟩ (toolCall .legacy).stage toolTree).entry.writeWrapper
            (toolCall .legacy).stage toolTree =
          .ok (left, some (Text.of "/stage/command-app.wrapper"), log) ∧
        left.read (Text.of "/stage/command-app.wrapper") = .ok (Text.Utf8.encode
          (Text.of "#!/bin/sh\nexec $SNAP/bin/tool \"a b\" \"$@\"\n")) ∧
        Wrapper.IsTwoLines (Text.of "#!/bin/sh\nexec $SNAP/bin/tool \"a b\" \"$@\"\n") ∧
        ¬ quotedTool.BringsNewline ⟨true, true⟩ (toolCall .legacy).stage toolTree := by
  have hvalid : ({} : Settings).fault? = none := by decide
  have hplaceholder : '\n' ∉ (toolCall .legacy).stage.placeholder :=
    Settings.blank_not_mem_placeholder hvalid (by decide)
  have hwrapped : (quotedTool.settle ⟨true, true⟩ (toolCall .legacy).stage
      toolTree).entry.wrapped? = some (Text.of "bin/tool \"a b\"") := by rfl
  obtain ⟨left, log, hwrite⟩ : ∃ left log,
      (quotedTool.settle ⟨true, true⟩ (toolCall .legacy).stage toolTree).entry.writeWrapper
          (toolCall .legacy).stage toolTree =
        .ok (left, some (Text.of "/stage/command-app.wrapper"), log) := ⟨_, _, rfl⟩
  obtain ⟨hread, hlines, hbrings⟩ :=
    isTwoLines_iff_of_writeWrapper hplaceholder rfl hwrapped hwrite
  have htwo := hlines.mpr (by decide)
  exact ⟨hplaceholder, rfl, left, log, hwrite, hread, htwo, hbrings.mp htwo⟩

/-- An absolute command whose words stand on two lines. -/
def brokenCommand : EntryPoint := toolEntry (Text.of "/opt/tool\n--flag")

/-- Under valid settings the newline between its words stays, and its script has a third line. -/
theorem brokenCommand_is_not_two_lines :
    ({} : Settings).fault? = none ∧ brokenCommand.wrapped? = none ∧
      (brokenCommand.settle ⟨true, true⟩ (toolCall .legacy).stage toolTree).outcome =
        .ok (Text.of "command-app.wrapper") ∧
      (brokenCommand.settle ⟨true, true⟩ (toolCall .legacy).stage toolTree).entry.wrapped? =
        some (Text.of "/opt/tool\n--flag") ∧
      ∃ left log,
        (brokenCommand.settle ⟨true, true⟩ (toolCall .legacy).stage toolTree).entry.writeWrapper
            (toolCall .legacy).stage toolTree =
          .ok (left, some (Text.of "/stage/command-app.wrapper"), log) ∧
        left.read (Text.of "/stage/command-app.wrapper") = .ok (Text.Utf8.encode
          (Text.of "#!/bin/sh\nexec /opt/tool\n--flag \"$@\"\n")) ∧
        ¬ Wrapper.IsTwoLines (Text.of "#!/bin/sh\nexec /opt/tool\n--flag \"$@\"\n") := by
  have hlines : ¬ Wrapper.IsTwoLines (Wrapper.script (Text.of "/opt/tool\n--flag")) := by
    rw [Wrapper.isTwoLines_script_iff]
    decide
  exact ⟨by decide, rfl, by rfl, by rfl, _, _, rfl, by rfl, hlines⟩

end EntryPoint
end EntryPoints
