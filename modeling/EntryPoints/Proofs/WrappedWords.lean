import EntryPoints.Proofs.DirectCommands
import EntryPoints.Proofs.LeftInterpreters

/-!
Commands that go behind a wrapper with a relative text. A wrapper takes such a text for a path below
the staged root, while nothing is asked of it when the entry point settles. It begins with what its
leading word leads to, and that is there if its path is a text (`wrappedWord_of_answer`), unless the
word is an interpreter that is left to the runtime.
-/
namespace EntryPoints

theorem Words.first_of_unsplit {lead first : Text} {rest others : List Text} (hlead : IsWord lead)
    (h : split? (unsplit (lead :: rest)) = some (first :: others)) : first = lead := by
  by_cases hrest : rest = []
  · subst hrest
    have hwhole : split? (unsplit [lead]) = some [lead] := split?_word hlead
    rw [hwhole] at h
    cases h
    rfl
  · rw [unsplit_cons lead hrest, split?_word_append hlead] at h
    obtain ⟨_, _, hwords⟩ := Option.map_eq_some_iff.mp h
    cases hwords
    rfl

/-- The root is told from the top, and so is what the host finds; what it finds below the root is
there. -/
structure Stage.IsTruthful (s : Stage) (files : FileTree) : Prop where
  root : Path.isAbsolute s.root = true
  host : ∀ name path, s.search.host.find? name = some path →
    Path.isAbsolute path = true ∧
      ((Path.below? s.root path).isSome = true → files.holds path = true)

/-- Nothing of the path to a match is lost where the referent tells it. -/
def Stage.TellsWhole (s : Stage) (r : Referent) : Prop := ∀ m ∈ r.found, (s.fromRoot m.path).IsText

instance (s : Stage) (r : Referent) : Decidable (s.TellsWhole r) :=
  inferInstanceAs (Decidable (∀ m ∈ r.found, (s.fromRoot m.path).IsText))

theorem Stage.holds_of_resolve {s : Stage} {files : FileTree} {word path : Text}
    (htruthful : s.IsTruthful files) (h : (s.resolve files word).path? = some path)
    (htold : s.TellsWhole (s.resolve files word)) (hne : path ≠ [])
    (hrelative : Path.isAbsolute path = false)
    (hshort : (Path.join s.root path).length < pathLimit) :
    files.holds (Path.join s.root path) = true := by
  cases hresolve : s.resolve files word with
  | missing =>
    rw [hresolve] at h
    cases h
  | literal found =>
    rw [hresolve] at h
    cases h
    exact RuntimeForm.holds_of_literal hresolve
  | searched found m =>
    rw [hresolve] at h
    cases h
    obtain ⟨hfind, hsame⟩ := find?_of_searched hresolve
    have hwhole : (s.fromRoot m.path).IsText := htold m (by simp [hresolve, Referent.found])
    have hseen : Path.of path = s.fromRoot m.path := by rw [hsame, hwhole]
    rw [hseen] at hrelative hshort ⊢
    -- Of its own candidates the search takes executables only; for the host's, its word is taken.
    have hfound : Path.isAbsolute m.path = true ∧ files.holds m.path = true := by
      by_cases horigin : m.origin = .host
      · obtain ⟨habsolute, hthere⟩ := htruthful.host _ _ (Search.host_of_find? hfind horigin)
        refine ⟨habsolute, hthere ?_⟩
        rw [below?_fromRoot habsolute hrelative]
        rfl
      · have hexecutable := Search.isExecutable_of_find? hfind horigin
        exact ⟨Search.isAbsolute_of_find? hfind horigin htruthful.root,
          FileTree.holds_of_isExecutable hexecutable⟩
    refine holds_fromRoot (root_ne_nil htruthful.root) hfound.1 hfound.2 ?_ hrelative hshort
    rwa [← hseen, ne_eq, Path.of_eq_nil_iff]

namespace RuntimeForm

variable {s : Stage} {files : FileTree} {declared word path : Text}
  {arguments directive : List Text}

theorem notices_front_subset (declared word : Text) (arguments directive : List Text) :
    (front s files word directive).notices ⊆
      (ofWords s files declared word arguments directive).notices := by
  intro n hn
  unfold ofWords
  cases s.resolve files word with
  | missing => exact List.mem_append_left _ hn
  | literal found => exact List.mem_append_left _ hn
  | searched found m => exact List.mem_append_left _ (List.mem_append_left _ hn)

/-- Of the words that lead a form, only an interpreter may be missing, and that is told. -/
theorem unresolved_of_missing (h : Rewrites s files declared word arguments directive path)
    (hmissing : s.resolve files (leading word directive) = .missing) :
    .interpreterUnresolved (leading word directive) ∈ (front s files word directive).notices := by
  cases hdirective : dropLauncher directive with
  | nil =>
    have hleading : leading word directive = word := by simp [leading, hdirective]
    have hleads := h.leads
    rw [hleading] at hmissing
    rw [hmissing] at hleads
    cases hleads
  | cons interpreter others =>
    have hleading : leading word directive = interpreter := by simp [leading, hdirective]
    rw [hleading] at hmissing ⊢
    simp only [front, hdirective, hmissing]
    split <;> exact List.mem_cons_self

end RuntimeForm

namespace EntryPoint
open RuntimeForm (leading runtimeText?)

variable {e settled : EntryPoint} {p : Policy} {s : Stage} {files : FileTree} {c : Call}
  {text wrapped : Text}

theorem settling_wrapped (h : Settling e p s files (.ok text) settled) (hfresh : e.wrapped? = none)
    (hadapts : p.adapts = true) (hwrapped : settled.wrapped? = some wrapped) :
    ∃ form, RuntimeForm.ofDeclared s files e.command = .ok form ∧ form.text? = some wrapped ∧
      form.notices ⊆ settled.notices := by
  cases h with
  | kept hwrapped' =>
    rw [hfresh] at hwrapped'
    cases hwrapped'
  | @adapted _ _ form hform hfatal _ _ hconcluding =>
    obtain ⟨result, htext⟩ : ∃ result, form.text? = some result := by
      apply Option.ne_none_iff_exists'.mp
      intro hnone
      have hfails := (RuntimeForm.text?_eq_none_iff hform).mp hnone
      rw [hfatal] at hfails
      cases hfails
    cases hconcluding with
    | wrapped _ _ =>
      obtain rfl : result = wrapped := by simpa [wrap, inForm, htext] using hwrapped
      refine ⟨form, hform, htext, ?_⟩
      intro n hn
      exact List.mem_append_left _ (List.mem_append_right _ hn)
    | direct _ _ =>
      rw [wrapped?_inForm, hfresh] at hwrapped
      cases hwrapped
  | verbatim _ hadapts' _ =>
    rw [hadapts] at hadapts'
    cases hadapts'

/-- What holds of a relative text behind a wrapper, and of the word that led it. -/
structure WrappedWord (e : EntryPoint) (c : Call) (wrapped named : Text) : Prop where
  leads : e.Leads c named
  begins : ∃ rest,
    wrapped = Words.unsplit ((c.stage.resolve c.files named).path?.getD named :: rest)
  /-- Where the leading word is found, at a path that is a word and a text, the wrapper runs what is
  there. -/
  found (path first : Text) (others : List Text) :
    (c.stage.resolve c.files named).path? = some path → Words.IsWord path →
      Words.split? wrapped = some (first :: others) →
        first = path ∧ c.stage.anchor ++ first <+: invoked c.stage wrapped ∧
          (c.stage.TellsWhole (c.stage.resolve c.files named) →
            (Path.join c.stage.root first).length < pathLimit →
            c.files.holds (Path.join c.stage.root first) = true)
  /-- An interpreter that is not found stays as it is named, and the wrapper looks for it in the
  root, where there is none unless it is named from the anchor. -/
  left : c.stage.resolve c.files named = .missing →
    .interpreterUnresolved named ∈ (e.after c).notices ∧
      ∀ first others, Words.split? wrapped = some (first :: others) →
        first = named ∧ c.stage.anchor ++ first <+: invoked c.stage wrapped ∧
          (c.files.holds (Path.join c.stage.root first) = true → c.stage.anchor <+: first)

section Form

variable {word lead first : Text} {rest others : List Text}
  (hlead : wrapped = Words.unsplit (lead :: rest)) (hword : Words.IsWord lead)
  (hrelative : Path.isAbsolute wrapped = false)
  (hsplit : Words.split? wrapped = some (first :: others))
include hlead hrelative

theorem isAbsolute_lead (hne : lead ≠ []) : Path.isAbsolute lead = false := by
  rwa [hlead, RuntimeForm.isAbsolute_unsplit hne] at hrelative

include hword hsplit

theorem runs_lead : first = lead ∧ s.anchor ++ first <+: invoked s wrapped := by
  obtain rfl : first = lead := Words.first_of_unsplit hword (hlead ▸ hsplit)
  have hanchored : invoked s wrapped = s.anchor ++ wrapped := by
    rw [invoked, hrelative]
    rfl
  rw [hanchored, List.prefix_append_right_inj, hlead]
  exact ⟨rfl, Words.unsplit_prefix first rest⟩

theorem first_of_found (htruthful : s.IsTruthful files)
    (hfound : (s.resolve files word).path? = some lead) :
    first = lead ∧ s.anchor ++ first <+: invoked s wrapped ∧
      (s.TellsWhole (s.resolve files word) → (Path.join s.root first).length < pathLimit →
        files.holds (Path.join s.root first) = true) := by
  obtain ⟨rfl, hruns⟩ := runs_lead (s := s) hlead hword hrelative hsplit
  refine ⟨rfl, hruns, fun htold hshort => ?_⟩
  have hlead' := isAbsolute_lead hlead hrelative hword.ne_nil
  exact Stage.holds_of_resolve htruthful hfound htold hword.ne_nil hlead' hshort

theorem first_of_missing (hmissing : s.resolve files lead = .missing) :
    first = lead ∧ s.anchor ++ first <+: invoked s wrapped ∧
      (files.holds (Path.join s.root first) = true → s.anchor <+: first) := by
  obtain ⟨rfl, hruns⟩ := runs_lead (s := s) hlead hword hrelative hsplit
  refine ⟨rfl, hruns, ?_⟩
  apply RuntimeForm.anchor_of_missing hmissing
  exact isAbsolute_lead hlead hrelative hword.ne_nil

end Form

/-- A relative text behind a wrapper begins with what its leading word leads to. Where that is a
path, a word and a text, the wrapper runs something that is there; where it leads nowhere, it is an
interpreter that was left to the runtime. -/
theorem wrappedWord_of_answer (hfresh : e.wrapped? = none) (hadapts : c.policy.adapts = true)
    (htruthful : c.stage.IsTruthful c.files) (h : e.answer c = .ok text)
    (hwrapped : (e.after c).wrapped? = some wrapped) (hrelative : Path.isAbsolute wrapped = false) :
    ∃ named, WrappedWord e c wrapped named := by
  have hsettling := settling_of_answer h
  obtain ⟨form, hform, htext, hnotices⟩ := settling_wrapped hsettling hfresh hadapts hwrapped
  have hruntime : runtimeText? c.stage c.files e.command = some wrapped := by
    rw [RuntimeForm.runtimeText?_of_ofDeclared hform, htext]
  have hdeclared := isAbsolute_of_form hrelative hruntime
  obtain ⟨word, arguments, directive, path, hrewrites, hwords⟩ :=
    (RuntimeForm.runtimeText?_eq_some_iff hdeclared).mp hruntime
  obtain ⟨rest, hlead⟩ := RuntimeForm.lead_of_relative hrewrites hwords hrelative
  refine ⟨leading word directive, ?_, ⟨rest, hlead⟩, ?_, ?_⟩
  · rw [Leads, hadapts]
    exact ⟨word, arguments, directive, path, hrewrites, rfl⟩
  · intro found first others hfound hword hsplit
    rw [hfound] at hlead
    exact first_of_found hlead hword hrelative hsplit htruthful hfound
  · intro hmissing
    rw [hmissing] at hlead
    constructor
    · -- The notices of the form are among those of the settled entry point.
      have hsame := RuntimeForm.ofDeclared_of_words hdeclared hrewrites.words hrewrites.directive
      rw [hform] at hsame
      cases hsame
      apply hnotices
      apply RuntimeForm.notices_front_subset
      exact RuntimeForm.unresolved_of_missing hrewrites hmissing
    · intro first others hsplit
      have hnamed := RuntimeForm.isWord_leading hrewrites
      exact first_of_missing hlead hnamed hrelative hsplit hmissing

theorem isTruthful_toolCall (a : Adapter) : (toolCall a).stage.IsTruthful toolTree where
  root := rfl
  host := by
    intro name path hpath
    cases hpath

def quotedTool : EntryPoint := toolEntry (Text.of "tool \"a b\"")

theorem quotedTool_runs_tool :
    quotedTool.answer (toolCall .legacy) = .ok (Text.of "command-app.wrapper") ∧
      (quotedTool.after (toolCall .legacy)).wrapped? = some (Text.of "bin/tool \"a b\"") ∧
      (toolCall .legacy).stage.anchor ++ Text.of "bin/tool" <+:
        invoked (toolCall .legacy).stage (Text.of "bin/tool \"a b\"") ∧
      toolTree.holds (Path.join (toolCall .legacy).stage.root (Text.of "bin/tool")) = true := by
  have hanswer : quotedTool.answer (toolCall .legacy) = .ok (Text.of "command-app.wrapper") := by
    rfl
  have hwrapped : (quotedTool.after (toolCall .legacy)).wrapped? =
      some (Text.of "bin/tool \"a b\"") := by rfl
  obtain ⟨named, hword⟩ := wrappedWord_of_answer rfl rfl (isTruthful_toolCall .legacy) hanswer
    hwrapped (by decide)
  obtain ⟨word, arguments, directive, path, hrewrites, rfl⟩ := hword.leads
  have hwords := hrewrites.words
  have hdirective := hrewrites.directive
  cases hwords
  cases hdirective
  obtain ⟨_, hanchored, hthere⟩ := hword.found (Text.of "bin/tool") (Text.of "bin/tool")
    [Text.of "\"a b\""] (by rfl) (.inl (by decide)) (by rfl)
  exact ⟨hanswer, hwrapped, hanchored, hthere (by decide) (by decide)⟩

/-- A script with a quoted argument, whose interpreter is neither in the tree nor on the host. -/
def quotedScript : EntryPoint :=
  declare (Text.of "app") (Text.of "serve") (Text.of "bin/run \"a b\"")

/-- Under valid settings an interpreter that is left to the runtime goes behind the wrapper as it is
named, and the root has nothing of this name. -/
theorem quotedScript_runs_nothing :
    ({} : Settings).fault? = none ∧ quotedScript.wrapped? = none ∧
      quotedScript.answer ⟨⟨true, true⟩, hostlessStage, RuntimeForm.scriptTree⟩ =
        .ok (Text.of "serve-app.wrapper") ∧
      (quotedScript.after ⟨⟨true, true⟩, hostlessStage, RuntimeForm.scriptTree⟩).wrapped? =
        some (Text.of "widget -u $SNAP/bin/run \"a b\"") ∧
      Path.isAbsolute (Text.of "widget -u $SNAP/bin/run \"a b\"") = false ∧
      Words.split? (Text.of "widget -u $SNAP/bin/run \"a b\"") =
        some [Text.of "widget", Text.of "-u", Text.of "$SNAP/bin/run", Text.of "\"a b\""] ∧
      invoked hostlessStage (Text.of "widget -u $SNAP/bin/run \"a b\"") =
        Text.of "$SNAP/widget -u $SNAP/bin/run \"a b\"" ∧
      RuntimeForm.scriptTree.holds (Path.join hostlessStage.root (Text.of "widget")) = false := by
  refine ⟨by decide, rfl, by rfl, by rfl, by decide, by rfl, by rfl, by rfl⟩

end EntryPoint
end EntryPoints
