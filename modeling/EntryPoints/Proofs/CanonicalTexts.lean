import EntryPoints.Proofs.FormWords

/-!
Texts that are their own runtime form. A text comes out unchanged and without a notice exactly if it
is spelt as a form would be: single spaces between its words, the first of which names something
from the root (`unchanged_iff_canonical`). Every change would show in the number of slashes. What is
dropped in front of a word or of the whole text has a slash in it, and splitting and joining words
keep all of them.
-/
namespace EntryPoints

namespace Text

variable {start t : Text} {c : Char}

theorem count_dropStart_le (start t : Text) (c : Char) : (dropStart start t).count c ≤ t.count c :=
  (dropStart_suffix start t).sublist.count_le c

/-- Nothing is dropped where no character of it is missing afterwards. -/
theorem dropStart_eq_self_of_count (hc : c ∈ start) (h : t.count c ≤ (dropStart start t).count c) :
    dropStart start t = t := by
  by_cases hstart : start <+: t
  · obtain ⟨rest, rfl⟩ := hstart
    have hpositive : 0 < start.count c := List.count_pos_iff.mpr hc
    rw [dropStart_append, List.count_append] at h
    omega
  · exact dropStart_eq_self hstart

end Text

namespace Words

variable {start w : Text} {ws : List Text}

/-- What begins joined words and has no space in it begins the first of them. -/
theorem prefix_of_prefix_unsplit (hspace : ' ' ∉ start) (h : start <+: unsplit (w :: ws)) :
    start <+: w := by
  by_cases hlast : ws = []
  · subst hlast
    exact h
  · rw [unsplit_cons w hlast] at h
    rcases List.prefix_or_prefix_of_prefix h (List.prefix_append w _) with hstart | hword
    · exact hstart
    · obtain ⟨more, rfl⟩ := hword
      rw [List.prefix_append_right_inj] at h
      cases more with
      | nil => simp
      | cons c more =>
        obtain ⟨rfl, _⟩ := List.cons_prefix_cons.mp h
        simp at hspace

end Words

namespace Stage

variable {s : Stage} {word : Text}

theorem slash_mem_anchor (s : Stage) : '/' ∈ s.anchor := by simp [anchor]

theorem count_relative_le (s : Stage) (word : Text) :
    (s.relative word).count '/' ≤ word.count '/' :=
  (s.relative_suffix word).sublist.count_le _

theorem relative_eq_self_of_count (h : word.count '/' ≤ (s.relative word).count '/') :
    s.relative word = word := by
  have hanchor := Text.count_dropStart_le s.anchor (Text.dropStart ['/'] word) '/'
  have hslash : Text.dropStart ['/'] word = word :=
    Text.dropStart_eq_self_of_count (List.mem_singleton_self '/') (h.trans hanchor)
  rw [relative, hslash] at h ⊢
  exact Text.dropStart_eq_self_of_count s.slash_mem_anchor h

end Stage

theorem Settings.blank_not_mem_placeholder {settings : Settings} (h : settings.fault? = none)
    {c : Char} (hc : Text.isBlank c = true) : c ∉ settings.placeholder := by
  intro hmem
  have hblank : (settings.placeholder.any fun c => c = '/' || Text.isBlank c) = true :=
    List.any_eq_true.mpr ⟨c, hmem, by simp [hc]⟩
  rw [fault?, if_neg (List.ne_nil_of_mem hmem), if_pos hblank] at h
  cases h

namespace RuntimeForm

variable {s : Stage} {files : FileTree} {declared word : Text} {arguments : List Text}
  {form : RuntimeForm}

/-- The text has these words with single spaces between them, and the first is spelt from the root,
with neither a slash nor an anchor in front, and names something there. -/
structure IsCanonical (s : Stage) (files : FileTree) (text word : Text) (arguments : List Text) :
    Prop where
  words : Words.split? text = some (word :: arguments)
  spaced : Words.unsplit (word :: arguments) = text
  relative : Path.isAbsolute word = false
  plain : ¬ s.anchor <+: word
  there : files.holds (Path.join s.root word) = true

/-- A text that is put together again from its words, the first of them seen from the root, lost
nothing in front, and nor did its first word. -/
theorem spelt_from_root (hwords : commandWords? s declared = some (word :: arguments))
    (htext : Words.unsplit (s.relative word :: arguments) = declared) :
    Text.dropStart s.anchor declared = declared ∧ s.relative word = word := by
  have hgap : Words.isGap '/' = false := by decide
  have hline := Words.count_of_split? hwords hgap
  have hresult := Words.count_unsplit (s.relative word :: arguments) hgap
  rw [htext] at hresult
  rw [List.flatten_cons, List.count_append] at hline hresult
  have hword := s.count_relative_le word
  have hdropped := Text.count_dropStart_le s.anchor declared '/'
  constructor
  · apply Text.dropStart_eq_self_of_count s.slash_mem_anchor
    omega
  · apply Stage.relative_eq_self_of_count
    omega

theorem canonical_of_literal (hwords : commandWords? s declared = some (word :: arguments))
    (hresolve : s.resolve files word = .literal (s.relative word))
    (htext : Words.unsplit (s.relative word :: arguments) = declared) :
    IsCanonical s files declared word arguments := by
  obtain ⟨hline, hword⟩ := spelt_from_root hwords htext
  obtain ⟨hrelative, hplain⟩ := Stage.relative_eq_self_iff.mp hword
  rw [commandWords?, hline] at hwords
  have hthere := holds_of_literal hresolve
  rw [hword] at htext hthere
  exact ⟨hwords, htext, hrelative, hplain, hthere⟩

theorem IsCanonical.leads (h : IsCanonical s files declared word arguments)
    (hspace : ' ' ∉ s.placeholder) :
    commandWords? s declared = some (word :: arguments) ∧
      s.resolve files word = .literal word := by
  have hword : s.relative word = word := Stage.relative_eq_self_iff.mpr ⟨h.relative, h.plain⟩
  have hanchor : ¬ s.anchor <+: declared := by
    intro hstart
    rw [← h.spaced] at hstart
    exact h.plain (Words.prefix_of_prefix_unsplit (by simp [Stage.anchor, hspace]) hstart)
  have hthere := h.there
  rw [← hword] at hthere
  have hresolve := resolve_of_holds hthere
  rw [hword] at hresolve
  exact ⟨commandWords?_of_split? hanchor h.words, hresolve⟩

theorem directiveOf_of_not_isInterpreted (hrelative : Path.isAbsolute declared = false)
    (hwords : commandWords? s declared = some (word :: arguments))
    (hform : ofDeclared s files declared = .ok form) (hplain : ¬ IsInterpreted s files declared) :
    directiveOf s files word = .ok [] := by
  cases hdirective : directiveOf s files word with
  | error f =>
    rw [commandWords?] at hwords
    simp [ofDeclared, hrelative, Words.split_eq_ok_iff.mpr hwords, hdirective] at hform
  | ok directive =>
    by_cases hscript : directive = []
    · rw [hscript]
    · exact absurd (isInterpreted_of_directive hwords hdirective hscript) hplain

/-- A declared text that is neither absolute nor a script's comes out as it is, with no notice,
exactly if it is canonical. The placeholder has to be one word, as that of valid settings is. -/
theorem unchanged_iff_canonical (hspace : ' ' ∉ s.placeholder)
    (hrelative : Path.isAbsolute declared = false) (hform : ofDeclared s files declared = .ok form)
    (hplain : ¬ IsInterpreted s files declared) :
    form.text? = some declared ∧ form.notices = [] ↔
      ∃ word arguments, IsCanonical s files declared word arguments := by
  have hformed := formed_of_ofDeclared hform
  constructor
  · rintro ⟨htext, hnotices⟩
    cases hformed with
    | absolute habsolute => simp [hrelative] at habsolute
    | empty _ _ => cases htext
    | missing _ _ _ _ => cases htext
    | literal _ hwords _ hresolve =>
      exact ⟨_, _, canonical_of_literal hwords hresolve (Option.some.inj htext)⟩
    | searched _ _ _ _ => cases hnotices
    | interpreted _ hwords hdirective hscript _ =>
      exact absurd (isInterpreted_of_directive hwords hdirective hscript) hplain
  · rintro ⟨word, arguments, hcanonical⟩
    obtain ⟨hwords, hresolve⟩ := hcanonical.leads hspace
    have hdirective := directiveOf_of_not_isInterpreted hrelative hwords hform hplain
    rw [ofDeclared_of_words hrelative hwords hdirective, Except.ok.injEq, ofWords_plain,
      hresolve] at hform
    subst hform
    simp [ofPath, explanation, hcanonical.spaced]

def plainTree : FileTree :=
  (FileTree.empty.addFile (Text.of "/stage/bin/tool") ⟨[], 0o755⟩).toOption.getD .empty

def plainStage : Stage :=
  ({} : Settings).stage plainTree (Text.of "/stage") (.named (.ofList []))

theorem plainTool_is_canonical :
    ' ' ∉ plainStage.placeholder ∧ Path.isAbsolute (Text.of "bin/tool 'a  b'") = false ∧
      ofDeclared plainStage plainTree (Text.of "bin/tool 'a  b'") =
        .ok ⟨some (Text.of "bin/tool 'a  b'"), [], []⟩ ∧
      ¬ IsInterpreted plainStage plainTree (Text.of "bin/tool 'a  b'") ∧
      ∃ word arguments,
        IsCanonical plainStage plainTree (Text.of "bin/tool 'a  b'") word arguments := by
  have hvalid : ({} : Settings).fault? = none := by decide
  have hspace : ' ' ∉ plainStage.placeholder :=
    Settings.blank_not_mem_placeholder hvalid (by decide)
  have hrelative : Path.isAbsolute (Text.of "bin/tool 'a  b'") = false := by decide
  have hform : ofDeclared plainStage plainTree (Text.of "bin/tool 'a  b'") =
      .ok ⟨some (Text.of "bin/tool 'a  b'"), [], []⟩ := by rfl
  have hwords : commandWords? plainStage (Text.of "bin/tool 'a  b'") =
      some [Text.of "bin/tool", Text.of "'a  b'"] := by rfl
  have hplain : ¬ IsInterpreted plainStage plainTree (Text.of "bin/tool 'a  b'") :=
    not_isInterpreted_of_directive hwords (by rfl)
  exact ⟨hspace, hrelative, hform, hplain,
    (unchanged_iff_canonical hspace hrelative hform hplain).mp ⟨rfl, rfl⟩⟩

end RuntimeForm
end EntryPoints
