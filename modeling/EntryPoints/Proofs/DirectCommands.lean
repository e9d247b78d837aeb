import EntryPoints.Proofs.Confinement
import EntryPoints.Proofs.FoundPaths
import EntryPoints.Proofs.Resettling

/-!
Commands that settle without a wrapper. The first word of such a command leads to an executable file
from the staged root (`directWord_of_answer`), but nothing says that the file lies in it. A word may
climb out of the root where the documents write it so, and one that stands behind a space may be
absolute.
-/
namespace EntryPoints

/-- A path that ends in a name climbs no more than the longer ones that it begins. -/
theorem Path.climbs_of_append {p tail name : Path}
    (hlast : (steps p).getLast? = some (.enter name)) (h : climbs (p ++ tail) = false) :
    climbs p = false := by
  obtain ⟨init, last, hpieces⟩ := Text.cut_eq_concat slash p
  obtain ⟨first, others, htail⟩ := List.exists_cons_of_ne_nil (Text.cut_ne_nil slash tail)
  have hwhole : pieces (p ++ tail) = init ++ (last ++ first) :: others :=
    Text.cut_glue hpieces htail
  have hinit : [dot, dot] ∉ init := by
    intro hdots
    have hclimbs : climbs (p ++ tail) = true := by
      rw [climbs, hwhole, List.contains_iff_mem]
      exact List.mem_append_left _ hdots
    rw [hclimbs] at h
    cases h
  have hend : last ≠ [dot, dot] := by
    rintro rfl
    have hsteps : steps p = init.filterMap step? ++ [.up] ++
        if p.getLast? = some slash then [.close] else [] := by
      rw [steps, pieces, hpieces, List.filterMap_append]
      rfl
    rw [hsteps] at hlast
    split at hlast <;> simp at hlast
  have hpieces' : pieces p = init ++ [last] := hpieces
  rw [← Bool.not_eq_true, climbs, hpieces', List.contains_iff_mem, List.mem_append,
    List.mem_singleton]
  exact not_or.mpr ⟨hinit, hend.symm⟩

namespace Words

variable {text : Text}

def firstOf (text : Text) : Text := text.takeWhile (· ≠ ' ')

theorem firstOf_cases (text : Text) :
    text = firstOf text ∨ ∃ more, text = firstOf text ++ ' ' :: more := by
  induction text with
  | nil => exact .inl rfl
  | cons c text ih =>
    by_cases hc : c = ' '
    · subst hc
      exact .inr ⟨text, rfl⟩
    · have hfirst : firstOf (c :: text) = c :: firstOf text := by simp [firstOf, hc]
      rw [hfirst]
      rcases ih with ih | ⟨more, ih⟩
      · exact .inl (congrArg (c :: ·) ih)
      · exact .inr ⟨more, congrArg (c :: ·) ih⟩

theorem firstOf_append (text more : Text) : firstOf (text ++ ' ' :: more) = firstOf text := by
  induction text with
  | nil => rfl
  | cons c text ih =>
    by_cases hc : c = ' '
    · simp [firstOf, hc]
    · simpa [firstOf, hc] using ih

theorem firstOf_unsplit (lead : Text) (rest : List Text) :
    firstOf (unsplit (lead :: rest)) = firstOf lead := by
  by_cases hrest : rest = []
  · subst hrest
    rfl
  · rw [unsplit_cons lead hrest, firstOf_append]

/-- In a text that the runtime can invoke nothing but spaces parts words. -/
theorem split?_firstOf (hneeds : needsWrapper text = false) (hhead : text.head? ≠ some ' ') :
    ∃ arguments, split? text = some (firstOf text :: arguments) := by
  obtain ⟨hne, _, hletters⟩ := needsWrapper_eq_false_iff.mp hneeds
  have hplain : IsPlain (firstOf text) := by
    apply Invocable.isPlain_of_letters
    · intro c hc
      have hspace := List.all_eq_true.mp List.all_takeWhile c hc
      exact ⟨hletters c ((List.takeWhile_prefix _).subset hc), by simpa using hspace⟩
    · cases text with
      | nil => exact absurd rfl hne
      | cons c rest =>
        have hc : c ≠ ' ' := by simpa using hhead
        simp [firstOf, hc]
  rcases firstOf_cases text with htext | ⟨more, htext⟩
  · refine ⟨[], ?_⟩
    rw [← split?_plain hplain, ← htext]
  · have hmore : (split? more).isSome := by
      apply split?_isSome_of_no_mark
      intro c hc
      have hmem : c ∈ text := by
        rw [htext]
        exact List.mem_append_right _ (List.mem_cons_of_mem _ hc)
      exact isMark_of_needsWrapper hneeds hmem
    obtain ⟨arguments, harguments⟩ := Option.isSome_iff_exists.mp hmore
    have hsplit := split?_plain_append hplain (by decide : isGap ' ' = true) more
    rw [← htext, harguments] at hsplit
    exact ⟨arguments, hsplit⟩

theorem isAbsolute_firstOf (h : Path.isAbsolute text = false) :
    Path.isAbsolute (firstOf text) = false := by
  rw [Path.isAbsolute_of] at h ⊢
  cases text with
  | nil => rfl
  | cons c rest =>
    by_cases hc : c = ' '
    · simp [firstOf, hc]
    · simpa [firstOf, hc] using h

theorem IsWord.ne_nil {w : Text} (h : IsWord w) : w ≠ [] := by
  rcases h with hplain | ⟨mark, inner, _, _, rfl⟩
  · exact hplain.1
  · exact List.cons_ne_nil _ _

theorem firstOf_eq_self (h : ' ' ∉ text) : firstOf text = text := by
  rcases firstOf_cases text with htext | ⟨more, htext⟩
  · exact htext.symm
  · refine absurd ?_ h
    rw [htext]
    exact List.mem_append_right _ List.mem_cons_self

/-- The end of a word has spaces only where it has the mark that closes a quotation. -/
theorem space_not_mem_of_suffix {w : Text} (hw : IsWord w) (hsuffix : text <:+ w) (hne : text ≠ [])
    (hmarks : ∀ c ∈ text, isMark c = false) : ' ' ∉ text := by
  rcases hw with ⟨_, hgaps, _⟩ | ⟨mark, inner, hmark, _, rfl⟩
  · intro hspace
    have hgap := hgaps ' ' (hsuffix.subset hspace)
    cases hgap
  · obtain ⟨front, hwhole⟩ := hsuffix
    have hlast := congrArg List.getLast? hwhole
    rw [List.getLast?_append, Option.or_of_isSome (List.getLast?_isSome.mpr hne),
      List.getLast?_concat] at hlast
    have hopen := hmarks mark (List.mem_of_getLast? hlast)
    rw [hmark] at hopen
    cases hopen

end Words

/-- The path that a word is taken for if it is not searched for, or nowhere to be found. -/
def Referent.written? (word : Text) : Referent → Option Text
  | .literal path => some path
  | .missing => some word
  | .searched _ _ => none

theorem Stage.suffix_of_written {s : Stage} {files : FileTree} {word path : Text}
    (h : (s.resolve files word).written? word = some path) :
    path <:+ word ∧ (s.resolve files word).path?.getD word = path := by
  cases hresolve : s.resolve files word with
  | literal found =>
    rw [hresolve] at h
    cases h
    refine ⟨?_, rfl⟩
    rw [RuntimeForm.eq_relative_of_literal hresolve]
    exact (Text.dropStart_suffix _ _).trans (Text.dropStart_suffix _ _)
  | missing =>
    rw [hresolve] at h
    cases h
    exact ⟨List.suffix_rfl, rfl⟩
  | searched found m =>
    rw [hresolve] at h
    cases h

theorem Stage.climbs_of_searched {s : Stage} {files : FileTree} {word : Text}
    (hgrounded : s.IsGrounded) (hclimbs : Path.climbs word = false)
    (h : (s.resolve files word).written? word = none)
    (hrelative : Path.isAbsolute ((s.resolve files word).path?.getD word) = false) :
    Path.climbs ((s.resolve files word).path?.getD word) = false := by
  cases hresolve : s.resolve files word with
  | literal found =>
    rw [hresolve] at h
    cases h
  | missing =>
    rw [hresolve] at h
    cases h
  | searched found m =>
    rw [hresolve] at hrelative
    exact climbs_of_resolve hgrounded hclimbs (by rw [hresolve]; rfl) hrelative

namespace RuntimeForm

variable {s : Stage} {files : FileTree} {declared word path : Text}
  {arguments directive : List Text}

/-- The word that decides what the form of a command begins with: the interpreter of a script, or
else the command's own first word. -/
def leading (word : Text) (directive : List Text) : Text :=
  (dropLauncher directive).head?.getD word

theorem dropLauncher_eq_nil (h : dropLauncher directive = []) : directive = [] := by
  unfold dropLauncher at h
  split at h
  · split at h <;> cases h
  · exact h

theorem isWord_leading (h : Rewrites s files declared word arguments directive path) :
    Words.IsWord (leading word directive) := by
  cases hdirective : dropLauncher directive with
  | nil =>
    have hleading : leading word directive = word := by simp [leading, hdirective]
    rw [hleading]
    exact Words.isWord_of_mem_split? h.words List.mem_cons_self
  | cons interpreter others =>
    have hleading : leading word directive = interpreter := by simp [leading, hdirective]
    have hmem : interpreter ∈ dropLauncher directive := by simp [hdirective]
    rw [hleading]
    exact isWord_of_directive h.directive (mem_of_mem_dropLauncher hmem)

/-- The form begins with what the leading word leads to, or with that word if it leads nowhere or is
the launcher. -/
theorem rewritten_eq_cons (h : Rewrites s files declared word arguments directive path) :
    ∃ lead rest, rewritten s files word arguments directive path = lead :: rest ∧
      (lead = launcher ∨
        lead = (s.resolve files (leading word directive)).path?.getD (leading word directive)) := by
  cases hdirective : dropLauncher directive with
  | nil =>
    obtain rfl := dropLauncher_eq_nil hdirective
    refine ⟨path, arguments, rfl, .inr ?_⟩
    have hleads : (s.resolve files (leading word [])).path? = some path := h.leads
    rw [hleads]
    rfl
  | cons interpreter others =>
    have hleading : leading word directive = interpreter := by simp [leading, hdirective]
    rw [hleading]
    simp only [rewritten, front, hdirective]
    split
    · rename_i hlauncher
      exact ⟨interpreter, _, rfl, .inl hlauncher⟩
    · split
      · rename_i hmissing
        exact ⟨interpreter, _, rfl, .inr (by rw [hmissing]; rfl)⟩
      · rename_i found hfound
        exact ⟨found, _, rfl, .inr (by rw [hfound]; rfl)⟩
      · rename_i found m hfound
        exact ⟨found, _, rfl, .inr (by rw [hfound]; rfl)⟩

/-- The launcher is absolute, so a relative form begins with what its leading word leads to. -/
theorem lead_of_relative {text : Text} (h : Rewrites s files declared word arguments directive path)
    (htext : text = Words.unsplit (rewritten s files word arguments directive path))
    (hrelative : Path.isAbsolute text = false) :
    ∃ rest, text = Words.unsplit
      ((s.resolve files (leading word directive)).path?.getD (leading word directive) :: rest) := by
  obtain ⟨lead, rest, hwords, hlead⟩ := rewritten_eq_cons h
  rw [hwords] at htext
  rcases hlead with rfl | rfl
  · rw [htext, isAbsolute_unsplit (by decide)] at hrelative
    cases hrelative
  · exact ⟨rest, htext⟩

end RuntimeForm

namespace EntryPoint
open RuntimeForm (Rewrites leading rewritten runtimeText? runtimeText?_eq_some_iff)

variable {e settled : EntryPoint} {p : Policy} {s : Stage} {files : FileTree} {c : Call}
  {text word : Text}

/-- The word that decides what the settled command begins with. -/
def Leads (e : EntryPoint) (c : Call) (named : Text) : Prop :=
  if c.policy.adapts then
    ∃ word arguments directive path,
      Rewrites c.stage c.files e.command word arguments directive path ∧
        named = leading word directive
  else ∃ arguments, Words.split? e.command = some (named :: arguments)

def Call.written? (c : Call) (named : Text) : Option Text :=
  if c.policy.adapts then (c.stage.resolve c.files named).written? named else some named

/-- What holds of the first word of a command that settled without a wrapper, and of the word that
led it. -/
structure DirectWord (e : EntryPoint) (c : Call) (text word named : Text) : Prop where
  first : ∃ arguments, Words.split? text = some (word :: arguments)
  leads : e.Leads c named
  runs : c.files.isExecutable (Path.join c.stage.root word) = true
  relative : text.head? ≠ some ' ' → Path.isAbsolute word = false
  written (path : Text) : text.head? ≠ some ' ' → c.written? named = some path → word = path
  searched : text.head? ≠ some ' ' → c.written? named = none → c.stage.IsGrounded →
    Path.climbs named = false → Path.isInward word = true
  under : c.files.LinkFree → Path.isInward word = true →
    ∃ place, c.files.locate (Path.join c.stage.root word) = .ok place ∧
      place.IsUnder (Path.location c.stage.root)

theorem settling_fresh (h : Settling e p s files (.ok text) settled)
    (hnone : settled.wrapped? = none) : e.wrapped? = none := by
  cases h with
  | kept _ => exact hnone
  | adapted hfresh _ _ _ _ => exact hfresh
  | verbatim hfresh _ _ => exact hfresh

theorem settling_verbatim (h : Settling e p s files (.ok text) settled)
    (hnone : settled.wrapped? = none) (hadapts : p.adapts = false) : text = e.command := by
  have hcommand := settling_command h
  cases h with
  | kept _ => rfl
  | adapted _ hadapts' _ _ _ =>
    rw [hadapts] at hadapts'
    cases hadapts'
  | verbatim _ _ hconcluding =>
    obtain ⟨rfl, _⟩ := concluding_unwrapped hconcluding hnone
    exact hcommand.symm

theorem isUnder_of_isInward (hlinks : files.LinkFree)
    (hruns : files.isExecutable (Path.join s.root word) = true) (hne : word ≠ [])
    (hinward : Path.isInward word = true) :
    ∃ place, files.locate (Path.join s.root word) = .ok place ∧
      place.IsUnder (Path.location s.root) := by
  obtain ⟨name, hlast⟩ := FileTree.last_step_of_isExecutable hruns
  rw [Path.last_step_join s.root (Path.isInward_iff.mp hinward).1 (mt Path.of_eq_nil_iff.mp hne)]
    at hlast
  obtain ⟨place, f, hdestination, hfile, _⟩ := FileTree.isExecutable_iff.mp hruns
  have hplace := FileTree.destination_of_linkFree hlinks hdestination
  refine ⟨place, FileTree.locate_eq_ok_iff.mpr ⟨hdestination, by simp [hfile]⟩, ?_⟩
  rw [hplace]
  exact Path.isUnder_of_isInward hinward hlast

theorem isInward_firstOf {lead : Text} (hclimbs : Path.climbs lead = false)
    (hrelative : Path.isAbsolute (Words.firstOf lead) = false) (hne : Words.firstOf lead ≠ [])
    (hruns : files.isExecutable (Path.join s.root (Words.firstOf lead)) = true) :
    Path.isInward (Words.firstOf lead) = true := by
  obtain ⟨name, hlast⟩ := FileTree.last_step_of_isExecutable hruns
  rw [Path.last_step_join s.root hrelative (mt Path.of_eq_nil_iff.mp hne)] at hlast
  refine Path.isInward_of_not_climbs hrelative ?_
  rcases Words.firstOf_cases lead with hlead | ⟨more, hlead⟩
  · rwa [← hlead]
  · rw [hlead, Path.of_append] at hclimbs
    exact Path.climbs_of_append hlast hclimbs

theorem firstOf_of_split? (hneeds : needsWrapper text = false) (hhead : text.head? ≠ some ' ')
    {arguments : List Text} (hwords : Words.split? text = some (word :: arguments)) :
    word = Words.firstOf text ∧ Path.isAbsolute word = false := by
  obtain ⟨_, hrelative, _⟩ := needsWrapper_eq_false_iff.mp hneeds
  obtain ⟨others, hothers⟩ := Words.split?_firstOf hneeds hhead
  obtain ⟨rfl, _⟩ : word = Words.firstOf text ∧ arguments = others := by
    simpa [hwords] using hothers
  exact ⟨rfl, Words.isAbsolute_firstOf hrelative⟩

theorem isAbsolute_of_form {declared : Text} (hrelative : Path.isAbsolute text = false)
    (htext : runtimeText? s files declared = some text) : Path.isAbsolute declared = false := by
  cases habsolute : Path.isAbsolute declared with
  | false => rfl
  | true =>
    have hsame : runtimeText? s files declared = some declared := by
      simp [runtimeText?, RuntimeForm.ofDeclared, habsolute, Except.toOption]
    obtain rfl : declared = text := Option.some.inj (hsame.symm.trans htext)
    rw [habsolute] at hrelative
    cases hrelative

theorem firstOf_eq_lead {named lead : Text} {rest : List Text} (hnamed : Words.IsWord named)
    (hsuffix : lead <:+ named) (hne : lead ≠ []) (htext : text = Words.unsplit (lead :: rest))
    (hneeds : needsWrapper text = false) : Words.firstOf text = lead := by
  have hmarks : ∀ c ∈ lead, Words.isMark c = false := by
    intro c hc
    have hmem : c ∈ text := by
      rw [htext]
      exact (Words.unsplit_prefix lead rest).subset hc
    exact isMark_of_needsWrapper hneeds hmem
  rw [htext, Words.firstOf_unsplit]
  exact Words.firstOf_eq_self (Words.space_not_mem_of_suffix hnamed hsuffix hne hmarks)

section Form

variable {declared word path : Text} {arguments directive : List Text}
  (h : Rewrites s files declared word arguments directive path)
  (htext : text = Words.unsplit (rewritten s files word arguments directive path))
  (hneeds : needsWrapper text = false) (hhead : text.head? ≠ some ' ')
include h htext hneeds hhead

/-- A form that can be invoked, and does not begin with a space, begins with the relative path that
its leading word is taken for. -/
theorem lead_of_form : ∃ lead rest, text = Words.unsplit (lead :: rest) ∧ lead ≠ [] ∧
    Path.isAbsolute lead = false ∧
      lead = (s.resolve files (leading word directive)).path?.getD (leading word directive) := by
  obtain ⟨hne, hrelative, _⟩ := needsWrapper_eq_false_iff.mp hneeds
  obtain ⟨rest, hlead⟩ := RuntimeForm.lead_of_relative h htext hrelative
  have hsome : (s.resolve files (leading word directive)).path?.getD (leading word directive) ≠
      [] := by
    intro hempty
    rw [hempty] at hlead
    by_cases hrest : rest = []
    · subst hrest
      exact hne hlead
    · rw [hlead, Words.unsplit_cons [] hrest] at hhead
      exact hhead rfl
  rw [hlead, RuntimeForm.isAbsolute_unsplit hsome] at hrelative
  exact ⟨_, rest, hlead, hsome, hrelative, rfl⟩

theorem firstOf_eq_written {found : Text}
    (hfound : (s.resolve files (leading word directive)).written? (leading word directive) =
      some found) : Words.firstOf text = found := by
  obtain ⟨hsuffix, hpath⟩ := Stage.suffix_of_written hfound
  obtain ⟨lead, rest, hlead, hsome, _, hpath'⟩ := lead_of_form h htext hneeds hhead
  obtain rfl : lead = found := hpath'.trans hpath
  exact firstOf_eq_lead (RuntimeForm.isWord_leading h) hsuffix hsome hlead hneeds

theorem isInward_of_searched (hgrounded : s.IsGrounded)
    (hclimbs : Path.climbs (leading word directive) = false)
    (hsearched : (s.resolve files (leading word directive)).written? (leading word directive) =
      none) (hne : Words.firstOf text ≠ [])
    (hruns : files.isExecutable (Path.join s.root (Words.firstOf text)) = true) :
    Path.isInward (Words.firstOf text) = true := by
  obtain ⟨lead, rest, hlead, _, hrelative, rfl⟩ := lead_of_form h htext hneeds hhead
  have hplain := Stage.climbs_of_searched hgrounded hclimbs hsearched hrelative
  rw [hlead, Words.firstOf_unsplit] at hne hruns ⊢
  exact isInward_firstOf hplain (Words.isAbsolute_firstOf hrelative) hne hruns

end Form

/-- What settles without a wrapper begins with a word that leads to an executable file from the
staged root. Unless a space stands before it, that word is the path that the declared word or the
interpreter spells, or was found by a search, and then it stays in the root if what was looked for
does not climb. -/
theorem directWord_of_answer (h : e.answer c = .ok text) (hnone : (e.after c).wrapped? = none) :
    ∃ word named, DirectWord e c text word named := by
  have hsettling := settling_of_answer h
  have hcommand : (e.after c).command = text := settling_command hsettling
  obtain ⟨hneeds, hruns⟩ := settling_unwrapped hsettling hnone
  obtain ⟨word, arguments, hwords, hexecutable⟩ := checkRunnable_ok hruns
  have hwords : Words.split? text = some (word :: arguments) := hcommand ▸ hwords
  have hneeds : needsWrapper text = false := hcommand ▸ hneeds
  have hne : word ≠ [] := (Words.isWord_of_mem_split? hwords List.mem_cons_self).ne_nil
  have hfirst (hhead : text.head? ≠ some ' ') := firstOf_of_split? hneeds hhead hwords
  have hunder (hlinks : c.files.LinkFree) (hinward : Path.isInward word = true) :=
    isUnder_of_isInward hlinks hexecutable hne hinward
  cases hadapts : c.policy.adapts with
  | false =>
    -- The command stands as it was declared: its own word leads it, and nothing was searched for.
    obtain rfl := settling_verbatim hsettling hnone hadapts
    have hleads : e.Leads c word := by
      rw [Leads, hadapts]
      exact ⟨arguments, hwords⟩
    refine ⟨word, word, ⟨arguments, hwords⟩, hleads, hexecutable, fun hhead => (hfirst hhead).2, ?_,
      ?_, hunder⟩
    · intro path _ hpath
      rw [Call.written?, hadapts] at hpath
      exact Option.some.inj hpath
    · intro _ hsearched
      rw [Call.written?, hadapts] at hsearched
      cases hsearched
  | true =>
    have hform := settling_form hsettling (settling_fresh hsettling hnone) hadapts hnone
    obtain ⟨_, hrelative, _⟩ := needsWrapper_eq_false_iff.mp hneeds
    obtain ⟨first, others, directive, path, hrewrites, htext⟩ :=
      (runtimeText?_eq_some_iff (isAbsolute_of_form hrelative hform)).mp hform
    have hleads : e.Leads c (leading first directive) := by
      rw [Leads, hadapts]
      exact ⟨first, others, directive, path, hrewrites, rfl⟩
    refine ⟨word, leading first directive, ⟨arguments, hwords⟩, hleads, hexecutable,
      fun hhead => (hfirst hhead).2, ?_, ?_, hunder⟩
    · intro found hhead hfound
      rw [Call.written?, hadapts] at hfound
      rw [(hfirst hhead).1]
      exact firstOf_eq_written hrewrites htext hneeds hhead hfound
    · intro hhead hsearched hgrounded hclimbs
      rw [Call.written?, hadapts] at hsearched
      rw [(hfirst hhead).1] at hne hexecutable ⊢
      exact isInward_of_searched hrewrites htext hneeds hhead hgrounded hclimbs hsearched hne
        hexecutable

def toolTree : FileTree :=
  ((FileTree.bareTree.put [Text.of "stage"] (Text.of "bin") .directory).put
    [Text.of "stage", Text.of "bin"] (Text.of "tool") (.file ⟨[], 0o755⟩)).put []
      (Text.of "other") (.file ⟨[], 0o755⟩)

def toolCall (a : Adapter) : Call :=
  ⟨a.policy, ({} : Settings).stage toolTree (Text.of "/stage") (.named .empty), toolTree⟩

def toolEntry (command : Text) : EntryPoint := declare (Text.of "app") (Text.of "command") command

theorem linkFree_toolTree : toolTree.LinkFree := by
  have hdirectory : ∀ target, Node.directory ≠ .link target := by
    intro target hlink
    cases hlink
  have hfile : ∀ target, Node.file ⟨[], 0o755⟩ ≠ .link target := by
    intro target hlink
    cases hlink
  unfold toolTree
  refine FileTree.linkFree_put (FileTree.linkFree_put (FileTree.linkFree_put
    FileTree.linkFree_bareTree ?_ hdirectory) ?_ hfile) ?_ hfile
  all_goals decide

theorem isGrounded_toolCall (a : Adapter) : (toolCall a).stage.IsGrounded := by
  refine Settings.isGrounded_stage (by decide) (by decide) ?_
  intro name path hpath
  cases hpath

theorem tool_stays_under_root :
    (toolEntry (Text.of "tool --serve")).answer (toolCall .legacy) =
        .ok (Text.of "bin/tool --serve") ∧
      ((toolEntry (Text.of "tool --serve")).after (toolCall .legacy)).wrapped? = none ∧
      ∃ word place, toolTree.locate (Path.join (toolCall .legacy).stage.root word) = .ok place ∧
        place.IsUnder (Path.location (toolCall .legacy).stage.root) := by
  have hanswer : (toolEntry (Text.of "tool --serve")).answer (toolCall .legacy) =
      .ok (Text.of "bin/tool --serve") := by rfl
  obtain ⟨word, named, hword⟩ := directWord_of_answer hanswer (by rfl)
  obtain ⟨first, arguments, directive, path, hrewrites, rfl⟩ := hword.leads
  have hwords := hrewrites.words
  have hdirective := hrewrites.directive
  cases hwords
  cases hdirective
  have hinward : Path.isInward word = true :=
    hword.searched (by decide) (by rfl) (isGrounded_toolCall .legacy) (by decide)
  exact ⟨hanswer, by rfl, word, hword.under linkFree_toolTree hinward⟩

/-- Under valid settings a command that climbs settles without a wrapper, whichever its adapter, and
so does one whose first word is absolute behind a space. Both lead to a file beside the root. -/
theorem tool_beside_root_settles :
    ({} : Settings).fault? = none ∧
      (∀ a, (toolEntry (Text.of "../other")).answer (toolCall a) = .ok (Text.of "../other") ∧
        ((toolEntry (Text.of "../other")).after (toolCall a)).wrapped? = none) ∧
      Words.split? (Text.of "../other") = some [Text.of "../other"] ∧
      Path.isInward (Text.of "../other") = false ∧
      (toolEntry (Text.of " /other")).answer (toolCall .verbatim) = .ok (Text.of " /other") ∧
      ((toolEntry (Text.of " /other")).after (toolCall .verbatim)).wrapped? = none ∧
      Words.split? (Text.of " /other") = some [Text.of "/other"] ∧
      Path.isAbsolute (Text.of "/other") = true ∧
      toolTree.locate (Text.of "/stage/../other") = .ok [Text.of "other"] ∧
      ¬ Location.IsUnder [Text.of "other"] (Path.location (Text.of "/stage")) := by
  refine ⟨by decide, ?_, by rfl, by rfl, by rfl, by rfl, by rfl, by rfl, by rfl, ?_⟩
  · intro a
    cases a <;> exact ⟨by rfl, by rfl⟩
  · rintro ⟨hbegins, _⟩
    revert hbegins
    decide

end EntryPoint
end EntryPoints
