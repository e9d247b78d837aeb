import EntryPoints.Proofs.FailedSettlements

/-!
Words of a text that the runtime can invoke. Of all characters that part words or open a quotation
its alphabet has the space only, so its words are the stretches between spaces, the empty ones left
out, and no quotation in it can stay open (`splitsAtSpaces_of_direct`).
-/
namespace EntryPoints

namespace Words

variable {t first : Text} {others : List Text}

def spaced (t : Text) : List Text := (Text.cut ' ' t).filter (· ≠ [])

/-- In a plain word the first stretch goes on with it; in a gap it is a word itself, or nothing. -/
theorem scan_of_letters (hletters : ∀ c ∈ t, Invocable.isLetter c = true)
    (hcut : Text.cut ' ' t = first :: others) :
    scan .plain t = some (first :: others.filter (· ≠ [])) ∧ scan .gap t = some (spaced t) := by
  rw [spaced, hcut]
  induction t generalizing first others with
  | nil =>
    cases hcut
    exact ⟨rfl, rfl⟩
  | cons c t ih =>
    obtain ⟨hc, hletters⟩ := List.forall_mem_cons.mp hletters
    obtain ⟨stretch, stretches, ht⟩ := List.exists_cons_of_ne_nil (Text.cut_ne_nil ' ' t)
    obtain ⟨hplain, hgap⟩ := ih hletters ht
    by_cases hspace : c = ' '
    · -- The space ends a word that is open, and the next stretch begins behind it.
      have hsep : isGap c = true := by simp [isGap, hspace]
      obtain ⟨rfl, rfl⟩ : [] = first ∧ stretch :: stretches = others := by
        simpa [Text.cut, hspace, ht] using hcut
      simp [hsep, hgap]
    · have hinert : ¬ (isGap c = true ∨ isMark c = true) := fun hparts =>
        hspace (Invocable.eq_space_of_isLetter hc hparts)
      obtain ⟨hsep, hmark⟩ : isGap c = false ∧ isMark c = false := by simpa using hinert
      obtain ⟨rfl, rfl⟩ : c :: stretch = first ∧ stretches = others := by
        simpa [Text.cut, hspace, ht] using hcut
      simp [hsep, hmark, State.opening, hplain, push]

theorem split?_of_letters (hletters : ∀ c ∈ t, Invocable.isLetter c = true) :
    split? t = some (spaced t) := by
  obtain ⟨first, others, hcut⟩ := List.exists_cons_of_ne_nil (Text.cut_ne_nil ' ' t)
  exact (scan_of_letters hletters hcut).2

theorem mem_of_mem_spaced {w : Text} (hw : w ∈ spaced t) {c : Char} (hc : c ∈ w) :
    c ∈ t ∧ c ≠ ' ' := by
  have hcut : w ∈ Text.cut ' ' t := List.mem_of_mem_filter hw
  have hspace : c ≠ ' ' := by
    rintro rfl
    exact Text.not_mem_of_mem_cut hcut hc
  exact ⟨(Text.mem_cut hspace t).mp ⟨w, hcut, hc⟩, hspace⟩

theorem spaced_eq_nil_iff : spaced t = [] ↔ ∀ c ∈ t, c = ' ' := by
  constructor
  · intro hnone c hc
    apply Classical.byContradiction
    intro hspace
    obtain ⟨w, hw, hcw⟩ := (Text.mem_cut hspace t).mpr hc
    have hmem : w ∈ spaced t :=
      List.mem_filter.mpr ⟨hw, by simpa using List.ne_nil_of_mem hcw⟩
    rw [hnone] at hmem
    exact List.not_mem_nil hmem
  · intro hspaces
    apply List.eq_nil_iff_forall_not_mem.mpr
    intro w hw
    have hne : w ≠ [] := by simpa using (List.mem_filter.mp hw).2
    obtain ⟨c, rest, rfl⟩ := List.exists_cons_of_ne_nil hne
    obtain ⟨hc, hspace⟩ := mem_of_mem_spaced hw List.mem_cons_self
    exact hspace (hspaces c hc)

end Words

open Words (spaced)

variable {t : Text}

/-- What a text is that splits at its spaces, and what that means for settling. -/
structure SplitsAtSpaces (t : Text) : Prop where
  words : Words.split t = .ok (spaced t)
  unmarked : ∀ w ∈ spaced t, ∀ c ∈ w, Words.isMark c = false
  nil_iff : spaced t = [] ↔ ∀ c ∈ t, c = ' '
  /-- The check of a command with this text finds every quotation in it closed. -/
  checked : ∀ (e : EntryPoint) (s : Stage) (files : FileTree) (u : Text), e.command = t →
    e.checkRunnable s files ≠ .error (.unbalancedQuotes u)
  settled : ∀ (e : EntryPoint) (p : Policy) (s : Stage) (files : FileTree) (u : Text),
    e.decidedText? p s files = some t →
      (e.settle p s files).outcome ≠ .error (.unbalancedQuotes u)

/-- A text that needs no wrapper is split at its spaces and nowhere else. It has no quotation, so it
is never refused for one when a command is decided on with it. -/
theorem splitsAtSpaces_of_direct (hdirect : needsWrapper t = false) : SplitsAtSpaces t where
  words := by
    obtain ⟨_, _, hletters⟩ := needsWrapper_eq_false_iff.mp hdirect
    exact Words.split_eq_ok_iff.mpr (Words.split?_of_letters hletters)
  unmarked := by
    intro w hw c hc
    obtain ⟨hmem, _⟩ := Words.mem_of_mem_spaced hw hc
    exact isMark_of_needsWrapper hdirect hmem
  nil_iff := Words.spaced_eq_nil_iff
  checked := by
    rintro e s files u rfl
    by_cases hinvokes : s.Invokes files e.command
    · simp [EntryPoint.checkRunnable_of_invokes hinvokes]
    · simp [EntryPoint.checkRunnable_of_not_invokes hdirect hinvokes]
  settled := by
    intro e p s files u hdecided hrefused
    cases hfresh : e.wrapped? with
    | none => cases (EntryPoint.outcome_error_iff_of_decided hfresh hdecided _).mp hrefused
    | some wrapped =>
      simp [EntryPoint.settle, hfresh] at hrefused

/-- Spaces at both ends and side by side. -/
theorem spacedTool_splitsAtSpaces :
    needsWrapper (Text.of "  bin/tool  --serve ") = false ∧
      SplitsAtSpaces (Text.of "  bin/tool  --serve ") ∧
      Words.split (Text.of "  bin/tool  --serve ") =
        .ok [Text.of "bin/tool", Text.of "--serve"] := by
  have hdirect : needsWrapper (Text.of "  bin/tool  --serve ") = false := by decide
  have hsplits := splitsAtSpaces_of_direct hdirect
  exact ⟨hdirect, hsplits, hsplits.words⟩

end EntryPoints
