import EntryPoints.Words
import Mathlib.Data.List.Chain

/-!
Layouts of a text: its words in order, each with the gaps behind it, and the gaps in front of all. A
plain word goes on to the next gap, so the word behind it needs a gap between; a quotation ends with
its mark and needs none. A text splits into words exactly if it has a layout, and it has no second
one (`splits_by_layout`).
-/
namespace EntryPoints.Words

/-- The gaps in front, then each word with the gaps behind it. -/
structure Layout where
  lead : Text
  parts : List (Text × Text)
  deriving DecidableEq, Repr

namespace Layout

def text (l : Layout) : Text := l.lead ++ l.parts.flatMap fun part => part.1 ++ part.2

def words (l : Layout) : List Text := l.parts.map Prod.fst

structure IsSound (l : Layout) : Prop where
  lead : ∀ c ∈ l.lead, isGap c = true
  words : ∀ part ∈ l.parts, IsWord part.1
  gaps : ∀ part ∈ l.parts, ∀ c ∈ part.2, isGap c = true
  /-- Only the last word may be plain and have no gap behind it. -/
  apart : l.parts.IsChain fun part _ => IsPlain part.1 → part.2 ≠ []

variable {lead w gaps : Text} {parts : List (Text × Text)} {l l' : Layout}

theorem text_cons :
    text ⟨lead, (w, gaps) :: parts⟩ = lead ++ (w ++ text ⟨gaps, parts⟩) := by
  simp [text]

theorem words_cons : words ⟨lead, (w, gaps) :: parts⟩ = w :: words ⟨gaps, parts⟩ := rfl

theorem isSound_nil_iff : IsSound ⟨lead, []⟩ ↔ ∀ c ∈ lead, isGap c = true := by
  constructor
  · exact IsSound.lead
  · intro h
    exact ⟨h, by simp, by simp, .nil⟩

theorem IsSound.cons_gap {c : Char} (hc : isGap c = true) (h : IsSound ⟨lead, parts⟩) :
    IsSound ⟨c :: lead, parts⟩ :=
  ⟨List.forall_mem_cons.mpr ⟨hc, h.lead⟩, h.words, h.gaps, h.apart⟩

theorem isSound_cons_iff :
    IsSound ⟨lead, (w, gaps) :: parts⟩ ↔ (∀ c ∈ lead, isGap c = true) ∧ IsWord w ∧
      (IsPlain w → gaps = [] → parts = []) ∧ IsSound ⟨gaps, parts⟩ := by
  have hapart : (∀ next ∈ parts.head?, IsPlain w → gaps ≠ []) ↔
      (IsPlain w → gaps = [] → parts = []) := by
    cases parts <;> simp
  constructor
  · rintro ⟨hlead, hwords, hgaps, hchain⟩
    obtain ⟨hw, hwords⟩ := List.forall_mem_cons.mp hwords
    obtain ⟨hgap, hgaps⟩ := List.forall_mem_cons.mp hgaps
    obtain ⟨hfirst, hchain⟩ := List.isChain_cons.mp hchain
    exact ⟨hlead, hw, hapart.mp hfirst, hgap, hwords, hgaps, hchain⟩
  · rintro ⟨hlead, hw, hfirst, hgap, hwords, hgaps, hchain⟩
    exact ⟨hlead, List.forall_mem_cons.mpr ⟨hw, hwords⟩, List.forall_mem_cons.mpr ⟨hgap, hgaps⟩,
      List.isChain_cons.mpr ⟨hapart.mpr hfirst, hchain⟩⟩

end Layout

theorem split?_gaps_append {gaps : Text} (h : ∀ c ∈ gaps, isGap c = true) (rest : Text) :
    split? (gaps ++ rest) = split? rest := by
  induction gaps with
  | nil => rfl
  | cons g gaps ih =>
    obtain ⟨hg, hgaps⟩ := List.forall_mem_cons.mp h
    rw [List.cons_append, split?_cons_gap hg, ih hgaps]

theorem split?_text {l : Layout} (h : l.IsSound) : split? l.text = some l.words := by
  obtain ⟨lead, parts⟩ := l
  induction parts generalizing lead with
  | nil =>
    rw [Layout.text, split?_gaps_append h.lead]
    rfl
  | cons part parts ih =>
    obtain ⟨w, gaps⟩ := part
    obtain ⟨hlead, hw, hapart, hrest⟩ := Layout.isSound_cons_iff.mp h
    have hwords := ih gaps hrest
    rw [Layout.text_cons, split?_gaps_append hlead, Layout.words_cons]
    rcases hw with hplain | hquotation
    · cases gaps with
      | nil =>
        obtain rfl := hapart hplain rfl
        rw [Layout.text, List.flatMap_nil, List.append_nil, List.append_nil, split?_plain hplain]
        rfl
      | cons g gaps =>
        have hg : isGap g = true := hrest.lead g List.mem_cons_self
        have htext : Layout.text ⟨g :: gaps, parts⟩ = g :: Layout.text ⟨gaps, parts⟩ := rfl
        rw [htext, split?_cons_gap hg] at hwords
        rw [htext, split?_plain_append hplain hg, hwords]
        rfl
    · rw [split?_quotation_append hquotation, hwords]
      rfl

/-- What a text and its words from here on have to be for a layout of the whole, by the word that is
open: a layout of the rest stands behind what is left of that word. -/
def Completes : State → Text → List Text → Prop
  | .gap, t, ws => ∃ l : Layout, l.IsSound ∧ l.text = t ∧ l.words = ws
  | .plain, t, ws => ∃ (w : Text) (l : Layout), (∀ c ∈ w, isGap c = false) ∧ l.IsSound ∧
      (l.lead = [] → l.parts = []) ∧ w ++ l.text = t ∧ w :: l.words = ws
  | .quotation mark, t, ws => ∃ (inner : Text) (l : Layout), mark ∉ inner ∧ l.IsSound ∧
      inner ++ mark :: l.text = t ∧ (inner ++ [mark]) :: l.words = ws

theorem not_isPlain_of_isMark {mark : Char} (h : isMark mark = true) (w : Text) :
    ¬ IsPlain (mark :: w) := by
  intro hplain
  have hplainMark := hplain.2.2 mark rfl
  rw [h] at hplainMark
  cases hplainMark

theorem completes_opening {c : Char} (hc : isGap c = false) {t : Text} {ws : List Text}
    (h : Completes (State.opening c) t ws) : Completes .gap (c :: t) (push c ws) := by
  by_cases hmark : isMark c = true
  · simp only [State.opening, hmark, if_true] at h
    obtain ⟨inner, l, hinner, hsound, rfl, rfl⟩ := h
    refine ⟨⟨[], (c :: (inner ++ [c]), l.lead) :: l.parts⟩, ?_, ?_, rfl⟩
    · rw [Layout.isSound_cons_iff]
      exact ⟨by simp, .inr ⟨c, inner, hmark, hinner, rfl⟩,
        fun hplain => absurd hplain (not_isPlain_of_isMark hmark _), hsound⟩
    · simp [Layout.text_cons]
  · simp only [State.opening, hmark] at h
    obtain ⟨w, l, hw, hsound, hlast, rfl, rfl⟩ := h
    have hplain : IsPlain (c :: w) := by
      refine ⟨List.cons_ne_nil c w, List.forall_mem_cons.mpr ⟨hc, hw⟩, ?_⟩
      intro d hd
      cases hd
      simpa using hmark
    refine ⟨⟨[], (c :: w, l.lead) :: l.parts⟩, ?_, ?_, rfl⟩
    · rw [Layout.isSound_cons_iff]
      exact ⟨by simp, .inl hplain, fun _ => hlast, hsound⟩
    · simp [Layout.text_cons]

theorem completes_of_scan {s : State} {t : Text} {ws : List Text} (h : scan s t = some ws) :
    Completes s t ws := by
  have hnone : Layout.IsSound ⟨[], []⟩ := Layout.isSound_nil_iff.mpr (by simp)
  induction t generalizing s ws with
  | nil =>
    cases s with
    | gap =>
      cases h
      exact ⟨⟨[], []⟩, hnone, rfl, rfl⟩
    | plain =>
      cases h
      exact ⟨[], ⟨[], []⟩, by simp, hnone, fun _ => rfl, rfl, rfl⟩
    | quotation mark => cases h
  | cons c t ih =>
    cases s with
    | gap =>
      by_cases hc : isGap c = true
      · simp only [scan, hc, if_true] at h
        obtain ⟨⟨lead, parts⟩, hsound, rfl, rfl⟩ := ih h
        exact ⟨⟨c :: lead, parts⟩, hsound.cons_gap hc, rfl, rfl⟩
      · simp only [scan, hc] at h
        obtain ⟨rest, hrest, rfl⟩ := Option.map_eq_some_iff.mp h
        exact completes_opening (by simpa using hc) (ih hrest)
    | plain =>
      by_cases hc : isGap c = true
      · -- The plain word ends here, and what comes next is laid out behind this gap.
        simp only [scan, hc, if_true] at h
        obtain ⟨rest, hrest, rfl⟩ := Option.map_eq_some_iff.mp h
        obtain ⟨⟨lead, parts⟩, hsound, rfl, rfl⟩ := ih hrest
        exact ⟨[], ⟨c :: lead, parts⟩, by simp, hsound.cons_gap hc, by simp, rfl, rfl⟩
      · simp only [scan, hc] at h
        obtain ⟨rest, hrest, rfl⟩ := Option.map_eq_some_iff.mp h
        obtain ⟨w, l, hw, hsound, hlast, rfl, rfl⟩ := ih hrest
        exact ⟨c :: w, l, List.forall_mem_cons.mpr ⟨by simpa using hc, hw⟩, hsound, hlast, rfl, rfl⟩
    | quotation mark =>
      by_cases hc : c = mark
      · simp only [scan, hc, if_true] at h
        obtain ⟨rest, hrest, rfl⟩ := Option.map_eq_some_iff.mp h
        obtain ⟨l, hsound, rfl, rfl⟩ := ih hrest
        exact ⟨[], l, by simp, hsound, by rw [hc]; rfl, rfl⟩
      · simp only [scan, hc, if_false] at h
        obtain ⟨rest, hrest, rfl⟩ := Option.map_eq_some_iff.mp h
        obtain ⟨inner, l, hinner, hsound, rfl, rfl⟩ := ih hrest
        exact ⟨c :: inner, l, by simp [Ne.symm hc, hinner], hsound, rfl, rfl⟩

theorem split?_eq_some_iff {t : Text} {ws : List Text} :
    split? t = some ws ↔ ∃ l : Layout, l.IsSound ∧ l.text = t ∧ l.words = ws := by
  constructor
  · exact completes_of_scan (s := .gap)
  · rintro ⟨l, hsound, rfl, rfl⟩
    exact split?_text hsound

theorem isWord_of_mem_split? {t : Text} {ws : List Text} (h : split? t = some ws) {w : Text}
    (hw : w ∈ ws) : IsWord w := by
  obtain ⟨l, hsound, _, rfl⟩ := split?_eq_some_iff.mp h
  obtain ⟨part, hpart, rfl⟩ := List.mem_map.mp hw
  exact hsound.words part hpart

theorem subset_of_mem_split? {t : Text} {ws : List Text} (h : split? t = some ws) {w : Text}
    (hw : w ∈ ws) : w ⊆ t := by
  obtain ⟨l, _, rfl, rfl⟩ := split?_eq_some_iff.mp h
  obtain ⟨part, hpart, rfl⟩ := List.mem_map.mp hw
  intro c hc
  exact List.mem_append_right _
    (List.mem_flatMap.mpr ⟨part, hpart, List.mem_append_left _ hc⟩)

theorem split?_unsplit_of_split? {t : Text} {ws : List Text} (h : split? t = some ws) :
    split? (unsplit ws) = some ws :=
  split?_unsplit fun _ hw => isWord_of_mem_split? h hw

theorem filter_gaps {gaps : Text} (h : ∀ c ∈ gaps, isGap c = true) :
    gaps.filter (!isGap ·) = [] := by
  rw [List.filter_eq_nil_iff]
  intro c hc
  simp [h c hc]

theorem filter_words {l : Layout} (h : l.IsSound) :
    l.words.flatten.filter (!isGap ·) = l.text.filter (!isGap ·) := by
  obtain ⟨lead, parts⟩ := l
  induction parts generalizing lead with
  | nil => simp [Layout.text, Layout.words, filter_gaps h.lead]
  | cons part parts ih =>
    obtain ⟨w, gaps⟩ := part
    obtain ⟨hlead, _, _, hrest⟩ := Layout.isSound_cons_iff.mp h
    rw [Layout.text_cons, Layout.words_cons, List.flatten_cons, List.filter_append,
      List.filter_append, List.filter_append, filter_gaps hlead, ih gaps hrest]
    rfl

theorem filter_of_split? {t : Text} {ws : List Text} (h : split? t = some ws) :
    ws.flatten.filter (!isGap ·) = t.filter (!isGap ·) := by
  obtain ⟨l, hsound, rfl, rfl⟩ := split?_eq_some_iff.mp h
  exact filter_words hsound

theorem count_eq_of_filter {a b : Text} {c : Char} (hc : isGap c = false)
    (h : a.filter (!isGap ·) = b.filter (!isGap ·)) : a.count c = b.count c := by
  have hkept (t : Text) : (t.filter (!isGap ·)).count c = t.count c :=
    List.count_filter (by simp [hc])
  rw [← hkept a, h, hkept b]

/-- A character that is no gap is in the words of a text as often as in the text. -/
theorem count_of_split? {t : Text} {ws : List Text} {c : Char} (h : split? t = some ws)
    (hc : isGap c = false) : ws.flatten.count c = t.count c :=
  count_eq_of_filter hc (filter_of_split? h)

theorem count_unsplit (ws : List Text) {c : Char} (hc : isGap c = false) :
    (unsplit ws).count c = ws.flatten.count c :=
  count_eq_of_filter hc (filter_unsplit ws)

theorem head?_of_isWord {w : Text} (h : IsWord w) : ∃ c, w.head? = some c ∧ isGap c = false := by
  rcases h with ⟨hne, hgaps, _⟩ | ⟨mark, inner, hmark, _, rfl⟩
  · obtain ⟨c, w, rfl⟩ := List.exists_cons_of_ne_nil hne
    exact ⟨c, rfl, hgaps c List.mem_cons_self⟩
  · exact ⟨mark, rfl, isGap_eq_false_of_isMark hmark⟩

namespace Layout

variable {l l' : Layout}

theorem lead_eq_takeWhile (h : l.IsSound) : l.lead = l.text.takeWhile isGap := by
  obtain ⟨lead, parts⟩ := l
  cases parts with
  | nil =>
    rw [text, List.flatMap_nil, List.takeWhile_append_of_pos h.lead, List.takeWhile_nil,
      List.append_nil]
  | cons part parts =>
    obtain ⟨w, gaps⟩ := part
    obtain ⟨hlead, hw, _, _⟩ := isSound_cons_iff.mp h
    obtain ⟨c, hc, hgap⟩ := head?_of_isWord hw
    obtain ⟨more, rfl⟩ := List.head?_eq_some_iff.mp hc
    rw [text_cons, List.takeWhile_append_of_pos hlead]
    simp [hgap]

theorem words_eq_of_text_eq (h : l.IsSound) (h' : l'.IsSound) (htext : l.text = l'.text) :
    l.words = l'.words := by
  have hwords := split?_text h
  rw [htext, split?_text h'] at hwords
  exact (Option.some.inj hwords).symm

theorem eq_of_text_eq (h : l.IsSound) (h' : l'.IsSound) (htext : l.text = l'.text) : l = l' := by
  obtain ⟨lead, parts⟩ := l
  obtain ⟨lead', parts'⟩ := l'
  -- The text tells the gaps in front and the words, and so what stands behind the first word.
  induction parts generalizing lead lead' parts' with
  | nil =>
    have hwords := words_eq_of_text_eq h h' htext
    obtain rfl : parts' = [] := List.map_eq_nil_iff.mp hwords.symm
    simpa [text] using htext
  | cons part parts ih =>
    obtain ⟨w, gaps⟩ := part
    have hlead : lead = lead' := by
      have hfront := lead_eq_takeWhile h
      rw [htext, ← lead_eq_takeWhile h'] at hfront
      exact hfront
    have hwords := words_eq_of_text_eq h h' htext
    cases parts' with
    | nil => cases hwords
    | cons part' parts' =>
      obtain ⟨w', gaps'⟩ := part'
      obtain ⟨rfl, _⟩ : w = w' ∧ _ := List.cons.inj hwords
      subst hlead
      obtain ⟨_, _, _, hrest⟩ := isSound_cons_iff.mp h
      obtain ⟨_, _, _, hrest'⟩ := isSound_cons_iff.mp h'
      rw [text_cons, text_cons] at htext
      have hsame := ih gaps hrest gaps' parts' hrest'
        (List.append_cancel_left (List.append_cancel_left htext))
      cases hsame
      rfl

end Layout

/-- What comes of splitting a text, told by its layouts. -/
structure SplitsByLayout (t : Text) : Prop where
  reads : ∀ ws, split t = .ok ws ↔ ∃ l : Layout, l.IsSound ∧ l.text = t ∧ l.words = ws
  unique : ∀ l l' : Layout, l.IsSound → l'.IsSound → l.text = t → l'.text = t → l = l'
  refuses : ∀ f, split t = .error f ↔
    f = .unbalancedQuotes t ∧ ¬ ∃ l : Layout, l.IsSound ∧ l.text = t

/-- A text is split into the words of its layout, of which there is one at most. Without a layout it
is refused, and the refusal tells all of it. -/
theorem splits_by_layout (t : Text) : SplitsByLayout t where
  reads := by
    intro ws
    rw [split_eq_ok_iff, split?_eq_some_iff]
  unique := by
    intro l l' h h' htext htext'
    exact Layout.eq_of_text_eq h h' (htext.trans htext'.symm)
  refuses := by
    intro f
    rw [split_eq_error_iff, and_comm]
    apply and_congr_right
    intro _
    constructor
    · rintro hnone ⟨l, hsound, rfl⟩
      rw [split?_text hsound] at hnone
      cases hnone
    · intro hlayout
      cases hsplit : split? t with
      | none => rfl
      | some ws =>
        obtain ⟨l, hsound, htext, _⟩ := split?_eq_some_iff.mp hsplit
        exact absurd ⟨l, hsound, htext⟩ hlayout

/-- Words side by side, a mark inside a word, and one that stays open. -/
example :
    split (Text.of " 'a b'c\"d e") = .ok [Text.of "'a b'", Text.of "c\"d", Text.of "e"] ∧
      split (Text.of "a 'b") = .error (.unbalancedQuotes (Text.of "a 'b")) := by
  decide

end EntryPoints.Words
