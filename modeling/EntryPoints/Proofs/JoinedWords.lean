import EntryPoints.Proofs.WordLayouts

/-!
Words of texts that are joined by a gap. A text that splits leaves no quotation open, so the gap
ends its last word, and the text after the gap splits as if it stood alone (`split?_append_gap`).
Hence words that came of a split and are joined again do not run into one another
(`composes_of_split`).
-/
namespace EntryPoints.Words

variable {a : Text} {ws : List Text} {g : Char}

theorem split?_text_append {l : Layout} (h : l.IsSound) (hg : isGap g = true) (rest : Text) :
    split? (l.text ++ g :: rest) = (split? rest).map (l.words ++ ·) := by
  obtain ⟨lead, parts⟩ := l
  -- Induction on the words. What follows a plain one begins with its own gaps or else, behind the
  -- last word, with the gap of the joint.
  induction parts generalizing lead with
  | nil =>
    have htext : Layout.text ⟨lead, []⟩ = lead := by simp [Layout.text]
    rw [htext, split?_gaps_append h.lead, split?_cons_gap hg]
    simp [Layout.words]
  | cons part parts ih =>
    obtain ⟨w, gaps⟩ := part
    obtain ⟨hlead, hw, hapart, hrest⟩ := Layout.isSound_cons_iff.mp h
    have hends : IsPlain w → ∃ c others,
        Layout.text ⟨gaps, parts⟩ ++ g :: rest = c :: others ∧ isGap c = true := by
      intro hplain
      cases gaps with
      | nil =>
        obtain rfl := hapart hplain rfl
        exact ⟨g, rest, rfl, hg⟩
      | cons c gaps => exact ⟨c, _, rfl, hrest.lead c List.mem_cons_self⟩
    calc split? (Layout.text ⟨lead, (w, gaps) :: parts⟩ ++ g :: rest)
        = split? (w ++ (Layout.text ⟨gaps, parts⟩ ++ g :: rest)) := by
          rw [Layout.text_cons, List.append_assoc, split?_gaps_append hlead, List.append_assoc]
      _ = (split? (Layout.text ⟨gaps, parts⟩ ++ g :: rest)).map (w :: ·) :=
          split?_append_of_isWord hw hends
      _ = (split? rest).map (w :: Layout.words ⟨gaps, parts⟩ ++ ·) := by
          rw [ih gaps hrest, Option.map_map]
          rfl

theorem split?_append_gap (h : split? a = some ws) (hg : isGap g = true) (rest : Text) :
    split? (a ++ g :: rest) = (split? rest).map (ws ++ ·) := by
  obtain ⟨l, hsound, rfl, rfl⟩ := split?_eq_some_iff.mp h
  exact split?_text_append hsound hg rest

/-- What comes of a text that splits into these words where a gap joins it to another text, and of
the words where they are joined again. -/
structure Composes (a : Text) (ws : List Text) : Prop where
  append : ∀ g b more, isGap g = true → split b = .ok more → split (a ++ g :: b) = .ok (ws ++ more)
  refused : ∀ g b f, isGap g = true → split b = .error f →
    split (a ++ g :: b) = .error (.unbalancedQuotes (a ++ g :: b))
  rejoined : split (unsplit ws) = .ok ws

theorem composes_of_split (h : split a = .ok ws) : Composes a ws where
  append := by
    intro g b more hg hb
    rw [split_eq_ok_iff] at h hb ⊢
    rw [split?_append_gap h hg, hb]
    rfl
  refused := by
    intro g b f hg hb
    rw [split_eq_ok_iff] at h
    obtain ⟨hnone, _⟩ := split_eq_error_iff.mp hb
    rw [split_eq_error_iff, split?_append_gap h hg, hnone]
    exact ⟨rfl, rfl⟩
  rejoined := by
    rw [split_eq_ok_iff] at h ⊢
    exact split?_unsplit_of_split? h

/-- A quotation, a word right behind it that has a mark in it, and another quotation. -/
theorem quotations_compose :
    split (Text.of "\"a b\"c'd 'e'") = .ok [Text.of "\"a b\"", Text.of "c'd", Text.of "'e'"] ∧
      Composes (Text.of "\"a b\"c'd 'e'") [Text.of "\"a b\"", Text.of "c'd", Text.of "'e'"] := by
  have hsplit : split (Text.of "\"a b\"c'd 'e'") =
      .ok [Text.of "\"a b\"", Text.of "c'd", Text.of "'e'"] := by decide
  exact ⟨hsplit, composes_of_split hsplit⟩

end EntryPoints.Words
