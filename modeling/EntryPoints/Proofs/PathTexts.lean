import EntryPoints.Proofs.Decoding

/-!
Texts as paths, and paths as they are shown. A text has the pieces that its slashes make. A path
that is shown keeps its slashes and dots, so it stays absolute or relative and climbs as before
(`climbs_of_text`); but bytes that are no character leave the replacement character behind, and
only a text without one is sure to lead back to the path (`isText_of_not_mem`).
-/
namespace EntryPoints

namespace Text

theorem cut_append_of_not_mem {α : Type} [DecidableEq α] {mark : α} {a b first : List α}
    {others : List (List α)} (ha : mark ∉ a) (hb : cut mark b = first :: others) :
    cut mark (a ++ b) = (a ++ first) :: others := by
  have hcut : cut mark a = [] ++ [a] := cut_of_not_mem ha
  exact cut_glue hcut hb

namespace Utf8

variable {c : Char}

theorem low_mem_encodeChar_iff (hc : c.toNat < 0x80) {d : Char} :
    UInt8.ofNat c.toNat ∈ String.utf8EncodeChar d ↔ c = d := by
  by_cases hd : d.toNat < 0x80
  · rw [encodeChar_low hd, List.mem_singleton, ← UInt8.toNat_inj, toNat_byte (by omega),
      toNat_byte (by omega), Char.toNat_inj]
  · refine iff_of_false ?_ ?_
    · intro hmem
      have hhigh := high_of_mem_encodeChar (Nat.le_of_not_lt hd) hmem
      rw [toNat_byte (by omega)] at hhigh
      omega
    · rintro rfl
      exact hd hc

theorem cut_encode (hc : c.toNat < 0x80) (t : Text) :
    cut (UInt8.ofNat c.toNat) (encode t) = (cut c t).map encode := by
  induction t with
  | nil => rfl
  | cons d t ih =>
    obtain ⟨first, others, hcut⟩ := List.exists_cons_of_ne_nil (cut_ne_nil c t)
    rw [hcut] at ih
    by_cases hd : d = c
    · subst hd
      rw [encode_cons, encodeChar_low hc]
      simp [cut, hcut, ih]
      rfl
    · have hbyte : UInt8.ofNat c.toNat ∉ String.utf8EncodeChar d := by
        rw [low_mem_encodeChar_iff hc]
        exact Ne.symm hd
      rw [encode_cons, cut_append_of_not_mem hbyte ih]
      simp [cut, hcut, hd, encode_cons]

theorem cut_lenient (hc : c ≠ '\x00') (hlow : c.toNat < 0x40) (bytes : List UInt8) :
    cut c (lenient bytes) = (cut (UInt8.ofNat c.toNat) bytes).map lenient := by
  have hjoin : ∀ parts : List (List UInt8), lenient (join [UInt8.ofNat c.toNat] parts) =
      join [c] (parts.map lenient) := by
    intro parts
    induction parts with
    | nil => rfl
    | cons part parts ih =>
      cases parts with
      | nil => rfl
      | cons next parts =>
        rw [join_cons_cons, List.append_assoc, List.singleton_append,
          lenient_append_low (by omega), ih]
        simp [join_cons_cons]
  have hparts := cut_ne_nil (UInt8.ofNat c.toNat) bytes
  have hread := hjoin (cut (UInt8.ofNat c.toNat) bytes)
  rw [join_cut] at hread
  rw [hread, cut_join _ (by simpa using hparts)]
  intro part hpart
  obtain ⟨part, hmem, rfl⟩ := List.mem_map.mp hpart
  exact low_not_mem_lenient hc hlow (not_mem_of_mem_cut hmem)

end Utf8
end Text

namespace Path

variable {s t : Text} {p : Path}

theorem of_inj : of s = of t ↔ s = t := by
  refine ⟨fun h => ?_, congrArg of⟩
  rw [← text_of s, h, text_of]

theorem of_eq_nil_iff : of t = [] ↔ t = [] := of_inj (t := [])

theorem of_eq_dots_iff : of t = [dot, dot] ↔ t = ['.', '.'] := of_inj (t := ['.', '.'])

theorem pieces_of (t : Text) : pieces t = (Text.cut '/' t).map of :=
  Text.Utf8.cut_encode (c := '/') (by decide) t

theorem isAbsolute_of_not_mem (h : '/' ∉ t) : isAbsolute t = false := by
  cases t with
  | nil => rfl
  | cons c t =>
    have hc : '/' ≠ c := List.ne_of_not_mem_cons h
    simpa [isAbsolute_of] using hc.symm

theorem isText_of_not_mem (h : '\uFFFD' ∉ text p) : p.IsText := Text.Utf8.encode_lenient h

theorem text_eq_iff (h : '\uFFFD' ∉ t) : text p = t ↔ p = of t := by
  constructor
  · rintro rfl
    exact (isText_of_not_mem h).symm
  · rintro rfl
    exact text_of t

theorem isText_iff : p.IsText ↔ ∃ t, of t = p := by
  constructor
  · intro h
    exact ⟨text p, h⟩
  · rintro ⟨t, rfl⟩
    exact isText_of t

theorem isText_join {root : Path} (h : root.IsText) (t : Text) : (join root t).IsText := by
  obtain ⟨s, rfl⟩ := isText_iff.mp h
  unfold join
  split
  · exact isText_of t
  · split
    · exact isText_iff.mpr ⟨s ++ t, of_append s t⟩
    · exact isText_iff.mpr ⟨s ++ '/' :: t, of_append s ('/' :: t)⟩

theorem pieces_of_text (p : Path) :
    pieces (text p) = (pieces p).map fun piece => of (text piece) := by
  have hcut : Text.cut '/' (text p) = (pieces p).map text :=
    Text.Utf8.cut_lenient (by decide) (by decide) p
  rw [pieces_of, hcut, List.map_map]
  rfl

/-- A path is absolute if its first piece is empty and not the whole path. -/
theorem isAbsolute_iff : isAbsolute p = true ↔ ∃ next others, pieces p = [] :: next :: others := by
  cases p with
  | nil => simp [isAbsolute, pieces, Text.cut]
  | cons byte p =>
    obtain ⟨first, others, hcut⟩ := List.exists_cons_of_ne_nil (Text.cut_ne_nil slash p)
    by_cases hbyte : byte = slash <;> simp [isAbsolute, pieces, Text.cut, hbyte, hcut]

theorem of_text_eq_nil_iff : of (text p) = [] ↔ p = [] := by
  rw [of_eq_nil_iff, text_eq_iff List.not_mem_nil]
  rfl

theorem isAbsolute_of_text (p : Path) : isAbsolute (text p) = isAbsolute p := by
  rw [Bool.eq_iff_iff, isAbsolute_iff, isAbsolute_iff, pieces_of_text]
  constructor
  · rintro ⟨next, others, h⟩
    obtain ⟨first, rest, hpieces, hfirst, hrest⟩ := List.map_eq_cons_iff.mp h
    obtain ⟨second, more, rfl, _, _⟩ := List.map_eq_cons_iff.mp hrest
    obtain rfl := of_text_eq_nil_iff.mp hfirst
    exact ⟨second, more, hpieces⟩
  · rintro ⟨next, others, h⟩
    rw [h]
    exact ⟨_, _, rfl⟩

theorem climbs_of_text (p : Path) : climbs (text p) = climbs p := by
  have hdots : ∀ piece, of (text piece) = [dot, dot] ↔ piece = [dot, dot] := by
    intro piece
    rw [of_eq_dots_iff, text_eq_iff (by decide)]
    rfl
  rw [climbs, climbs, pieces_of_text, Bool.eq_iff_iff, List.contains_iff_mem, List.contains_iff_mem,
    List.mem_map]
  constructor
  · rintro ⟨piece, hpiece, hclimbs⟩
    exact (hdots piece).mp hclimbs ▸ hpiece
  · intro hmem
    exact ⟨_, hmem, (hdots _).mpr rfl⟩

end Path
end EntryPoints
